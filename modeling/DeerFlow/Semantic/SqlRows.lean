import DeerFlow.Lib.NumberedName
import DeerFlow.Semantic.SqlScope

/-! Which rows an accepted query reads. A reference to a scoped table is to be
the single source of a generated subquery that keeps the caller's resources
only. The guard replaces the tables it has collected one after another, and a
table inside another one drops out of the statement with it. -/

namespace DeerFlow.Semantic
open RoseTree

def isTable : SqlKind → Bool
  | .table .. => true
  | _ => false

/-- Nothing is joined to a table reference, and no other table is inside it. -/
def StandsAlone (n : SqlNode) : Prop :=
  ∀ c ∈ n.children, isJoined c.label = false ∧ ∀ l ∈ c.walk, isTable l.focus.label = false

instance (n : SqlNode) : Decidable (StandsAlone n) :=
  inferInstanceAs (Decidable (∀ c ∈ n.children, isJoined c.label = false ∧
    ∀ l ∈ c.walk, isTable l.focus.label = false))

section Rows
variable (E : SqlEnv)

/-- `t`, at the path `p` of the tree, is the single source of a generated subquery
`(SELECT * FROM t WHERE column IN (names)) AS aliasName`, and the names are bound to the caller's
resources in the dimension of the table's policy. -/
def ScopedAt (authorization : AuthorizationContext) (out : ScopedQuery)
    (policy : TableScopePolicy) (p : NodePath) (t : SqlNode) : Prop :=
  StandsAlone t ∧ ∃ q aliasName names, ∃ dimension ∈ policy.scopeDimension,
    ∃ column ∈ policy.scopeColumn,
      p = q ++ [0, 1, 0] ∧
      out.sql.get? q = some (scopedSource (inPredicate column names) aliasName t) ∧
      names.map out.parameters.get = (resourceIds authorization dimension).map some

/-- Every reference to a scoped table in the emitted tree is scoped. -/
def SqlEnv.RowsScoped (registry : SqlScopePolicyRegistry) (authorization : AuthorizationContext)
    (out : ScopedQuery) : Prop :=
  ∀ l ∈ out.sql.walk, ∀ policy ∈ E.policyAt registry l.focus, policy.access = .scoped →
    ScopedAt authorization out policy l.path l.focus

/-- Every reference to a scoped table in the parsed statement stands alone. -/
def SqlEnv.ScopedTablesStandAlone (registry : SqlScopePolicyRegistry) (statement : SqlNode) :
    Prop :=
  ∀ l ∈ statement.walk, ∀ policy ∈ E.policyAt registry l.focus, policy.access = .scoped →
    StandsAlone l.focus

instance (registry : SqlScopePolicyRegistry) (statement : SqlNode) :
    Decidable (E.ScopedTablesStandAlone registry statement) :=
  inferInstanceAs (Decidable (∀ l ∈ statement.walk, ∀ policy ∈ E.policyAt registry l.focus,
    policy.access = .scoped → StandsAlone l.focus))

end Rows

section Parameters
variable {stem : String} {values : List String}

theorem mem_parametersOf {item : String × String} (h : item ∈ parametersOf stem values) :
    ∃ j : Nat, item.1 = stem ++ "_" ++ toString j := by
  obtain ⟨x, -, rfl⟩ := List.mem_map.mp h
  exact ⟨x.2, rfl⟩

theorem values_parametersOf : (parametersOf stem values).map Prod.snd = values := by
  rw [parametersOf, List.map_map]
  exact List.zipIdx_map_fst 0 values

theorem nodup_keys_parametersOf (i : Nat) (values : List String) :
    (parametersOf ("scope_" ++ toString i) values).keys.Nodup := by
  have hidx : (values.zipIdx.map Prod.snd).Nodup := by
    rw [List.zipIdx_map_snd]
    exact List.nodup_range'
  rw [parametersOf, Dict.keys, List.map_map]
  refine List.pairwise_map.mpr ((List.pairwise_map.mp hidx).imp fun hne heq => hne ?_)
  exact (numberedName_injective heq).2

theorem get_update_parametersOf {d : Dict String} {i : Nat} {item : String × String}
    (h : item ∈ parametersOf ("scope_" ++ toString i) values) :
    (d.update (parametersOf ("scope_" ++ toString i) values)).get item.1 = some item.2 := by
  rw [Dict.get_update, Dict.get_of_mem (nodup_keys_parametersOf i values) h, Option.some_or]

theorem get_update_parametersOf_ne {d : Dict String} {i j : Nat} {values' : List String}
    {item : String × String} (h : item ∈ parametersOf ("scope_" ++ toString j) values')
    (hne : j ≠ i) :
    (d.update (parametersOf ("scope_" ++ toString i) values)).get item.1 = d.get item.1 := by
  have hnot : item.1 ∉ (parametersOf ("scope_" ++ toString i) values).keys := by
    intro hmem
    obtain ⟨item', hitem', heq⟩ := List.mem_map.mp hmem
    obtain ⟨k, hk⟩ := mem_parametersOf h
    obtain ⟨k', hk'⟩ := mem_parametersOf hitem'
    rw [hk, hk'] at heq
    exact hne (numberedName_injective heq).1.symm
  rw [Dict.mem_keys, Bool.not_eq_true, Option.isSome_eq_false_iff, Option.isNone_iff_eq_none] at hnot
  rw [Dict.get_update, hnot, Option.none_or]

end Parameters

section Loop
variable {authorization : AuthorizationContext} {s s' : Scoping}
  {x : (TableNode × TableScopePolicy) × Nat}

/-- The parameters of the table number `x.2`. -/
def scopeParameters (authorization : AuthorizationContext) (dimension : String)
    (x : (TableNode × TableScopePolicy) × Nat) : Dict String :=
  parametersOf ("scope_" ++ toString x.2) (resourceIds authorization dimension)

/-- What is put in the place of the table number `x.2`. -/
def scopedBy (authorization : AuthorizationContext) (dimension column : String)
    (x : (TableNode × TableScopePolicy) × Nat) : SqlNode → SqlNode :=
  scopedSource (inPredicate column (scopeParameters authorization dimension x).keys)
    x.1.1.aliasOrName

theorem scopeValues_eq_ok (hm : authorization.scopeMode = .resourceSet) {dimension : String}
    {values : List String} (h : scopeValues authorization dimension = .ok values) :
    values = resourceIds authorization dimension := by
  unfold scopeValues at h
  simp only [hm] at h
  split_ifs at h
  exact (Except.ok.inj h).symm

/-- A table is left alone unless it is scoped; else it is replaced and its parameters are added. -/
theorem scopeTable_eq_ok (hm : authorization.scopeMode = .resourceSet)
    (h : scopeTable authorization s x = .ok s') :
    (x.1.2.access ≠ .scoped ∧ s' = s) ∨
    (x.1.2.access = .scoped ∧ ∃ dimension ∈ x.1.2.scopeDimension,
      ∃ column ∈ x.1.2.scopeColumn,
        (s'.statement, s'.replaced) = replaceNode (scopedBy authorization dimension column x)
          x.1.1.path (s.statement, s.replaced) ∧
        s'.parameters = s.parameters.update (scopeParameters authorization dimension x)) := by
  obtain ⟨⟨table, policy⟩, index⟩ := x
  unfold scopeTable at h
  simp only [hm, reduceCtorEq, or_false] at h
  split_ifs at h with hacc
  · exact .inl ⟨hacc, (Except.ok.inj h).symm⟩
  · split at h
    · next dimension column hdim hcol =>
      obtain ⟨values, hvalues, h⟩ := bind_eq_ok.mp h
      obtain rfl := scopeValues_eq_ok hm hvalues
      cases h
      exact .inr ⟨not_not.mp hacc, dimension, hdim, column, hcol, rfl, rfl⟩
    · cases h

/-- After the tables `done`: the tree is the statement with `σ` applied top down, `σ` replaces the
scoped tables among them, and their parameters are bound. -/
structure ScopedSoFar (authorization : AuthorizationContext) (statement : SqlNode)
    (done : List ((TableNode × TableScopePolicy) × Nat)) (s : Scoping)
    (σ : Rewriting SqlKind) : Prop where
  tree : s.statement = rewrite σ [] statement
  replaced : ∀ q, q ∈ s.replaced ↔ (σ q).isSome
  complete : ∀ x ∈ done, x.1.2.access = .scoped → (σ x.1.1.path).isSome
  sound : ∀ q f, σ q = some f → ∃ x ∈ done, x.1.2.access = .scoped ∧ x.1.1.path = q ∧
    ∃ dimension ∈ x.1.2.scopeDimension, ∃ column ∈ x.1.2.scopeColumn,
      f = scopedBy authorization dimension column x
  bound : ∀ x ∈ done, x.1.2.access = .scoped → ∀ dimension ∈ x.1.2.scopeDimension,
    ∀ item ∈ scopeParameters authorization dimension x, s.parameters.get item.1 = some item.2

theorem ScopedSoFar.init (statement : SqlNode) :
    ScopedSoFar authorization statement [] ⟨statement, [], [], 0⟩ fun _ => none where
  tree := (rewrite_eq_self fun _ _ => rfl).symm
  replaced := by simp
  complete := List.forall_mem_nil _
  sound := nofun
  bound := List.forall_mem_nil _

theorem ScopedSoFar.step {statement : SqlNode} {done : List ((TableNode × TableScopePolicy) × Nat)}
    {σ : Rewriting SqlKind} (hs : ScopedSoFar authorization statement done s σ)
    (hm : authorization.scopeMode = .resourceSet)
    (hnew : ∀ y ∈ done, y.2 ≠ x.2 ∧ ¬ x.1.1.path <+: y.1.1.path)
    (h : scopeTable authorization s x = .ok s') :
    ∃ σ, ScopedSoFar authorization statement (done ++ [x]) s' σ := by
  rcases scopeTable_eq_ok hm h with ⟨hacc, rfl⟩ | ⟨hacc, dimension, hdim, column, hcol, hrep, hpar⟩
  · refine ⟨σ, hs.tree, hs.replaced, ?_, fun q f hf => ?_, ?_⟩
    · simp only [List.forall_mem_append, List.forall_mem_singleton]
      exact ⟨hs.complete, fun h => absurd h hacc⟩
    · obtain ⟨y, hy, hrest⟩ := hs.sound q f hf
      exact ⟨y, List.mem_append_left _ hy, hrest⟩
    · simp only [List.forall_mem_append, List.forall_mem_singleton]
      exact ⟨hs.bound, fun h => absurd h hacc⟩
  · have hafter : ∀ q ∈ s.replaced, ¬ x.1.1.path <+: q := by
      intro q hq
      obtain ⟨f, hf⟩ := Option.isSome_iff_exists.mp ((hs.replaced q).mp hq)
      obtain ⟨y, hy, -, rfl, -⟩ := hs.sound q f hf
      exact (hnew y hy).2
    rw [hs.tree, replaceNode_rewrite hs.replaced hafter, Prod.mk.injEq] at hrep
    refine ⟨Function.update σ x.1.1.path (some (scopedBy authorization dimension column x)),
      hrep.1, fun q => ?_, ?_, fun q f hf => ?_, ?_⟩
    · rw [hrep.2, List.mem_cons, hs.replaced]
      by_cases hq : q = x.1.1.path
      · subst hq
        simp
      · rw [Function.update_of_ne hq]
        simp [hq]
    · simp only [List.forall_mem_append, List.forall_mem_singleton]
      refine ⟨fun y hy hacc' => ?_, fun _ => by simp⟩
      by_cases hq : y.1.1.path = x.1.1.path
      · simp [hq]
      · rw [Function.update_of_ne hq]
        exact hs.complete y hy hacc'
    · by_cases hq : q = x.1.1.path
      · subst hq
        rw [Function.update_self] at hf
        exact ⟨x, by simp, hacc, rfl, dimension, hdim, column, hcol, (Option.some.inj hf).symm⟩
      · rw [Function.update_of_ne hq] at hf
        obtain ⟨y, hy, hrest⟩ := hs.sound q f hf
        exact ⟨y, List.mem_append_left _ hy, hrest⟩
    · simp only [List.forall_mem_append, List.forall_mem_singleton]
      refine ⟨fun y hy hacc' dim hdim' item hitem => ?_, fun _ dim hdim' item hitem => ?_⟩
      · rw [hpar, scopeParameters, get_update_parametersOf_ne hitem (hnew y hy).1]
        exact hs.bound y hy hacc' dim hdim' item hitem
      · obtain rfl : dim = dimension := Option.some.inj (hdim'.symm.trans hdim)
        rw [hpar]
        exact get_update_parametersOf hitem

end Loop

section Emitted
variable {E : SqlEnv} {authorization : AuthorizationContext} {allowedDatabases : List String}
  {registry : SqlScopePolicyRegistry} {limit : Int} {statement : SqlNode}
  {tables : List (TableNode × TableScopePolicy)} {scoping : Scoping} {out : ScopedQuery}

theorem path_of_tableNode {l : SqlLoc} {t : TableNode} (h : tableNode? l = some t) :
    t.path = l.path ∧ l.focus.label = .table t.name t.db t.aliasName := by
  unfold tableNode? at h
  split at h
  · next hlabel =>
    cases h
    exact ⟨rfl, hlabel⟩
  · cases h

/-- The tables are numbered, and a table comes before those inside it. -/
theorem SqlEnv.Accepts.pairwise_zipIdx
    (h : E.Accepts authorization allowedDatabases registry limit statement tables scoping out) :
    tables.zipIdx.Pairwise fun a b => a.2 ≠ b.2 ∧ ¬ b.1.1.path <+: a.1.1.path := by
  have hnodes : (E.tableNodes statement).Pairwise fun a b => ¬ b.path <+: a.path := by
    refine List.Pairwise.filter _ (List.pairwise_filterMap.mpr ?_)
    refine (pairwise_walk statement).imp fun {l m} hlm t ht u hu => ?_
    rwa [(path_of_tableNode ht).1, (path_of_tableNode hu).1]
  rw [← h.fst_eq_tableNodes, List.pairwise_map] at hnodes
  have hidx : (tables.zipIdx.map Prod.snd).Pairwise (· ≠ ·) := by
    rw [List.zipIdx_map_snd]
    exact List.nodup_range'
  rw [← List.zipIdx_map_fst 0 tables, List.pairwise_map] at hnodes
  exact (List.pairwise_map.mp hidx).and hnodes

theorem SqlEnv.Accepts.scopedSoFar
    (h : E.Accepts authorization allowedDatabases registry limit statement tables scoping out)
    (hm : authorization.scopeMode = .resourceSet) :
    ∃ σ, ScopedSoFar authorization statement tables.zipIdx scoping σ := by
  refine foldlM_invariant (motive := fun done s => ∃ σ, ScopedSoFar authorization statement done s σ)
    ⟨_, ScopedSoFar.init statement⟩ ?_ h.rewritten
  rintro done x s s' hpre ⟨σ, hs⟩ hstep
  have hpair := h.pairwise_zipIdx.sublist hpre.sublist
  have hnew := (List.pairwise_append.mp hpair).2.2
  exact hs.step hm (fun y hy => hnew y hy x (List.mem_singleton_self x)) hstep

theorem clampLimit_cases (bound : Nat) (k : SqlKind) :
    clampLimit bound k = k ∨ ∃ m n, k = .limit (some m) ∧ clampLimit bound k = .limit (some n) := by
  unfold clampLimit
  split
  · exact .inr ⟨_, _, rfl, rfl⟩
  · exact .inl rfl

theorem isTable_clampLimit (bound : Nat) (k : SqlKind) :
    isTable (clampLimit bound k) = isTable k := by
  rcases clampLimit_cases bound k with h | ⟨m, n, rfl, h⟩
  · rw [h]
  · rw [h]
    rfl

theorem isJoined_clampLimit (bound : Nat) (k : SqlKind) :
    isJoined (clampLimit bound k) = isJoined k := by
  rcases clampLimit_cases bound k with h | ⟨m, n, rfl, h⟩
  · rw [h]
  · rw [h]
    rfl

theorem policyAt_map_clampLimit (bound : Nat) (n : SqlNode) :
    E.policyAt registry (n.map (clampLimit bound)) = E.policyAt registry n := by
  unfold SqlEnv.policyAt
  rw [label_map]
  rcases clampLimit_cases bound n.label with h | ⟨m, m', hn, h⟩
  · rw [h]
  · rw [h, hn]

theorem policyAt_withoutAlias (n : SqlNode) :
    E.policyAt registry (withoutAlias n) = E.policyAt registry n := by
  unfold SqlEnv.policyAt withoutAlias
  rw [label]
  cases n.label with
  | table name db aliasName | _ => rfl

theorem standsAlone_iff {n : SqlNode} : StandsAlone n ↔
    ∀ c ∈ n.children, isJoined c.label = false ∧ ∀ p t, c.get? p = some t → isTable t.label = false :=
  forall_congr' fun _ => forall_congr' fun _ => and_congr Iff.rfl
    (forall_mem_walk (motive := fun t => isTable t.label = false))

theorem standsAlone_withoutAlias {n : SqlNode} : StandsAlone (withoutAlias n) ↔ StandsAlone n :=
  Iff.rfl

theorem standsAlone_map_clampLimit {bound : Nat} {n : SqlNode} :
    StandsAlone (n.map (clampLimit bound)) ↔ StandsAlone n := by
  simp only [standsAlone_iff, children_map, List.forall_mem_map, label_map, isJoined_clampLimit,
    get?_map, Option.map_eq_some_iff]
  refine forall_congr' fun c => forall_congr' fun _ => and_congr Iff.rfl ?_
  constructor
  · intro h p t ht
    have := h p _ ⟨t, ht, rfl⟩
    rwa [label_map, isTable_clampLimit] at this
  · rintro h p _ ⟨t, ht, rfl⟩
    rw [label_map, isTable_clampLimit]
    exact h p t ht

theorem eq_nil_of_standsAlone {n t : SqlNode} {p : NodePath} (h : StandsAlone n)
    (ht : n.get? p = some t) (htable : isTable t.label = true) : p = [] := by
  cases p with
  | nil => rfl
  | cons i p =>
    rw [get?_cons] at ht
    obtain ⟨c, hc, ht⟩ := Option.bind_eq_some_iff.mp ht
    have := (standsAlone_iff.mp h c (List.mem_of_getElem? hc)).2 p t ht
    rw [htable] at this
    cases this

theorem isTable_of_policyAt {n : SqlNode} {policy : TableScopePolicy}
    (h : E.policyAt registry n = some policy) : isTable n.label = true := by
  unfold SqlEnv.policyAt at h
  split at h
  · next hlabel => rw [hlabel, isTable]
  · cases h

theorem isTable_of_isQuery {k : SqlKind} (h : k.isQuery = true) : isTable k = false := by
  cases k with
  | table name db aliasName => cases h
  | _ => rfl

theorem withoutAlias_withoutAlias (n : SqlNode) :
    withoutAlias (withoutAlias n) = withoutAlias n := by
  obtain ⟨k, cs⟩ := n
  cases k with
  | table name db aliasName | _ => rfl

theorem dropAlias_clampLimit (bound : Nat) (k : SqlKind) :
    dropAlias (clampLimit bound k) = clampLimit bound (dropAlias k) := by
  cases k with
  | limit count =>
    cases count with
    | none | some n => rfl
  | _ => rfl

theorem withoutAlias_map_clampLimit (bound : Nat) (n : SqlNode) :
    (withoutAlias n).map (clampLimit bound) = withoutAlias (n.map (clampLimit bound)) := by
  unfold withoutAlias
  rw [label_map, children_map, RoseTree.map, mapForest_eq_map, dropAlias_clampLimit]

theorem inPredicate_map_clampLimit (bound : Nat) (column : String) (names : List String) :
    (inPredicate column names).map (clampLimit bound) = inPredicate column names := by
  unfold inPredicate
  rw [RoseTree.map, mapForest_eq_map, List.map_cons, List.map_map]
  rfl

theorem scopedSource_map_clampLimit (bound : Nat) (column aliasName : String)
    (names : List String) (n : SqlNode) :
    (scopedSource (inPredicate column names) aliasName n).map (clampLimit bound) =
      scopedSource (inPredicate column names) aliasName (n.map (clampLimit bound)) := by
  unfold scopedSource
  simp only [RoseTree.map, mapForest, withoutAlias_map_clampLimit, inPredicate_map_clampLimit]
  rfl

theorem isTable_inPredicate {column : String} {names : List String} {p : NodePath} {t : SqlNode}
    (h : (inPredicate column names).get? p = some t) : isTable t.label = false := by
  have hleaf : ∀ c ∈ (inPredicate column names).children, isTable c.label = false ∧
      c.children = [] := by
    simp [inPredicate, children, label, isTable]
  cases p with
  | nil =>
    cases h
    rfl
  | cons i p =>
    rw [get?_cons] at h
    obtain ⟨c, hc, h⟩ := Option.bind_eq_some_iff.mp h
    obtain ⟨hlabel, hnil⟩ := hleaf c (List.mem_of_getElem? hc)
    cases p with
    | nil => exact Option.some.inj h ▸ hlabel
    | cons j p =>
      rw [get?_cons, hnil] at h
      cases h

theorem table_of_scopedSource {column aliasName : String} {names : List String} {n t : SqlNode}
    {p : NodePath} (h : (scopedSource (inPredicate column names) aliasName n).get? p = some t)
    (ht : isTable t.label = true) : ∃ p', p = [0, 1, 0] ++ p' ∧ (withoutAlias n).get? p' = some t := by
  match p with
  | [] | [0] | [0, 0] | [0, 1] | [0, 2] =>
    cases h
    cases ht
  | 0 :: 1 :: 0 :: p => exact ⟨p, rfl, h⟩
  | 0 :: 2 :: 0 :: p =>
    rw [isTable_inPredicate (p := p) h] at ht
    cases ht
  | (i + 1) :: p => cases h
  | 0 :: (i + 3) :: p => cases h
  | 0 :: 0 :: i :: p => cases h
  | 0 :: 1 :: (i + 1) :: p => cases h
  | 0 :: 2 :: (i + 1) :: p => cases h

theorem get?_addLimit {bound : Nat} {t n : SqlNode} {i : Nat} {p : NodePath}
    (h : t.get? (i :: p) = some n) : (addLimit bound t).get? (i :: p) = some n := by
  unfold addLimit
  split_ifs
  · exact h
  · rw [get?_cons] at h ⊢
    obtain ⟨c, hc, h⟩ := Option.bind_eq_some_iff.mp h
    have hi : i < t.children.length := (List.getElem?_eq_some_iff.mp hc).1
    rw [children, List.getElem?_append_left hi]
    exact Option.bind_eq_some_iff.mpr ⟨c, hc, h⟩

theorem table_of_addLimit {bound : Nat} {t n : SqlNode} {p : NodePath}
    (h : (addLimit bound t).get? p = some n) (hn : isTable n.label = true)
    (ht : isTable t.label = false) : p ≠ [] ∧ t.get? p = some n := by
  unfold addLimit at h
  split_ifs at h
  · refine ⟨?_, h⟩
    rintro rfl
    cases h
    rw [ht] at hn
    cases hn
  · match p with
    | [] =>
      cases h
      rw [label, ht] at hn
      cases hn
    | i :: p =>
      rw [get?_cons] at h ⊢
      obtain ⟨c, hc, h⟩ := Option.bind_eq_some_iff.mp h
      rw [children, List.getElem?_append] at hc
      split_ifs at hc with hi
      · exact ⟨List.cons_ne_nil i p, Option.bind_eq_some_iff.mpr ⟨c, hc, h⟩⟩
      · -- the new limit, which is a leaf
        obtain rfl := List.mem_singleton.mp (List.mem_of_getElem? hc)
        cases p with
        | nil =>
          cases h
          cases hn
        | cons j p => cases h

theorem boundRows_eq_ok {sql : SqlNode} (h : boundRows limit statement = .ok sql) :
    sql = addLimit (boundedLimit limit) (statement.map (clampLimit (boundedLimit limit))) := by
  obtain ⟨-, -, h⟩ := bind_eq_ok.mp h
  obtain ⟨-, -, h⟩ := bind_eq_ok.mp h
  exact (Except.ok.inj h).symm

section Accepted
variable (h : E.Accepts authorization allowedDatabases registry limit statement tables scoping out)
include h

theorem SqlEnv.Accepts.node_of_table {x : (TableNode × TableScopePolicy) × Nat}
    (hx : x ∈ tables.zipIdx) :
    ∃ t, statement.get? x.1.1.path = some t ∧ E.policyAt registry t = some x.1.2 := by
  have hmem : x.1 ∈ tables := (List.mem_zipIdx' hx).2 ▸ List.getElem_mem _
  have hnode : x.1.1 ∈ E.tableNodes statement :=
    h.fst_eq_tableNodes ▸ List.mem_map_of_mem hmem
  obtain ⟨l, hl, ht⟩ := List.mem_filterMap.mp (List.mem_filter.mp hnode).1
  obtain ⟨hpath, hlabel⟩ := path_of_tableNode ht
  refine ⟨l.focus, hpath ▸ get?_of_mem_walk hl, ?_⟩
  rw [SqlEnv.policyAt, hlabel]
  exact (h.table_checked hmem).1

theorem SqlEnv.Accepts.table_of_node {p : NodePath} {t : SqlNode} {policy : TableScopePolicy}
    (ht : statement.get? p = some t) (hpolicy : E.policyAt registry t = some policy) :
    ∃ x ∈ tables.zipIdx, x.1.1.path = p ∧ x.1.2 = policy := by
  obtain ⟨l, hl, rfl, rfl⟩ := exists_mem_walk ht
  unfold SqlEnv.policyAt at hpolicy
  split at hpolicy
  · next name db aliasName hlabel =>
    have hnode : tableNode? l = some ⟨l.path, name, db, aliasName⟩ := by
      rw [tableNode?, hlabel]
    have hcte : E.lower name ∉ E.cteNames statement := by
      intro hmem
      rw [h.unshadowed _ hmem] at hpolicy
      cases hpolicy
    obtain ⟨policy', hx⟩ := h.exists_table hl hnode (.inr hcte)
    obtain ⟨i, hi⟩ := List.mem_iff_getElem?.mp hx
    refine ⟨_, List.mk_mem_zipIdx_iff_getElem?.mpr hi, rfl, ?_⟩
    exact Option.some.inj ((h.table_checked hx).1.symm.trans hpolicy)
  · cases hpolicy

variable {σ : Rewriting SqlKind}
  (hσ : ScopedSoFar authorization statement tables.zipIdx scoping σ)
include hσ

/-- What `σ` replaces: scoped tables of the statement. -/
theorem SqlEnv.Accepts.replaced {q : NodePath} {f : SqlNode → SqlNode} (hf : σ q = some f) :
    ∃ x ∈ tables.zipIdx, x.1.2.access = .scoped ∧ ∃ t, statement.get? q = some t ∧
      E.policyAt registry t = some x.1.2 ∧
      ∃ dimension ∈ x.1.2.scopeDimension, ∃ column ∈ x.1.2.scopeColumn,
        f = scopedBy authorization dimension column x := by
  obtain ⟨x, hx, hacc, rfl, hby⟩ := hσ.sound q f hf
  obtain ⟨t, ht, hpolicy⟩ := h.node_of_table hx
  exact ⟨x, hx, hacc, t, ht, hpolicy, hby⟩

theorem SqlEnv.Accepts.root_not_replaced : σ [] = none := by
  by_contra hne
  obtain ⟨f, hf⟩ := Option.ne_none_iff_exists'.mp hne
  obtain ⟨x, -, -, t, ht, hpolicy, -⟩ := h.replaced hσ hf
  cases ht
  have htable := isTable_of_policyAt hpolicy
  rw [isTable_of_isQuery h.query] at htable
  cases htable

/-- The emitted tree below its root: the statement with `σ` applied, and its limits clamped. -/
theorem SqlEnv.Accepts.get?_sql {i : Nat} {p : NodePath} {n : SqlNode}
    (hn : (rewrite σ [] statement).get? (i :: p) = some n) :
    out.sql.get? (i :: p) = some (n.map (clampLimit (boundedLimit limit))) := by
  rw [boundRows_eq_ok h.bounded, hσ.tree]
  exact get?_addLimit (by rw [get?_map, hn, Option.map_some])

theorem SqlEnv.Accepts.table_of_sql {p : NodePath} {n : SqlNode} (hn : out.sql.get? p = some n)
    (htable : isTable n.label = true) :
    ∃ t, (rewrite σ [] statement).get? p = some t ∧
      n = t.map (clampLimit (boundedLimit limit)) := by
  rw [boundRows_eq_ok h.bounded, hσ.tree] at hn
  have hroot : isTable (label ((rewrite σ [] statement).map
      (clampLimit (boundedLimit limit)))) = false := by
    rw [label_map, isTable_clampLimit, rewrite_none (h.root_not_replaced hσ), label]
    exact isTable_of_isQuery h.query
  obtain ⟨-, hn⟩ := table_of_addLimit hn htable hroot
  rw [get?_map] at hn
  obtain ⟨t, ht, rfl⟩ := Option.map_eq_some_iff.mp hn
  exact ⟨t, ht, rfl⟩

/-- The first replaced table on the way to a path, and what stands in its place. -/
theorem SqlEnv.Accepts.first_replaced {q p : NodePath} (hq : (σ q).isSome) (hpre : q <+: p) :
    ∃ x ∈ tables.zipIdx, x.1.2.access = .scoped ∧ ∃ i q t,
      i :: q <+: p ∧ statement.get? (i :: q) = some t ∧ E.policyAt registry t = some x.1.2 ∧
      ∃ dimension ∈ x.1.2.scopeDimension, ∃ column ∈ x.1.2.scopeColumn,
        (rewrite σ [] statement).get? (i :: q) =
          some (scopedBy authorization dimension column x t) := by
  obtain ⟨q, hpre, hq, hfirst⟩ := exists_first_replaced hq hpre
  obtain ⟨f, hf⟩ := Option.isSome_iff_exists.mp hq
  obtain ⟨x, hx, hacc, t, ht, hpolicy, dimension, hdim, column, hcol, rfl⟩ := h.replaced hσ hf
  cases q with
  | nil =>
    rw [h.root_not_replaced hσ] at hf
    cases hf
  | cons i q =>
    refine ⟨x, hx, hacc, i, q, t, hpre, ht, hpolicy, dimension, hdim, column, hcol, ?_⟩
    rw [get?_rewrite (by simpa using hfirst), ht, Option.map_some, List.nil_append,
      rewrite_some hf]

/-- A table of the rewritten statement is inside a replaced one, or a node of the statement that
is not scoped. -/
theorem SqlEnv.Accepts.not_scoped_of_not_replaced {p : NodePath} {t : SqlNode}
    (hnone : ∀ q, q <+: p → σ q = none) (ht : (rewrite σ [] statement).get? p = some t)
    {policy : TableScopePolicy} (hpolicy : E.policyAt registry t = some policy) :
    policy.access ≠ .scoped := by
  intro hacc
  rw [get?_rewrite (fun q hq _ => hnone q hq), List.nil_append] at ht
  obtain ⟨t, hget, rfl⟩ := Option.map_eq_some_iff.mp ht
  rw [SqlEnv.policyAt, rewrite_none (hnone p List.prefix_rfl), label] at hpolicy
  obtain ⟨x, hx, rfl, rfl⟩ := h.table_of_node hget hpolicy
  have hsome := hσ.complete x hx hacc
  rw [hnone _ List.prefix_rfl] at hsome
  cases hsome

theorem SqlEnv.Accepts.map_get_parameters {x : (TableNode × TableScopePolicy) × Nat}
    (hx : x ∈ tables.zipIdx) (hacc : x.1.2.access = .scoped) {dimension : String}
    (hdim : dimension ∈ x.1.2.scopeDimension) :
    (scopeParameters authorization dimension x).keys.map out.parameters.get =
      (resourceIds authorization dimension).map some := by
  have hvalues : (scopeParameters authorization dimension x).map Prod.snd =
      resourceIds authorization dimension := values_parametersOf
  rw [h.parameters, Dict.keys, ← hvalues, List.map_map, List.map_map]
  exact List.map_congr_left (hσ.bound x hx hacc dimension hdim)

theorem SqlEnv.Accepts.rowsScoped (halone : E.ScopedTablesStandAlone registry statement) :
    E.RowsScoped registry authorization out := by
  intro l hl policy hpolicy hacc
  obtain ⟨t, ht, hfocus⟩ :=
    h.table_of_sql hσ (get?_of_mem_walk hl) (isTable_of_policyAt hpolicy)
  rw [hfocus, policyAt_map_clampLimit] at hpolicy
  by_cases hhit : ∃ q, q <+: l.path ∧ (σ q).isSome
  · obtain ⟨q, hpre, hq⟩ := hhit
    obtain ⟨x, hx, hxacc, i, q, t₀, ⟨s, hs⟩, ht₀, hxpolicy, dimension, hdim, column, hcol, hget⟩ :=
      h.first_replaced hσ hq hpre
    obtain ⟨l₀, hl₀, -, rfl⟩ := exists_mem_walk ht₀
    have hsource : StandsAlone l₀.focus := halone l₀ hl₀ _ hxpolicy hxacc
    rw [← hs, get?_append, hget] at ht
    obtain ⟨s, rfl, ht⟩ := table_of_scopedSource ht (isTable_of_policyAt hpolicy)
    obtain rfl := eq_nil_of_standsAlone (standsAlone_withoutAlias.mpr hsource) ht
      (isTable_of_policyAt hpolicy)
    cases ht
    rw [policyAt_withoutAlias] at hpolicy
    obtain rfl := Option.some.inj (hxpolicy.symm.trans hpolicy)
    rw [hfocus]
    refine ⟨standsAlone_map_clampLimit.mpr (standsAlone_withoutAlias.mpr hsource), i :: q,
      x.1.1.aliasOrName, _, dimension, hdim, column, hcol, hs.symm, ?_,
      h.map_get_parameters hσ hx hxacc hdim⟩
    rw [h.get?_sql hσ hget, scopedBy, scopedSource_map_clampLimit, withoutAlias_map_clampLimit,
      scopedSource, scopedSource, withoutAlias_withoutAlias]
  · -- nothing above it has been replaced, so it would have been
    have hnone : ∀ q, q <+: l.path → σ q = none := by
      intro q hq
      by_contra hne
      exact hhit ⟨q, hq, Option.isSome_iff_ne_none.mpr hne⟩
    exact absurd hacc (h.not_scoped_of_not_replaced hσ hnone ht hpolicy)

theorem SqlEnv.Accepts.scopedTablesStandAlone (hrows : E.RowsScoped registry authorization out) :
    E.ScopedTablesStandAlone registry statement := by
  intro l hl policy hpolicy hacc
  obtain ⟨y, hy, hpath, rfl⟩ := h.table_of_node (get?_of_mem_walk hl) hpolicy
  obtain ⟨x, hx, hxacc, i, q, t₀, ⟨s, hs⟩, ht₀, hxpolicy, dimension, hdim, column, hcol, hget⟩ :=
    h.first_replaced hσ (hpath ▸ hσ.complete y hy hacc) List.prefix_rfl
  -- the copy of the topmost table is in the emitted tree
  have hcopy : (rewrite σ [] statement).get? (i :: (q ++ [0, 1, 0])) =
      some (withoutAlias t₀) := by
    rw [← List.cons_append, get?_append, hget]
    rfl
  obtain ⟨l', hl', -, hfocus⟩ := exists_mem_walk (h.get?_sql hσ hcopy)
  have hpolicy' : E.policyAt registry l'.focus = some x.1.2 := by
    rw [hfocus, policyAt_map_clampLimit, policyAt_withoutAlias, hxpolicy]
  have hsource : StandsAlone t₀ := by
    have := (hrows l' hl' _ hpolicy' hxacc).1
    rwa [hfocus, standsAlone_map_clampLimit, standsAlone_withoutAlias] at this
  have hinside := get?_of_mem_walk hl
  rw [← hs, get?_append, ht₀] at hinside
  obtain rfl := eq_nil_of_standsAlone hsource hinside (isTable_of_policyAt hpolicy)
  exact Option.some.inj hinside ▸ hsource

end Accepted

/-- Every reference to a scoped table that is emitted is scoped, exactly when every one that is
parsed stands alone. -/
theorem rows_scoped_iff_scoped_tables_stand_alone {query : String}
    (hq : E.parse query = some [some statement])
    (hm : authorization.scopeMode = .resourceSet)
    (h : E.guardSqlQuery query authorization allowedDatabases registry limit = .ok out) :
    E.RowsScoped registry authorization out ↔ E.ScopedTablesStandAlone registry statement := by
  obtain ⟨tables, scoping, ha⟩ := E.accepts_of_guard hq h
  obtain ⟨σ, hσ⟩ := ha.scopedSoFar hm
  exact ⟨ha.scopedTablesStandAlone hσ, ha.rowsScoped hσ⟩

end Emitted

/-- `SELECT s.id FROM demo_sites s JOIN demo_devices d ON d.id = s.id`. -/
def queryOfJoin : SqlNode :=
  .node .select [
    .leaf (.column "id" "s" "s"),
    .node .fromClause [.leaf (.table "demo_sites" "" "s")],
    .node .join [
      .leaf (.table "demo_devices" "" "d"),
      .node (.other "EQ") [.leaf (.column "id" "d" "d"), .leaf (.column "id" "s" "s")]]]

theorem rows_scoped_of_join :
    ∃ out, demoGuard queryOfJoin = .ok out ∧
      (demoEnv queryOfJoin).RowsScoped demoRegistry demoAuthorization out := by
  have hok : (demoGuard queryOfJoin).isOk = true := by decide +kernel
  have halone : (demoEnv queryOfJoin).ScopedTablesStandAlone demoRegistry queryOfJoin := by
    decide +kernel
  obtain ⟨out, h⟩ := exists_eq_ok hok
  exact ⟨out, h, (rows_scoped_iff_scoped_tables_stand_alone rfl rfl h).mpr halone⟩

/-- `SELECT s.id FROM (demo_sites s JOIN demo_devices d ON d.id = s.id)`. -/
def queryOfParenthesisedJoin : SqlNode :=
  .node .select [
    .leaf (.column "id" "s" "s"),
    .node .fromClause [.node (.subquery "") [.node (.table "demo_sites" "" "s") [.node .join [
      .leaf (.table "demo_devices" "" "d"),
      .node (.other "EQ") [.leaf (.column "id" "d" "d"), .leaf (.column "id" "s" "s")]]]]]]

/-- The joined table is read without a predicate of its own. -/
theorem parenthesised_join_escapes_scope :
    ¬ ∀ (statement : SqlNode) (out : ScopedQuery), demoGuard statement = .ok out →
      (demoEnv statement).RowsScoped demoRegistry demoAuthorization out := by
  intro hall
  have hread : (demoGuard queryOfParenthesisedJoin).map (fun out =>
      decide (∃ l ∈ out.sql.walk,
        ∃ policy ∈ (demoEnv queryOfParenthesisedJoin).policyAt demoRegistry l.focus,
          policy.access = .scoped ∧ ¬ [0, 1, 0] <:+ l.path)) = .ok true := by
    decide +kernel
  obtain ⟨out, hok, hread⟩ := map_eq_ok.mp hread
  obtain ⟨l, hl, policy, hpolicy, hacc, hpath⟩ := of_decide_eq_true hread
  obtain ⟨-, q, -, -, -, -, -, -, heq, -⟩ := hall _ out hok l hl policy hpolicy hacc
  exact hpath ⟨q, heq.symm⟩

end DeerFlow.Semantic
