import DeerFlow.Lib.TreeLabels
import DeerFlow.Semantic.SqlRows

/-! How many rows an accepted query returns. The guard lowers the count of every LIMIT and
adds one where the slot of the statement is empty; a FETCH fills the same slot and is not
looked at. -/

namespace DeerFlow.Semantic
open RoseTree

/-- What the slot `limit` of a query holds. -/
def outermostLimit (statement : SqlNode) : Option SqlKind :=
  (statement.children.map label).find? isRowLimit

def rowCount : SqlKind → Option Nat
  | .limit count | .fetch count => count
  | _ => none

def limitCount? : SqlKind → Option (Option Nat)
  | .limit count => some count
  | _ => none

def fetchCount? : SqlKind → Option (Option Nat)
  | .fetch count => some count
  | _ => none

def offsetCount? : SqlKind → Option (Option Nat)
  | .offset count => some count
  | _ => none

def isRowClause : SqlKind → Bool
  | .limit _ | .fetch _ | .offset _ => true
  | _ => false

/-- The counts of the LIMITs, from left to right. -/
def limitCounts (statement : SqlNode) : List (Option Nat) :=
  statement.labels.filterMap limitCount?

def fetchCounts (statement : SqlNode) : List (Option Nat) :=
  statement.labels.filterMap fetchCount?

def offsetCounts (statement : SqlNode) : List (Option Nat) :=
  statement.labels.filterMap offsetCount?

/-- An integer literal within a bound. -/
def Bounded (bound : Nat) (count : Option Nat) : Prop := ∃ n, count = some n ∧ n ≤ bound

/-- The emitted query `sql` of a statement is bounded, and keeps the LIMITs that already were. -/
structure RowsCapped (bound : Nat) (statement sql : SqlNode) : Prop where
  outermost : ∃ clause, outermostLimit sql = some clause ∧ Bounded bound (rowCount clause)
  limits : ∀ count ∈ limitCounts sql, Bounded bound count
  offsets : ∀ count ∈ offsetCounts sql, Bounded maxQueryOffset count
  kept : ∀ (i n : Nat), (limitCounts statement)[i]? = some (some n) → n ≤ bound →
    (limitCounts sql)[i]? = some (some n)

section Scoped
variable {E : SqlEnv} {authorization : AuthorizationContext} {allowedDatabases : List String}
  {registry : SqlScopePolicyRegistry} {limit : Int} {statement : SqlNode}
  {tables : List (TableNode × TableScopePolicy)} {scoping : Scoping} {out : ScopedQuery}

theorem scopeTable_of_not_resourceSet (hm : authorization.scopeMode ≠ .resourceSet)
    {s s' : Scoping} {x : (TableNode × TableScopePolicy) × Nat}
    (h : scopeTable authorization s x = .ok s') : s' = s := by
  obtain ⟨⟨table, policy⟩, index⟩ := x
  unfold scopeTable at h
  simp only at h
  split_ifs at h with hfree
  · exact (Except.ok.inj h).symm
  · split at h
    · obtain ⟨values, hvalues, -⟩ := bind_eq_ok.mp h
      obtain ⟨-, hall⟩ := not_or.mp hfree
      unfold scopeValues at hvalues
      cases hmode : authorization.scopeMode with
      | tenantAll => exact absurd hmode hall
      | none | scopeRef => simp [hmode] at hvalues
      | resourceSet => exact absurd hmode hm
    · cases h

/-- In every scope mode the scoped statement is the parsed one with tables replaced by generated
subqueries. -/
theorem SqlEnv.Accepts.tables_replaced
    (h : E.Accepts authorization allowedDatabases registry limit statement tables scoping out) :
    ∃ σ : Rewriting SqlKind, scoping.statement = rewrite σ [] statement ∧
      ∀ q f, σ q = some f → (∃ t, statement.get? q = some t ∧ isTable t.label = true) ∧
        ∃ column names aliasName, f = scopedSource (inPredicate column names) aliasName := by
  by_cases hm : authorization.scopeMode = .resourceSet
  · obtain ⟨σ, hσ⟩ := h.scopedSoFar hm
    refine ⟨σ, hσ.tree, fun q f hf => ?_⟩
    obtain ⟨x, -, -, t, ht, hpolicy, dimension, -, column, -, rfl⟩ := h.replaced hσ hf
    exact ⟨⟨t, ht, isTable_of_policyAt hpolicy⟩, column, _, _, rfl⟩
  · have hsame : scoping.statement = statement := by
      refine foldlM_invariant (motive := fun _ s => s.statement = statement) rfl ?_ h.rewritten
      intro _ x s s' _ hs hstep
      rw [scopeTable_of_not_resourceSet hm hstep]
      exact hs
    refine ⟨fun _ => none, ?_, nofun⟩
    rw [hsame]
    exact (rewrite_eq_self fun _ _ => rfl).symm

theorem labels_scopedSource (predicate : SqlNode) (aliasName : String) (n : SqlNode) :
    (scopedSource predicate aliasName n).labels =
      [.subquery aliasName, .select, .star, .fromClause] ++
        dropAlias n.label :: n.children.flatMap labels ++ .whereClause :: predicate.labels := by
  simp [scopedSource, withoutAlias, labels_node]

theorem labels_inPredicate (column : String) (names : List String) :
    (inPredicate column names).labels =
      .isIn :: .column column "" "" :: names.map .placeholder := by
  have hleaves :
      (names.map fun name => (RoseTree.leaf (.placeholder name) : SqlNode)).flatMap labels =
        names.map .placeholder := by
    induction names with
    | nil => rfl
    | cons name names ih =>
      rw [List.map_cons, List.flatMap_cons, ih]
      rfl
  rw [inPredicate, labels_node, List.flatMap_cons, hleaves]
  rfl

theorem filterMap_labels_scopedSource {β : Type} {g : SqlKind → Option β}
    (hg : ∀ k, isRowClause k = false → g k = none) (column aliasName : String)
    (names : List String) (n : SqlNode) :
    (scopedSource (inPredicate column names) aliasName n).labels.filterMap g =
      n.labels.filterMap g := by
  have halias : g (dropAlias n.label) = g n.label := by
    cases n.label with
    | table name db aliasName =>
      rw [hg (.table name db aliasName) rfl]
      exact hg _ rfl
    | _ => rfl
  have hfree {ks : List SqlKind} (hks : ∀ k ∈ ks, isRowClause k = false) : ks.filterMap g = [] :=
    List.filterMap_eq_nil_iff.mpr fun k hk => hg k (hks k hk)
  have hpredicate : ∀ k ∈ SqlKind.whereClause :: (inPredicate column names).labels,
      isRowClause k = false := by
    simp [labels_inPredicate, isRowClause]
  have hfront : ∀ k ∈ [SqlKind.subquery aliasName, .select, .star, .fromClause],
      isRowClause k = false := by
    simp [isRowClause]
  rw [labels_scopedSource, List.filterMap_append, List.filterMap_append, hfree hpredicate,
    hfree hfront, List.append_nil, List.nil_append, labels_eq n, List.filterMap_cons,
    List.filterMap_cons, halias]

theorem SqlEnv.Accepts.filterMap_labels_scoped {β : Type} {g : SqlKind → Option β}
    (h : E.Accepts authorization allowedDatabases registry limit statement tables scoping out)
    (hg : ∀ k, isRowClause k = false → g k = none) :
    scoping.statement.labels.filterMap g = statement.labels.filterMap g := by
  obtain ⟨σ, htree, hσ⟩ := h.tables_replaced
  rw [htree]
  refine filterMap_labels_rewrite fun q f hf n => ?_
  obtain ⟨-, column, names, aliasName, rfl⟩ := hσ q f hf
  exact filterMap_labels_scopedSource hg column aliasName names n

theorem find?_rewriteForest {q : SqlKind → Bool} {σ : Rewriting SqlKind} {p : NodePath}
    {cs : List SqlNode} (k : Nat)
    (h : ∀ i c, cs[i]? = some c → ∀ f, σ (p ++ [k + i]) = some f →
      q c.label = false ∧ q (f c).label = false) :
    ((rewriteForest σ p k cs).map label).find? q = (cs.map label).find? q := by
  induction cs generalizing k with
  | nil => rfl
  | cons c cs ih =>
    have hrest := ih (k + 1) fun i d hd f hf => h (i + 1) d hd f (by rwa [Nat.add_right_comm] at hf)
    rw [rewriteForest, List.map_cons, List.map_cons, List.find?_cons, List.find?_cons, hrest]
    cases hσ : σ (p ++ [k]) with
    | none => rw [rewrite_none hσ, label]
    | some f =>
      obtain ⟨hc, hf⟩ := h 0 c rfl f hσ
      rw [rewrite_some hσ, hc, hf]

theorem SqlEnv.Accepts.outermostLimit_scoped
    (h : E.Accepts authorization allowedDatabases registry limit statement tables scoping out) :
    outermostLimit scoping.statement = outermostLimit statement := by
  obtain ⟨σ, htree, hσ⟩ := h.tables_replaced
  have hroot : σ [] = none := by
    cases hroot : σ [] with
    | none => rfl
    | some f =>
      obtain ⟨⟨t, ht, htable⟩, -⟩ := hσ [] f hroot
      cases ht
      rw [isTable_of_isQuery h.query] at htable
      cases htable
  unfold outermostLimit
  rw [htree, rewrite_none hroot, children]
  refine find?_rewriteForest 0 fun i c hc f hf => ?_
  rw [List.nil_append, Nat.zero_add] at hf
  obtain ⟨⟨t, ht, htable⟩, column, names, aliasName, rfl⟩ := hσ [i] f hf
  rw [get?_cons, hc, Option.bind_some, get?_nil] at ht
  cases ht
  refine ⟨?_, rfl⟩
  cases hlabel : c.label with
  | table name db aliasName => rfl
  | _ => simp [hlabel, isTable] at htable

end Scoped

section Bounds
variable {bound : Nat} {limit : Int} {t sql : SqlNode} {count : Option Nat}

theorem limitCount?_eq_some {k : SqlKind} : limitCount? k = some count ↔ k = .limit count := by
  cases k <;> simp [limitCount?]

theorem offsetCount?_eq_some {k : SqlKind} : offsetCount? k = some count ↔ k = .offset count := by
  cases k <;> simp [offsetCount?]

theorem mem_limitCounts : count ∈ limitCounts t ↔ .limit count ∈ t.labels := by
  simp [limitCounts, List.mem_filterMap, limitCount?_eq_some]

theorem mem_offsetCounts : count ∈ offsetCounts t ↔ .offset count ∈ t.labels := by
  simp [offsetCounts, List.mem_filterMap, offsetCount?_eq_some]

/-- What the two checks of a statement have found out. -/
theorem checked_of_boundRows (h : boundRows limit t = .ok sql) :
    none ∉ limitCounts t ∧ ∀ count ∈ offsetCounts t, Bounded maxQueryOffset count := by
  obtain ⟨_, hlimits, h⟩ := bind_eq_ok.mp h
  obtain ⟨_, hoffsets, -⟩ := bind_eq_ok.mp h
  constructor
  · intro hnone
    obtain ⟨l, hl, hlabel⟩ := mem_labels.mp (mem_limitCounts.mp hnone)
    have hcheck := forM_eq_ok.mp hlimits l hl
    simp [checkLimit, hlabel] at hcheck
  · intro count hcount
    obtain ⟨l, hl, hlabel⟩ := mem_labels.mp (mem_offsetCounts.mp hcount)
    have hcheck := forM_eq_ok.mp hoffsets l hl
    unfold checkOffset at hcheck
    rw [hlabel] at hcheck
    cases count with
    | none => simp at hcheck
    | some n =>
      simp only at hcheck
      split_ifs at hcheck with hn
      exact ⟨n, rfl, Nat.not_lt.mp hn⟩

theorem outermostLimit_eq_none :
    outermostLimit t = none ↔ (t.children.any fun c => isRowLimit c.label) = false := by
  unfold outermostLimit
  rw [List.find?_eq_none, List.forall_mem_map, List.any_eq_false]

theorem labels_addLimit : (addLimit bound t).labels =
    t.labels ++ if outermostLimit t = none then [.limit (some bound)] else [] := by
  by_cases hnone : outermostLimit t = none
  · have hany := outermostLimit_eq_none.mp hnone
    rw [addLimit, if_neg (by simp [hany]), if_pos hnone, labels_node, List.flatMap_append,
      labels_eq t]
    rfl
  · have hany := (Bool.not_eq_false _).mp (mt outermostLimit_eq_none.mpr hnone)
    rw [addLimit, if_pos hany, if_neg hnone, List.append_nil]

theorem outermostLimit_addLimit : outermostLimit (addLimit bound t) =
    some ((outermostLimit t).getD (.limit (some bound))) := by
  cases hslot : outermostLimit t with
  | none =>
    have hany := outermostLimit_eq_none.mp hslot
    rw [addLimit, if_neg (by simp [hany]), outermostLimit, children, List.map_append,
      List.find?_append, ← outermostLimit, hslot]
    rfl
  | some clause =>
    have hany := (Bool.not_eq_false _).mp
      (mt outermostLimit_eq_none.mpr (by rw [hslot]; exact Option.some_ne_none clause))
    rw [addLimit, if_pos hany, hslot, Option.getD_some]

theorem clampLimit_limit : clampLimit bound (.limit count) = .limit (count.map (min · bound)) := by
  cases count with
  | none => rfl
  | some n =>
    rw [clampLimit, Option.map_some]
    split_ifs with hn
    · rw [Nat.min_eq_right (Nat.le_of_lt hn)]
    · rw [Nat.min_eq_left (Nat.not_lt.mp hn)]

theorem clampLimit_of_not_limit {k : SqlKind} (hk : limitCount? k = none) :
    clampLimit bound k = k := by
  cases k with
  | limit count => cases hk
  | _ => rfl

theorem isRowLimit_clampLimit (k : SqlKind) : isRowLimit (clampLimit bound k) = isRowLimit k := by
  rcases clampLimit_cases bound k with h | ⟨m, n, rfl, h⟩
  · rw [h]
  · rw [h]
    rfl

theorem outermostLimit_map_clampLimit : outermostLimit (t.map (clampLimit bound)) =
    (outermostLimit t).map (clampLimit bound) := by
  have hsame : isRowLimit ∘ clampLimit bound = isRowLimit := funext isRowLimit_clampLimit
  unfold outermostLimit
  rw [children_map, List.map_map, ← hsame, ← List.find?_map, List.map_map]
  congr 1
  exact List.map_congr_left fun c _ => label_map _ c

theorem limitCounts_map_clampLimit : limitCounts (t.map (clampLimit bound)) =
    (limitCounts t).map (Option.map (min · bound)) := by
  unfold limitCounts
  rw [labels_map, List.filterMap_map, List.map_filterMap]
  refine List.filterMap_congr fun k _ => ?_
  cases k with
  | limit count => rw [Function.comp_apply, clampLimit_limit]; rfl
  | _ => rfl

theorem filterMap_labels_map_clampLimit {β : Type} {g : SqlKind → Option β}
    (hg : ∀ count, g (.limit count) = none) :
    (t.map (clampLimit bound)).labels.filterMap g = t.labels.filterMap g := by
  rw [labels_map, List.filterMap_map]
  refine List.filterMap_congr fun k _ => ?_
  cases k with
  | limit count => rw [Function.comp_apply, clampLimit_limit, hg, hg]
  | _ => rfl

theorem filterMap_labels_addLimit {β : Type} {g : SqlKind → Option β}
    (hg : ∀ count, g (.limit count) = none) :
    (addLimit bound t).labels.filterMap g = t.labels.filterMap g := by
  rw [labels_addLimit, List.filterMap_append]
  split_ifs
  · rw [List.filterMap_cons, hg, List.filterMap_nil, List.append_nil]
  · rw [List.filterMap_nil, List.append_nil]

theorem mem_labels_of_outermostLimit {clause : SqlKind} (h : outermostLimit t = some clause) :
    isRowLimit clause = true ∧ clause ∈ t.labels := by
  obtain ⟨hrow, -⟩ := List.find?_eq_some_iff_append.mp h
  obtain ⟨c, hc, rfl⟩ := List.mem_map.mp (List.mem_of_find?_eq_some h)
  refine ⟨hrow, ?_⟩
  rw [labels_eq]
  refine List.mem_cons_of_mem _ (List.mem_flatMap.mpr ⟨c, hc, ?_⟩)
  rw [labels_eq]
  exact List.mem_cons_self

end Bounds

section Capped
variable {E : SqlEnv} {authorization : AuthorizationContext} {allowedDatabases : List String}
  {registry : SqlScopePolicyRegistry} {limit : Int} {statement : SqlNode}
  {tables : List (TableNode × TableScopePolicy)} {scoping : Scoping} {out : ScopedQuery}

section Emitted
variable (h : E.Accepts authorization allowedDatabases registry limit statement tables scoping out)
include h

theorem SqlEnv.Accepts.sql_eq : out.sql =
    addLimit (boundedLimit limit) (scoping.statement.map (clampLimit (boundedLimit limit))) :=
  boundRows_eq_ok h.bounded

/-- Outside the LIMITs the clauses are those of the parsed statement. -/
theorem SqlEnv.Accepts.filterMap_labels_sql {β : Type} {g : SqlKind → Option β}
    (hg : ∀ k, isRowClause k = false → g k = none) (hlimit : ∀ count, g (.limit count) = none) :
    out.sql.labels.filterMap g = statement.labels.filterMap g := by
  rw [h.sql_eq, filterMap_labels_addLimit hlimit, filterMap_labels_map_clampLimit hlimit,
    h.filterMap_labels_scoped hg]

theorem SqlEnv.Accepts.fetchCounts_sql : fetchCounts out.sql = fetchCounts statement := by
  refine h.filterMap_labels_sql (fun k hk => ?_) fun _ => rfl
  cases k with
  | fetch count => cases hk
  | _ => rfl

theorem SqlEnv.Accepts.limitCounts_scoped :
    limitCounts scoping.statement = limitCounts statement := by
  refine h.filterMap_labels_scoped fun k hk => ?_
  cases k with
  | limit count => cases hk
  | _ => rfl

theorem SqlEnv.Accepts.offsets_bounded :
    ∀ count ∈ offsetCounts out.sql, Bounded maxQueryOffset count := by
  have hoffset : ∀ k, isRowClause k = false → offsetCount? k = none := by
    intro k hk
    cases k with
    | offset count => cases hk
    | _ => rfl
  have hsame : offsetCounts out.sql = offsetCounts scoping.statement :=
    (h.filterMap_labels_sql hoffset fun _ => rfl).trans (h.filterMap_labels_scoped hoffset).symm
  rw [hsame]
  exact (checked_of_boundRows h.bounded).2

/-- The counts of the statement, lowered to the bound; and the bound, where a LIMIT is added. -/
theorem SqlEnv.Accepts.limitCounts_sql : limitCounts out.sql =
    (limitCounts statement).map (Option.map (min · (boundedLimit limit))) ++
      if outermostLimit statement = none then [some (boundedLimit limit)] else [] := by
  have hslot : outermostLimit (scoping.statement.map (clampLimit (boundedLimit limit))) = none ↔
      outermostLimit statement = none := by
    rw [outermostLimit_map_clampLimit, Option.map_eq_none_iff, h.outermostLimit_scoped]
  rw [h.sql_eq, limitCounts, labels_addLimit, List.filterMap_append, ← limitCounts,
    limitCounts_map_clampLimit, h.limitCounts_scoped]
  congr 1
  simp only [hslot]
  split_ifs <;> rfl

theorem SqlEnv.Accepts.limits_fixed : none ∉ limitCounts statement :=
  h.limitCounts_scoped ▸ (checked_of_boundRows h.bounded).1

theorem SqlEnv.Accepts.limits_bounded :
    ∀ count ∈ limitCounts out.sql, Bounded (boundedLimit limit) count := by
  intro count hcount
  rw [h.limitCounts_sql] at hcount
  rcases List.mem_append.mp hcount with hcount | hcount
  · obtain ⟨requested, hrequested, rfl⟩ := List.mem_map.mp hcount
    cases requested with
    | none => exact absurd hrequested h.limits_fixed
    | some n => exact ⟨_, rfl, Nat.min_le_right n _⟩
  · split_ifs at hcount
    · obtain rfl := List.mem_singleton.mp hcount
      exact ⟨_, rfl, Nat.le_refl _⟩
    · cases hcount

theorem SqlEnv.Accepts.limit_kept {i n : Nat} (hi : (limitCounts statement)[i]? = some (some n))
    (hn : n ≤ boundedLimit limit) : (limitCounts out.sql)[i]? = some (some n) := by
  rw [h.limitCounts_sql, List.getElem?_append_left, List.getElem?_map, hi, Option.map_some,
    Option.map_some, Nat.min_eq_left hn]
  rw [List.length_map]
  exact (List.getElem?_eq_some_iff.mp hi).1

theorem SqlEnv.Accepts.outermostLimit_sql : outermostLimit out.sql =
    some (((outermostLimit statement).map (clampLimit (boundedLimit limit))).getD
      (.limit (some (boundedLimit limit)))) := by
  rw [h.sql_eq, outermostLimit_addLimit, outermostLimit_map_clampLimit, h.outermostLimit_scoped]

theorem SqlEnv.Accepts.outermost_bounded_iff :
    (∃ clause, outermostLimit out.sql = some clause ∧
      Bounded (boundedLimit limit) (rowCount clause)) ↔
    ∀ count, outermostLimit statement = some (.fetch count) →
      Bounded (boundedLimit limit) count := by
  rw [h.outermostLimit_sql]
  cases hslot : outermostLimit statement with
  | none => simp [rowCount, Bounded]
  | some clause =>
    obtain ⟨hrow, hmem⟩ := mem_labels_of_outermostLimit hslot
    rw [Option.map_some, Option.getD_some]
    cases clause with
    | limit count =>
      have hfixed : count ≠ none := by
        rintro rfl
        exact h.limits_fixed (mem_limitCounts.mpr hmem)
      obtain ⟨n, rfl⟩ := Option.ne_none_iff_exists'.mp hfixed
      rw [clampLimit_limit]
      simp [rowCount, Bounded]
    | fetch count =>
      rw [clampLimit_of_not_limit rfl]
      simp [rowCount]
    | _ => cases hrow

theorem SqlEnv.Accepts.rowsCapped_iff :
    RowsCapped (boundedLimit limit) statement out.sql ↔
    ∀ count, outermostLimit statement = some (.fetch count) →
      Bounded (boundedLimit limit) count := by
  constructor
  · exact fun hcapped => h.outermost_bounded_iff.mp hcapped.outermost
  · intro hfetch
    exact ⟨h.outermost_bounded_iff.mpr hfetch, h.limits_bounded, h.offsets_bounded,
      fun _ _ => h.limit_kept⟩

end Emitted

/-- The rows are capped unless a FETCH stands in the slot of the limit with a larger count. So they
are, and every FETCH below with them, exactly when no FETCH of the statement exceeds the bound. -/
theorem rows_capped_iff_fetch_bounded {query : String}
    (hq : E.parse query = some [some statement])
    (h : E.guardSqlQuery query authorization allowedDatabases registry limit = .ok out) :
    (RowsCapped (boundedLimit limit) statement out.sql ↔
      ∀ count, outermostLimit statement = some (.fetch count) →
        Bounded (boundedLimit limit) count) ∧
    (RowsCapped (boundedLimit limit) statement out.sql ∧
        (∀ count ∈ fetchCounts out.sql, Bounded (boundedLimit limit) count) ↔
      ∀ count ∈ fetchCounts statement, Bounded (boundedLimit limit) count) := by
  obtain ⟨tables, scoping, ha⟩ := E.accepts_of_guard hq h
  refine ⟨ha.rowsCapped_iff, ?_⟩
  rw [ha.rowsCapped_iff, ha.fetchCounts_sql]
  constructor
  · exact And.right
  · intro hall
    refine ⟨fun count hslot => hall count ?_, hall⟩
    exact List.mem_filterMap.mpr ⟨_, (mem_labels_of_outermostLimit hslot).2, rfl⟩

end Capped

/-- `SELECT s.id FROM demo_sites s LIMIT 5000`. -/
def queryWithLimit : SqlNode :=
  .node .select [
    .leaf (.column "id" "s" "s"),
    .node .fromClause [.leaf (.table "demo_sites" "" "s")],
    .leaf (.limit (some 5000))]

theorem rows_capped_of_limit :
    ∃ out, demoGuard queryWithLimit = .ok out ∧
      RowsCapped (boundedLimit defaultQueryLimit) queryWithLimit out.sql := by
  have hok : (demoGuard queryWithLimit).isOk = true := by decide +kernel
  obtain ⟨out, h⟩ := exists_eq_ok hok
  refine ⟨out, h, (rows_capped_iff_fetch_bounded rfl h).1.mpr fun count hslot => ?_⟩
  have hlimit : outermostLimit queryWithLimit = some (.limit (some 5000)) := rfl
  rw [hlimit] at hslot
  cases hslot

/-- `SELECT s.id FROM demo_sites s FETCH FIRST 5000 ROWS ONLY`. -/
def queryWithFetch : SqlNode :=
  .node .select [
    .leaf (.column "id" "s" "s"),
    .node .fromClause [.leaf (.table "demo_sites" "" "s")],
    .leaf (.fetch (some 5000))]

/-- Five thousand rows are fetched where a hundred are allowed. -/
theorem fetch_exceeds_limit :
    ¬ ∀ (statement : SqlNode) (out : ScopedQuery), demoGuard statement = .ok out →
      RowsCapped (boundedLimit defaultQueryLimit) statement out.sql := by
  intro hall
  have hread : (demoGuard queryWithFetch).map (fun out => outermostLimit out.sql) =
      .ok (some (.fetch (some 5000))) := by
    decide +kernel
  obtain ⟨out, hok, hread⟩ := map_eq_ok.mp hread
  obtain ⟨clause, hslot, n, hn, hle⟩ := (hall queryWithFetch out hok).outermost
  obtain rfl := Option.some.inj (hread.symm.trans hslot)
  obtain rfl := Option.some.inj hn
  exact absurd hle (by decide)

end DeerFlow.Semantic
