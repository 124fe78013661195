import DeerFlow.Semantic.SqlScope

/-! Which fields an accepted query reads. A qualifier means a table that the
innermost enclosing `SELECT` with such a table declares. The guard looks it up
in one map for the whole statement, in which a later declaration takes the place
of an earlier one, and compares the lower-cased field with the policy's own
spelling. -/

namespace DeerFlow.Semantic
open RoseTree

mutual

/-- The tables and derived tables that a part of a `FROM` clause declares. Parentheses around a
table, which parse as a subquery without an alias, declare what is inside them. -/
def sourcesOf : SqlNode → List SqlNode
  | .node kind children => match kind with
    | .fromClause | .join => sourcesOfThis children
    | .table .. => .node kind children :: sourcesOfJoined children
    | .subquery aliasName =>
      (if aliasName = "" then sourcesOfThis children else [.node kind children]) ++
        sourcesOfJoined children
    | _ => [.node kind children]

def sourcesOfThis : List SqlNode → List SqlNode
  | [] => []
  | c :: _ => sourcesOf c

def sourcesOfJoined : List SqlNode → List SqlNode
  | [] => []
  | c :: cs => (if isJoined c.label then sourcesOf c else []) ++ sourcesOfJoined cs

end

/-- What the `FROM` clause of a `SELECT` declares. -/
def declaredBy (select : SqlNode) : List SqlNode :=
  (select.children.filter fun c => c.label = .fromClause || isJoined c.label).flatMap sourcesOf

def declaredName : SqlKind → String
  | .table name _ aliasName => if aliasName ≠ "" then aliasName else name
  | .subquery aliasName | .lateral aliasName => aliasName
  | _ => ""

/-- The sources in question of the innermost enclosing `SELECT` that has one. -/
def innermost (inQuestion : SqlNode → Bool) : List (SqlNode × Nat) → List SqlNode
  | [] => []
  | (n, _) :: above =>
    let found := if n.label = .select then (declaredBy n).filter inQuestion else []
    if found = [] then innermost inQuestion above else found

/-- The qualifier of a reference: of a column, or of the column that a star is the name of. -/
def qualifier (l : SqlLoc) : String :=
  match l.focus.label, l.above with
  | .column _ table _, _ => table
  | .star, (.node (.column _ table _) _, _) :: _ => table
  | _, _ => ""

section Fields
variable (E : SqlEnv)

/-- Whether a source of a `FROM` clause is in question for a reference: by its declared name, or,
for a column without a qualifier, by having a column of that name; `hasColumn` is the schema of the
database. A star without a qualifier expands over all sources. -/
def SqlEnv.inQuestion (hasColumn : SqlNode → String → Bool) (l : SqlLoc) (n : SqlNode) : Bool :=
  if qualifier l ≠ "" then E.lower (declaredName n.label) = E.lower (qualifier l)
  else match l.focus.label with
    | .column name _ _ => hasColumn n (E.lower name)
    | _ => true

/-- The sources that a column or star resolves to. -/
def SqlEnv.resolve (hasColumn : SqlNode → String → Bool) (l : SqlLoc) : List SqlNode :=
  innermost (E.inQuestion hasColumn l) l.above

/-- `name` is one of the fields, as MySQL compares names. -/
def SqlEnv.lists (fields : List String) (name : String) : Bool :=
  fields.any fun field => E.lower field = E.lower name

/-- The policy forbids the reference at `l`. The column around a qualified star is no reference of
its own. -/
def SqlEnv.restricts (policy : TableScopePolicy) (l : SqlLoc) : Bool :=
  match l.focus.label with
  | .column name _ _ =>
    !(l.focus.children.any fun c => c.label = .star) &&
      (E.lists policy.hiddenFields name || E.lists policy.maskedFields name ||
        E.lists policy.aggregateOnlyFields name && !insideAggregate l ||
        policy.allowedFields.any fun allowed => !E.lists allowed name)
  | .star => policy.restricted && !insideAggregate l
  | _ => false

/-- No column or star resolves to a table whose policy forbids it. -/
def SqlEnv.FieldsGuarded (registry : SqlScopePolicyRegistry)
    (hasColumn : SqlNode → String → Bool) (statement : SqlNode) : Prop :=
  ∀ l ∈ statement.walk, ∀ n ∈ E.resolve hasColumn l, ∀ policy ∈ E.policyAt registry n,
    E.restricts policy l = false

instance (registry : SqlScopePolicyRegistry) (hasColumn : SqlNode → String → Bool)
    (statement : SqlNode) : Decidable (E.FieldsGuarded registry hasColumn statement) :=
  inferInstanceAs (Decidable (∀ l ∈ statement.walk, ∀ n ∈ E.resolve hasColumn l,
    ∀ policy ∈ E.policyAt registry n, E.restricts policy l = false))

/-- The table references of the whole statement that have a policy, in visiting order. -/
def SqlEnv.declared (registry : SqlScopePolicyRegistry) (statement : SqlNode) :
    List (TableNode × TableScopePolicy) :=
  (E.tableNodes statement).filterMap fun t => (registry.tables.get (E.lower t.name)).map (t, ·)

/-- The last reference declared under a name, or else the first to a table of that name. -/
def SqlEnv.lastDeclared (tables : List (TableNode × TableScopePolicy)) (name : String) :
    Option TableScopePolicy :=
  ((tables.reverse.find? fun x => E.lower x.1.aliasOrName = name).or
    (tables.find? fun x => E.lower x.1.name = name)).map Prod.snd

/-- The text under which the guard looks up the table of a reference. -/
def SqlEnv.lookupName (l : SqlLoc) : String :=
  match l.focus.label with
  | .column _ table _ => E.lower table
  | _ => E.lower (starTable l)

/-- The policy is the one declared last under the name of a reference, in the whole statement; if
nothing is declared under it, one that is declared last under some name. -/
def SqlEnv.Governs (tables : List (TableNode × TableScopePolicy)) (policy : TableScopePolicy)
    (l : SqlLoc) : Prop :=
  E.lastDeclared tables (E.lookupName l) = some policy ∨
  E.lastDeclared tables (E.lookupName l) = none ∧
    ∃ x ∈ tables, E.lastDeclared tables (E.lower x.1.aliasOrName) = some policy ∨
      E.lastDeclared tables (E.lower x.1.name) = some policy

instance (tables : List (TableNode × TableScopePolicy)) (policy : TableScopePolicy)
    (l : SqlLoc) : Decidable (E.Governs tables policy l) := inferInstanceAs (Decidable (_ ∨ _))

/-- The policy spells the field of a reference in lower case. -/
def SqlEnv.spelledLower (policy : TableScopePolicy) (l : SqlLoc) : Bool :=
  match l.focus.label with
  | .column name _ _ =>
    (policy.hiddenFields ++ policy.maskedFields ++ policy.aggregateOnlyFields).all fun field =>
      E.lower field ≠ E.lower name || field = E.lower name
  | _ => true

/-- Wherever a reference resolves to a table whose policy forbids it, that policy is the last one
declared under its qualifier, and it spells the field in lower case. -/
def SqlEnv.RestrictionsSeen (registry : SqlScopePolicyRegistry)
    (hasColumn : SqlNode → String → Bool) (statement : SqlNode) : Prop :=
  ∀ l ∈ statement.walk, ∀ n ∈ E.resolve hasColumn l, ∀ policy ∈ E.policyAt registry n,
    E.restricts policy l = true →
      E.Governs (E.declared registry statement) policy l ∧ E.spelledLower policy l = true

instance (registry : SqlScopePolicyRegistry) (hasColumn : SqlNode → String → Bool)
    (statement : SqlNode) : Decidable (E.RestrictionsSeen registry hasColumn statement) :=
  inferInstanceAs (Decidable (∀ l ∈ statement.walk, ∀ n ∈ E.resolve hasColumn l,
    ∀ policy ∈ E.policyAt registry n, E.restricts policy l = true →
      E.Governs (E.declared registry statement) policy l ∧ E.spelledLower policy l = true))

end Fields

section Seen
variable {E : SqlEnv} {authorization : AuthorizationContext} {allowedDatabases : List String}
  {registry : SqlScopePolicyRegistry} {limit : Int} {statement : SqlNode}
  {tables : List (TableNode × TableScopePolicy)} {scoping : Scoping} {out : ScopedQuery}
  {l : SqlLoc} {policy : TableScopePolicy}

theorem SqlEnv.get_addAlias (d : Dict TableScopePolicy) (x : TableNode × TableScopePolicy)
    (k : String) : (E.addAlias d x).get k =
      if E.lower x.1.aliasOrName = k then some x.2
      else if E.lower x.1.name = k then some ((d.get k).getD x.2) else d.get k := by
  unfold SqlEnv.addAlias
  rw [Dict.get_setdefault]
  by_cases ha : E.lower x.1.aliasOrName = k
  · subst ha
    rw [if_pos rfl]
    by_cases hn : E.lower x.1.aliasOrName = E.lower x.1.name
    · rw [if_pos hn, ← hn, Dict.get_set_self, Option.getD_some]
    · rw [if_neg hn, Dict.get_set_self]
  · by_cases hn : E.lower x.1.name = k
    · subst hn
      rw [if_pos rfl, if_neg ha, if_pos rfl, Dict.get_set_ne (Ne.symm ha)]
    · rw [if_neg (Ne.symm hn), if_neg ha, if_neg hn, Dict.get_set_ne (Ne.symm ha)]

theorem SqlEnv.get_aliases (tables : List (TableNode × TableScopePolicy)) (k : String) :
    (E.aliases tables).get k = E.lastDeclared tables k := by
  induction tables using List.reverseRecOn with
  | nil => rfl
  | append_singleton ts x ih =>
    have hfold : E.aliases (ts ++ [x]) = E.addAlias (E.aliases ts) x := by
      rw [SqlEnv.aliases, List.foldl_append]
      rfl
    rw [hfold, E.get_addAlias, ih]
    unfold SqlEnv.lastDeclared
    rw [List.reverse_append, List.reverse_singleton, List.singleton_append, List.find?_append]
    by_cases ha : E.lower x.1.aliasOrName = k
    · simp [ha]
    · rw [if_neg ha, List.find?_cons_of_neg (by simpa using ha)]
      by_cases hn : E.lower x.1.name = k
      · rw [if_pos hn, List.find?_cons_of_pos (by simpa using hn)]
        rcases ts.reverse.find? _ with _ | y
        · rcases ts.find? _ with _ | z
          · rfl
          · rfl
        · rfl
      · rw [if_neg hn, List.find?_cons_of_neg (by simpa using hn), List.find?_nil, Option.or_none]

theorem mem_values_of_get {d : Dict TableScopePolicy} {k : String} (h : d.get k = some policy) :
    policy ∈ d.values := by
  unfold Dict.get at h
  obtain ⟨x, hx, rfl⟩ := Option.map_eq_some_iff.mp h
  exact List.mem_map_of_mem (List.mem_of_find?_eq_some hx)

/-- A policy that governs a reference is one the guard checks it against. -/
theorem SqlEnv.Governs.mem_candidates (h : E.Governs tables policy l) :
    policy ∈ candidates (E.aliases tables) (E.lookupName l) := by
  unfold candidates
  rcases h with h | ⟨hnone, x, -, h⟩
  · rw [E.get_aliases, h]
    exact List.mem_singleton_self policy
  · rw [E.get_aliases, hnone]
    rcases h with h | h
    · exact mem_values_of_get ((E.get_aliases tables _).trans h)
    · exact mem_values_of_get ((E.get_aliases tables _).trans h)

theorem SqlEnv.lists_of_mem {fields : List String} {name : String} (h : E.lower name ∈ fields) :
    E.lists fields name = true := by
  refine List.any_eq_true.mpr ⟨_, h, ?_⟩
  simp [E.lower_lower]

theorem SqlEnv.mem_of_lists {fields : List String} {name : String}
    (h : E.lists fields name = true)
    (hlower : ∀ field ∈ fields, E.lower field = E.lower name → field = E.lower name) :
    E.lower name ∈ fields := by
  obtain ⟨field, hmem, heq⟩ := List.any_eq_true.mp h
  exact hlower field hmem (of_decide_eq_true heq) ▸ hmem

theorem SqlEnv.checkColumn_eq_ok {aliases : Dict TableScopePolicy}
    {name table tableSql : String} (hlabel : l.focus.label = .column name table tableSql)
    (h : E.checkColumn aliases l = .ok ()) (hp : policy ∈ candidates aliases (E.lower table)) :
    E.lower name ∉ policy.hiddenFields ∧ E.lower name ∉ policy.maskedFields ∧
    (E.lower name ∈ policy.aggregateOnlyFields → insideAggregate l = true) ∧
    ∀ allowed ∈ policy.allowedFields, E.lower name ∈ allowed := by
  unfold SqlEnv.checkColumn at h
  simp only [hlabel] at h
  split_ifs at h with hhidden hmasked haggregate hallowed
  simp only [List.any_eq_true, List.contains_iff_mem, not_exists, not_and] at hhidden hmasked
  simp only [Bool.and_eq_true, List.any_eq_true, List.contains_iff_mem, Bool.not_eq_true',
    not_and, Bool.not_eq_false] at haggregate
  simp only [Bool.not_eq_true', Bool.not_eq_false, List.all_eq_true, List.mem_filterMap,
    List.contains_iff_mem] at hallowed
  exact ⟨hhidden policy hp, hmasked policy hp, fun hmem => haggregate ⟨policy, hp, hmem⟩,
    fun allowed ha => hallowed allowed ⟨policy, hp, ha⟩⟩

theorem SqlEnv.checkStar_eq_ok {aliases : Dict TableScopePolicy} (hlabel : l.focus.label = .star)
    (h : E.checkStar aliases l = .ok ())
    (hp : policy ∈ candidates aliases (E.lower (starTable l))) :
    (policy.restricted && !insideAggregate l) = false := by
  unfold SqlEnv.checkStar at h
  simp only [hlabel] at h
  split_ifs at h with hinside hany
  · rw [hinside, Bool.not_true, Bool.and_false]
  · rw [Bool.not_eq_true, List.any_eq_false] at hany
    rw [Bool.eq_false_of_not_eq_true (hany policy hp), Bool.false_and]

/-- A policy the guard checks a reference against does not forbid it, if it spells the field in
lower case. -/
theorem SqlEnv.not_restricts (h : E.validateColumns statement (E.aliases tables) = .ok ())
    (hl : l ∈ statement.walk) (hgoverns : E.Governs tables policy l)
    (hlower : E.spelledLower policy l = true) : E.restricts policy l = false := by
  obtain ⟨_, hstars, hcolumns⟩ := bind_eq_ok.mp h
  have hmem := hgoverns.mem_candidates
  unfold SqlEnv.lookupName at hmem
  unfold SqlEnv.restricts
  split
  · next name table tableSql hlabel =>
    simp only [hlabel] at hmem
    simp only [SqlEnv.spelledLower, hlabel, List.all_eq_true, Bool.or_eq_true, decide_eq_true_eq,
      ne_eq, List.mem_append, ← imp_iff_not_or] at hlower
    obtain ⟨hhidden, hmasked, haggregate, hallowed⟩ :=
      E.checkColumn_eq_ok hlabel (forM_eq_ok.mp hcolumns l hl) hmem
    have hnotHidden : E.lists policy.hiddenFields name = false := by
      refine Bool.eq_false_of_not_eq_true fun hlists => hhidden ?_
      exact E.mem_of_lists hlists fun field hf => hlower field (.inl (.inl hf))
    have hnotMasked : E.lists policy.maskedFields name = false := by
      refine Bool.eq_false_of_not_eq_true fun hlists => hmasked ?_
      exact E.mem_of_lists hlists fun field hf => hlower field (.inl (.inr hf))
    have hinside : (E.lists policy.aggregateOnlyFields name && !insideAggregate l) = false := by
      rcases hlists : E.lists policy.aggregateOnlyFields name with _ | _
      · rfl
      · rw [haggregate (E.mem_of_lists hlists fun field hf => hlower field (.inr hf))]
        rfl
    have hnotOutside : (policy.allowedFields.any fun allowed => !E.lists allowed name) = false := by
      rcases hfields : policy.allowedFields with _ | allowed
      · rfl
      · rw [Option.any_some, E.lists_of_mem (hallowed allowed hfields), Bool.not_true]
    rw [hnotHidden, hnotMasked, hinside, hnotOutside, Bool.or_self, Bool.or_self, Bool.or_self,
      Bool.and_false]
  · next hlabel =>
    simp only [hlabel] at hmem
    exact E.checkStar_eq_ok hlabel (forM_eq_ok.mp hstars l hl) hmem
  · rfl

theorem SqlEnv.Accepts.declared_eq
    (h : E.Accepts authorization allowedDatabases registry limit statement tables scoping out) :
    E.declared registry statement = tables := by
  unfold SqlEnv.declared
  rw [← h.fst_eq_tableNodes, List.filterMap_map]
  refine (List.filterMap_congr fun x hx => ?_).trans List.filterMap_some
  rw [Function.comp_apply, (h.table_checked hx).1, Option.map_some]

theorem fields_guarded_iff_restrictions_seen (hasColumn : SqlNode → String → Bool)
    {query : String} (hq : E.parse query = some [some statement])
    (h : E.guardSqlQuery query authorization allowedDatabases registry limit = .ok out) :
    E.FieldsGuarded registry hasColumn statement ↔
      E.RestrictionsSeen registry hasColumn statement := by
  obtain ⟨tables, scoping, ha⟩ := E.accepts_of_guard hq h
  constructor
  · intro hguarded l hl n hn policy hpolicy hrestricts
    rw [hguarded l hl n hn policy hpolicy] at hrestricts
    cases hrestricts
  · intro hseen l hl n hn policy hpolicy
    by_contra hrestricts
    obtain ⟨hgoverns, hlower⟩ :=
      hseen l hl n hn policy hpolicy (Bool.eq_true_of_not_eq_false hrestricts)
    rw [ha.declared_eq] at hgoverns
    exact hrestricts (E.not_restricts ha.validated hl hgoverns hlower)

end Seen

/-- `SELECT d.id, SUM(reading) FROM demo_devices d`. -/
def queryOfReading : SqlNode :=
  .node .select [
    .leaf (.column "id" "d" "d"),
    .node (.func "Sum" "SUM" true) [.leaf (.column "reading" "" "")],
    .node .fromClause [.leaf (.table "demo_devices" "" "d")]]

theorem fields_guarded_in_aggregate :
    ∃ out, demoGuard queryOfReading = .ok out ∧
      (demoEnv queryOfReading).FieldsGuarded demoRegistry (fun _ _ => true) queryOfReading := by
  have hok : (demoGuard queryOfReading).isOk = true := by decide +kernel
  have hseen : (demoEnv queryOfReading).RestrictionsSeen demoRegistry (fun _ _ => true)
      queryOfReading := by
    decide +kernel
  obtain ⟨out, h⟩ := exists_eq_ok hok
  exact ⟨out, h, (fields_guarded_iff_restrictions_seen _ rfl h).mpr hseen⟩

/-- `SELECT x.secret FROM demo_devices x WHERE EXISTS (SELECT 1 FROM demo_reference_values x)`. -/
def queryUnderReusedAlias : SqlNode :=
  .node .select [
    .leaf (.column "secret" "x" "x"),
    .node .fromClause [.leaf (.table "demo_devices" "" "x")],
    .node .whereClause [.node (.func "Exists" "EXISTS" false) [.node .select [
      .leaf (.other "Literal"),
      .node .fromClause [.leaf (.table "demo_reference_values" "" "x")]]]]]

/-- `SELECT Secret FROM vault`. -/
def queryOfSpelledField : SqlNode :=
  .node .select [
    .leaf (.column "Secret" "" ""), .node .fromClause [.leaf (.table "vault" "" "")]]

def vaultPolicy : Dict Value := [
  ("version", .str "1"),
  ("tables", .dict [("vault", .dict [
    ("access", .str "reference"), ("hidden_fields", .list [.str "Secret"])])])]

/-- A hidden field is read when its alias is declared again in a subquery, and when the policy does
not spell it in lower case. -/
theorem hidden_field_admitted :
    (∃ out, demoGuard queryUnderReusedAlias = .ok out ∧
      ¬ (demoEnv queryUnderReusedAlias).FieldsGuarded demoRegistry (fun _ _ => true)
        queryUnderReusedAlias) ∧
    ∃ registry out, (demoEnv queryOfSpelledField).registryFromMapping vaultPolicy = .ok registry ∧
      (demoEnv queryOfSpelledField).guardSqlQuery "" demoAuthorization [] registry 100 = .ok out ∧
      ¬ (demoEnv queryOfSpelledField).FieldsGuarded registry (fun _ _ => true)
        queryOfSpelledField := by
  constructor
  · have hok : (demoGuard queryUnderReusedAlias).isOk = true := by decide +kernel
    obtain ⟨out, h⟩ := exists_eq_ok hok
    exact ⟨out, h, by decide +kernel⟩
  · have hread : ((demoEnv queryOfSpelledField).registryFromMapping vaultPolicy).map (fun registry =>
        decide (((demoEnv queryOfSpelledField).guardSqlQuery "" demoAuthorization [] registry
          100).isOk = true ∧ ¬ (demoEnv queryOfSpelledField).FieldsGuarded registry
          (fun _ _ => true) queryOfSpelledField)) = .ok true := by
      decide +kernel
    obtain ⟨registry, hregistry, hread⟩ := map_eq_ok.mp hread
    obtain ⟨hok, hfields⟩ := of_decide_eq_true hread
    obtain ⟨out, h⟩ := exists_eq_ok hok
    exact ⟨registry, out, hregistry, h, hfields⟩

end DeerFlow.Semantic
