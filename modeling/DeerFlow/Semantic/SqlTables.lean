import DeerFlow.Semantic.SqlScope

/-! Which tables an accepted query reads. A name of a common table expression
means that expression only where it is in scope; the guard takes it for one in
the whole statement. -/

namespace DeerFlow.Semantic
open RoseTree

def cteName? : SqlNode → Option String
  | .node (.cte aliasName) _ => some aliasName
  | _ => none

def withNames : SqlNode → List String
  | .node (.withClause _) ctes => ctes.filterMap cteName?
  | _ => []

/-- The common table expressions that a node brings into the scope of its child number `i`. In a
`WITH` clause these are the ones before it, and itself when the clause is recursive; elsewhere those
of the `WITH` clause beside it. -/
def broughtIntoScope : SqlNode → Nat → List String
  | .node (.withClause recursive) ctes, i =>
    (ctes.take (if recursive then i + 1 else i)).filterMap cteName?
  | .node _ children, i => (children.eraseIdx i).flatMap withNames

section Names
variable (E : SqlEnv)

def SqlEnv.cteInScope (l : SqlLoc) (name : String) : Bool :=
  l.above.any fun x => (broughtIntoScope x.1 x.2).any fun cte => E.lower cte = E.lower name

/-- The reference to `t` at `l` means a physical table. -/
def SqlEnv.meansTable (l : SqlLoc) (t : TableNode) : Bool := t.db ≠ "" || !E.cteInScope l t.name

/-- Every physical table a statement reads is registered and not forbidden, lies in no system
database and is reported. -/
def SqlEnv.DeniesByDefault (registry : SqlScopePolicyRegistry) (statement : SqlNode)
    (out : ScopedQuery) : Prop :=
  ∀ l ∈ statement.walk, ∀ t ∈ tableNode? l, E.meansTable l t = true →
    (∃ policy ∈ registry.tables.get (E.lower t.name), policy.access ≠ .forbidden) ∧
    E.lower t.db ∉ systemDatabases ∧ E.lower t.name ∈ out.referencedTables

/-- An unqualified reference that bears the name of a common table expression of the statement
stands where one of that name is in scope. -/
def SqlEnv.CteNamesInScope (statement : SqlNode) : Prop :=
  ∀ l ∈ statement.walk, ∀ t ∈ tableNode? l, t.db = "" →
    E.lower t.name ∈ E.cteNames statement → E.cteInScope l t.name = true

instance (statement : SqlNode) : Decidable (E.CteNamesInScope statement) :=
  inferInstanceAs (Decidable (∀ l ∈ statement.walk, ∀ t ∈ tableNode? l, t.db = "" →
    E.lower t.name ∈ E.cteNames statement → E.cteInScope l t.name = true))

end Names

section Denied
variable {E : SqlEnv} {authorization : AuthorizationContext} {allowedDatabases : List String}
  {registry : SqlScopePolicyRegistry} {limit : Int} {statement : SqlNode}
  {tables : List (TableNode × TableScopePolicy)} {scoping : Scoping} {out : ScopedQuery}

theorem SqlEnv.mem_referencedTables {x : TableNode × TableScopePolicy} (hx : x ∈ tables) :
    E.lower x.1.name ∈ E.referencedTables tables := by
  unfold SqlEnv.referencedTables sorted
  rw [List.mem_insertionSort, List.mem_dedup]
  exact List.mem_map.mpr ⟨x, hx, rfl⟩

/-- A reference the guard does not take for a common table expression is authorized. -/
theorem SqlEnv.Accepts.authorized
    (h : E.Accepts authorization allowedDatabases registry limit statement tables scoping out)
    {l : SqlLoc} {t : TableNode} (hl : l ∈ statement.walk) (ht : t ∈ tableNode? l)
    (hname : t.db ≠ "" ∨ E.lower t.name ∉ E.cteNames statement) :
    (∃ policy ∈ registry.tables.get (E.lower t.name), policy.access ≠ .forbidden) ∧
    E.lower t.db ∉ systemDatabases ∧ E.lower t.name ∈ out.referencedTables := by
  obtain ⟨policy, hx⟩ := h.exists_table hl ht hname
  obtain ⟨hget, hacc, hdb⟩ := h.table_checked hx
  refine ⟨⟨policy, hget, hacc⟩, hdb, ?_⟩
  rw [h.referenced]
  exact E.mem_referencedTables hx

theorem denies_by_default_iff_cte_names_in_scope {query : String}
    (hq : E.parse query = some [some statement])
    (h : E.guardSqlQuery query authorization allowedDatabases registry limit = .ok out) :
    E.DeniesByDefault registry statement out ↔ E.CteNamesInScope statement := by
  obtain ⟨tables, scoping, ha⟩ := E.accepts_of_guard hq h
  constructor
  · -- a name of a common table expression is never registered
    intro hdeny l hl t ht hdb hcte
    by_contra hscope
    rw [Bool.not_eq_true] at hscope
    have hmeans : E.meansTable l t = true := by simp [SqlEnv.meansTable, hscope]
    obtain ⟨⟨policy, hget, -⟩, -⟩ := hdeny l hl t ht hmeans
    rw [ha.unshadowed _ hcte] at hget
    cases hget
  · intro hscope l hl t ht hmeans
    refine ha.authorized hl ht ?_
    by_contra hnot
    push Not at hnot
    have hin := hscope l hl t ht hnot.1 hnot.2
    simp [SqlEnv.meansTable, hnot.1, hin] at hmeans

end Denied

/-- `WITH p AS (SELECT id FROM demo_devices) SELECT p.id FROM p`. -/
def queryThroughCte : SqlNode :=
  .node .select [
    .node (.withClause false) [.node (.cte "p") [.node .select [
      .leaf (.column "id" "" ""), .node .fromClause [.leaf (.table "demo_devices" "" "")]]]],
    .leaf (.column "id" "p" "p"),
    .node .fromClause [.leaf (.table "p" "" "")]]

theorem denies_by_default_through_cte :
    ∃ out, demoGuard queryThroughCte = .ok out ∧
      (demoEnv queryThroughCte).DeniesByDefault demoRegistry queryThroughCte out := by
  have hok : (demoGuard queryThroughCte).isOk = true := by decide +kernel
  have hscope : (demoEnv queryThroughCte).CteNamesInScope queryThroughCte := by decide +kernel
  obtain ⟨out, h⟩ := exists_eq_ok hok
  exact ⟨out, h, (denies_by_default_iff_cte_names_in_scope rfl h).mpr hscope⟩

/-- `WITH secret AS (SELECT id FROM secret) SELECT secret.id FROM secret, demo_sites`. -/
def queryUnderCteName : SqlNode :=
  .node .select [
    .node (.withClause false) [.node (.cte "secret") [.node .select [
      .leaf (.column "id" "" ""), .node .fromClause [.leaf (.table "secret" "" "")]]]],
    .leaf (.column "id" "secret" "secret"),
    .node .fromClause [.leaf (.table "secret" "" "")],
    .node .join [.leaf (.table "demo_sites" "" "")]]

/-- The body of the expression `secret` reads the unregistered table `secret`. -/
theorem cte_name_admits_unregistered_table :
    ¬ ∀ (statement : SqlNode) (out : ScopedQuery), demoGuard statement = .ok out →
      (demoEnv statement).DeniesByDefault demoRegistry statement out := by
  intro hall
  have hok : (demoGuard queryUnderCteName).isOk = true := by decide +kernel
  have hread : ∃ l ∈ queryUnderCteName.walk, ∃ t ∈ tableNode? l,
      (demoEnv queryUnderCteName).meansTable l t = true ∧
      demoRegistry.tables.get ((demoEnv queryUnderCteName).lower t.name) = none := by
    decide +kernel
  obtain ⟨out, h⟩ := exists_eq_ok hok
  obtain ⟨l, hl, t, ht, hmeans, hnone⟩ := hread
  obtain ⟨⟨policy, hget, -⟩, -⟩ := hall queryUnderCteName out h l hl t ht hmeans
  rw [hnone] at hget
  cases hget

end DeerFlow.Semantic
