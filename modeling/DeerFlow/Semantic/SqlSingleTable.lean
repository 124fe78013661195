import DeerFlow.Semantic.SqlLimits

/-! What the guard makes of a statement that reads one table and bounds no rows: the table, or the
generated subquery over it, and a limit of its own. -/

namespace DeerFlow.Semantic
open RoseTree

/-- No table and no clause about rows is among these nodes. -/
def Plain (ns : List SqlNode) : Prop :=
  ∀ n ∈ ns, ∀ k ∈ n.labels, isTable k = false ∧ isRowClause k = false

theorem plain_append {ns ms : List SqlNode} : Plain (ns ++ ms) ↔ Plain ns ∧ Plain ms := by
  unfold Plain
  exact List.forall_mem_append

/-- A query of one table between the selected expressions and the other clauses. -/
def singleTable (front back : List SqlNode) (source : SqlNode) : SqlNode :=
  .node .select (front ++ .node .fromClause [source] :: back)

section Modify
variable {α : Type*} {f : α → α} {a : α} {xs ys : List α}

theorem modify_length_append : (xs ++ a :: ys).modify xs.length f = xs ++ f a :: ys := by
  induction xs with
  | nil => rfl
  | cons x xs ih =>
    rw [List.cons_append, List.length_cons, List.modify_succ_cons, ih]
    rfl

end Modify

section Single
variable {E : SqlEnv} {authorization : AuthorizationContext} {allowedDatabases : List String}
  {registry : SqlScopePolicyRegistry} {limit : Int} {front back : List SqlNode}
  {name db : String} {tables : List (TableNode × TableScopePolicy)} {scoping : Scoping}
  {out : ScopedQuery}

theorem label_mem_labels {t n : SqlNode} {p : NodePath} (h : t.get? p = some n) :
    n.label ∈ t.labels := by
  obtain ⟨l, hl, -, rfl⟩ := exists_mem_walk h
  exact mem_labels.mpr ⟨l, hl, rfl⟩

theorem isTable_of_plain {ns : List SqlNode} (hns : Plain ns) {c n : SqlNode} {p : NodePath}
    (hc : c ∈ ns) (hn : c.get? p = some n) : isTable n.label = false :=
  (hns c hc _ (label_mem_labels hn)).1

theorem path_of_fromClause {n : SqlNode} {p : NodePath}
    (hn : (node .fromClause [leaf (.table name db "")] : SqlNode).get? p = some n)
    (htable : isTable n.label = true) : p = [0] ∧ n = leaf (.table name db "") := by
  match p with
  | [] =>
    cases hn
    cases htable
  | [0] => exact ⟨rfl, (Option.some.inj hn).symm⟩
  | 0 :: _ :: _ => cases hn
  | (_ + 1) :: _ => cases hn

theorem path_of_singleTable (hfront : Plain front) (hback : Plain back) {n : SqlNode}
    {p : NodePath}
    (hn : (singleTable front back (.leaf (.table name db ""))).get? p = some n)
    (htable : isTable n.label = true) :
    p = [front.length, 0] ∧ n = .leaf (.table name db "") := by
  cases p with
  | nil =>
    obtain rfl := Option.some.inj (by simpa using hn)
    cases htable
  | cons i p =>
    rw [get?_cons, singleTable, children, List.getElem?_append] at hn
    obtain ⟨c, hc, hget⟩ := Option.bind_eq_some_iff.mp hn
    split_ifs at hc with hi
    · rw [isTable_of_plain hfront (List.mem_of_getElem? hc) hget] at htable
      cases htable
    · rw [List.getElem?_cons] at hc
      split_ifs at hc with hzero
      · cases hc
        obtain rfl : i = front.length := by omega
        obtain ⟨rfl, rfl⟩ := path_of_fromClause hget htable
        exact ⟨rfl, rfl⟩
      · rw [isTable_of_plain hback (List.mem_of_getElem? hc) hget] at htable
        cases htable

/-- The values that the scope compares a table's column with. -/
def scopeIds (authorization : AuthorizationContext) (policy : TableScopePolicy) : List String :=
  if policy.access = .scoped ∧ authorization.scopeMode ≠ .tenantAll then
    resourceIds authorization (policy.scopeDimension.getD "")
  else []

section Emitted

def placeholderName? : SqlKind → Option String
  | .placeholder name => some name
  | _ => none

/-- The placeholders below these nodes, from left to right. -/
def placeholders (ns : List SqlNode) : List String :=
  (ns.flatMap labels).filterMap placeholderName?

theorem placeholders_scopedSource {column aliasName : String} {names : List String} :
    placeholders [scopedSource (inPredicate column names) aliasName
      (.leaf (.table name db ""))] = names := by
  unfold placeholders
  rw [List.flatMap_singleton, labels_scopedSource, labels_inPredicate]
  have hnames : (names.map SqlKind.placeholder).filterMap placeholderName? = names := by
    rw [List.filterMap_map]
    exact List.filterMap_some
  exact hnames

theorem rows_scopedSource {column aliasName : String} {names : List String} :
    ∀ k ∈ (scopedSource (inPredicate column names) aliasName
      (.leaf (.table name db "")) : SqlNode).labels, isRowClause k = false := by
  rw [labels_scopedSource, labels_inPredicate]
  simp [isRowClause, label, children, dropAlias]

theorem map_clampLimit_eq_self {bound : Nat} {t : SqlNode}
    (ht : ∀ k ∈ t.labels, isRowClause k = false) : t.map (clampLimit bound) = t := by
  refine map_eq_self fun k hk => clampLimit_of_not_limit ?_
  have hrow := ht k hk
  cases k with
  | limit count => cases hrow
  | _ => rfl

theorem map_clampLimit_singleTable {bound : Nat} {source : SqlNode} (hfront : Plain front)
    (hback : Plain back) (hsource : ∀ k ∈ source.labels, isRowClause k = false) :
    (singleTable front back source).map (clampLimit bound) = singleTable front back source := by
  refine map_clampLimit_eq_self ?_
  rw [singleTable, labels_node, List.flatMap_append, List.flatMap_cons, labels_node,
    List.flatMap_singleton]
  intro k hk
  simp only [List.mem_cons, List.mem_append, List.mem_flatMap] at hk
  rcases hk with rfl | ⟨n, hn, hk⟩ | (rfl | hk) | ⟨n, hn, hk⟩
  · rfl
  · exact (hfront n hn k hk).2
  · rfl
  · exact hsource k hk
  · exact (hback n hn k hk).2

theorem addLimit_singleTable {bound : Nat} {source : SqlNode} (hfront : Plain front)
    (hback : Plain back) : addLimit bound (singleTable front back source) =
      singleTable front (back ++ [.leaf (.limit (some bound))]) source := by
  have hroot {ns : List SqlNode} (hns : Plain ns) : ∀ n ∈ ns, isRowLimit n.label = false := by
    intro n hn
    have hmem : n.label ∈ n.labels := by
      rw [labels_eq]
      exact List.mem_cons_self
    have hrow := (hns n hn _ hmem).2
    cases hlabel : n.label with
    | limit count | fetch count => simp [hlabel, isRowClause] at hrow
    | _ => rfl
  have hnone : ((singleTable front back source).children.any fun c => isRowLimit c.label) =
      false := by
    rw [List.any_eq_false]
    intro c hc
    rw [Bool.not_eq_true]
    rcases List.mem_append.mp hc with hc | hc
    · exact hroot hfront c hc
    · rcases List.mem_cons.mp hc with rfl | hc
      · rfl
      · exact hroot hback c hc
  rw [addLimit, hnone, if_neg Bool.false_ne_true]
  unfold singleTable
  rw [label, children, List.append_assoc, List.cons_append]

end Emitted

section Accepted
variable (h : E.Accepts authorization allowedDatabases registry limit
    (singleTable front back (.leaf (.table name db ""))) tables scoping out)
  (hfront : Plain front) (hback : Plain back)
include h hfront hback

theorem SqlEnv.Accepts.eq_of_singleTable {x : TableNode × TableScopePolicy} (hx : x ∈ tables) :
    x.1 = ⟨[front.length, 0], name, db, ""⟩ ∧
      registry.tables.get (E.lower name) = some x.2 := by
  have hmem : x.1 ∈ E.tableNodes (singleTable front back (.leaf (.table name db ""))) :=
    h.fst_eq_tableNodes ▸ List.mem_map_of_mem hx
  obtain ⟨l, hl, ht⟩ := List.mem_filterMap.mp (List.mem_filter.mp hmem).1
  obtain ⟨hpath, hlabel⟩ := path_of_tableNode ht
  have htable : isTable l.focus.label = true := by
    rw [hlabel]
    rfl
  obtain ⟨hp, hleaf⟩ := path_of_singleTable hfront hback (get?_of_mem_walk hl) htable
  rw [hleaf] at hlabel
  have heq : x.1 = ⟨[front.length, 0], name, db, ""⟩ := by
    obtain ⟨⟨path, name', db', aliasName⟩, policy⟩ := x
    simp only [label, SqlKind.table.injEq] at hlabel
    obtain ⟨rfl, rfl, rfl⟩ := hlabel
    simp only at hpath
    rw [hpath, hp]
  refine ⟨heq, ?_⟩
  have hpolicy := (h.table_checked hx).1
  rwa [heq] at hpolicy

theorem SqlEnv.Accepts.tables_of_singleTable :
    ∃ policy, registry.tables.get (E.lower name) = some policy ∧
      tables = [(⟨[front.length, 0], name, db, ""⟩, policy)] := by
  have hall := fun x hx => h.eq_of_singleTable hfront hback (x := x) hx
  have hpair := h.pairwise_zipIdx
  cases tables with
  | nil =>
    have hnone : E.tableNodes (singleTable front back (.leaf (.table name db ""))) = [] :=
      h.fst_eq_tableNodes.symm
    have hchecked := h.checked
    rw [SqlEnv.checkTables, hnone] at hchecked
    cases hchecked
  | cons x rest =>
    obtain ⟨hx, hpolicy⟩ := hall x List.mem_cons_self
    cases rest with
    | nil => exact ⟨x.2, hpolicy, by rw [← hx]⟩
    | cons y rest =>
      -- a second one would be at the same place
      obtain ⟨hy, -⟩ := hall y (List.mem_cons_of_mem _ List.mem_cons_self)
      rw [List.zipIdx_cons, List.zipIdx_cons, List.pairwise_cons] at hpair
      have hne := (hpair.1 (y, 1) List.mem_cons_self).2
      rw [hx, hy] at hne
      exact absurd List.prefix_rfl hne

/-- What is put in the place of the table, and the values that go with it. -/
theorem SqlEnv.Accepts.scoping_of_singleTable :
    ∃ policy, registry.tables.get (E.lower name) = some policy ∧
      ((scopeIds authorization policy = [] ∧
        scoping.statement = singleTable front back (.leaf (.table name db "")) ∧
        scoping.parameters = []) ∨
      ∃ column,
        scoping.statement = singleTable front back (scopedSource (inPredicate column
          (parametersOf "scope_0" (scopeIds authorization policy)).keys) name
          (.leaf (.table name db ""))) ∧
        scoping.parameters =
          Dict.update [] (parametersOf "scope_0" (scopeIds authorization policy))) := by
  obtain ⟨policy, hpolicy, rfl⟩ := h.tables_of_singleTable hfront hback
  refine ⟨policy, hpolicy, ?_⟩
  have hscoped := h.rewritten
  unfold scopeTables at hscoped
  rw [List.zipIdx_singleton, List.foldlM_cons] at hscoped
  obtain ⟨s, hs, hdone⟩ := bind_eq_ok.mp hscoped
  cases hdone
  unfold scopeTable at hs
  simp only at hs
  split_ifs at hs with hfree
  · left
    cases hs
    refine ⟨?_, rfl, rfl⟩
    rw [scopeIds, if_neg]
    tauto
  · right
    obtain ⟨hacc, hall⟩ := not_or.mp hfree
    split at hs
    · next dimension column hdim hcol =>
      obtain ⟨values, hvalues, hs⟩ := bind_eq_ok.mp hs
      cases hs
      have hids : values = scopeIds authorization policy := by
        rw [scopeIds, if_pos ⟨not_not.mp hacc, hall⟩, hdim, Option.getD_some]
        unfold scopeValues at hvalues
        cases hmode : authorization.scopeMode with
        | tenantAll => exact absurd hmode hall
        | none | scopeRef => simp [hmode] at hvalues
        | resourceSet =>
          simp only [hmode] at hvalues
          split_ifs at hvalues
          exact (Except.ok.inj hvalues).symm
      subst hids
      refine ⟨column, ?_, rfl⟩
      have hmodify : modifyAt (scopedSource (inPredicate column
            (parametersOf "scope_0" (scopeIds authorization policy)).keys) name)
          [front.length, 0] (singleTable front back (.leaf (.table name db ""))) =
          singleTable front back (scopedSource (inPredicate column
            (parametersOf "scope_0" (scopeIds authorization policy)).keys) name
            (.leaf (.table name db ""))) := by
        rw [singleTable, modifyAt, label, children, modify_length_append, modifyAt, label, children]
        rfl
      exact hmodify
    · cases hs

theorem SqlEnv.Accepts.sql_of_singleTable :
    ∃ policy source, registry.tables.get (E.lower name) = some policy ∧
      out.sql = singleTable front (back ++ [.leaf (.limit (some (boundedLimit limit)))]) source ∧
      placeholders [source] = (parametersOf "scope_0" (scopeIds authorization policy)).keys ∧
      out.parameters = Dict.update [] (parametersOf "scope_0" (scopeIds authorization policy)) := by
  obtain ⟨policy, hpolicy, hscoping⟩ := h.scoping_of_singleTable hfront hback
  have hsource : ∃ source, scoping.statement = singleTable front back source ∧
      (∀ k ∈ source.labels, isRowClause k = false) ∧
      placeholders [source] = (parametersOf "scope_0" (scopeIds authorization policy)).keys ∧
      scoping.parameters =
        Dict.update [] (parametersOf "scope_0" (scopeIds authorization policy)) := by
    rcases hscoping with ⟨hids, hstatement, hparameters⟩ | ⟨column, hstatement, hparameters⟩
    · refine ⟨_, hstatement, by simp [labels_node, isRowClause], ?_, ?_⟩
      · rw [hids]
        rfl
      · rw [hparameters, hids]
        rfl
    · exact ⟨_, hstatement, rows_scopedSource, placeholders_scopedSource, hparameters⟩
  obtain ⟨source, hstatement, hrows, hplaceholders, hparameters⟩ := hsource
  refine ⟨policy, source, hpolicy, ?_, hplaceholders, h.parameters.trans hparameters⟩
  rw [h.sql_eq, hstatement, map_clampLimit_singleTable hfront hback hrows,
    addLimit_singleTable hfront hback]

end Accepted
end Single

end DeerFlow.Semantic
