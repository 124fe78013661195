import DeerFlow.Semantic.SemanticQuery
import DeerFlow.Semantic.SqlSingleTable

/-! The names that the values of filters get, what the conditions compare, and what is read off a
statement's clauses. -/

namespace DeerFlow.Semantic.Ontology
open RoseTree

/-- The name that each value of a filter is created for. -/
def bindingsOf (stem : String) (f : SemanticFilter) : Dict Value :=
  match f.operator, f.value with
  | .isIn, .list values => values.zipIdx.map fun x => (stem ++ "_" ++ toString x.2, x.1)
  | _, value => [(stem, value)]

def filterBindings (filters : List SemanticFilter) : Dict Value :=
  filters.zipIdx.flatMap fun x => bindingsOf ("filter_" ++ toString x.2) x.1

def columnName? : SqlKind → Option String
  | .column name _ _ => some name
  | _ => none

/-- The columns below these nodes, from left to right. -/
def columnsOf (ns : List SqlNode) : List String := (ns.flatMap labels).filterMap columnName?

section Names
variable {stem : String} {i j : Nat} {f g : SemanticFilter} {filters : List SemanticFilter}

theorem mem_keys_bindingsOf {name : String} (h : name ∈ (bindingsOf stem f).keys) :
    name = stem ∨ ∃ k : Nat, name = stem ++ "_" ++ toString k := by
  unfold bindingsOf at h
  split at h
  · obtain ⟨item, hitem, rfl⟩ := List.mem_map.mp h
    obtain ⟨x, -, rfl⟩ := List.mem_map.mp hitem
    exact .inr ⟨x.2, rfl⟩
  · exact .inl (List.mem_singleton.mp h)

theorem nodup_keys_bindingsOf : (bindingsOf ("filter_" ++ toString i) f).keys.Nodup := by
  unfold bindingsOf
  split
  · next values _ _ =>
    have hidx : (values.zipIdx.map Prod.snd).Nodup := by
      rw [List.zipIdx_map_snd]
      exact List.nodup_range'
    rw [Dict.keys, List.map_map]
    refine List.pairwise_map.mpr ((List.pairwise_map.mp hidx).imp fun hne heq => hne ?_)
    exact (numberedName_injective heq).2
  · exact List.nodup_singleton _

theorem disjoint_bindingsOf (hne : i ≠ j) :
    List.Disjoint (bindingsOf ("filter_" ++ toString i) f).keys
      (bindingsOf ("filter_" ++ toString j) g).keys := by
  intro name hf hg
  rcases mem_keys_bindingsOf hf with rfl | ⟨k, rfl⟩
  · rcases mem_keys_bindingsOf hg with heq | ⟨k, heq⟩
    · exact hne (stem_toString_injective heq)
    · exact stem_toString_ne_numberedName heq
  · rcases mem_keys_bindingsOf hg with heq | ⟨k', heq⟩
    · exact stem_toString_ne_numberedName heq.symm
    · exact hne (numberedName_injective heq).1

theorem nodup_keys_filterBindings : (filterBindings filters).keys.Nodup := by
  have hidx : (filters.zipIdx.map Prod.snd).Nodup := by
    rw [List.zipIdx_map_snd]
    exact List.nodup_range'
  unfold filterBindings Dict.keys
  rw [List.map_flatMap]
  refine List.nodup_flatMap.mpr ⟨fun x _ => nodup_keys_bindingsOf, ?_⟩
  exact (List.pairwise_map.mp hidx).imp fun hne => disjoint_bindingsOf hne

theorem ne_scope_of_mem_filterBindings {name : String}
    (h : name ∈ (filterBindings filters).keys) (k : Nat) :
    name ≠ "scope_0" ++ "_" ++ toString k := by
  obtain ⟨item, hitem, rfl⟩ := List.mem_map.mp h
  obtain ⟨x, -, hitem⟩ := List.mem_flatMap.mp hitem
  have hstart : ∃ rest, item.1.toList = 'f' :: rest := by
    rcases mem_keys_bindingsOf (List.mem_map_of_mem (f := Prod.fst) hitem) with heq | ⟨k, heq⟩
    · rw [heq, String.toList_append]
      exact ⟨_, rfl⟩
    · rw [heq]
      simp only [String.toList_append, List.append_assoc]
      exact ⟨_, rfl⟩
  intro heq
  obtain ⟨rest, hrest⟩ := hstart
  rw [heq] at hrest
  simp only [String.toList_append, List.append_assoc] at hrest
  cases hrest

end Names

section Updates
variable {β : Type}

theorem get_foldl_update {ds : List (Dict β)} (hnodup : (Dict.keys ds.flatten).Nodup)
    {x : String × β} (hx : x ∈ ds.flatten) :
    Dict.get (ds.foldl Dict.update []) x.1 = some x.2 := by
  induction ds using List.reverseRecOn with
  | nil => cases hx
  | append_singleton ds d ih =>
    rw [List.flatten_append, List.flatten_singleton] at hnodup hx
    unfold Dict.keys at hnodup
    rw [List.map_append] at hnodup
    obtain ⟨hds, hd, hdisjoint⟩ := List.nodup_append'.mp hnodup
    rw [List.foldl_append, List.foldl_cons, List.foldl_nil, Dict.get_update]
    rcases List.mem_append.mp hx with hx | hx
    · have hnone : d.get x.1 = none := by
        have hnot : x.1 ∉ d.keys := fun hmem => hdisjoint (List.mem_map_of_mem hx) hmem
        rwa [Dict.mem_keys, Bool.not_eq_true, Option.isSome_eq_false_iff,
          Option.isNone_iff_eq_none] at hnot
      rw [hnone, Option.none_or]
      exact ih hds hx
    · rw [Dict.get_of_mem hd hx, Option.some_or]

end Updates

section Clauses
variable {β : Type} {read : SqlKind → Option β} {c : SqlNode} {cs ns ms : List SqlNode}

/-- What is read off the labels below some nodes. -/
def readOff (read : SqlKind → Option β) (ns : List SqlNode) : List β :=
  (ns.flatMap labels).filterMap read

theorem readOff_cons : readOff read (c :: cs) = c.labels.filterMap read ++ readOff read cs := by
  rw [readOff, List.flatMap_cons, List.filterMap_append]
  rfl

theorem readOff_append : readOff read (ns ++ ms) = readOff read ns ++ readOff read ms := by
  rw [readOff, List.flatMap_append, List.filterMap_append]
  rfl

theorem readOff_wrapConnector (hread : ∀ name, read (.other name) = none) (n : SqlNode) :
    (wrapConnector n).labels.filterMap read = n.labels.filterMap read := by
  unfold wrapConnector
  split_ifs
  · rw [labels_node, List.flatMap_singleton, List.filterMap_cons, hread]
  · rfl

theorem readOff_conjunction (hread : ∀ name, read (.other name) = none) :
    (conjunction c cs).labels.filterMap read = readOff read (c :: cs) := by
  unfold conjunction
  induction cs generalizing c with
  | nil =>
    rw [List.foldl_nil, readOff_cons]
    exact (List.append_nil _).symm
  | cons d cs ih =>
    rw [List.foldl_cons, ih, readOff_cons, readOff_cons, readOff_cons, labels_node,
      List.filterMap_cons, hread, List.flatMap_cons, List.flatMap_singleton,
      List.filterMap_append, readOff_wrapConnector hread, readOff_wrapConnector hread,
      List.append_assoc]

theorem readOff_whereClause (hread : ∀ name, read (.other name) = none)
    (hwhere : read .whereClause = none) : readOff read (whereClause cs) = readOff read cs := by
  cases cs with
  | nil => rfl
  | cons c cs =>
    rw [whereClause, readOff, List.flatMap_singleton, labels_node, List.flatMap_singleton,
      List.filterMap_cons, hwhere]
    exact readOff_conjunction hread

theorem readOff_groupClause (hread : ∀ name, read (.other name) = none) :
    readOff read (groupClause cs) = readOff read cs := by
  cases cs with
  | nil => rfl
  | cons c cs =>
    rw [groupClause, readOff, List.flatMap_singleton, labels_node, List.filterMap_cons, hread]
    rfl

def unplain? (k : SqlKind) : Option SqlKind :=
  if isTable k = true ∨ isRowClause k = true then some k else none

theorem plain_iff : Plain ns ↔ readOff unplain? ns = [] := by
  unfold Plain readOff
  rw [List.filterMap_eq_nil_iff]
  simp only [List.mem_flatMap, unplain?, ite_eq_right_iff, reduceCtorEq, imp_false, not_or,
    Bool.not_eq_true]
  exact ⟨fun h k ⟨n, hn, hk⟩ => h n hn k hk, fun h n hn k hk => h k ⟨n, hn, hk⟩⟩

theorem readOff_clauses {s : SelectStatement} (hread : ∀ name, read (.other name) = none)
    (hwhere : read .whereClause = none) :
    readOff read s.clauses = readOff read s.conditions ++ readOff read s.groupBy := by
  rw [SelectStatement.clauses, readOff_append, readOff_whereClause hread hwhere,
    readOff_groupClause hread]

theorem columnsOf_append : columnsOf (ns ++ ms) = columnsOf ns ++ columnsOf ms := readOff_append

theorem placeholders_append :
    placeholders (ns ++ ms) = placeholders ns ++ placeholders ms := readOff_append

theorem plain_clauses {s : SelectStatement} (hconditions : Plain s.conditions)
    (hgroup : Plain s.groupBy) : Plain s.clauses := by
  rw [plain_iff, readOff_clauses (fun _ => rfl) rfl, plain_iff.mp hconditions,
    plain_iff.mp hgroup]
  rfl

end Clauses

section Conditions
variable {column stem : String} {f : SemanticFilter} {c : SqlNode} {values : Dict Value}

theorem labels_columnNode : (columnNode column).labels = [.column column "" ""] := rfl

/-- A condition compares one column with the placeholders that the filter's values are for. -/
structure ComparesWith (column : String) (values : Dict Value) (c : SqlNode) : Prop where
  columns : columnsOf [c] = [column]
  placeholders : placeholders [c] = values.keys
  plain : Plain [c]

theorem comparesWith_inPredicate : ComparesWith column values (inPredicate column values.keys) := by
  have hplaceholders : ((values.keys.map SqlKind.placeholder).filterMap placeholderName?) =
      values.keys := by
    rw [List.filterMap_map]
    exact List.filterMap_some
  have hcolumns : (values.keys.map SqlKind.placeholder).filterMap columnName? = [] :=
    List.filterMap_eq_nil_iff.mpr (List.forall_mem_map.mpr fun _ _ => rfl)
  refine ⟨?_, ?_, ?_⟩
  · rw [columnsOf, List.flatMap_singleton, labels_inPredicate]
    exact congrArg (column :: ·) hcolumns
  · rw [placeholders, List.flatMap_singleton, labels_inPredicate]
    exact hplaceholders
  · unfold Plain
    rw [List.forall_mem_singleton, labels_inPredicate]
    simp [isTable, isRowClause]

theorem comparesWith_comparison (className : String) (value : Value) :
    ComparesWith column [(stem, value)]
      (.node (.other className) [columnNode column, .leaf (.placeholder stem)]) where
  columns := rfl
  placeholders := rfl
  plain := by
    unfold Plain
    rw [List.forall_mem_singleton, labels_node]
    simp [labels_columnNode, labels_node, isTable, isRowClause]

theorem condition_eq_ok (h : condition column f.operator stem f.value = .ok (c, values)) :
    values = bindingsOf stem f ∧ ComparesWith column values c := by
  obtain ⟨field, operator, value⟩ := f
  simp only at h
  unfold condition at h
  split at h
  · next item items =>
    split_ifs at h
    obtain ⟨rfl, rfl⟩ := Prod.mk.inj (Except.ok.inj h)
    exact ⟨rfl, comparesWith_inPredicate⟩
  · cases h
  · next hnot hin =>
    obtain ⟨rfl, rfl⟩ := Prod.mk.inj (Except.ok.inj h)
    refine ⟨?_, comparesWith_comparison _ _⟩
    unfold bindingsOf
    split
    · next values hop hval =>
      cases hop
      exact absurd rfl (by assumption)
    · rfl

end Conditions

section Filters
variable {obj : ObjectDefinition} {allowedFields : Option (List String)}
  {statement : SelectStatement} {filters : List SemanticFilter}

/-- The column of one of the object's properties. -/
def ObjectDefinition.columnOf (obj : ObjectDefinition) (field : String) : Option String :=
  (obj.properties.get field).map PropertyDefinition.column

/-- The condition and the values that the filter number `x.2` becomes. -/
def FilterCompiled (obj : ObjectDefinition) (x : SemanticFilter × Nat)
    (compiled : SqlNode × Dict Value) : Prop :=
  ∃ prop, obj.properties.get x.1.field = some prop ∧ prop.filterable = true ∧
    compiled.2 = bindingsOf ("filter_" ++ toString x.2) x.1 ∧
    ComparesWith prop.column compiled.2 compiled.1

theorem applyFilter_eq_ok {s s' : SelectStatement × Dict Value} {x : SemanticFilter × Nat}
    (h : applyFilter obj allowedFields s x = .ok s') :
    ∃ compiled, FilterCompiled obj x compiled ∧
      s' = ({ s.1 with conditions := s.1.conditions ++ [compiled.1] },
        s.2.update compiled.2) := by
  unfold applyFilter at h
  split_ifs at h
  obtain ⟨prop, hprop, h⟩ := bind_eq_ok.mp h
  simp only at h
  split_ifs at h with hfilterable
  obtain ⟨⟨c, values⟩, hcondition, h⟩ := bind_eq_ok.mp h
  cases h
  obtain ⟨hvalues, hcompares⟩ := condition_eq_ok hcondition
  rw [Bool.not_eq_true', Bool.not_eq_false] at hfilterable
  exact ⟨(c, values), ⟨prop, OntologyRegistry.property_eq_ok.mp hprop, hfilterable, hvalues,
    hcompares⟩, rfl⟩

theorem applyFilters_eq_ok {s : SelectStatement} {parameters : Dict Value}
    (h : applyFilters statement obj filters allowedFields = .ok (s, parameters)) :
    ∃ compiled, List.Forall₂ (FilterCompiled obj) filters.zipIdx compiled ∧
      s = { statement with conditions := statement.conditions ++ compiled.map Prod.fst } ∧
      parameters = (compiled.map Prod.snd).foldl Dict.update [] := by
  refine foldlM_invariant (motive := fun done (t : SelectStatement × Dict Value) =>
    ∃ compiled, List.Forall₂ (FilterCompiled obj) done compiled ∧
      t.1 = { statement with conditions := statement.conditions ++ compiled.map Prod.fst } ∧
      t.2 = (compiled.map Prod.snd).foldl Dict.update []) ?_ ?_ h
  · exact ⟨[], .nil, by simp, rfl⟩
  · rintro done x t t' - ⟨compiled, hcompiled, hstatement, hparameters⟩ hstep
    obtain ⟨new, hnew, rfl⟩ := applyFilter_eq_ok hstep
    refine ⟨compiled ++ [new], List.rel_append hcompiled (.cons hnew .nil), ?_, ?_⟩
    · rw [hstatement]
      simp
    · rw [hparameters]
      simp

section Compiled
variable {xs : List (SemanticFilter × Nat)} {compiled : List (SqlNode × Dict Value)}

theorem columnsOf_compiled (h : List.Forall₂ (FilterCompiled obj) xs compiled) :
    (columnsOf (compiled.map Prod.fst)).map some =
      xs.map fun x => obj.columnOf x.1.field := by
  induction h with
  | nil => rfl
  | @cons x y xs ys hxy _ ih =>
    obtain ⟨prop, hprop, -, -, hcompares⟩ := hxy
    have hcolumns := hcompares.columns
    rw [columnsOf, List.flatMap_singleton] at hcolumns
    have hcolumn : some prop.column = obj.columnOf x.1.field := by
      rw [ObjectDefinition.columnOf, hprop]
      rfl
    rw [List.map_cons, columnsOf, List.flatMap_cons, List.filterMap_append, hcolumns,
      List.map_append]
    exact congrArg₂ List.append (congrArg ([·]) hcolumn) ih

theorem placeholders_compiled (h : List.Forall₂ (FilterCompiled obj) xs compiled) :
    placeholders (compiled.map Prod.fst) =
      Dict.keys (xs.flatMap fun x => bindingsOf ("filter_" ++ toString x.2) x.1) := by
  induction h with
  | nil => rfl
  | @cons x y xs ys hxy _ ih =>
    obtain ⟨prop, -, -, hvalues, hcompares⟩ := hxy
    have hplaceholders := hcompares.placeholders
    rw [placeholders, List.flatMap_singleton] at hplaceholders
    unfold Dict.keys at ih ⊢
    rw [List.map_cons, placeholders, List.flatMap_cons, List.filterMap_append, hplaceholders,
      hvalues, List.flatMap_cons, List.map_append, ← ih]
    rfl

theorem values_compiled (h : List.Forall₂ (FilterCompiled obj) xs compiled) :
    (compiled.map Prod.snd).flatten =
      xs.flatMap fun x => bindingsOf ("filter_" ++ toString x.2) x.1 := by
  induction h with
  | nil => rfl
  | @cons x y xs ys hxy _ ih =>
    obtain ⟨prop, -, -, hvalues, -⟩ := hxy
    rw [List.map_cons, List.flatten_cons, ih, hvalues, List.flatMap_cons]

theorem plain_compiled (h : List.Forall₂ (FilterCompiled obj) xs compiled) :
    Plain (compiled.map Prod.fst) := by
  refine List.forall_mem_map.mpr fun y hy => ?_
  obtain ⟨x, -, prop, -, -, -, hcompares⟩ := exists_of_forall₂_right h hy
  exact hcompares.plain y.1 (List.mem_singleton_self _)

end Compiled

/-- The filter number `x.2` is a condition on its property's column. -/
def ComparedIn (obj : ObjectDefinition) (x : SemanticFilter × Nat) (c : SqlNode) : Prop :=
  ∃ prop ∈ obj.properties.get x.1.field,
    ComparesWith prop.column (bindingsOf ("filter_" ++ toString x.2) x.1) c

/-- What the filters of a request are compiled to. -/
structure FiltersCompiled (obj : ObjectDefinition) (filters : List SemanticFilter)
    (conditions : List SqlNode) (parameters : Dict Value) : Prop where
  compared : List.Forall₂ (ComparedIn obj) filters.zipIdx conditions
  columns : (columnsOf conditions).map some = filters.map fun f => obj.columnOf f.field
  placeholders : placeholders conditions = (filterBindings filters).keys
  plain : Plain conditions
  parameters : ∀ x ∈ filterBindings filters, parameters.get x.1 = some x.2
  filterable : ∀ f ∈ filters, ∃ prop ∈ obj.properties.get f.field, prop.filterable = true

theorem filtersCompiled_of_applyFilters {s : SelectStatement} {parameters : Dict Value}
    (h : applyFilters statement obj filters allowedFields = .ok (s, parameters))
    (hnone : statement.conditions = []) :
    FiltersCompiled obj filters s.conditions parameters ∧
      s.expressions = statement.expressions ∧ s.fromTable = statement.fromTable ∧
      s.groupBy = statement.groupBy := by
  obtain ⟨compiled, hcompiled, rfl, rfl⟩ := applyFilters_eq_ok h
  have hvalues : (compiled.map Prod.snd).flatten = filterBindings filters :=
    values_compiled hcompiled
  refine ⟨?_, rfl, rfl, rfl⟩
  simp only [hnone, List.nil_append]
  refine ⟨?_, ?_, placeholders_compiled hcompiled, plain_compiled hcompiled, fun x hx => ?_,
    fun f hf => ?_⟩
  · refine List.forall₂_map_right_iff.mpr (hcompiled.imp ?_)
    rintro x y ⟨prop, hprop, -, hvalues, hcompares⟩
    exact ⟨prop, hprop, hvalues ▸ hcompares⟩
  · rw [columnsOf_compiled hcompiled]
    conv_rhs => rw [← List.zipIdx_map_fst 0 filters, List.map_map]
    rfl
  · refine get_foldl_update ?_ (hvalues ▸ hx)
    rw [hvalues]
    exact nodup_keys_filterBindings
  · rw [← List.zipIdx_map_fst 0 filters] at hf
    obtain ⟨x, hx, rfl⟩ := List.mem_map.mp hf
    obtain ⟨y, -, prop, hprop, hfilterable, -⟩ := exists_of_forall₂_left hcompiled hx
    exact ⟨prop, hprop, hfilterable⟩

end Filters

end DeerFlow.Semantic.Ontology
