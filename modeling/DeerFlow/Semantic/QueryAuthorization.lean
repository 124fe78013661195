import DeerFlow.Semantic.QueryBindings

/-! Compiled requests: whose columns they read, and what their placeholders are bound to. -/

namespace DeerFlow.Semantic.Ontology
open RoseTree

def MetricDefinition.aggregatedField (metric : MetricDefinition) : Option String :=
  if metric.aggregation = .count then none else metric.field

namespace SemanticRequest
variable (registry : OntologyRegistry) (authorization : AuthorizationContext)
  (obj : ObjectDefinition)

def objectOf : SemanticRequest → Option ObjectDefinition
  | .object q => registry.objects.get q.objectType
  | .metrics q => (q.uniqueMetricIds.head?.bind registry.metrics.get).bind fun metric =>
      registry.objects.get metric.objectType

def queryFilters : SemanticRequest → List SemanticFilter
  | .object q => q.queryFilters obj
  | .metrics q => q.filters

/-- The fields that the requested metrics aggregate. -/
def aggregatedFields : SemanticRequest → List String
  | .object _ => []
  | .metrics q => q.uniqueMetricIds.flatMap fun id =>
      ((registry.metrics.get id).bind MetricDefinition.aggregatedField).toList

def selectFields : SemanticRequest → List String
  | .object q => q.selected authorization obj
  | .metrics q => q.dimensions ++ aggregatedFields registry (.metrics q)

def groupFields : SemanticRequest → List String
  | .object _ => []
  | .metrics q => q.dimensions

/-- The properties a request names: selected, aggregated, filtered and grouped ones. -/
def usedFields (request : SemanticRequest) : List String :=
  request.selectFields registry authorization obj ++
    ((request.queryFilters obj).map SemanticFilter.field ++ request.groupFields)

end SemanticRequest

/-- The columns that are selected, aggregated, compared or grouped by. Those in the subquery over
the table are the scope's, and an ORDER BY names the selected expressions. -/
def readColumns (sql : SqlNode) : List String :=
  columnsOf (sql.children.filter fun c => c.label ≠ .fromClause ∧ c.label ≠ .other "Order")

section Reads
variable {obj : ObjectDefinition} {fields fields' : List String} {ns ms : List SqlNode}

/-- Some nodes that read the columns of these fields and nothing else. -/
structure ReadsFields (obj : ObjectDefinition) (fields : List String) (ns : List SqlNode) :
    Prop where
  columns : (columnsOf ns).map some = fields.map obj.columnOf
  placeholders : placeholders ns = []
  plain : Plain ns

theorem ReadsFields.nil : ReadsFields obj [] [] := ⟨rfl, rfl, nofun⟩

theorem ReadsFields.append (h : ReadsFields obj fields ns) (h' : ReadsFields obj fields' ms) :
    ReadsFields obj (fields ++ fields') (ns ++ ms) where
  columns := by
    rw [columnsOf_append, List.map_append, List.map_append, h.columns, h'.columns]
  placeholders := by
    rw [placeholders_append, h.placeholders, h'.placeholders]
    rfl
  plain := plain_append.mpr ⟨h.plain, h'.plain⟩

theorem readsFields_columnNode {field column : String} (h : obj.columnOf field = some column) :
    ReadsFields obj [field] [columnNode column] where
  columns := by
    rw [List.map_singleton, h]
    rfl
  placeholders := rfl
  plain := by
    unfold Plain
    rw [List.forall_mem_singleton, labels_columnNode]
    simp [isTable, isRowClause]

theorem ReadsFields.wrapped {k : SqlKind} {n : SqlNode} (h : ReadsFields obj fields [n])
    (hk : columnName? k = none ∧ placeholderName? k = none ∧ unplain? k = none) :
    ReadsFields obj fields [.node k [n]] := by
  have hread {β : Type} {read : SqlKind → Option β} (hnone : read k = none) :
      readOff read [.node k [n]] = readOff read [n] := by
    rw [readOff, List.flatMap_singleton, labels_node, List.filterMap_cons, hnone]
    rfl
  refine ⟨?_, ?_, plain_iff.mpr ?_⟩
  · rw [← h.columns]
    exact congrArg (List.map some) (hread hk.1)
  · exact (hread hk.2.1).trans h.placeholders
  · rw [hread hk.2.2]
    exact plain_iff.mp h.plain

theorem readsFields_mapM {α β ε : Type} {f : α → Except ε β} {g : β → SqlNode}
    {fieldsOf : α → List String} {xs : List α} {ys : List β} (h : xs.mapM f = .ok ys)
    (hf : ∀ x ∈ xs, ∀ y, f x = .ok y → ReadsFields obj (fieldsOf x) [g y]) :
    ReadsFields obj (xs.flatMap fieldsOf) (ys.map g) := by
  have hforall := mapM_eq_ok.mp h
  clear h
  induction hforall with
  | nil => exact .nil
  | cons hxy _ ih =>
    obtain ⟨hx, hxs⟩ := List.forall_mem_cons.mp hf
    exact (hx _ hxy).append (ih hxs)

end Reads

section Prepared
variable {E : QueryEnv} {registry : OntologyRegistry} {authorization : AuthorizationContext}
  {obj : ObjectDefinition} {request : SemanticRequest} {p : Prepared}

structure IsPrepared (E : QueryEnv) (registry : OntologyRegistry)
    (authorization : AuthorizationContext) (request : SemanticRequest) (obj : ObjectDefinition)
    (p : Prepared) : Prop where
  found : request.objectOf registry = some obj
  object : registry.authorizeObject obj.name authorization = .ok obj
  table : E.fromTable obj.table = some p.statement.fromTable
  select : ReadsFields obj (request.selectFields registry authorization obj) p.statement.selectList
  group : ReadsFields obj request.groupFields p.statement.groupBy
  filters : FiltersCompiled obj (request.queryFilters obj) p.statement.conditions p.parameters
  checked : ∀ field ∈ request.usedFields registry authorization obj,
    field ∈ request.aggregatedFields registry ∨
      (registry.authorizeProperty obj.name field authorization).isOk = true

theorem fromOntology_eq_ok {α : Type} {x : Except OntologyError α} {a : α} :
    fromOntology x = .ok a ↔ x = .ok a := by
  cases x with
  | error e => exact ⟨nofun, nofun⟩
  | ok b => simp [fromOntology, Except.mapError]

theorem tableOf_eq_ok {table : String × String} (h : E.tableOf obj = .ok table) :
    E.fromTable obj.table = some table := by
  unfold QueryEnv.tableOf at h
  split at h
  · cases h
  · next table' htable =>
    cases h
    exact htable

theorem authorizeField_eq_ok {objectName name : String}
    (h : authorizeField registry authorization objectName name = .ok ()) :
    (registry.authorizeProperty objectName name authorization).isOk = true := by
  obtain ⟨prop, hprop, -⟩ := bind_eq_ok.mp h
  rw [fromOntology_eq_ok.1 hprop]
  rfl

theorem name_of_get {name : String} (h : registry.objects.get name = some obj) :
    obj.name = name :=
  (registry.checked_objects _ (Dict.mem_of_get h)).named

theorem columnOf_of_authorizeProperty {field : String} {prop : PropertyDefinition}
    (hobj : registry.authorizeObject obj.name authorization = .ok obj)
    (h : registry.authorizeProperty obj.name field authorization = .ok prop) :
    obj.columnOf field = some prop.column := by
  obtain ⟨obj', hobj', hprop, -⟩ := OntologyRegistry.authorizeProperty_eq_ok.mp h
  obtain rfl := Except.ok.inj (hobj.symm.trans hobj')
  rw [ObjectDefinition.columnOf, hprop]
  rfl

theorem readsFields_selectProperty {field : String} {e : String × SqlNode}
    (hobj : registry.authorizeObject obj.name authorization = .ok obj)
    (h : selectProperty registry authorization obj.name field = .ok e) :
    (registry.authorizeProperty obj.name field authorization).isOk = true ∧
      ReadsFields obj [field] [.node (.other "Alias") [e.2]] := by
  obtain ⟨prop, hprop, h⟩ := bind_eq_ok.mp h
  cases h
  rw [fromOntology_eq_ok] at hprop
  refine ⟨by rw [hprop]; rfl, ?_⟩
  exact (readsFields_columnNode (columnOf_of_authorizeProperty hobj hprop)).wrapped
    ⟨rfl, rfl, rfl⟩

theorem isPrepared_object {q : ObjectRequest}
    (h : q.prepare E registry authorization = .ok p) :
    ∃ obj, IsPrepared E registry authorization (.object q) obj p := by
  obtain ⟨obj, hobj, h⟩ := bind_eq_ok.mp h
  rw [fromOntology_eq_ok] at hobj
  obtain ⟨hget, hroles⟩ := OntologyRegistry.authorizeObject_eq_ok.mp hobj
  have hname : obj.name = q.objectType := name_of_get hget
  have hself : registry.authorizeObject obj.name authorization = .ok obj := hname ▸ hobj
  simp only at h
  split_ifs at h with hempty
  obtain ⟨expressions, hexpressions, h⟩ := bind_eq_ok.mp h
  obtain ⟨fromTable, htable, h⟩ := bind_eq_ok.mp h
  obtain ⟨_, hauthorized, h⟩ := bind_eq_ok.mp h
  obtain ⟨⟨statement, parameters⟩, hfilters, h⟩ := bind_eq_ok.mp h
  cases h
  obtain ⟨hcompiled, hsame, htable', hgroup⟩ :=
    filtersCompiled_of_applyFilters (fromOntology_eq_ok.1 hfilters) rfl
  have hselected : ∀ field ∈ q.selected authorization obj, ∀ e,
      selectProperty registry authorization obj.name field = .ok e →
      ReadsFields obj [field] [.node (.other "Alias") [e.2]] :=
    fun field _ e he => (readsFields_selectProperty hself he).2
  have hselect := readsFields_mapM (g := fun e => .node (.other "Alias") [e.2]) hexpressions
    hselected
  refine ⟨obj, hget, hself, ?_, ?_, ?_, hcompiled, ?_⟩
  · rw [htable']
    exact tableOf_eq_ok htable
  · rw [List.flatMap_singleton'] at hselect
    rw [SelectStatement.selectList, hsame]
    exact hselect
  · rw [hgroup]
    exact .nil
  · intro field hfield
    right
    rcases List.mem_append.mp hfield with hfield | hfield
    · obtain ⟨e, -, he⟩ := exists_of_forall₂_left (mapM_eq_ok.mp hexpressions) hfield
      exact (readsFields_selectProperty hself he).1
    · rcases List.mem_append.mp hfield with hfield | hfield
      · obtain ⟨f, hf, rfl⟩ := List.mem_map.mp hfield
        exact authorizeField_eq_ok (forM_eq_ok.mp hauthorized f hf)
      · cases hfield

/-- An aggregate reads the metric's field, which nobody has authorized. -/
theorem readsFields_selectMetric {metric : MetricDefinition} {e : String × SqlNode}
    (h : selectMetric obj metric = .ok e) :
    ReadsFields obj metric.aggregatedField.toList [.node (.other "Alias") [e.2]] := by
  obtain ⟨expression, hexpression, h⟩ := bind_eq_ok.mp h
  cases h
  refine ReadsFields.wrapped ?_ ⟨rfl, rfl, rfl⟩
  unfold aggregate at hexpression
  unfold MetricDefinition.aggregatedField
  split_ifs at hexpression ⊢ with hcount
  · cases hexpression
    refine ⟨rfl, rfl, ?_⟩
    unfold Plain
    rw [List.forall_mem_singleton, labels_node]
    simp [Aggregation.function, labels_node, isTable, isRowClause]
  · split at hexpression
    · cases hexpression
    · next field hfield =>
      obtain ⟨prop, hprop, hexpression⟩ := bind_eq_ok.mp hexpression
      cases hexpression
      rw [fromOntology_eq_ok, OntologyRegistry.property_eq_ok] at hprop
      have hcolumn : obj.columnOf field = some prop.column := by
        rw [ObjectDefinition.columnOf, hprop]
        rfl
      rw [hfield]
      refine (readsFields_columnNode hcolumn).wrapped ?_
      cases metric.aggregation <;> exact ⟨rfl, rfl, rfl⟩

theorem readsFields_dimensionColumn {field : String} {n : SqlNode}
    (h : dimensionColumn obj field = .ok n) : ReadsFields obj [field] [n] := by
  obtain ⟨prop, hprop, h⟩ := bind_eq_ok.mp h
  cases h
  rw [fromOntology_eq_ok, OntologyRegistry.property_eq_ok] at hprop
  refine readsFields_columnNode ?_
  rw [ObjectDefinition.columnOf, hprop]
  rfl

theorem readsFields_dimensions {names : List String} {ns : List SqlNode} {g : SqlNode → SqlNode}
    (h : names.mapM (dimensionColumn obj) = .ok ns)
    (hg : ∀ field n, ReadsFields obj [field] [n] → ReadsFields obj [field] [g n]) :
    ReadsFields obj names (ns.map g) := by
  have hreads : ReadsFields obj (names.flatMap fun name => [name]) (ns.map g) :=
    readsFields_mapM h fun name _ n hn => hg name n (readsFields_dimensionColumn hn)
  rwa [List.flatMap_singleton'] at hreads

theorem authorizeMetric_eq_ok {id : String} {metric : MetricDefinition}
    (h : registry.authorizeMetric id authorization = .ok metric) :
    registry.metrics.get id = some metric ∧
      ∃ obj, registry.authorizeObject metric.objectType authorization = .ok obj := by
  obtain ⟨metric', hmetric, h⟩ := bind_eq_ok.mp h
  obtain ⟨obj, hobj, h⟩ := bind_eq_ok.mp h
  split_ifs at h
  cases h
  refine ⟨?_, obj, hobj⟩
  unfold OntologyRegistry.metric at hmetric
  split at hmetric
  · cases hmetric
  · next metric' hget =>
    cases hmetric
    exact hget

/-- The metrics of a request are those of its ids. -/
theorem aggregatedFields_eq {q : MetricsRequest} {metrics : List MetricDefinition}
    (h : List.Forall₂ (fun id metric => registry.authorizeMetric id authorization = .ok metric)
      q.uniqueMetricIds metrics) :
    (SemanticRequest.metrics q).aggregatedFields registry =
      metrics.flatMap fun metric => metric.aggregatedField.toList := by
  unfold SemanticRequest.aggregatedFields
  simp only
  generalize q.uniqueMetricIds = ids at h ⊢
  induction h with
  | nil => rfl
  | cons hid _ ih =>
    rw [List.flatMap_cons, List.flatMap_cons, ih, (authorizeMetric_eq_ok hid).1]
    rfl

theorem isPrepared_metrics {q : MetricsRequest}
    (h : q.prepare E registry authorization = .ok p) :
    ∃ obj, IsPrepared E registry authorization (.metrics q) obj p := by
  unfold MetricsRequest.prepare at h
  split_ifs at h
  obtain ⟨metrics, hmetrics, h⟩ := bind_eq_ok.mp h
  have hauthorizedMetrics : List.Forall₂
      (fun id metric => registry.authorizeMetric id authorization = .ok metric)
      q.uniqueMetricIds metrics :=
    (mapM_eq_ok.mp hmetrics).imp fun _ _ hid => fromOntology_eq_ok.1 hid
  cases metrics with
  | nil => cases h
  | cons first rest =>
    have haggregated := aggregatedFields_eq hauthorizedMetrics
    simp only at h
    unfold MetricsRequest.prepareFor at h
    split at h
    · cases h
    obtain ⟨obj, hobj, h⟩ := bind_eq_ok.mp h
    obtain ⟨_, -, h⟩ := bind_eq_ok.mp h
    obtain ⟨_, hauthorized, h⟩ := bind_eq_ok.mp h
    obtain ⟨dimensions, hdimensions, h⟩ := bind_eq_ok.mp h
    obtain ⟨expressions, hexpressions, h⟩ := bind_eq_ok.mp h
    obtain ⟨fromTable, htable, h⟩ := bind_eq_ok.mp h
    obtain ⟨⟨statement, parameters⟩, hfilters, h⟩ := bind_eq_ok.mp h
    obtain ⟨_, -, h⟩ := bind_eq_ok.mp h
    cases h
    obtain ⟨hcompiled, hsame, htable', -⟩ :=
      filtersCompiled_of_applyFilters (fromOntology_eq_ok.1 hfilters) rfl
    rw [fromOntology_eq_ok, OntologyRegistry.object_eq_ok] at hobj
    have hname : obj.name = first.objectType := name_of_get hobj
    obtain ⟨metricId, metricIds, hids⟩ : ∃ metricId metricIds,
        q.uniqueMetricIds = metricId :: metricIds := by
      cases hids : q.uniqueMetricIds with
      | nil =>
        rw [hids] at hauthorizedMetrics
        cases hauthorizedMetrics
      | cons metricId metricIds => exact ⟨metricId, metricIds, rfl⟩
    have hfirst : registry.metrics.get metricId = some first ∧
        registry.authorizeObject obj.name authorization = .ok obj := by
      rw [hids] at hauthorizedMetrics
      obtain ⟨hid, -⟩ := List.forall₂_cons.mp hauthorizedMetrics
      obtain ⟨hget, obj', hobj'⟩ := authorizeMetric_eq_ok hid
      obtain ⟨hobj'', -⟩ := OntologyRegistry.authorizeObject_eq_ok.mp hobj'
      obtain rfl := Option.some.inj (hobj.symm.trans hobj'')
      exact ⟨hget, hname ▸ hobj'⟩
    have hdims : (q.dimensions.zip dimensions).map (fun x => node (.other "Alias") [x.2]) =
        dimensions.map fun n => node (.other "Alias") [n] := by
      have hlength : dimensions.length ≤ q.dimensions.length :=
        (mapM_eq_ok.mp hdimensions).length_eq.ge
      conv_rhs => rw [← List.map_snd_zip hlength, List.map_map]
      rfl
    have hgroup : ReadsFields obj q.dimensions dimensions := by
      have hreads := readsFields_dimensions (g := fun n => n) hdimensions fun _ _ hn => hn
      rwa [List.map_id'] at hreads
    have hselect : ReadsFields obj
        (q.dimensions ++ (first :: rest).flatMap fun metric => metric.aggregatedField.toList)
        (dimensions.map (fun n => node (.other "Alias") [n]) ++
          expressions.map fun e => node (.other "Alias") [e.2]) :=
      (readsFields_dimensions hdimensions fun _ _ hn => hn.wrapped ⟨rfl, rfl, rfl⟩).append
        (readsFields_mapM hexpressions fun _ _ _ he => readsFields_selectMetric he)
    rw [← haggregated, ← hdims, ← List.map_append] at hselect
    refine ⟨obj, ?_, hfirst.2, ?_, ?_, hgroup, hcompiled, ?_⟩
    · unfold SemanticRequest.objectOf
      simp only
      rw [hids, List.head?_cons, Option.bind_some, hfirst.1, Option.bind_some]
      exact hobj
    · simp only
      rw [htable']
      exact tableOf_eq_ok htable
    · rw [SelectStatement.selectList]
      simp only
      rw [hsame]
      exact hselect
    · have hnamed : ∀ field ∈ q.dimensions ++ q.filters.map SemanticFilter.field,
          (registry.authorizeProperty obj.name field authorization).isOk = true :=
        fun field hfield => authorizeField_eq_ok (forM_eq_ok.mp hauthorized field hfield)
      intro field hfield
      rcases List.mem_append.mp hfield with hfield | hfield
      · rcases List.mem_append.mp hfield with hfield | hfield
        · exact .inr (hnamed field (List.mem_append_left _ hfield))
        · exact .inl hfield
      · rcases List.mem_append.mp hfield with hfield | hfield
        · exact .inr (hnamed field (List.mem_append_right _ hfield))
        · exact .inr (hnamed field (List.mem_append_left _ hfield))

end Prepared

theorem isPrepared_of_prepare {E : QueryEnv} {registry : OntologyRegistry}
    {authorization : AuthorizationContext} {request : SemanticRequest} {p : Prepared}
    (h : request.prepare E registry authorization = .ok p) :
    ∃ obj, IsPrepared E registry authorization request obj p := by
  cases request with
  | object q => exact isPrepared_object h
  | metrics q => exact isPrepared_metrics h

/-! The emitted statement -/

/-- The values of the scope of an object's table. -/
def QueryEnv.scopeBindings (E : QueryEnv) (authorization : AuthorizationContext)
    (policyRegistry : SqlScopePolicyRegistry) (obj : ObjectDefinition) : Dict Value :=
  match (E.fromTable obj.table).bind fun table => policyRegistry.tables.get (E.lower table.1) with
  | none => []
  | some policy => (scopeIds authorization policy).zipIdx.map fun x =>
      ("scope_0" ++ "_" ++ toString x.2, .str x.1)

/-- All the values of a request under the names they are created for: those of the scope come
first in the statement, then those of the filters. -/
def SemanticRequest.bindings (E : QueryEnv) (authorization : AuthorizationContext)
    (policyRegistry : SqlScopePolicyRegistry) (obj : ObjectDefinition)
    (request : SemanticRequest) : Dict Value :=
  E.scopeBindings authorization policyRegistry obj ++ filterBindings (request.queryFilters obj)

/-- A compiled request reads only columns whose properties the roles allow, filters by filterable
properties, and binds each placeholder to the value that it was created for. -/
structure CompiledFor (E : QueryEnv) (authorization : AuthorizationContext)
    (policyRegistry : SqlScopePolicyRegistry) (request : SemanticRequest) (obj : ObjectDefinition)
    (out : CompiledSemanticQuery) : Prop where
  authorized : ∀ prop ∈ obj.properties.values, prop.column ∈ readColumns out.scopedQuery.sql →
    OntologyRegistry.roleAllowed prop.allowedRoles authorization = true
  filterable : ∀ f ∈ request.queryFilters obj,
    ∃ prop ∈ obj.properties.get f.field, prop.filterable = true
  compared : ∃ conditions,
    out.scopedQuery.sql.children.filter (fun c => c.label = .whereClause) =
      whereClause conditions ∧
    List.Forall₂ (ComparedIn obj) (request.queryFilters obj).zipIdx conditions
  emitted : placeholders [out.scopedQuery.sql] =
    (request.bindings E authorization policyRegistry obj).keys
  distinct : (request.bindings E authorization policyRegistry obj).keys.Nodup
  bound : ∀ x ∈ request.bindings E authorization policyRegistry obj,
    out.parameters.get x.1 = some x.2

section Emitted
variable {β : Type} {read : SqlKind → Option β} {front back : List SqlNode} {source : SqlNode}

theorem readOff_singleTable (hselect : read .select = none) (hfrom : read .fromClause = none) :
    readOff read [singleTable front back source] =
      readOff read front ++ (readOff read [source] ++ readOff read back) := by
  rw [readOff, List.flatMap_singleton, singleTable, labels_node, List.filterMap_cons, hselect,
    List.flatMap_append, List.filterMap_append, List.flatMap_cons, List.filterMap_append,
    labels_node, List.filterMap_cons, hfrom]
  rfl

variable {s : SelectStatement} {order : List SqlNode} {bound : Nat}

theorem label_of_mem_selectList {c : SqlNode} (h : c ∈ s.selectList) :
    c.label = .other "Alias" := by
  obtain ⟨x, -, rfl⟩ := List.mem_map.mp h
  rfl

theorem filter_whereClause (cs : List SqlNode) :
    (whereClause cs).filter (fun c => c.label = .whereClause) = whereClause cs := by
  cases cs <;> rfl

theorem filter_groupClause (cs : List SqlNode) :
    (groupClause cs).filter (fun c => c.label = .whereClause) = [] := by
  cases cs <;> rfl

theorem filter_where_singleTable (horder : ∀ c ∈ order, c.label = .other "Order") :
    (singleTable s.selectList (s.clauses ++ order ++ [.leaf (.limit (some bound))])
        source).children.filter (fun c => c.label = .whereClause) = whereClause s.conditions := by
  have hselect : s.selectList.filter (fun c => c.label = .whereClause) = [] :=
    List.filter_eq_nil_iff.mpr fun c hc => by simp [label_of_mem_selectList hc]
  have hnone : order.filter (fun c => c.label = .whereClause) = [] :=
    List.filter_eq_nil_iff.mpr fun c hc => by simp [horder c hc]
  rw [singleTable, children, SelectStatement.clauses, List.filter_append, hselect,
    List.filter_cons_of_neg (by simp [label]), List.filter_append, List.filter_append,
    List.filter_append, filter_whereClause, filter_groupClause, hnone]
  simp [label]

theorem readColumns_singleTable (horder : ∀ c ∈ order, c.label = .other "Order") :
    readColumns (singleTable s.selectList
        (s.clauses ++ order ++ [.leaf (.limit (some bound))]) source) =
      columnsOf s.selectList ++ (columnsOf s.conditions ++ columnsOf s.groupBy) := by
  have hselect : s.selectList.filter
      (fun c => c.label ≠ .fromClause ∧ c.label ≠ .other "Order") = s.selectList :=
    List.filter_eq_self.mpr fun c hc => by simp [label_of_mem_selectList hc]
  have hnone : order.filter (fun c => c.label ≠ .fromClause ∧ c.label ≠ .other "Order") = [] :=
    List.filter_eq_nil_iff.mpr fun c hc => by simp [horder c hc]
  have hclauses : s.clauses.filter
      (fun c => c.label ≠ .fromClause ∧ c.label ≠ .other "Order") = s.clauses := by
    unfold SelectStatement.clauses
    cases s.conditions <;> cases s.groupBy <;> rfl
  have hchildren : (singleTable s.selectList
        (s.clauses ++ order ++ [.leaf (.limit (some bound))]) source).children.filter
        (fun c => c.label ≠ .fromClause ∧ c.label ≠ .other "Order") =
      s.selectList ++ (s.clauses ++ [.leaf (.limit (some bound))]) := by
    rw [singleTable, children, List.filter_append, hselect,
      List.filter_cons_of_neg (by simp [label]), List.filter_append, List.filter_append,
      hclauses, hnone, List.append_nil]
    rfl
  have hcolumns : columnsOf s.clauses = columnsOf s.conditions ++ columnsOf s.groupBy :=
    readOff_clauses (fun _ => rfl) rfl
  rw [readColumns, hchildren, columnsOf_append, columnsOf_append, hcolumns]
  exact congrArg _ (List.append_nil _)

theorem readOff_order {fields : List String}
    (hread : ∀ k, isOrderKind fields k = true → read k = none)
    (horder : ∀ c ∈ order, ∀ p n, c.get? p = some n → isOrderKind fields n.label = true) :
    readOff read order = [] := by
  refine List.filterMap_eq_nil_iff.mpr fun k hk => hread k ?_
  obtain ⟨c, hc, hk⟩ := List.mem_flatMap.mp hk
  obtain ⟨l, hl, rfl⟩ := mem_labels.mp hk
  exact horder c hc l.path l.focus (get?_of_mem_walk hl)

theorem placeholderName?_of_isOrderKind {fields : List String} (k : SqlKind)
    (h : isOrderKind fields k = true) : placeholderName? k = none := by
  cases k with
  | placeholder name => cases h
  | _ => rfl

theorem unplain?_of_isOrderKind {fields : List String} (k : SqlKind)
    (h : isOrderKind fields k = true) : unplain? k = none := by
  cases k with
  | table | limit | fetch | offset => cases h
  | _ => rfl

end Emitted

section Bindings
variable {E : QueryEnv} {authorization : AuthorizationContext}
  {policyRegistry : SqlScopePolicyRegistry} {obj : ObjectDefinition} {request : SemanticRequest}
  {table : String × String} {policy : TableScopePolicy}

theorem scopeBindings_eq (htable : E.fromTable obj.table = some table)
    (hpolicy : policyRegistry.tables.get (E.lower table.1) = some policy) :
    E.scopeBindings authorization policyRegistry obj =
      (parametersOf "scope_0" (scopeIds authorization policy)).map fun x => (x.1, .str x.2) := by
  unfold QueryEnv.scopeBindings parametersOf
  rw [htable, Option.bind_some, hpolicy, List.map_map]
  rfl

theorem keys_mapValues {β γ : Type} (f : β → γ) (d : Dict β) :
    Dict.keys (d.map fun x => (x.1, f x.2)) = d.keys := by
  unfold Dict.keys
  rw [List.map_map]
  rfl

theorem nodup_keys_bindings (htable : E.fromTable obj.table = some table)
    (hpolicy : policyRegistry.tables.get (E.lower table.1) = some policy) :
    (request.bindings E authorization policyRegistry obj).keys.Nodup := by
  have hkeys : (request.bindings E authorization policyRegistry obj).keys =
      (parametersOf "scope_0" (scopeIds authorization policy)).keys ++
        (filterBindings (request.queryFilters obj)).keys := by
    rw [← keys_mapValues Value.str, ← scopeBindings_eq htable hpolicy]
    exact List.map_append
  rw [hkeys]
  refine List.nodup_append'.mpr ⟨nodup_keys_parametersOf 0 _, nodup_keys_filterBindings, ?_⟩
  intro name hscope hfilter
  obtain ⟨item, hitem, rfl⟩ := List.mem_map.mp hscope
  obtain ⟨k, hk⟩ := mem_parametersOf hitem
  exact ne_scope_of_mem_filterBindings hfilter k hk

theorem get_merged {parameters : Dict Value} {scopeParameters : Dict String}
    (htable : E.fromTable obj.table = some table)
    (hpolicy : policyRegistry.tables.get (E.lower table.1) = some policy)
    (hfilters : ∀ x ∈ filterBindings (request.queryFilters obj),
      parameters.get x.1 = some x.2)
    (hscope : scopeParameters =
      Dict.update [] (parametersOf "scope_0" (scopeIds authorization policy)))
    {x : String × Value} (hx : x ∈ request.bindings E authorization policyRegistry obj) :
    (parameters.update (scopeParameters.map fun x => (x.1, .str x.2))).get x.1 = some x.2 := by
  rw [Dict.get_update, OntologyRegistry.get_mapValues Value.str, hscope, Dict.get_update,
    Dict.get_nil, Option.or_none]
  rcases List.mem_append.mp hx with hx | hx
  · rw [scopeBindings_eq htable hpolicy] at hx
    obtain ⟨item, hitem, rfl⟩ := List.mem_map.mp hx
    have hget : (parametersOf "scope_0" (scopeIds authorization policy)).get item.1 =
        some item.2 := Dict.get_of_mem (nodup_keys_parametersOf 0 _) hitem
    rw [hget]
    rfl
  · have hnone : (parametersOf "scope_0" (scopeIds authorization policy)).get x.1 = none := by
      have hnot : x.1 ∉ (parametersOf "scope_0" (scopeIds authorization policy)).keys := by
        intro hmem
        obtain ⟨item, hitem, heq⟩ := List.mem_map.mp hmem
        obtain ⟨k, hk⟩ := mem_parametersOf hitem
        exact ne_scope_of_mem_filterBindings (List.mem_map_of_mem hx) k (heq.symm.trans hk)
      rwa [Dict.mem_keys, Bool.not_eq_true, Option.isSome_eq_false_iff,
        Option.isNone_iff_eq_none] at hnot
    rw [hnone, Option.map_none, Option.none_or]
    exact hfilters x hx

end Bindings

section Compiled
variable {E : QueryEnv} {registry : OntologyRegistry} {authorization : AuthorizationContext}
  {allowedDatabases : List String} {policyRegistry : SqlScopePolicyRegistry} {limit : Int}
  {request : SemanticRequest} {out : CompiledSemanticQuery}

theorem compile_eq_ok (h : request.compile E registry authorization allowedDatabases
    policyRegistry limit = .ok out) :
    ∃ p, request.prepare E registry authorization = .ok p ∧
      ∃ scopedQuery, E.guardSqlQuery (E.render p.statement) authorization allowedDatabases
        policyRegistry limit = .ok scopedQuery ∧ out = p.compiled registry scopedQuery := by
  have hparts : ∃ p, request.prepare E registry authorization = .ok p ∧
      p.guard E registry authorization allowedDatabases policyRegistry limit = .ok out := by
    cases request with
    | object q | metrics q => exact bind_eq_ok.mp h
  obtain ⟨p, hp, hguard⟩ := hparts
  obtain ⟨scopedQuery, hscoped, hout⟩ := bind_eq_ok.mp hguard
  refine ⟨p, hp, scopedQuery, ?_, (Except.ok.inj hout).symm⟩
  cases hresult : E.guardSqlQuery (E.render p.statement) authorization allowedDatabases
      policyRegistry limit with
  | error e => rw [hresult] at hscoped; cases hscoped
  | ok result =>
    rw [hresult] at hscoped
    rw [Except.ok.inj hscoped]

/-- What is emitted for a request: the columns it names, its conditions, and its values. -/
theorem emitted_of_compile
    (hok : request.compile E registry authorization allowedDatabases policyRegistry limit = .ok out)
    (hprint : ∀ p, request.prepare E registry authorization = .ok p →
      ∃ t, E.PrintsBack p.statement t) :
    ∃ obj p, IsPrepared E registry authorization request obj p ∧
      (readColumns out.scopedQuery.sql).map some =
        (request.usedFields registry authorization obj).map obj.columnOf ∧
      out.scopedQuery.sql.children.filter (fun c => c.label = .whereClause) =
        whereClause p.statement.conditions ∧
      placeholders [out.scopedQuery.sql] =
        (request.bindings E authorization policyRegistry obj).keys ∧
      (request.bindings E authorization policyRegistry obj).keys.Nodup ∧
      ∀ x ∈ request.bindings E authorization policyRegistry obj,
        out.parameters.get x.1 = some x.2 := by
  obtain ⟨p, hp, scopedQuery, hguard, rfl⟩ := compile_eq_ok hok
  obtain ⟨t, ht⟩ := hprint p hp
  obtain ⟨order, rfl, horder⟩ := ht.shape
  obtain ⟨obj, hprepared⟩ := isPrepared_of_prepare hp
  obtain ⟨tables, scoping, haccepts⟩ := E.accepts_of_guard ht.parsed hguard
  have hlabels : ∀ c ∈ order, c.label = .other "Order" := fun c hc => (horder c hc).1
  have hkinds := fun c hc => (horder c hc).2
  have hfront := hprepared.select.plain
  have hback : Plain (p.statement.clauses ++ order) :=
    plain_append.mpr ⟨plain_clauses hprepared.filters.plain hprepared.group.plain,
      plain_iff.mpr (readOff_order (fun k => unplain?_of_isOrderKind k) hkinds)⟩
  obtain ⟨policy, source, hpolicy, hsql, hsource, hparameters⟩ :=
    haccepts.sql_of_singleTable hfront hback
  have hcompiled : (p.compiled registry scopedQuery).scopedQuery = scopedQuery := rfl
  refine ⟨obj, p, hprepared, ?_, ?_, ?_, nodup_keys_bindings hprepared.table hpolicy,
    fun x hx => get_merged hprepared.table hpolicy hprepared.filters.parameters hparameters hx⟩
  · rw [hcompiled, hsql, readColumns_singleTable hlabels, List.map_append, List.map_append,
      hprepared.select.columns, hprepared.filters.columns, hprepared.group.columns,
      SemanticRequest.usedFields, List.map_append, List.map_append, List.map_map]
    rfl
  · rw [hcompiled, hsql, filter_where_singleTable hlabels]
  · have horderNames : placeholders order = [] :=
      readOff_order (fun k => placeholderName?_of_isOrderKind k) hkinds
    have hclauseNames : placeholders p.statement.clauses =
        placeholders p.statement.conditions ++ placeholders p.statement.groupBy :=
      readOff_clauses (fun _ => rfl) rfl
    have hnames : placeholders [singleTable p.statement.selectList
          (p.statement.clauses ++ order ++ [.leaf (.limit (some (boundedLimit limit)))]) source] =
        placeholders p.statement.selectList ++ (placeholders [source] ++
          placeholders (p.statement.clauses ++ order ++
            [.leaf (.limit (some (boundedLimit limit)))])) :=
      readOff_singleTable rfl rfl
    rw [hcompiled, hsql, hnames, placeholders_append, placeholders_append, hclauseNames,
      horderNames, hprepared.select.placeholders, hprepared.filters.placeholders,
      hprepared.group.placeholders, hsource, ← keys_mapValues Value.str,
      ← scopeBindings_eq hprepared.table hpolicy]
    simp [SemanticRequest.bindings, Dict.keys, placeholders, labels_node, placeholderName?]

end Compiled

section Authorized
variable {E : QueryEnv} {registry : OntologyRegistry} {authorization : AuthorizationContext}
  {allowedDatabases : List String} {policyRegistry : SqlScopePolicyRegistry} {limit : Int}
  {request : SemanticRequest} {obj : ObjectDefinition} {p : Prepared}
  {out : CompiledSemanticQuery}

/-- The caller may read the property `field`. -/
def MayRead (registry : OntologyRegistry) (authorization : AuthorizationContext)
    (obj : ObjectDefinition) (field : String) : Prop :=
  (registry.authorizeProperty obj.name field authorization).isOk = true

instance (registry : OntologyRegistry) (authorization : AuthorizationContext)
    (obj : ObjectDefinition) (field : String) :
    Decidable (MayRead registry authorization obj field) :=
  inferInstanceAs (Decidable (_ = true))

/-- No hidden property has the column of a property that the request uses and the caller may
read. -/
def NoSharedColumn (registry : OntologyRegistry) (authorization : AuthorizationContext)
    (obj : ObjectDefinition) (request : SemanticRequest) : Prop :=
  ∀ field ∈ request.usedFields registry authorization obj,
    MayRead registry authorization obj field →
    ∀ prop ∈ obj.properties.values, obj.columnOf field = some prop.column →
      OntologyRegistry.roleAllowed prop.allowedRoles authorization = true

instance (registry : OntologyRegistry) (authorization : AuthorizationContext)
    (obj : ObjectDefinition) (request : SemanticRequest) :
    Decidable (NoSharedColumn registry authorization obj request) :=
  inferInstanceAs (Decidable (∀ field ∈ request.usedFields registry authorization obj, _ → _))

theorem mayRead_iff (hobj : registry.authorizeObject obj.name authorization = .ok obj)
    {field : String} {prop : PropertyDefinition} (hprop : obj.properties.get field = some prop) :
    MayRead registry authorization obj field ↔
      OntologyRegistry.roleAllowed prop.allowedRoles authorization = true := by
  constructor
  · intro h
    obtain ⟨prop', hok⟩ := exists_eq_ok h
    obtain ⟨obj', hobj', hprop', hroles⟩ := OntologyRegistry.authorizeProperty_eq_ok.mp hok
    obtain rfl := Except.ok.inj (hobj.symm.trans hobj')
    obtain rfl := Option.some.inj (hprop.symm.trans hprop')
    exact hroles
  · intro hroles
    have hok := OntologyRegistry.authorizeProperty_eq_ok.mpr ⟨obj, hobj, hprop, hroles⟩
    rw [MayRead, hok]
    rfl

theorem IsPrepared.mayRead_all_iff (h : IsPrepared E registry authorization request obj p) :
    (∀ field ∈ request.usedFields registry authorization obj,
      MayRead registry authorization obj field) ↔
    ∀ field ∈ request.aggregatedFields registry, MayRead registry authorization obj field := by
  constructor
  · intro hall field hfield
    refine hall field (List.mem_append_left _ ?_)
    cases request with
    | object q => cases hfield
    | metrics q => exact List.mem_append_right _ hfield
  · intro haggregated field hfield
    exact (h.checked field hfield).elim (haggregated field) fun hread => hread

/-- The columns that are read are those of properties the roles allow. -/
theorem IsPrepared.authorized_iff (h : IsPrepared E registry authorization request obj p)
    {columns : List String}
    (hcolumns : columns.map some =
      (request.usedFields registry authorization obj).map obj.columnOf) :
    (∀ prop ∈ obj.properties.values, prop.column ∈ columns →
      OntologyRegistry.roleAllowed prop.allowedRoles authorization = true) ↔
    (∀ field ∈ request.aggregatedFields registry, MayRead registry authorization obj field) ∧
      NoSharedColumn registry authorization obj request := by
  have hread {column : String} : column ∈ columns ↔
      ∃ field ∈ request.usedFields registry authorization obj,
        obj.columnOf field = some column := by
    rw [← List.mem_map, ← hcolumns, List.mem_map]
    exact ⟨fun hc => ⟨column, hc, rfl⟩, fun ⟨c, hc, heq⟩ => Option.some.inj heq ▸ hc⟩
  rw [← h.mayRead_all_iff]
  constructor
  · intro hall
    refine ⟨fun field hfield => ?_, fun field hfield _ prop hprop hcolumn => ?_⟩
    · -- a used field is a property, for its column is read
      have hsome : obj.columnOf field ∈ columns.map some := by
        rw [hcolumns]
        exact List.mem_map_of_mem hfield
      obtain ⟨column, hcolumn, heq⟩ := List.mem_map.mp hsome
      obtain ⟨prop, hprop, rfl⟩ := Option.map_eq_some_iff.mp heq.symm
      refine (mayRead_iff h.object hprop).mpr (hall prop ?_ hcolumn)
      exact List.mem_map_of_mem (f := Prod.snd) (Dict.mem_of_get hprop)
    · exact hall prop hprop (hread.mpr ⟨field, hfield, hcolumn⟩)
  · rintro ⟨hmay, hshared⟩ prop hprop hcolumn
    obtain ⟨field, hfield, heq⟩ := hread.mp hcolumn
    exact hshared field hfield (hmay field hfield) prop hprop heq

/-- A compiled request is as it should be exactly when the fields that its metrics aggregate are
open to the caller, and no hidden property shares a column with one that is used. The properties
whose columns it reads are the ones it names, and the caller may read all of them exactly when the
aggregated ones. -/
theorem compiled_for_iff
    (hok : request.compile E registry authorization allowedDatabases policyRegistry limit = .ok out)
    (hprint : ∀ p, request.prepare E registry authorization = .ok p →
      ∃ t, E.PrintsBack p.statement t) :
    ∃ obj, request.objectOf registry = some obj ∧
      (CompiledFor E authorization policyRegistry request obj out ↔
        (∀ field ∈ request.aggregatedFields registry, MayRead registry authorization obj field) ∧
          NoSharedColumn registry authorization obj request) ∧
      (readColumns out.scopedQuery.sql).map some =
        (request.usedFields registry authorization obj).map obj.columnOf ∧
      ((∀ field ∈ request.usedFields registry authorization obj,
          MayRead registry authorization obj field) ↔
        ∀ field ∈ request.aggregatedFields registry,
          MayRead registry authorization obj field) := by
  obtain ⟨obj, p, hprepared, hcolumns, hwhere, hnames, hdistinct, hbound⟩ :=
    emitted_of_compile hok hprint
  refine ⟨obj, hprepared.found, ?_, hcolumns, hprepared.mayRead_all_iff⟩
  rw [← hprepared.authorized_iff hcolumns]
  constructor
  · exact CompiledFor.authorized
  · intro hauthorized
    exact ⟨hauthorized, hprepared.filters.filterable,
      ⟨_, hwhere, hprepared.filters.compared⟩, hnames, hdistinct, hbound⟩

end Authorized

/-! Requests for one metric of the demo ontology -/

/-- The sqlglot of statements without an ORDER BY, with the text and the tree of one of them. -/
def demoQueryEnv (text : String) (s : SelectStatement) : QueryEnv where
  toSqlEnv := demoEnv (singleTable s.selectList s.clauses
    (.leaf (.table s.fromTable.1 s.fromTable.2 "")))
  fromTable := fun name => some (name, "")
  render := fun _ => text

def demoPolicies : SqlScopePolicyRegistry where
  version := "3"
  tables := [("demo_projects", {
    access := .scoped, scopeDimension := some "site", scopeColumn := some "site_id" })]

/-- The statement of a request, as it is built whatever the text of it is. -/
def demoStatement (registry : OntologyRegistry) (request : SemanticRequest) : SelectStatement :=
  match request.prepare (demoQueryEnv "" ⟨[], ("", ""), [], [], []⟩) registry
    demoAuthorization with
  | .ok p => p.statement
  | .error _ => ⟨[], ("", ""), [], [], []⟩

theorem demo_printsBack (text : String) (registry : OntologyRegistry) (request : SemanticRequest)
    (p : Prepared)
    (h : request.prepare (demoQueryEnv text (demoStatement registry request)) registry
      demoAuthorization = .ok p) :
    ∃ t, (demoQueryEnv text (demoStatement registry request)).PrintsBack p.statement t := by
  have hsame : request.prepare (demoQueryEnv "" ⟨[], ("", ""), [], [], []⟩) registry
      demoAuthorization = .ok p := by
    rw [← h]
    cases request <;> rfl
  have hstatement : demoStatement registry request = p.statement := by
    rw [demoStatement, hsame]
  refine ⟨_, rfl, [], ?_, nofun⟩
  rw [hstatement, singleTable, List.append_nil]
  rfl

/-- The largest `field` by site. -/
def demoRequest : SemanticRequest :=
  .metrics {
    metricIds := ["project.last"]
    dimensions := ["site_id"]
    filters := [⟨"site_id", .isIn, .list [.str "site-demo-001", .str "site-demo-002"]⟩] }

def maxOntology (field : String)
    (hmetric : CheckedMetric [("Project", demoProject "private_code")]
      ("project.last", demoMetric "project.last" .max (some field) ["site_id"])) :
    OntologyRegistry :=
  demoOntology (demoProject "private_code")
    (demoMetric "project.last" .max (some field) ["site_id"]) (by decide) hmetric

def demoText (field : String) : String :=
  "SELECT site_id AS `site_id`, MAX(" ++ field ++ ") AS `project.last` FROM demo_projects " ++
    "WHERE site_id IN (:filter_0_0, :filter_0_1) GROUP BY site_id"

/-- The environment of the request for the largest `field`. -/
def maxEnv (field : String)
    (hmetric : CheckedMetric [("Project", demoProject "private_code")]
      ("project.last", demoMetric "project.last" .max (some field) ["site_id"])) : QueryEnv :=
  demoQueryEnv (demoText field) (demoStatement (maxOntology field hmetric) demoRequest)

def compileMax (field : String)
    (hmetric : CheckedMetric [("Project", demoProject "private_code")]
      ("project.last", demoMetric "project.last" .max (some field) ["site_id"])) :
    Except QueryError CompiledSemanticQuery :=
  demoRequest.compile (maxEnv field hmetric) (maxOntology field hmetric) demoAuthorization
    ["semantic_demo"] demoPolicies defaultQueryLimit

theorem compiled_for_of_max_id :
    ∃ obj out, compileMax "id" (by decide) = .ok out ∧
      demoRequest.objectOf (maxOntology "id" (by decide)) = some obj ∧
      CompiledFor (maxEnv "id" (by decide)) demoAuthorization demoPolicies demoRequest obj out := by
  have hok : (compileMax "id" (by decide)).isOk = true := by decide +kernel
  have hproject : demoRequest.objectOf (maxOntology "id" (by decide)) =
      some (demoProject "private_code") := by
    decide +kernel
  obtain ⟨out, h⟩ := exists_eq_ok hok
  obtain ⟨obj, hobj, hiff, -⟩ := compiled_for_iff h
    (demo_printsBack (demoText "id") (maxOntology "id" (by decide)) demoRequest)
  obtain rfl := Option.some.inj (hproject.symm.trans hobj)
  exact ⟨_, out, h, hobj, hiff.mpr ⟨by decide +kernel, by decide +kernel⟩⟩

/-- The largest value of a property that the caller may not read. -/
theorem aggregate_reads_hidden_property :
    ¬ ∀ obj out, compileMax "private_code" (by decide) = .ok out →
      demoRequest.objectOf (maxOntology "private_code" (by decide)) = some obj →
      CompiledFor (maxEnv "private_code" (by decide)) demoAuthorization demoPolicies demoRequest
        obj out := by
  intro hall
  have hread : (compileMax "private_code" (by decide)).map
      (fun out => decide ("private_code" ∈ readColumns out.scopedQuery.sql)) = .ok true := by
    decide +kernel
  have hproject : demoRequest.objectOf (maxOntology "private_code" (by decide)) =
      some (demoProject "private_code") := by
    decide +kernel
  obtain ⟨out, hok, hmem⟩ := map_eq_ok.mp hread
  have hroles := (hall _ out hok hproject).authorized
    (demoProperty "private_code" ["tenant_admin"]) (by decide) (of_decide_eq_true hmem)
  exact absurd hroles (by decide)

end DeerFlow.Semantic.Ontology
