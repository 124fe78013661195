import DeerFlow.Semantic.OntologyRegistry
import DeerFlow.Semantic.SqlScope

/-! Semantic requests compiled to SQL: which columns are selected, compared, grouped and
aggregated, the names of the values, and the guard's scope merged in. -/

namespace DeerFlow.Semantic.Ontology
open RoseTree

inductive FilterOperator where
  | eq
  | ne
  | gt
  | gte
  | lt
  | lte
  | isIn
  deriving DecidableEq

structure SemanticFilter where
  field : String
  operator : FilterOperator
  value : Value

structure SemanticOrder where
  field : String
  descending : Bool := false

inductive QueryError where
  | ontology (error : OntologyError)
  | sql (error : SqlError)
  /-- The table's text is not the name of a table. -/
  | parse
  deriving DecidableEq

def fromOntology {α : Type} (x : Except OntologyError α) : Except QueryError α :=
  x.mapError .ontology

def maxInFilterValues : Nat := 100

/-! The statement -/

/-- `exp.select(..)` as it is built; the selected expressions come with their aliases. -/
structure SelectStatement where
  expressions : List (String × SqlNode)
  fromTable : String × String
  conditions : List SqlNode := []
  groupBy : List SqlNode := []
  orderBy : List SemanticOrder := []

def columnNode (column : String) : SqlNode := .leaf (.column column "" "")

/-- An operand that is a connector itself gets parentheses. -/
def wrapConnector (n : SqlNode) : SqlNode :=
  if n.label = .other "And" then .node (.other "Paren") [n] else n

/-- The conditions joined from the left. -/
def conjunction (first : SqlNode) (rest : List SqlNode) : SqlNode :=
  rest.foldl (fun this c => .node (.other "And") [wrapConnector this, wrapConnector c]) first

def whereClause : List SqlNode → List SqlNode
  | [] => []
  | c :: cs => [.node .whereClause [conjunction c cs]]

def groupClause : List SqlNode → List SqlNode
  | [] => []
  | c :: cs => [.node (.other "Group") (c :: cs)]

namespace SelectStatement
variable (s : SelectStatement)

def selectList : List SqlNode := s.expressions.map fun x => .node (.other "Alias") [x.2]

def fromClause : SqlNode := .node .fromClause [.leaf (.table s.fromTable.1 s.fromTable.2 "")]

/-- The clauses after FROM and before ORDER BY. -/
def clauses : List SqlNode := whereClause s.conditions ++ groupClause s.groupBy

end SelectStatement

/-- `fromTable` reads the text of a FROM clause: the table's name and database. `render` is
`statement.sql(dialect="mysql")`. -/
structure QueryEnv extends SqlEnv where
  fromTable : String → Option (String × String)
  render : SelectStatement → String

/-- A part of an ORDER BY over these fields. -/
def isOrderKind (fields : List String) : SqlKind → Bool
  | .other _ | .func .. => true
  | .column name table _ => fields.contains name && table = ""
  | _ => false

/-- The text of a statement is parsed back to its tree. An ORDER BY may come back with more keys
than it was built with, since MySQL has no NULLS LAST. -/
structure QueryEnv.PrintsBack (E : QueryEnv) (s : SelectStatement) (t : SqlNode) : Prop where
  parsed : E.parse (E.render s) = some [some t]
  shape : ∃ order, t = .node .select (s.selectList ++ s.fromClause :: (s.clauses ++ order)) ∧
    ∀ c ∈ order, c.label = .other "Order" ∧
      ∀ p n, c.get? p = some n → isOrderKind (s.orderBy.map SemanticOrder.field) n.label = true

/-! Filters -/

/-- `{f"{stem}_{index}": value for index, value in enumerate(values)}`. -/
def numbered (stem : String) (values : List Value) : Dict Value :=
  values.zipIdx.map fun x => (stem ++ "_" ++ toString x.2, x.1)

def FilterOperator.className : FilterOperator → String
  | .eq => "EQ"
  | .ne => "NEQ"
  | .gt => "GT"
  | .gte => "GTE"
  | .lt => "LT"
  | .lte => "LTE"
  | .isIn => "In"

def condition (column : String) (operator : FilterOperator) (parameterStem : String)
    (value : Value) : Except OntologyError (SqlNode × Dict Value) :=
  match operator, value with
  | .isIn, .list (item :: items) =>
    if (item :: items).length > maxInFilterValues then
      .error ⟨"IN filter exceeds the semantic filter budget"⟩
    else
      let parameters := numbered parameterStem (item :: items)
      .ok (inPredicate column parameters.keys, parameters)
  | .isIn, _ => .error ⟨"IN filter requires a non-empty list"⟩
  | operator, value =>
    .ok (.node (.other operator.className) [columnNode column, .leaf (.placeholder parameterStem)],
      [(parameterStem, value)])

def applyFilter (obj : ObjectDefinition) (allowedFields : Option (List String))
    (s : SelectStatement × Dict Value) (x : SemanticFilter × Nat) :
    Except OntologyError (SelectStatement × Dict Value) :=
  if allowedFields.any fun allowed => !allowed.contains x.1.field then
    .error ⟨"Filter " ++ quoted x.1.field ++ " is not allowed"⟩
  else do
    let prop ← obj.property x.1.field
    if !prop.filterable then .error ⟨"Property " ++ quoted x.1.field ++ " is not filterable"⟩
    else
      let (c, values) ← condition prop.column x.1.operator ("filter_" ++ toString x.2) x.1.value
      return ({ s.1 with conditions := s.1.conditions ++ [c] }, s.2.update values)

def applyFilters (statement : SelectStatement) (obj : ObjectDefinition)
    (filters : List SemanticFilter) (allowedFields : Option (List String)) :
    Except OntologyError (SelectStatement × Dict Value) :=
  filters.zipIdx.foldlM (applyFilter obj allowedFields) (statement, [])

/-! Compiled queries -/

structure CompiledSemanticQuery where
  scopedQuery : ScopedQuery
  /-- `scoped_query.parameters`: the values of the filters, and the scope's. -/
  parameters : Dict Value
  columns : List String
  ontologyVersion : String
  semanticKind : String
  semanticId : String
  semanticVersion : String
  semanticIds : List String
  semanticVersions : Dict String

structure Prepared where
  statement : SelectStatement
  parameters : Dict Value
  columns : List String
  semanticKind : String
  semanticId : String
  semanticVersion : String
  semanticIds : List String
  semanticVersions : Dict String

/-- `{**parameters, **scoped.parameters}`, and the rest as it is. -/
def Prepared.compiled (p : Prepared) (registry : OntologyRegistry) (scopedQuery : ScopedQuery) :
    CompiledSemanticQuery where
  scopedQuery := scopedQuery
  parameters := p.parameters.update (scopedQuery.parameters.map fun x => (x.1, .str x.2))
  columns := p.columns
  ontologyVersion := registry.version
  semanticKind := p.semanticKind
  semanticId := p.semanticId
  semanticVersion := p.semanticVersion
  semanticIds := p.semanticIds
  semanticVersions := p.semanticVersions

structure ObjectRequest where
  objectType : String
  filters : List SemanticFilter := []
  properties : Option (List String) := none
  objectId : Option String := none

structure MetricsRequest where
  metricIds : List String
  dimensions : List String := []
  filters : List SemanticFilter := []
  orderBy : List SemanticOrder := []

section Prepare
variable (E : QueryEnv) (registry : OntologyRegistry) (authorization : AuthorizationContext)

/-- An expression that selects a property under its own name. -/
def selectProperty (objectName name : String) : Except QueryError (String × SqlNode) := do
  let prop ← fromOntology (registry.authorizeProperty objectName name authorization)
  return (name, columnNode prop.column)

def QueryEnv.tableOf (obj : ObjectDefinition) : Except QueryError (String × String) :=
  match E.fromTable obj.table with
  | none => .error .parse
  | some table => .ok table

def authorizeField (objectName name : String) : Except QueryError Unit := do
  let _ ← fromOntology (registry.authorizeProperty objectName name authorization)
  return ()

/-- The properties that an object query selects. -/
def ObjectRequest.selected (q : ObjectRequest) (obj : ObjectDefinition) : List String :=
  match q.properties with
  | none => Dict.keys (obj.properties.filter fun x =>
      OntologyRegistry.roleAllowed x.2.allowedRoles authorization)
  | some properties => properties

def ObjectRequest.queryFilters (q : ObjectRequest) (obj : ObjectDefinition) :
    List SemanticFilter :=
  q.filters ++ match q.objectId with
    | none => []
    | some objectId => [{ field := obj.idField, operator := .eq, value := .str objectId }]

def ObjectRequest.prepare (q : ObjectRequest) : Except QueryError Prepared := do
  let obj ← fromOntology (registry.authorizeObject q.objectType authorization)
  let selected := q.selected authorization obj
  if selected = [] then .error (.ontology ⟨"Object query requires at least one property"⟩)
  else
    let expressions ← selected.mapM (selectProperty registry authorization obj.name)
    let fromTable ← E.tableOf obj
    forM (q.queryFilters obj) fun f => authorizeField registry authorization obj.name f.field
    let (statement, parameters) ← fromOntology
      (applyFilters { expressions, fromTable } obj (q.queryFilters obj) none)
    return { statement, parameters, columns := selected, semanticKind := "object",
             semanticId := obj.name, semanticVersion := registry.version,
             semanticIds := [obj.name], semanticVersions := [(obj.name, obj.version)] }

def Aggregation.function : Aggregation → SqlKind
  | .count => .func "Count" "COUNT" true
  | .sum => .func "Sum" "SUM" true
  | .avg => .func "Avg" "AVG" true
  | .min => .func "Min" "MIN" true
  | .max => .func "Max" "MAX" true

def aggregate (metric : MetricDefinition) (obj : ObjectDefinition) : Except QueryError SqlNode :=
  if metric.aggregation = .count then .ok (.node Aggregation.count.function [.leaf .star])
  else match metric.field with
    | none => .error (.sql .assertion)
    | some field => do
      let prop ← fromOntology (obj.property field)
      return .node metric.aggregation.function [columnNode prop.column]

/-- An expression that is named after the metric. -/
def selectMetric (obj : ObjectDefinition) (metric : MetricDefinition) :
    Except QueryError (String × SqlNode) := do
  let expression ← aggregate metric obj
  return (metric.name, expression)

/-- A dimension as it is selected and grouped by; its authorization has been checked before. -/
def dimensionColumn (obj : ObjectDefinition) (name : String) : Except QueryError SqlNode := do
  let prop ← fromOntology (obj.property name)
  return columnNode prop.column

def MetricsRequest.uniqueMetricIds (q : MetricsRequest) : List String :=
  ((q.metricIds.map strip).filter (· ≠ "")).eraseDups

/-- What all the metrics have among their dimensions, or among their filters. -/
def commonFields (fields : MetricDefinition → List String) (first : MetricDefinition)
    (rest : List MetricDefinition) : List String :=
  (fields first).filter fun name => rest.all fun metric => (fields metric).contains name

def MetricsRequest.checkDimensions (q : MetricsRequest) (allowed : List String) :
    Except QueryError Unit :=
  match q.dimensions.filter fun name => !allowed.contains name with
  | [] => .ok ()
  | unknown => .error (.ontology ⟨"Metric dimensions are not allowed: " ++
      ", ".intercalate (sorted unknown.dedup)⟩)

def MetricsRequest.checkOrder (q : MetricsRequest) (order : SemanticOrder) :
    Except QueryError Unit :=
  if (q.dimensions ++ q.uniqueMetricIds).contains order.field then .ok ()
  else .error (.ontology ⟨"Metric order field " ++ quoted order.field ++ " is not allowed"⟩)

def MetricsRequest.prepareFor (q : MetricsRequest) (first : MetricDefinition)
    (rest : List MetricDefinition) : Except QueryError Prepared :=
  if rest.any fun metric => metric.objectType ≠ first.objectType then
    .error (.ontology ⟨"Metrics from different object types cannot share one query"⟩)
  else do
    let obj ← fromOntology (registry.object first.objectType)
    q.checkDimensions (commonFields MetricDefinition.dimensions first rest)
    forM (q.dimensions ++ q.filters.map SemanticFilter.field) fun name =>
      authorizeField registry authorization obj.name name
    let dimensions ← q.dimensions.mapM (dimensionColumn obj)
    let metrics ← (first :: rest).mapM (selectMetric obj)
    let fromTable ← E.tableOf obj
    let allowedFilters := sorted (commonFields MetricDefinition.filters first rest).dedup
    let (statement, parameters) ← fromOntology (applyFilters
      { expressions := q.dimensions.zip dimensions ++ metrics, fromTable } obj q.filters
      (some allowedFilters))
    forM q.orderBy q.checkOrder
    let semanticIds := q.uniqueMetricIds
    return { statement := { statement with groupBy := dimensions, orderBy := q.orderBy }
             parameters
             columns := q.dimensions ++ semanticIds
             semanticKind := "metric"
             semanticId := match semanticIds with | [id] => id | _ => "metrics"
             semanticVersion := if rest = [] then first.version else registry.version
             semanticIds
             semanticVersions := (first :: rest).map fun metric => (metric.name, metric.version) }

def MetricsRequest.prepare (q : MetricsRequest) : Except QueryError Prepared :=
  if q.uniqueMetricIds = [] then
    .error (.ontology ⟨"Metric query requires at least one metric"⟩)
  else if q.uniqueMetricIds.length > 10 then
    .error (.ontology ⟨"Metric query exceeds the metric budget"⟩)
  else do
    let metrics ← q.uniqueMetricIds.mapM fun id =>
      fromOntology (registry.authorizeMetric id authorization)
    match metrics with
    -- there are as many metrics as ids
    | [] => .error (.ontology ⟨"Metric query requires at least one metric"⟩)
    | first :: rest => q.prepareFor E registry authorization first rest

variable (allowedDatabases : List String) (policyRegistry : SqlScopePolicyRegistry) (limit : Int)

/-- The guarded statement of a prepared request. -/
def Prepared.guard (p : Prepared) : Except QueryError CompiledSemanticQuery := do
  let scopedQuery ← (E.guardSqlQuery (E.render p.statement) authorization allowedDatabases
    policyRegistry limit).mapError .sql
  return p.compiled registry scopedQuery

def compileObjectQuery (q : ObjectRequest) : Except QueryError CompiledSemanticQuery := do
  let p ← q.prepare E registry authorization
  p.guard E registry authorization allowedDatabases policyRegistry limit

def compileMetricsQuery (q : MetricsRequest) : Except QueryError CompiledSemanticQuery := do
  let p ← q.prepare E registry authorization
  p.guard E registry authorization allowedDatabases policyRegistry limit

end Prepare

inductive SemanticRequest where
  | object (q : ObjectRequest)
  | metrics (q : MetricsRequest)

def SemanticRequest.prepare (E : QueryEnv) (registry : OntologyRegistry)
    (authorization : AuthorizationContext) : SemanticRequest → Except QueryError Prepared
  | .object q => q.prepare E registry authorization
  | .metrics q => q.prepare E registry authorization

def SemanticRequest.compile (E : QueryEnv) (registry : OntologyRegistry)
    (authorization : AuthorizationContext) (allowedDatabases : List String)
    (policyRegistry : SqlScopePolicyRegistry) (limit : Int) :
    SemanticRequest → Except QueryError CompiledSemanticQuery
  | .object q => compileObjectQuery E registry authorization allowedDatabases policyRegistry limit q
  | .metrics q =>
    compileMetricsQuery E registry authorization allowedDatabases policyRegistry limit q

end DeerFlow.Semantic.Ontology
