import DeerFlow.Lib.Except
import DeerFlow.Semantic.Ontology

/-! The ontology registry with all it holds: objects and their properties, links, metrics and
actions, and who may see them. A registry carries what was checked when it was read. -/

namespace DeerFlow.Semantic.Ontology

deriving instance DecidableEq for ParameterDefinition, Precondition, Semantic.ObjectDefinition,
  Semantic.ActionDefinition

structure PropertyDefinition where
  name : String
  column : String
  valueType : String
  label : String
  unit : Option String
  sensitivity : String
  filterable : Bool
  aggregatable : Bool
  allowedRoles : List String
  deriving DecidableEq

structure ObjectDefinition extends Semantic.ObjectDefinition where
  table : String
  label : String
  keywords : List String
  properties : Dict PropertyDefinition
  version : String
  deriving DecidableEq

def ObjectDefinition.property (obj : ObjectDefinition) (name : String) :
    Except OntologyError PropertyDefinition :=
  match obj.properties.get name with
  | none => .error ⟨"Unknown property " ++ obj.name ++ "." ++ name⟩
  | some prop => .ok prop

structure LinkDefinition where
  name : String
  fromObject : String
  toObject : String
  fromField : String
  toField : String
  cardinality : String
  version : String
  deriving DecidableEq

inductive Aggregation where
  | count
  | sum
  | avg
  | min
  | max
  deriving DecidableEq

structure MetricDefinition where
  name : String
  label : String
  objectType : String
  aggregation : Aggregation
  field : Option String
  dimensions : List String
  filters : List String
  unit : Option String
  keywords : List String
  version : String
  grain : Option String
  timeSemantics : Option String
  sourceRefs : List String
  allowedRoles : List String
  deriving DecidableEq

structure ActionDefinition extends Semantic.ActionDefinition where
  label : String
  keywords : List String
  deriving DecidableEq

/-- `field` is a property of the object called `objectName`. -/
def HasProperty (objects : Dict ObjectDefinition) (objectName field : String) : Prop :=
  ∃ obj ∈ objects.get objectName, (obj.properties.get field).isSome

instance (objects : Dict ObjectDefinition) (objectName field : String) :
    Decidable (HasProperty objects objectName field) :=
  inferInstanceAs (Decidable (∃ obj ∈ objects.get objectName, (obj.properties.get field).isSome))

/-- What `from_mapping` checks of an object, and of the key it is stored under. -/
structure CheckedObject (item : String × ObjectDefinition) : Prop where
  named : item.2.name = item.1
  distinct : item.2.properties.keys.Nodup
  properties : ∀ prop ∈ item.2.properties, prop.2.name = prop.1
  idField : (item.2.properties.get item.2.idField).isSome

structure CheckedMetric (objects : Dict ObjectDefinition) (item : String × MetricDefinition) :
    Prop where
  named : item.2.name = item.1
  objectType : (objects.get item.2.objectType).isSome
  aggregated : item.2.aggregation ≠ .count → item.2.field.isSome
  field : ∀ field ∈ item.2.field, ∃ obj ∈ objects.get item.2.objectType,
    ∃ prop ∈ obj.properties.get field, prop.aggregatable = true
  dimensions : ∀ name ∈ item.2.dimensions, HasProperty objects item.2.objectType name
  filters : ∀ name ∈ item.2.filters, ∃ obj ∈ objects.get item.2.objectType,
    ∃ prop ∈ obj.properties.get name, prop.filterable = true

structure CheckedAction (objects : Dict ObjectDefinition) (item : String × ActionDefinition) :
    Prop where
  named : item.2.name = item.1
  targetType : (objects.get item.2.targetType).isSome
  preconditions : ∀ condition ∈ item.2.preconditions,
    HasProperty objects item.2.targetType condition.field

instance (item : String × ObjectDefinition) : Decidable (CheckedObject item) :=
  decidable_of_iff (item.2.name = item.1 ∧ item.2.properties.keys.Nodup ∧
      (∀ prop ∈ item.2.properties, prop.2.name = prop.1) ∧
      (item.2.properties.get item.2.idField).isSome)
    ⟨fun ⟨named, distinct, properties, idField⟩ => ⟨named, distinct, properties, idField⟩,
      fun h => ⟨h.named, h.distinct, h.properties, h.idField⟩⟩

instance (objects : Dict ObjectDefinition) (item : String × MetricDefinition) :
    Decidable (CheckedMetric objects item) :=
  decidable_of_iff (item.2.name = item.1 ∧ (objects.get item.2.objectType).isSome ∧
      (item.2.aggregation ≠ .count → item.2.field.isSome) ∧
      (∀ field ∈ item.2.field, ∃ obj ∈ objects.get item.2.objectType,
        ∃ prop ∈ obj.properties.get field, prop.aggregatable = true) ∧
      (∀ name ∈ item.2.dimensions, HasProperty objects item.2.objectType name) ∧
      ∀ name ∈ item.2.filters, ∃ obj ∈ objects.get item.2.objectType,
        ∃ prop ∈ obj.properties.get name, prop.filterable = true)
    ⟨fun ⟨named, objectType, aggregated, field, dimensions, filters⟩ =>
        ⟨named, objectType, aggregated, field, dimensions, filters⟩,
      fun h => ⟨h.named, h.objectType, h.aggregated, h.field, h.dimensions, h.filters⟩⟩

structure OntologyRegistry where
  version : String
  policyVersion : String
  mappingVersion : String
  objects : Dict ObjectDefinition
  links : Dict LinkDefinition
  metrics : Dict MetricDefinition
  actions : Dict ActionDefinition
  distinct_objects : objects.keys.Nodup
  distinct_metrics : metrics.keys.Nodup
  checked_objects : ∀ item ∈ objects, CheckedObject item
  checked_links : ∀ item ∈ links, HasProperty objects item.2.fromObject item.2.fromField ∧
    HasProperty objects item.2.toObject item.2.toField
  checked_metrics : ∀ item ∈ metrics, CheckedMetric objects item
  checked_actions : ∀ item ∈ actions, CheckedAction objects item

namespace OntologyRegistry
variable (r : OntologyRegistry)

def object (name : String) : Except OntologyError ObjectDefinition :=
  match r.objects.get name with
  | none => .error ⟨"Unknown object type " ++ quoted name⟩
  | some obj => .ok obj

def metric (name : String) : Except OntologyError MetricDefinition :=
  match r.metrics.get name with
  | none => .error ⟨"Unknown metric " ++ quoted name⟩
  | some metric => .ok metric

def roleAllowed (allowedRoles : List String) (authorization : AuthorizationContext) : Bool :=
  Semantic.OntologyRegistry.roleAllowed allowedRoles authorization

def authorizeObject (name : String) (authorization : AuthorizationContext) :
    Except OntologyError ObjectDefinition := do
  let obj ← r.object name
  if roleAllowed obj.allowedRoles authorization then return obj
  else .error ⟨"Object type " ++ quoted name ++ " is not authorized"⟩

def authorizeProperty (objectName propertyName : String) (authorization : AuthorizationContext) :
    Except OntologyError PropertyDefinition := do
  let obj ← r.authorizeObject objectName authorization
  let prop ← obj.property propertyName
  if roleAllowed prop.allowedRoles authorization then return prop
  else .error ⟨"Property " ++ objectName ++ "." ++ propertyName ++ " is not authorized"⟩

def authorizeMetric (name : String) (authorization : AuthorizationContext) :
    Except OntologyError MetricDefinition := do
  let metric ← r.metric name
  let _ ← r.authorizeObject metric.objectType authorization
  if roleAllowed metric.allowedRoles authorization then return metric
  else .error ⟨"Metric " ++ quoted name ++ " is not authorized"⟩

section Lookup
variable {r} {name : String} {obj : ObjectDefinition} {authorization : AuthorizationContext}

theorem get_mapValues {β γ : Type} (f : β → γ) (d : Dict β) (k : String) :
    Dict.get (d.map fun x => (x.1, f x.2)) k = (d.get k).map f := by
  induction d with
  | nil => rfl
  | cons x d ih =>
    rw [List.map_cons, Dict.get_cons, Dict.get_cons, ih]
    split_ifs <;> rfl

theorem object_eq_ok : r.object name = .ok obj ↔ r.objects.get name = some obj := by
  unfold object
  cases r.objects.get name with
  | none => exact ⟨nofun, nofun⟩
  | some obj' => simp

theorem property_eq_ok {prop : PropertyDefinition} :
    obj.property name = .ok prop ↔ obj.properties.get name = some prop := by
  unfold ObjectDefinition.property
  cases obj.properties.get name with
  | none => exact ⟨nofun, nofun⟩
  | some prop' => simp

theorem authorizeObject_eq_ok : r.authorizeObject name authorization = .ok obj ↔
    r.objects.get name = some obj ∧ roleAllowed obj.allowedRoles authorization = true := by
  unfold authorizeObject
  rw [bind_eq_ok]
  simp only [object_eq_ok]
  constructor
  · rintro ⟨obj', hobj, h⟩
    split_ifs at h with hroles
    cases h
    exact ⟨hobj, hroles⟩
  · rintro ⟨hobj, hroles⟩
    exact ⟨obj, hobj, by rw [if_pos hroles]; rfl⟩

theorem authorizeProperty_eq_ok {field : String} {prop : PropertyDefinition} :
    r.authorizeProperty name field authorization = .ok prop ↔
    ∃ obj, r.authorizeObject name authorization = .ok obj ∧
      obj.properties.get field = some prop ∧
      roleAllowed prop.allowedRoles authorization = true := by
  unfold authorizeProperty
  rw [bind_eq_ok]
  refine exists_congr fun obj => and_congr Iff.rfl ?_
  rw [bind_eq_ok]
  simp only [property_eq_ok]
  constructor
  · rintro ⟨prop', hprop, h⟩
    split_ifs at h with hroles
    cases h
    exact ⟨hprop, hroles⟩
  · rintro ⟨hprop, hroles⟩
    exact ⟨prop, hprop, by rw [if_pos hroles]; rfl⟩

theorem get_name_of_mem {item : String × ObjectDefinition} (h : item ∈ r.objects) :
    r.objects.get item.2.name = some item.2 := by
  rw [(r.checked_objects item h).named]
  exact Dict.get_of_mem r.distinct_objects h

theorem get_name_of_mem_metrics {item : String × MetricDefinition} (h : item ∈ r.metrics) :
    r.metrics.get item.2.name = some item.2 := by
  rw [(r.checked_metrics item h).named]
  exact Dict.get_of_mem r.distinct_metrics h

end Lookup

end OntologyRegistry

/-! A registry of one object and one metric -/

def demoProperty (name : String) (allowedRoles : List String) : PropertyDefinition where
  name := name
  column := name
  valueType := "number"
  label := name
  unit := none
  sensitivity := "internal"
  filterable := true
  aggregatable := true
  allowedRoles := allowedRoles

/-- A project with a property that only administrators of the tenant may read. -/
def demoProject (hidden : String) : ObjectDefinition where
  name := "Project"
  idField := "id"
  allowedRoles := []
  table := "demo_projects"
  label := "Project"
  keywords := []
  properties := [("id", demoProperty "id" []), ("site_id", demoProperty "site_id" []),
    (hidden, demoProperty hidden ["tenant_admin"])]
  version := "7"

def demoMetric (name : String) (aggregation : Aggregation) (field : Option String)
    (dimensions : List String) : MetricDefinition where
  name := name
  label := name
  objectType := "Project"
  aggregation := aggregation
  field := field
  dimensions := dimensions
  filters := ["site_id"]
  unit := none
  keywords := []
  version := "7"
  grain := none
  timeSemantics := none
  sourceRefs := ["demo_projects"]
  allowedRoles := ["site_admin"]

def demoOntology (obj : ObjectDefinition) (metric : MetricDefinition)
    (hobj : CheckedObject (obj.name, obj))
    (hmetric : CheckedMetric [(obj.name, obj)] (metric.name, metric)) : OntologyRegistry where
  version := "7"
  policyVersion := "7"
  mappingVersion := "7"
  objects := [(obj.name, obj)]
  links := []
  metrics := [(metric.name, metric)]
  actions := []
  distinct_objects := List.nodup_singleton _
  distinct_metrics := List.nodup_singleton _
  checked_objects := List.forall_mem_singleton.mpr hobj
  checked_links := nofun
  checked_metrics := List.forall_mem_singleton.mpr hmetric
  checked_actions := nofun

end DeerFlow.Semantic.Ontology
