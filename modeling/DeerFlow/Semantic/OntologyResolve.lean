import DeerFlow.Semantic.OntologyRegistry
import DeerFlow.Semantic.SqlScope

/-! Resolving a question against the ontology: what of the registry is shown to the caller. The
view of a caller is the registry without what the roles do not allow; an answer that is computed
from the view alone cannot depend on the rest. -/

namespace DeerFlow.Semantic.Ontology

structure ResolveEnv where
  str : Value → String
  casefold : String → String

structure ResolvedProperty where
  id : String
  label : String
  type : String
  unit : Option String
  sensitivity : String
  filterable : Bool
  aggregatable : Bool
  deriving DecidableEq

structure ResolvedObject where
  id : String
  label : String
  version : String
  properties : List String
  propertyDefinitions : List ResolvedProperty
  sourceRefs : List String
  deriving DecidableEq

structure ResolvedLink where
  id : String
  version : String
  fromObject : String
  toObject : String
  fromField : String
  toField : String
  cardinality : String
  deriving DecidableEq

structure ResolvedMetric where
  id : String
  label : String
  version : String
  unit : Option String
  grain : Option String
  timeSemantics : Option String
  dimensions : List String
  filters : List String
  sourceRefs : List String
  deriving DecidableEq

structure ResolvedAction where
  id : String
  label : String
  version : String
  targetType : String
  approvalRequired : Bool
  deriving DecidableEq

structure ResolvedOntology where
  ontologyVersion : String
  objects : List ResolvedObject
  links : List ResolvedLink
  metrics : List ResolvedMetric
  actions : List ResolvedAction
  policyVersion : String
  mappingVersion : String
  deriving DecidableEq

/-- `authorization is None or self._role_allowed(allowed_roles, authorization)`. -/
def visibleTo (authorization : Option AuthorizationContext) (allowedRoles : List String) : Bool :=
  match authorization with
  | none => true
  | some a => OntologyRegistry.roleAllowed allowedRoles a

def PropertyDefinition.resolved (prop : PropertyDefinition) : ResolvedProperty where
  id := prop.name
  label := prop.label
  type := prop.valueType
  unit := prop.unit
  sensitivity := prop.sensitivity
  filterable := prop.filterable
  aggregatable := prop.aggregatable

def ObjectDefinition.resolved (obj : ObjectDefinition) (visible : PropertyDefinition → Bool) :
    ResolvedObject where
  id := obj.name
  label := obj.label
  version := obj.version
  properties := sorted ((obj.properties.values.filter visible).map PropertyDefinition.name)
  propertyDefinitions := (obj.properties.values.filter visible).map PropertyDefinition.resolved
  sourceRefs := [obj.table]

def LinkDefinition.resolved (link : LinkDefinition) : ResolvedLink where
  id := link.name
  version := link.version
  fromObject := link.fromObject
  toObject := link.toObject
  fromField := link.fromField
  toField := link.toField
  cardinality := link.cardinality

def MetricDefinition.resolved (metric : MetricDefinition) : ResolvedMetric where
  id := metric.name
  label := metric.label
  version := metric.version
  unit := metric.unit
  grain := metric.grain
  timeSemantics := metric.timeSemantics
  dimensions := metric.dimensions
  filters := metric.filters
  sourceRefs := metric.sourceRefs

def ActionDefinition.resolved (action : ActionDefinition) : ResolvedAction where
  id := action.name
  label := action.label
  version := action.version
  targetType := action.targetType
  approvalRequired := action.approvalRequired

/-- `[x for x in xs if p(x)]`, with a condition that may raise. -/
def filterOk {α : Type} (p : α → Except OntologyError Bool) : List α → Except OntologyError (List α)
  | [] => .ok []
  | x :: xs => do
    let keep ← p x
    let rest ← filterOk p xs
    return if keep then x :: rest else rest

section Matching
variable (E : ResolveEnv)

/-- The ids a recall has proposed for one kind of item. -/
def ResolveEnv.candidates (candidateIds : Dict (List Value)) (kind : String) : List String :=
  ((candidateIds.get kind).getD []).map E.str

def ResolveEnv.isMatch (question : String) (candidateIds : Dict (List Value))
    (kind name label : String) (keywords : List String) : Bool :=
  (E.candidates candidateIds kind).contains name ||
    (name :: label :: keywords).any fun value =>
      decide ((E.casefold value).toList <:+: (E.casefold question).toList)

end Matching

namespace OntologyRegistry
variable (r : OntologyRegistry)

def linkIsVisible (authorization : Option AuthorizationContext) (link : LinkDefinition) :
    Except OntologyError Bool :=
  match authorization with
  | none => .ok true
  | some a => do
    let fromObject ← r.object link.fromObject
    let toObject ← r.object link.toObject
    if !roleAllowed fromObject.allowedRoles a then return false
    else if !roleAllowed toObject.allowedRoles a then return false
    else
      let fromProperty ← fromObject.property link.fromField
      if !roleAllowed fromProperty.allowedRoles a then return false
      else
        let toProperty ← toObject.property link.toField
        return roleAllowed toProperty.allowedRoles a

/-- A metric or an action is visible by its own roles and those of its object. -/
def itemIsVisible (authorization : Option AuthorizationContext) (allowedRoles : List String)
    (objectName : String) : Except OntologyError Bool :=
  match authorization with
  | none => .ok true
  | some a =>
    if roleAllowed allowedRoles a then do
      let obj ← r.object objectName
      return roleAllowed obj.allowedRoles a
    else .ok false

def resolve (E : ResolveEnv) (question : String) (authorization : Option AuthorizationContext)
    (candidateIds : Dict (List Value)) : Except OntologyError ResolvedOntology := do
  let isMatch := E.isMatch question candidateIds
  let matchedObjects := r.objects.values.filter fun obj =>
    isMatch "objects" obj.name obj.label obj.keywords && visibleTo authorization obj.allowedRoles
  let matchedObjectNames := matchedObjects.map fun obj => obj.name
  let links ← filterOk (fun link =>
    if matchedObjectNames.contains link.fromObject || matchedObjectNames.contains link.toObject then
      r.linkIsVisible authorization link
    else .ok false) r.links.values
  let metrics ← filterOk (fun metric =>
    if isMatch "metrics" metric.name metric.label metric.keywords then
      r.itemIsVisible authorization metric.allowedRoles metric.objectType
    else .ok false) r.metrics.values
  let actions ← filterOk (fun action =>
    if isMatch "actions" action.name action.label action.keywords then
      r.itemIsVisible authorization action.allowedRoles action.targetType
    else .ok false) r.actions.values
  return { ontologyVersion := r.version
           objects := matchedObjects.map fun obj =>
             obj.resolved fun prop => visibleTo authorization prop.allowedRoles
           links := links.map LinkDefinition.resolved
           metrics := metrics.map MetricDefinition.resolved
           actions := actions.map ActionDefinition.resolved
           policyVersion := r.policyVersion
           mappingVersion := r.mappingVersion }

/-! What the caller may see -/

/-- The caller may read the property `field` of an object. -/
def readable (authorization : Option AuthorizationContext) (objectName field : String) : Bool :=
  match authorization with
  | none => true
  | some a => (r.authorizeProperty objectName field a).isOk

/-- The caller may see an object and what belongs to it. -/
def ownerVisible (authorization : Option AuthorizationContext) (objectName : String) : Bool :=
  match authorization with
  | none => true
  | some a => (r.authorizeObject objectName a).isOk

end OntologyRegistry

/-- An object without its hidden properties. -/
def ObjectDefinition.redacted (authorization : Option AuthorizationContext)
    (obj : ObjectDefinition) : ObjectDefinition :=
  { obj with
    properties := obj.properties.filter fun prop => visibleTo authorization prop.2.allowedRoles
    idField := if (obj.properties.get obj.idField).any fun prop =>
        visibleTo authorization prop.allowedRoles then obj.idField else "" }

/-- A metric that names no hidden property. -/
def MetricDefinition.redacted (readable : String → Bool) (metric : MetricDefinition) :
    MetricDefinition :=
  { metric with
    field := metric.field.filter readable
    dimensions := metric.dimensions.filter readable
    filters := metric.filters.filter readable }

def ActionDefinition.redacted (readable : String → Bool) (action : ActionDefinition) :
    ActionDefinition :=
  { action with
    preconditions := action.preconditions.filter fun condition => readable condition.field }

/-- The registry as the caller's roles let it be seen. -/
structure View where
  version : String
  policyVersion : String
  mappingVersion : String
  objects : List ObjectDefinition
  links : List LinkDefinition
  metrics : List MetricDefinition
  actions : List ActionDefinition
  deriving DecidableEq

def OntologyRegistry.view (r : OntologyRegistry) (authorization : Option AuthorizationContext) :
    View where
  version := r.version
  policyVersion := r.policyVersion
  mappingVersion := r.mappingVersion
  objects := (r.objects.values.filter fun obj => visibleTo authorization obj.allowedRoles).map
    (ObjectDefinition.redacted authorization)
  links := r.links.values.filter fun link =>
    r.readable authorization link.fromObject link.fromField &&
      r.readable authorization link.toObject link.toField
  metrics := (r.metrics.values.filter fun metric => visibleTo authorization metric.allowedRoles &&
      r.ownerVisible authorization metric.objectType).map fun metric =>
    metric.redacted (r.readable authorization metric.objectType)
  actions := (r.actions.values.filter fun action => visibleTo authorization action.allowedRoles &&
      r.ownerVisible authorization action.targetType).map fun action =>
    action.redacted (r.readable authorization action.targetType)

/-- What can be answered from the view of a caller. -/
def View.resolve (v : View) (E : ResolveEnv) (question : String)
    (candidateIds : Dict (List Value)) : ResolvedOntology :=
  let isMatch := E.isMatch question candidateIds
  let matchedObjects := v.objects.filter fun obj =>
    isMatch "objects" obj.name obj.label obj.keywords
  let matchedObjectNames := matchedObjects.map fun obj => obj.name
  { ontologyVersion := v.version
    objects := matchedObjects.map fun obj => obj.resolved fun _ => true
    links := (v.links.filter fun link => matchedObjectNames.contains link.fromObject ||
      matchedObjectNames.contains link.toObject).map LinkDefinition.resolved
    metrics := (v.metrics.filter fun metric =>
      isMatch "metrics" metric.name metric.label metric.keywords).map MetricDefinition.resolved
    actions := (v.actions.filter fun action =>
      isMatch "actions" action.name action.label action.keywords).map ActionDefinition.resolved
    policyVersion := v.policyVersion
    mappingVersion := v.mappingVersion }

section Properties
variable (r : OntologyRegistry) (E : ResolveEnv) (question : String)
  (authorization : Option AuthorizationContext) (candidateIds : Dict (List Value))

/-- Every property that a list of the result names may be read by the caller. -/
structure OntologyRegistry.ReadableOnly (result : ResolvedOntology) : Prop where
  properties : ∀ obj ∈ result.objects,
    ∀ name ∈ obj.properties ++ obj.propertyDefinitions.map ResolvedProperty.id,
      r.readable authorization obj.id name = true
  links : ∀ link ∈ result.links, r.readable authorization link.fromObject link.fromField = true ∧
    r.readable authorization link.toObject link.toField = true
  metrics : ∀ shown ∈ result.metrics, ∃ metric ∈ r.metrics.get shown.id,
    ∀ name ∈ shown.dimensions ++ shown.filters,
      r.readable authorization metric.objectType name = true

/-- The metrics that are matched and authorized list only properties the caller may read. -/
def OntologyRegistry.MetricsReadable : Prop :=
  ∀ metric ∈ r.metrics.values,
    E.isMatch question candidateIds "metrics" metric.name metric.label metric.keywords = true →
    visibleTo authorization metric.allowedRoles = true →
    r.ownerVisible authorization metric.objectType = true →
    ∀ name ∈ metric.dimensions ++ metric.filters,
      r.readable authorization metric.objectType name = true

instance : Decidable (r.MetricsReadable E question authorization candidateIds) :=
  inferInstanceAs (Decidable (∀ metric ∈ r.metrics.values, _ → _ → _ → ∀ name ∈
    metric.dimensions ++ metric.filters, _))

end Properties

theorem filterOk_eq {α : Type} {p : α → Except OntologyError Bool} {q : α → Bool} {xs : List α}
    (h : ∀ x ∈ xs, p x = .ok (q x)) : filterOk p xs = .ok (xs.filter q) := by
  induction xs with
  | nil => rfl
  | cons x xs ih =>
    obtain ⟨hx, hxs⟩ := List.forall_mem_cons.mp h
    rw [filterOk, hx, ih hxs, List.filter_cons]
    rfl

theorem filterOk_and {α : Type} {p q : α → Bool} {v : α → Except OntologyError Bool} {xs : List α}
    (h : ∀ x ∈ xs, v x = .ok (q x)) :
    filterOk (fun x => if p x then v x else .ok false) xs =
      .ok (xs.filter fun x => p x && q x) := by
  refine filterOk_eq fun x hx => ?_
  rw [h x hx]
  cases p x <;> rfl

namespace OntologyRegistry
section Visible
variable {r : OntologyRegistry} {authorization : Option AuthorizationContext}
  {objectName field : String} {obj : ObjectDefinition} {prop : PropertyDefinition}

theorem ownerVisible_of_get (hobj : r.objects.get objectName = some obj) :
    r.ownerVisible authorization objectName = visibleTo authorization obj.allowedRoles := by
  cases authorization with
  | none => rfl
  | some a =>
    rw [ownerVisible, visibleTo, Bool.eq_iff_iff]
    constructor
    · intro h
      obtain ⟨obj', hobj'⟩ := exists_eq_ok h
      obtain ⟨hget, hroles⟩ := authorizeObject_eq_ok.mp hobj'
      obtain rfl := Option.some.inj (hobj.symm.trans hget)
      exact hroles
    · intro hroles
      rw [authorizeObject_eq_ok.mpr ⟨hobj, hroles⟩]
      rfl

theorem readable_of_get (hobj : r.objects.get objectName = some obj)
    (hprop : obj.properties.get field = some prop) :
    r.readable authorization objectName field =
      (visibleTo authorization obj.allowedRoles && visibleTo authorization prop.allowedRoles) := by
  cases authorization with
  | none => rfl
  | some a =>
    rw [readable, visibleTo, visibleTo, Bool.eq_iff_iff, Bool.and_eq_true]
    constructor
    · intro h
      obtain ⟨prop', hok⟩ := exists_eq_ok h
      obtain ⟨obj', hobj', hprop', hroles⟩ := authorizeProperty_eq_ok.mp hok
      obtain ⟨hget, howner⟩ := authorizeObject_eq_ok.mp hobj'
      obtain rfl := Option.some.inj (hobj.symm.trans hget)
      obtain rfl := Option.some.inj (hprop.symm.trans hprop')
      exact ⟨howner, hroles⟩
    · rintro ⟨howner, hroles⟩
      have hok := authorizeProperty_eq_ok.mpr
        ⟨obj, authorizeObject_eq_ok.mpr ⟨hobj, howner⟩, hprop, hroles⟩
      rw [hok]
      rfl

theorem linkIsVisible_eq {item : String × LinkDefinition} (h : item ∈ r.links) :
    r.linkIsVisible authorization item.2 =
      .ok (r.readable authorization item.2.fromObject item.2.fromField &&
        r.readable authorization item.2.toObject item.2.toField) := by
  obtain ⟨⟨source, hsource, hfrom⟩, target, htarget, hto⟩ := r.checked_links item h
  obtain ⟨fromProperty, hfrom⟩ := Option.isSome_iff_exists.mp hfrom
  obtain ⟨toProperty, hto⟩ := Option.isSome_iff_exists.mp hto
  rw [readable_of_get hsource hfrom, readable_of_get htarget hto]
  cases authorization with
  | none => rfl
  | some a =>
    rw [linkIsVisible, object_eq_ok.mpr hsource, object_eq_ok.mpr htarget]
    simp only [visibleTo, property_eq_ok.mpr hfrom, property_eq_ok.mpr hto, bind, Except.bind,
      pure, Except.pure]
    cases roleAllowed source.allowedRoles a <;> cases roleAllowed target.allowedRoles a <;>
      cases roleAllowed fromProperty.allowedRoles a <;> rfl

theorem itemIsVisible_eq {allowedRoles : List String} (h : (r.objects.get objectName).isSome) :
    r.itemIsVisible authorization allowedRoles objectName =
      .ok (visibleTo authorization allowedRoles && r.ownerVisible authorization objectName) := by
  obtain ⟨obj, hobj⟩ := Option.isSome_iff_exists.mp h
  rw [ownerVisible_of_get hobj]
  cases authorization with
  | none => rfl
  | some a =>
    rw [itemIsVisible, object_eq_ok.mpr hobj, visibleTo, visibleTo]
    cases roleAllowed allowedRoles a <;> rfl

end Visible

section Resolved
variable (r : OntologyRegistry) (E : ResolveEnv) (question : String)
  (authorization : Option AuthorizationContext) (candidateIds : Dict (List Value))

def shownMetrics : List MetricDefinition :=
  r.metrics.values.filter fun metric =>
    E.isMatch question candidateIds "metrics" metric.name metric.label metric.keywords &&
      (visibleTo authorization metric.allowedRoles &&
        r.ownerVisible authorization metric.objectType)

theorem resolved_redacted (obj : ObjectDefinition) :
    (obj.redacted authorization).resolved (fun _ => true) =
      obj.resolved fun prop => visibleTo authorization prop.allowedRoles := by
  have hvalues : (obj.redacted authorization).properties.values.filter (fun _ => true) =
      obj.properties.values.filter fun prop => visibleTo authorization prop.allowedRoles := by
    rw [List.filter_true]
    unfold Dict.values
    rw [List.filter_map]
    rfl
  unfold ObjectDefinition.resolved
  rw [hvalues]
  rfl

theorem filter_objects_view :
    (r.view authorization).objects.filter (fun obj =>
        E.isMatch question candidateIds "objects" obj.name obj.label obj.keywords) =
      (r.objects.values.filter fun obj =>
        E.isMatch question candidateIds "objects" obj.name obj.label obj.keywords &&
          visibleTo authorization obj.allowedRoles).map
        (ObjectDefinition.redacted authorization) := by
  rw [view, List.filter_map, List.filter_filter]
  rfl

theorem resolve_eq : r.resolve E question authorization candidateIds =
    .ok { (r.view authorization).resolve E question candidateIds with
      metrics := (r.shownMetrics E question authorization candidateIds).map
        MetricDefinition.resolved } := by
  have hnames : ((r.view authorization).objects.filter fun obj =>
        E.isMatch question candidateIds "objects" obj.name obj.label obj.keywords).map
          (fun obj => obj.name) =
      (r.objects.values.filter fun obj =>
        E.isMatch question candidateIds "objects" obj.name obj.label obj.keywords &&
          visibleTo authorization obj.allowedRoles).map fun obj => obj.name := by
    rw [filter_objects_view, List.map_map]
    rfl
  have hlinks (names : List String) : filterOk (fun link =>
      if names.contains link.fromObject || names.contains link.toObject then
        r.linkIsVisible authorization link
      else .ok false) r.links.values =
      .ok ((r.view authorization).links.filter fun link =>
        names.contains link.fromObject || names.contains link.toObject) := by
    rw [view, List.filter_filter]
    refine filterOk_and fun link hlink => ?_
    obtain ⟨item, hitem, rfl⟩ := List.mem_map.mp hlink
    exact linkIsVisible_eq hitem
  have hmetrics : filterOk (fun metric =>
      if E.isMatch question candidateIds "metrics" metric.name metric.label metric.keywords then
        r.itemIsVisible authorization metric.allowedRoles metric.objectType
      else .ok false) r.metrics.values =
      .ok (r.shownMetrics E question authorization candidateIds) := by
    refine filterOk_and fun metric hmetric => ?_
    obtain ⟨item, hitem, rfl⟩ := List.mem_map.mp hmetric
    exact itemIsVisible_eq (r.checked_metrics item hitem).objectType
  have hactions : filterOk (fun action =>
      if E.isMatch question candidateIds "actions" action.name action.label action.keywords then
        r.itemIsVisible authorization action.allowedRoles action.targetType
      else .ok false) r.actions.values =
      .ok (r.actions.values.filter fun action =>
        E.isMatch question candidateIds "actions" action.name action.label action.keywords &&
          (visibleTo authorization action.allowedRoles &&
            r.ownerVisible authorization action.targetType)) := by
    refine filterOk_and fun action haction => ?_
    obtain ⟨item, hitem, rfl⟩ := List.mem_map.mp haction
    exact itemIsVisible_eq (r.checked_actions item hitem).targetType
  have hshown : ((r.view authorization).actions.filter fun action =>
      E.isMatch question candidateIds "actions" action.name action.label action.keywords).map
        ActionDefinition.resolved =
      (r.actions.values.filter fun action =>
        E.isMatch question candidateIds "actions" action.name action.label action.keywords &&
          (visibleTo authorization action.allowedRoles &&
            r.ownerVisible authorization action.targetType)).map ActionDefinition.resolved := by
    rw [view, List.filter_map, List.filter_filter, List.map_map]
    rfl
  have hobjects : ((r.view authorization).objects.filter fun obj =>
        E.isMatch question candidateIds "objects" obj.name obj.label obj.keywords).map
          (fun obj => obj.resolved fun _ => true) =
      (r.objects.values.filter fun obj =>
        E.isMatch question candidateIds "objects" obj.name obj.label obj.keywords &&
          visibleTo authorization obj.allowedRoles).map fun obj =>
        obj.resolved fun prop => visibleTo authorization prop.allowedRoles := by
    rw [filter_objects_view, List.map_map]
    exact List.map_congr_left fun obj _ => resolved_redacted authorization obj
  unfold resolve View.resolve
  simp only [hlinks, hmetrics, hactions, hnames, hshown, hobjects, bind, Except.bind, pure,
    Except.pure]
  rfl

theorem metrics_eq (h : r.MetricsReadable E question authorization candidateIds) :
    (r.shownMetrics E question authorization candidateIds).map MetricDefinition.resolved =
      ((r.view authorization).metrics.filter fun metric =>
        E.isMatch question candidateIds "metrics" metric.name metric.label metric.keywords).map
          MetricDefinition.resolved := by
  rw [view, List.filter_map, List.filter_filter, List.map_map]
  refine List.map_congr_left fun metric hmetric => ?_
  obtain ⟨hmem, hshown⟩ := List.mem_filter.mp hmetric
  simp only [Bool.and_eq_true] at hshown
  obtain ⟨hmatch, hroles, howner⟩ := hshown
  have hnames := h metric hmem hmatch hroles howner
  have hdimensions : metric.dimensions.filter (r.readable authorization metric.objectType) =
      metric.dimensions :=
    List.filter_eq_self.mpr fun name hname => hnames name (List.mem_append_left _ hname)
  have hfilters : metric.filters.filter (r.readable authorization metric.objectType) =
      metric.filters :=
    List.filter_eq_self.mpr fun name hname => hnames name (List.mem_append_right _ hname)
  rw [Function.comp_apply]
  unfold MetricDefinition.resolved MetricDefinition.redacted
  rw [hdimensions, hfilters]

/-- Where the metrics name no hidden property, the view is all that matters. -/
theorem resolve_eq_view (h : r.MetricsReadable E question authorization candidateIds) :
    r.resolve E question authorization candidateIds =
      .ok ((r.view authorization).resolve E question candidateIds) := by
  rw [resolve_eq, metrics_eq r E question authorization candidateIds h]
  rfl

variable {r E question authorization candidateIds}

theorem readable_of_resolved {item : String × ObjectDefinition} (hitem : item ∈ r.objects)
    (hvisible : visibleTo authorization item.2.allowedRoles = true) {name : String}
    (hname : name ∈ (item.2.properties.values.filter fun prop =>
      visibleTo authorization prop.allowedRoles).map PropertyDefinition.name) :
    r.readable authorization item.2.name name = true := by
  obtain ⟨prop, hprop, rfl⟩ := List.mem_map.mp hname
  obtain ⟨hprop, hroles⟩ := List.mem_filter.mp hprop
  obtain ⟨named, hnamed, rfl⟩ := List.mem_map.mp hprop
  have hchecked := r.checked_objects item hitem
  have hget : item.2.properties.get named.2.name = some named.2 := by
    rw [hchecked.properties named hnamed]
    exact Dict.get_of_mem hchecked.distinct hnamed
  rw [readable_of_get (get_name_of_mem hitem) hget, hvisible, hroles]
  rfl

theorem readable_of_objects {shown : ResolvedObject} {name : String}
    (hshown : shown ∈ ((r.view authorization).resolve E question candidateIds).objects)
    (hname : name ∈ shown.properties ++ shown.propertyDefinitions.map ResolvedProperty.id) :
    r.readable authorization shown.id name = true := by
  obtain ⟨redacted, hredacted, rfl⟩ := List.mem_map.mp hshown
  rw [filter_objects_view] at hredacted
  obtain ⟨obj, hobj, rfl⟩ := List.mem_map.mp hredacted
  obtain ⟨hobj, hvisible⟩ := List.mem_filter.mp hobj
  obtain ⟨item, hitem, rfl⟩ := List.mem_map.mp hobj
  refine readable_of_resolved hitem ((Bool.and_eq_true_iff.mp hvisible).2) ?_
  rw [resolved_redacted] at hname
  rcases List.mem_append.mp hname with hname | hname
  · exact (List.perm_insertionSort _ _).mem_iff.mp hname
  · rw [ObjectDefinition.resolved, List.map_map] at hname
    exact hname

/-- The lists of the result name only readable properties exactly when those of the metrics do. -/
theorem readableOnly_iff : r.ReadableOnly authorization
      { (r.view authorization).resolve E question candidateIds with
        metrics := (r.shownMetrics E question authorization candidateIds).map
          MetricDefinition.resolved } ↔
    r.MetricsReadable E question authorization candidateIds := by
  constructor
  · intro h metric hmetric hmatch hroles howner name hname
    have hshown : metric.resolved ∈
        (r.shownMetrics E question authorization candidateIds).map MetricDefinition.resolved := by
      refine List.mem_map_of_mem (List.mem_filter.mpr ⟨hmetric, ?_⟩)
      rw [hmatch, hroles, howner]
      rfl
    obtain ⟨metric', hget, hnames⟩ := h.metrics _ hshown
    obtain ⟨item, hitem, rfl⟩ := List.mem_map.mp hmetric
    have hself : r.metrics.get item.2.name = some item.2 := get_name_of_mem_metrics hitem
    obtain rfl := Option.some.inj (hself.symm.trans hget)
    exact hnames name hname
  · intro h
    refine ⟨fun shown hshown name => readable_of_objects hshown, fun shown hshown => ?_,
      fun shown hshown => ?_⟩
    · obtain ⟨link, hlink, rfl⟩ := List.mem_map.mp hshown
      have hview := (List.mem_filter.mp (List.mem_filter.mp hlink).1).2
      exact Bool.and_eq_true_iff.mp hview
    · obtain ⟨metric, hmetric, rfl⟩ := List.mem_map.mp hshown
      obtain ⟨hmem, hvisible⟩ := List.mem_filter.mp hmetric
      simp only [Bool.and_eq_true] at hvisible
      obtain ⟨hmatch, hroles, howner⟩ := hvisible
      obtain ⟨item, hitem, rfl⟩ := List.mem_map.mp hmem
      exact ⟨item.2, get_name_of_mem_metrics hitem, h item.2 hmem hmatch hroles howner⟩

/-- Two registries that look the same to the caller give one answer, which names nothing hidden,
exactly when no metric that is shown lists a hidden property. -/
theorem resolve_depends_on_view_iff {r' : OntologyRegistry}
    (hview : r.view authorization = r'.view authorization) :
    (∃ result, r.resolve E question authorization candidateIds = .ok result ∧
      r'.resolve E question authorization candidateIds = .ok result ∧
      r.ReadableOnly authorization result ∧ r'.ReadableOnly authorization result) ↔
    r.MetricsReadable E question authorization candidateIds ∧
      r'.MetricsReadable E question authorization candidateIds := by
  constructor
  · rintro ⟨result, hr, hr', hreadable, hreadable'⟩
    rw [resolve_eq] at hr hr'
    obtain rfl := Except.ok.inj hr
    rw [← Except.ok.inj hr'] at hreadable'
    exact ⟨readableOnly_iff.mp hreadable, readableOnly_iff.mp hreadable'⟩
  · rintro ⟨h, h'⟩
    refine ⟨(r.view authorization).resolve E question candidateIds,
      resolve_eq_view r E question authorization candidateIds h, ?_, ?_, ?_⟩
    · rw [hview]
      exact resolve_eq_view r' E question authorization candidateIds h'
    · have hreadable := readableOnly_iff.mpr h
      rw [metrics_eq r E question authorization candidateIds h] at hreadable
      exact hreadable
    · have hreadable := readableOnly_iff.mpr h'
      rw [metrics_eq r' E question authorization candidateIds h'] at hreadable
      rw [hview]
      exact hreadable

end Resolved
end OntologyRegistry

def asciiEnv : ResolveEnv where
  str := fun value => match value with
    | .str s => s
    | _ => ""
  casefold := fun s => String.ofList (s.toList.map Char.toLower)

/-- The number of projects by site, where the caller may not read `hidden`. -/
def countOntology (hidden : String) (hobj : CheckedObject ("Project", demoProject hidden))
    (hmetric : CheckedMetric [("Project", demoProject hidden)]
      ("project.count", demoMetric "project.count" .count none ["site_id"])) : OntologyRegistry :=
  demoOntology (demoProject hidden) (demoMetric "project.count" .count none ["site_id"]) hobj
    hmetric

theorem resolve_hides_renamed_property :
    ∃ result,
      (countOntology "private_code" (by decide) (by decide)).resolve asciiEnv "PROJECT.count"
        (some demoAuthorization) [] = .ok result ∧
      (countOntology "secret_code" (by decide) (by decide)).resolve asciiEnv "PROJECT.count"
        (some demoAuthorization) [] = .ok result ∧
      (countOntology "private_code" (by decide) (by decide)).ReadableOnly
        (some demoAuthorization) result ∧
      (countOntology "secret_code" (by decide) (by decide)).ReadableOnly
        (some demoAuthorization) result :=
  (OntologyRegistry.resolve_depends_on_view_iff (by decide +kernel)).mpr
    ⟨by decide +kernel, by decide +kernel⟩

/-- The number of projects by a property that the caller may not read. -/
def leakingOntology (hidden : String) (hobj : CheckedObject ("Project", demoProject hidden))
    (hmetric : CheckedMetric [("Project", demoProject hidden)]
      ("project.count", demoMetric "project.count" .count none [hidden])) : OntologyRegistry :=
  demoOntology (demoProject hidden) (demoMetric "project.count" .count none [hidden]) hobj hmetric

/-- The hidden property's name is among the dimensions of a metric. -/
theorem metric_shows_hidden_property :
    ¬ ∀ (r r' : OntologyRegistry),
      r.view (some demoAuthorization) = r'.view (some demoAuthorization) →
      ∃ result, r.resolve asciiEnv "PROJECT.count" (some demoAuthorization) [] = .ok result ∧
        r'.resolve asciiEnv "PROJECT.count" (some demoAuthorization) [] = .ok result ∧
        r.ReadableOnly (some demoAuthorization) result ∧
        r'.ReadableOnly (some demoAuthorization) result := by
  intro hall
  have hdiffer :
      (leakingOntology "private_code" (by decide) (by decide)).resolve asciiEnv "PROJECT.count"
        (some demoAuthorization) [] ≠
      (leakingOntology "secret_code" (by decide) (by decide)).resolve asciiEnv "PROJECT.count"
        (some demoAuthorization) [] := by
    decide +kernel
  obtain ⟨result, hr, hr', -⟩ := hall (leakingOntology "private_code" (by decide) (by decide))
    (leakingOntology "secret_code" (by decide) (by decide)) (by decide +kernel)
  exact hdiffer (hr.trans hr'.symm)

end DeerFlow.Semantic.Ontology
