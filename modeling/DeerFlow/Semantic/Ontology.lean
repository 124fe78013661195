import DeerFlow.Runtime.AuthorizationContext

/-! The part of the ontology registry that Actions read: object and action
definitions, parameter validation and role checks. -/

namespace DeerFlow.Semantic

/-- `repr` of a name without quotes or escapes in it. -/
def quoted (s : String) : String := "'" ++ s ++ "'"

structure OntologyError where
  message : String
  deriving DecidableEq

inductive ParameterType where
  | string
  | number
  | boolean
  | other (name : String)
  deriving DecidableEq

structure ParameterDefinition where
  name : String
  valueType : ParameterType
  required : Bool
  minimum : Option Rat := none
  maximum : Option Rat := none
  minLength : Option Int := none
  maxLength : Option Int := none

def ParameterDefinition.fail {α : Type} (d : ParameterDefinition) (what : String) :
    Except OntologyError α := .error ⟨"Action parameter " ++ quoted d.name ++ what⟩

def ParameterDefinition.validate (d : ParameterDefinition) (value : Value) :
    Except OntologyError Value :=
  match value with
  | .none => if d.required then d.fail " is required" else .ok .none
  | value => match d.valueType with
    | .string => match value with
      | .str s =>
        if d.minLength.any fun n => (s.length : Int) < n then d.fail " is too short"
        else if d.maxLength.any fun n => n < (s.length : Int) then d.fail " is too long"
        else .ok value
      | _ => d.fail " must be a string"
    | .number => match value with
      | .int _ | .float _ =>
        if d.minimum.any fun m => value.number?.any fun q => decide (q < m) then
          d.fail " is below minimum"
        else if d.maximum.any fun m => value.number?.any fun q => decide (m < q) then
          d.fail " is above maximum"
        else .ok value
      | _ => d.fail " must be a number"
    | .boolean => match value with
      | .bool _ => .ok value
      | _ => d.fail " must be a boolean"
    | .other t => .error ⟨"Unsupported action parameter type " ++ quoted t⟩

structure Precondition where
  field : String
  op : String
  value : Value

structure ActionDefinition where
  name : String
  version : String
  targetType : String
  scopeDimension : String
  parameters : Dict ParameterDefinition
  preconditions : List Precondition
  approvalRequired : Bool
  executor : Dict Value
  compensation : Option (Dict Value)
  allowedRoles : List String

/-- The parameters in the order of their definitions; an absent optional one is left out. -/
def ActionDefinition.validateParameters (a : ActionDefinition) (values : Dict Value) :
    Except OntologyError (Dict Value) :=
  let unknown := values.keys.filter fun k => !a.parameters.contains k
  if unknown ≠ [] then
    .error ⟨"Unknown action parameters: " ++ ", ".intercalate (sorted unknown)⟩
  else
    a.parameters.foldr (fun (name, d) rest => do
      let value := (values.get name).getD .none
      if value ≠ .none ∨ d.required then
        let v ← d.validate value
        let vs ← rest
        return (name, v) :: vs
      else rest) (.ok [])

structure ObjectDefinition where
  name : String
  idField : String
  allowedRoles : List String

structure OntologyRegistry where
  objects : Dict ObjectDefinition
  actions : Dict ActionDefinition

namespace OntologyRegistry

def object (r : OntologyRegistry) (name : String) : Except OntologyError ObjectDefinition :=
  match r.objects.get name with
  | none => .error ⟨"Unknown object type " ++ quoted name⟩
  | some o => .ok o

def action (r : OntologyRegistry) (name : String) : Except OntologyError ActionDefinition :=
  match r.actions.get name with
  | none => .error ⟨"Unknown action " ++ quoted name⟩
  | some a => .ok a

def roleAllowed (allowedRoles : List String) (authorization : AuthorizationContext) : Bool :=
  allowedRoles.isEmpty || allowedRoles.any fun role => authorization.roleCodes.contains role

def authorizeObject (r : OntologyRegistry) (name : String)
    (authorization : AuthorizationContext) : Except OntologyError ObjectDefinition := do
  let obj ← r.object name
  if roleAllowed obj.allowedRoles authorization then return obj
  else .error ⟨"Object type " ++ quoted name ++ " is not authorized"⟩

def authorizeAction (r : OntologyRegistry) (name : String)
    (authorization : AuthorizationContext) : Except OntologyError ActionDefinition := do
  let action ← r.action name
  let _ ← r.authorizeObject action.targetType authorization
  if roleAllowed action.allowedRoles authorization then return action
  else .error ⟨"Action " ++ quoted name ++ " is not authorized"⟩

end OntologyRegistry

end DeerFlow.Semantic
