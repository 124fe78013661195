import DeerFlow.Lib.TextLines
import DeerFlow.Runtime.Value

/-! The authorization context a SaaS request carries, the dictionary it is
stored and passed on as, and how a dictionary is read back. -/

namespace DeerFlow

/-- Python's `sorted` on strings: by code points. -/
def sorted (xs : List String) : List String := xs.insertionSort (· ≤ ·)

def strip (s : String) : String :=
  String.ofList ((s.toList.dropWhile isSpace).reverse.dropWhile isSpace).reverse

theorem strip_strip (s : String) : strip (strip s) = strip s := by
  have hlist : ∀ (p : Char → Bool) (l : List Char),
      ((((l.dropWhile p).reverse.dropWhile p).reverse.dropWhile p).reverse.dropWhile p).reverse =
        ((l.dropWhile p).reverse.dropWhile p).reverse := by
    intro p l
    have hleft := List.rdropWhile_prefix p (l.dropWhile p)
    have hfront : (List.rdropWhile p (l.dropWhile p)).dropWhile p =
        List.rdropWhile p (l.dropWhile p) := by
      rw [List.dropWhile_eq_self_iff]
      intro hpos
      have hlong : 0 < (l.dropWhile p).length := hpos.trans_le hleft.length_le
      have hhead := List.dropWhile_eq_self_iff.mp (List.dropWhile_idempotent p l) hlong
      rw [hleft.getElem hpos]
      exact hhead
    show List.rdropWhile p ((List.rdropWhile p (l.dropWhile p)).dropWhile p) = _
    rw [hfront, List.rdropWhile_idempotent]
    rfl
  unfold strip
  rw [String.toList_ofList, hlist]

/-- `_SAFE_ID_RE.fullmatch`. -/
def safeId (s : String) : Bool :=
  1 ≤ s.length && s.length ≤ 128 &&
    s.toList.all fun c => c.isAlphanum || c = '_' || c = '.' || c = ':' || c = '-'

inductive ScopeMode where
  | tenantAll
  | resourceSet
  | scopeRef
  | none
  deriving DecidableEq, Inhabited

def ScopeMode.text : ScopeMode → String
  | .tenantAll => "tenant_all"
  | .resourceSet => "resource_set"
  | .scopeRef => "scope_ref"
  | .none => "none"

def ScopeMode.ofText : String → Option ScopeMode
  | "tenant_all" => some .tenantAll
  | "resource_set" => some .resourceSet
  | "scope_ref" => some .scopeRef
  | "none" => some .none
  | _ => Option.none

structure AuthorizationContextError where
  detail : String
  deriving DecidableEq

structure AuthorizationContext where
  principalId : String
  tenantId : String
  tenantCode : String
  systemCode : String
  roleCodes : List String
  scopeMode : ScopeMode
  allowedSiteIds : List String
  allowedProjectIds : List String
  scopeRef : Option String
  permissionVersion : String
  scopeHash : String
  deriving DecidableEq, Inhabited

def AuthorizationContext.toRuntimeDict (c : AuthorizationContext) : Dict Value :=
  [("principal_id", .str c.principalId),
   ("tenant_id", .str c.tenantId),
   ("tenant_code", .str c.tenantCode),
   ("system_code", .str c.systemCode),
   ("role_codes", .list (c.roleCodes.map .str)),
   ("scope_mode", .str c.scopeMode.text),
   ("allowed_site_ids", .list (c.allowedSiteIds.map .str)),
   ("allowed_project_ids", .list (c.allowedProjectIds.map .str)),
   ("scope_ref", match c.scopeRef with | some r => .str r | .none => .none),
   ("permission_version", .str c.permissionVersion),
   ("scope_hash", .str c.scopeHash)]

/-- `str` renders a value as text and `digest` is the SHA-256 of a dictionary's canonical JSON. -/
structure Rendering where
  str : Value → String
  digest : Dict Value → String

namespace Rendering
variable (R : Rendering)

/-- `str(value or "").strip()`. -/
def textOf (value : Value) : String := strip (if value.truthy then R.str value else "")

def requiredId (value : Value) (field : String) : Except AuthorizationContextError String :=
  let text := R.textOf value
  if safeId text then .ok text else .error ⟨"Invalid " ++ field⟩

def optionalId (value : Value) (field : String) :
    Except AuthorizationContextError (Option String) :=
  match value with
  | .none => .ok none
  | value =>
    let text := strip (R.str value)
    if text = "" then .ok none else some <$> R.requiredId (.str text) field

def maxResourceIds : Nat := 256

def idTuple (value : Value) (field : String) : Except AuthorizationContextError (List String) :=
  match value with
  | .none => .ok []
  | .list items =>
    if items.length > maxResourceIds then
      .error ⟨field ++ " exceeds " ++ toString maxResourceIds ++ " entries"⟩
    else do
      let ids ← items.mapM fun item => R.requiredId item field
      return sorted ids.dedup
  | _ => .error ⟨field ++ " must be a list"⟩

def computeScopeHash (c : AuthorizationContext) : String :=
  R.digest [
    ("allowed_project_ids", .list ((sorted c.allowedProjectIds).map .str)),
    ("allowed_site_ids", .list ((sorted c.allowedSiteIds).map .str)),
    ("permission_version", .str c.permissionVersion),
    ("principal_id", .str c.principalId),
    ("role_codes", .list ((sorted c.roleCodes).map .str)),
    ("scope_mode", .str c.scopeMode.text),
    ("scope_ref", match c.scopeRef with | some r => .str r | none => .none),
    ("system_code", .str c.systemCode),
    ("tenant_code", .str c.tenantCode),
    ("tenant_id", .str c.tenantId)]

def fromMapping (value : Dict Value) : Except AuthorizationContextError AuthorizationContext := do
  let field (k : String) : Value := (value.get k).getD .none
  let principalId ← R.requiredId (field "principal_id") "principal_id"
  let tenantId ← R.requiredId (field "tenant_id") "tenant_id"
  let tenantCode ← R.requiredId (field "tenant_code") "tenant_code"
  let systemCode ← R.requiredId (field "system_code") "system_code"
  let roleCodes ← R.idTuple (field "role_codes") "role_codes"
  let scopeMode ← match ScopeMode.ofText (R.textOf (field "scope_mode")) with
    | some m => .ok m
    | none => .error ⟨"Invalid scope_mode"⟩
  let allowedSiteIds ← R.idTuple (field "allowed_site_ids") "allowed_site_ids"
  let allowedProjectIds ← R.idTuple (field "allowed_project_ids") "allowed_project_ids"
  let scopeRef ← R.optionalId (field "scope_ref") "scope_ref"
  let permissionVersion ← R.requiredId (field "permission_version") "permission_version"
  if scopeMode = .resourceSet ∧ allowedSiteIds = [] ∧ allowedProjectIds = [] then
    .error ⟨"resource_set scope must contain at least one resource"⟩
  else if scopeMode = .scopeRef ∧ scopeRef = none then
    .error ⟨"scope_ref mode requires scope_ref"⟩
  else if (scopeMode = .tenantAll ∨ scopeMode = .none) ∧
      (allowedSiteIds ≠ [] ∨ allowedProjectIds ≠ [] ∨ scopeRef ≠ none) then
    .error ⟨scopeMode.text ++ " scope cannot carry resources"⟩
  else
    let context : AuthorizationContext := {
      principalId, tenantId, tenantCode, systemCode, roleCodes, scopeMode, allowedSiteIds,
      allowedProjectIds, scopeRef, permissionVersion, scopeHash := "" }
    let scopeHash := R.computeScopeHash context
    let supplied := R.textOf (field "scope_hash")
    if supplied ≠ "" ∧ supplied ≠ scopeHash then
      .error ⟨"scope_hash does not match authorization context"⟩
    else .ok { context with scopeHash }

end Rendering

end DeerFlow
