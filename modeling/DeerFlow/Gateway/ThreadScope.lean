import DeerFlow.Lib.Transition
import DeerFlow.Persistence.ThreadMeta
import DeerFlow.Runtime.AuthorizationContext

/-! The metadata of one thread under the calls of any number of gateway processes. Each store
operation is its read followed by its commit, and what another call does may come between. -/

namespace DeerFlow.Gateway
open Transition Persistence

def saasScopeBindingMetadataKey : String := "__saas_scope_binding"

def serverReservedMetadataKeys : List String := ["owner_id", "user_id", "__saas_scope_binding"]

def stripReservedMetadata (metadata : Dict Value) : Dict Value :=
  metadata.filter fun item => !serverReservedMetadataKeys.contains item.1

structure ScopeBinding where
  principalId : String
  tenantId : String
  systemCode : String
  scopeHash : String
  permissionVersion : String
  deriving DecidableEq

def saasScopeBinding (authorization : AuthorizationContext) : ScopeBinding where
  principalId := authorization.principalId
  tenantId := authorization.tenantId
  systemCode := authorization.systemCode
  scopeHash := authorization.scopeHash
  permissionVersion := authorization.permissionVersion

def ScopeBinding.toValue (b : ScopeBinding) : Value :=
  .dict [("principal_id", .str b.principalId), ("tenant_id", .str b.tenantId),
    ("system_code", .str b.systemCode), ("scope_hash", .str b.scopeHash),
    ("permission_version", .str b.permissionVersion)]

/-- The metadata that a bind call merges into a thread without a binding. -/
def ScopeBinding.metadata (b : ScopeBinding) : Dict Value :=
  [(saasScopeBindingMetadataKey, b.toValue)]

/-- The stored binding; a null counts as none. -/
def currentBinding (r : ThreadMetaRow) : Value :=
  (r.metadataJson.get saasScopeBindingMetadataKey).getD .none

inductive ThreadRequest where
  | create (args : ThreadMetaArgs)
  | updateMetadata (metadata : Dict Value) (user : Option String)
  | updateColumn (column : Column) (user : Option String)
  | delete (user : Option String)
  | bind (process : Nat) (authorization : AuthorizationContext) (assistantId : Option String)
      (metadata : Option (Dict Value))
  deriving DecidableEq

inductive ThreadError where
  | http (statusCode : Nat) (detail : String)
  /-- The row to insert is already there. -/
  | integrity
  /-- The row to update is no longer there. -/
  | staleData
  | cancelled
  deriving DecidableEq

/-- Where a call is. What a bind call has read of the thread is its `existing`. -/
inductive ThreadPc where
  | start
  | merging (seen : Dict Value)
  | permitted
  | unknown
  | missing
  | unbound (existing : ThreadMetaRow)
  | binding (existing : ThreadMetaRow) (seen : Dict Value)
  | claiming (existing : ThreadMetaRow)
  | done
  | bound (existing : ThreadMetaRow)
  | raised (error : ThreadError)
  deriving DecidableEq

structure ThreadCall where
  request : ThreadRequest
  pc : ThreadPc
  deriving DecidableEq

/-- Whether the call is inside `goal_thread_lock` of the process. -/
def ThreadCall.holdsLock (c : ThreadCall) (process : Nat) : Bool :=
  match c.request, c.pc with
  | .bind p _ _ _, .unknown | .bind p _ _ _, .missing | .bind p _ _ _, .unbound _
  | .bind p _ _ _, .binding _ _ | .bind p _ _ _, .claiming _ => p = process
  | _, _ => false

/-- The stored row and the calls. No code reads the other two fields: `bound` are the bindings
that bind calls have returned with since the thread was last deleted, and `written` is what
completed `update_metadata` calls have written in that time, the last value of each key. -/
structure ThreadState where
  row : Option ThreadMetaRow
  calls : List ThreadCall
  bound : List ScopeBinding
  written : Dict Value
  deriving DecidableEq

inductive ThreadEvent where
  | call (request : ThreadRequest)
  | step (i : Nat) (now : DateTime)
  | cancel (i : Nat)
  deriving DecidableEq

namespace ThreadState

def goto (s : ThreadState) (i : Nat) (pc : ThreadPc) : ThreadState :=
  { s with calls := s.calls.modify i fun c => { c with pc := pc } }

/-- A bind call returns. -/
def finish (s : ThreadState) (i : Nat) (b : ScopeBinding) (existing : ThreadMetaRow) :
    ThreadState :=
  { s.goto i (.bound existing) with bound := s.bound ++ [b] }

/-- The `INSERT` of `create`. -/
def insertRow (s : ThreadState) (r : ThreadMetaRow) : ThreadState := { s with row := some r }

/-- The `UPDATE` of one column, which may find no row. -/
def commitColumn (s : ThreadState) (c : Column) (now : DateTime) : ThreadState :=
  { s with row := s.row.map (·.setColumn c now) }

/-- The `UPDATE` of the whole document: what was read, with `metadata` merged into it. -/
def commitMetadata (s : ThreadState) (r : ThreadMetaRow) (seen metadata : Dict Value)
    (now : DateTime) : ThreadState :=
  { s with row := some (r.setMetadata (seen.update metadata) now),
           written := s.written.update metadata }

def deleteRow (s : ThreadState) : ThreadState :=
  match s.row with
  | none => s
  | some _ => { s with row := none, bound := [], written := [] }

/-- `_bind_or_validate_saas_thread_scope` once a row was found. -/
def validate (s : ThreadState) (i : Nat) (b : ScopeBinding) (existing : ThreadMetaRow) :
    ThreadState :=
  let current := currentBinding existing
  if current ≠ .none ∧ ¬ b.toValue.eq current then
    s.goto i (.raised (.http 409 "SaaS authorization scope changed; create a new thread"))
  else if current = .none then s.goto i (.unbound existing)
  else if existing.userId = none then s.goto i (.claiming existing)
  else s.finish i b existing

/-- What follows the `update_metadata` of a bind call: the snapshot is brought up to date, and
an unowned thread is claimed. -/
def bindingStored (s : ThreadState) (i : Nat) (b : ScopeBinding) (existing : ThreadMetaRow) :
    ThreadState :=
  let existing := { existing with
    metadataJson := existing.metadataJson.set saasScopeBindingMetadataKey b.toValue }
  if existing.userId = none then s.goto i (.claiming existing) else s.finish i b existing

section Steps
variable (threadId : String)

/-- The steps of a bind call. -/
def bindStep (s : ThreadState) (i : Nat) (process : Nat) (authorization : AuthorizationContext)
    (assistantId : Option String) (metadata : Option (Dict Value)) (now : DateTime) :
    ThreadPc → Option ThreadState
  | .start =>
    if s.calls.any (·.holdsLock process) then none
    else
      match ThreadMetaRepository.getOwned s.row (some authorization.principalId) with
      | some existing => some (s.validate i (saasScopeBinding authorization) existing)
      | none => some (s.goto i .unknown)
  | .unknown =>
    match ThreadMetaRepository.getOwned s.row none with
    | some existing =>
      if existing.userId ≠ none ∧ existing.userId ≠ some authorization.principalId then
        some (s.goto i (.raised (.http 404 ("Thread " ++ threadId ++ " not found"))))
      else some (s.validate i (saasScopeBinding authorization) existing)
    | none => some (s.goto i .missing)
  | .missing =>
    match s.row with
    | some _ => some (s.goto i (.raised .integrity))
    | none =>
      let b := saasScopeBinding authorization
      let row := ThreadMetaRow.create threadId ⟨assistantId, some authorization.principalId, none,
        some ((metadata.getD []).set saasScopeBindingMetadataKey b.toValue)⟩ now
      some ((s.insertRow row).finish i b row)
  | .unbound existing =>
    match ThreadMetaRepository.readMetadata s.row none with
    | some seen => some (s.goto i (.binding existing seen))
    | none => some (s.bindingStored i (saasScopeBinding authorization) existing)
  | .binding existing seen =>
    match s.row with
    | some r =>
      let b := saasScopeBinding authorization
      some ((s.commitMetadata r seen b.metadata now).bindingStored i b existing)
    | none => some (s.goto i (.raised .staleData))
  | .claiming existing =>
    some ((s.commitColumn (.owner authorization.principalId) now).finish i
      (saasScopeBinding authorization)
      { existing with userId := some authorization.principalId })
  | .merging _ | .permitted | .done | .bound _ | .raised _ => none

/-- The next step of the call at `i`. -/
def callStep (s : ThreadState) (i : Nat) (now : DateTime) (c : ThreadCall) :
    Option ThreadState :=
  match c.request, c.pc with
  | .create args, .start =>
    match s.row with
    | some _ => some (s.goto i (.raised .integrity))
    | none => some ((s.insertRow (.create threadId args now)).goto i .done)
  | .updateMetadata _ user, .start =>
    match ThreadMetaRepository.readMetadata s.row user with
    | some seen => some (s.goto i (.merging seen))
    | none => some (s.goto i .done)
  | .updateMetadata metadata _, .merging seen =>
    match s.row with
    | some r => some ((s.commitMetadata r seen (stripReservedMetadata metadata) now).goto i .done)
    | none => some (s.goto i (.raised .staleData))
  | .updateColumn _ user, .start =>
    some (s.goto i (if ThreadMetaRepository.checkOwnership s.row user then .permitted else .done))
  | .updateColumn column _, .permitted => some ((s.commitColumn column now).goto i .done)
  | .delete user, .start =>
    some (s.goto i
      (if (ThreadMetaRepository.getOwned s.row user).isSome then .permitted else .done))
  | .delete _, .permitted => some (s.deleteRow.goto i .done)
  | .bind process authorization assistantId metadata, pc =>
    s.bindStep threadId i process authorization assistantId metadata now pc
  | _, _ => none

def step (s : ThreadState) : ThreadEvent → Option ThreadState
  | .call request => some { s with calls := s.calls ++ [⟨request, .start⟩] }
  | .step i now => s.calls[i]?.bind (s.callStep threadId i now)
  | .cancel i => s.calls[i]?.bind fun c =>
      match c.pc with
      | .done | .bound _ | .raised _ => none
      | _ => some (s.goto i (.raised .cancelled))

end Steps

def init (row : Option ThreadMetaRow) : ThreadState := ⟨row, [], [], []⟩

end ThreadState

def threadScope (threadId : String) (row : Option ThreadMetaRow) :
    System ThreadState ThreadEvent :=
  System.ofFn (.init row) (ThreadState.step threadId)

end DeerFlow.Gateway
