import DeerFlow.Semantic.ActionStore

/-! The transactions of the Action repository. Each reads the store, decides,
and returns its result with what it will write; committing is left to the
caller, so that the same definitions serve atomic transactions and transactions
whose reads and writes are separate steps. -/

namespace DeerFlow.Semantic

abbrev Tx (ρ : Type) := Store → Except Exc (ρ × Plan)

def raiseAction {α : Type} (code detail : String) (statusCode : Nat) : Except Exc α :=
  .error (.action ⟨code, detail, statusCode⟩)

def raiseIf (c : Prop) [Decidable c] (code detail : String) (statusCode : Nat) :
    Except Exc Unit :=
  if c then raiseAction code detail statusCode else .ok ()

/-- An `OntologyError` that no handler turns into an `ActionError`. -/
def liftOntology {α : Type} : Except OntologyError α → Except Exc α
  | .ok a => .ok a
  | .error _ => .error (.other "OntologyError")

/-- `except OntologyError as exc: raise ActionError(code, str(exc), ...)`. -/
def asActionError {α : Type} (code : String) (statusCode : Nat) :
    Except OntologyError α → Except Exc α
  | .ok a => .ok a
  | .error e => raiseAction code e.message statusCode

/-- `_SAFE_TARGET_ID` is the pattern of the context's own identifiers. -/
def safeTargetId (s : String) : Bool := safeId s

def targetInScope (action : ActionDefinition) (targetId : String)
    (authorization : AuthorizationContext) : Bool :=
  match authorization.scopeMode with
  | .tenantAll => true
  | .resourceSet =>
    if action.scopeDimension = "site" then authorization.allowedSiteIds.contains targetId
    else if action.scopeDimension = "project" then
      authorization.allowedProjectIds.contains targetId
    else false
  | _ => false

/-- `str` stands for Python's rendering of a value as text. -/
def validateActionTarget (str : Value → String) (action : ActionDefinition)
    (targetId targetIdField : String) (expectedObjectVersion : Option String)
    (targetSnapshot : Dict Value) : Except Exc Unit := do
  let actualTargetId := (targetSnapshot.get targetIdField).getD .none
  raiseIf (actualTargetId = .none ∨ str actualTargetId ≠ targetId) "AUTHORIZATION_DENIED"
    "Action target is not visible in the authorized scope" 403
  match expectedObjectVersion with
  | none => pure ()
  | some expected =>
    let version := (targetSnapshot.get "version").getD .none
    let actual := if version.truthy then version
      else (targetSnapshot.get "updated_at").getD .none
    raiseIf (actual = .none ∨ str actual ≠ expected) "ACTION_CONFLICT"
      "Target object version changed" 409
  action.preconditions.forM fun p => do
    let operator := if p.op = "" then "eq" else p.op
    let actual := (targetSnapshot.get p.field).getD .none
    raiseIf (operator ≠ "eq" ∨ actual.eq p.value = false) "ACTION_PRECONDITION_FAILED"
      ("Action precondition failed for " ++ p.field) 409

def proposalTransition (row : ProposalRow) (fromStatus : Option ActionStatus)
    (toStatus : ActionStatus) (reason : Option String) : TransitionRow :=
  ⟨.proposal, row.id, fromStatus, toStatus, reason⟩

def executionTransition (row : ExecutionRow) (fromStatus : Option ActionStatus)
    (toStatus : ActionStatus) (reason : Option String) : TransitionRow :=
  ⟨.execution, row.id, fromStatus, toStatus, reason⟩

/-- The assignments a transaction makes to a loaded row. -/
def ProposalRow.moved (row : ProposalRow) (status : ActionStatus) (now : Time) : ProposalRow :=
  { row with status := status, updatedAt := now }

def ProposalRow.approved (row : ProposalRow) (approvedBy : String) (now : Time) : ProposalRow :=
  { row with
    status := .ready, approvedBy := some approvedBy, approvedAt := some now, updatedAt := now }

def ExecutionRow.claimed (row : ExecutionRow) (status : ActionStatus) (workerId : String)
    (leaseSeconds : Int) (now : Time) : ExecutionRow :=
  { row with
    status := status
    leaseOwner := some workerId
    leaseExpiresAt := some (now + leaseSeconds)
    startedAt := some (row.startedAt.getD now)
    updatedAt := now }

def ExecutionRow.compensating (row : ExecutionRow) (errorCode errorDetail : String)
    (now : Time) : ExecutionRow :=
  { row with
    status := .compensating
    errorCode := some errorCode
    errorDetail := some errorDetail
    updatedAt := now }

def ExecutionRow.closed (row : ExecutionRow) (status : ActionStatus)
    (result : Option (Dict Value)) (errorCode errorDetail : Option String) (now : Time) :
    ExecutionRow :=
  { row with
    status := status
    result := result
    errorCode := errorCode
    errorDetail := errorDetail
    leaseOwner := none
    leaseExpiresAt := none
    finishedAt := some now
    updatedAt := now }

structure ProposeRequest where
  actionId : String
  targetId : String
  parameters : Dict Value
  reason : Option String
  idempotencyKey : String
  expectedObjectVersion : Option String

/-- The row `propose` adds, once the request has passed its checks. -/
def newProposal (ontology : OntologyRegistry) (authorization : AuthorizationContext)
    (request : ProposeRequest) (id : String) (now : Time) : Except Exc ProposalRow := do
  raiseIf (safeTargetId request.targetId = false) "INVALID_ACTION_PARAMETERS"
    "Invalid Action target identifier" 400
  let action ← asActionError "AUTHORIZATION_DENIED" 403
    (ontology.authorizeAction request.actionId authorization)
  raiseIf (targetInScope action request.targetId authorization = false) "AUTHORIZATION_DENIED"
    "Action target is outside the authorized scope" 403
  let validated ← asActionError "INVALID_ACTION_PARAMETERS" 400
    (action.validateParameters request.parameters)
  return {
    id := id
    actionId := action.name
    actionVersion := action.version
    targetType := action.targetType
    targetId := request.targetId
    parameters := validated
    reason := request.reason
    principalId := authorization.principalId
    tenantId := authorization.tenantId
    systemCode := authorization.systemCode
    scopeHash := authorization.scopeHash
    permissionVersion := authorization.permissionVersion
    authorizationSnapshot := authorization.toRuntimeDict
    status := .proposed
    approvalRequired := action.approvalRequired
    idempotencyKey := request.idempotencyKey
    expectedObjectVersion := request.expectedObjectVersion
    executor := action.executor
    createdAt := now
    updatedAt := now }

def ProposalRow.sameKey (row x : ProposalRow) : Bool :=
  x.principalId = row.principalId && x.idempotencyKey = row.idempotencyKey

/-- `id` is the primary key and `(principal_id, idempotency_key)` is unique. On a
conflict the stored proposal is returned when it is for the same request. -/
def propose (ontology : OntologyRegistry) (authorization : AuthorizationContext)
    (request : ProposeRequest) (id : String) (now : Time) (s : Store) :
    Except Exc (ProposalRow × Store) := do
  let row ← newProposal ontology authorization request id now
  if s.proposals.rows.any fun x => x.id = row.id || row.sameKey x then
    match s.proposals.rows.find? row.sameKey with
    | none => .error (.other "NoResultFound")
    | some existing =>
      raiseIf (existing.actionId ≠ row.actionId ∨ existing.targetId ≠ row.targetId ∨
          (Value.dict existing.parameters).eq (.dict row.parameters) = false ∨
          existing.reason ≠ row.reason ∨
          existing.expectedObjectVersion ≠ row.expectedObjectVersion ∨
          existing.scopeHash ≠ row.scopeHash) "ACTION_CONFLICT"
        "Idempotency key was already used for a different Action proposal" 409
      return (existing, s)
  else
    .ok (row, { s with
      proposals := s.proposals.put row
      transitions := s.transitions ++ [proposalTransition row none .proposed none] })

/-- The lookup and the two authorization checks `approve`, `preview` and `enqueue_execution`
begin with. -/
def authorizedProposal (s : Store) (proposalId : String)
    (authorization : AuthorizationContext) : Except Exc ProposalRow :=
  match s.proposals.get proposalId with
  | none => raiseAction "ACTION_NOT_FOUND" "Action proposal not found" 404
  | some row =>
    if row.principalId ≠ authorization.principalId ∨ row.tenantId ≠ authorization.tenantId then
      raiseAction "ACTION_NOT_FOUND" "Action proposal not found" 404
    else if row.scopeHash ≠ authorization.scopeHash ∨
        row.permissionVersion ≠ authorization.permissionVersion then
      raiseAction "SCOPE_CHANGED" "Authorization scope changed; create a new proposal" 409
    else .ok row

def approve (proposalId : String) (authorization : AuthorizationContext) (approvedBy : String)
    (now : Time) : Tx ProposalRow := fun s => do
  let row ← authorizedProposal s proposalId authorization
  if row.status = .ready then .ok (row, {})
  else
    raiseIf (row.status ≠ .pendingApproval) "ACTION_CONFLICT"
      ("Proposal cannot be approved from " ++ row.status.text) 409
    return (row.approved approvedBy now, {
      proposal := some (row, row.approved approvedBy now)
      transitions := [proposalTransition row (some row.status) .ready (some "approved")] })

def nextStatus (row : ProposalRow) : ActionStatus :=
  if row.approvalRequired then .pendingApproval else .ready

def previewTransitions (row : ProposalRow) : List TransitionRow :=
  [proposalTransition row (some row.status) .validated none,
   proposalTransition row (some .validated) .previewed none,
   proposalTransition row (some .previewed) (nextStatus row) none]

def preview (str : Value → String) (ontology : OntologyRegistry) (proposalId : String)
    (authorization : AuthorizationContext) (targetSnapshot : Dict Value) (now : Time) :
    Tx ProposalRow := fun s => do
  let row ← authorizedProposal s proposalId authorization
  raiseIf (row.status ≠ .proposed ∧ row.status ≠ .pendingApproval ∧ row.status ≠ .ready)
    "ACTION_CONFLICT" ("Proposal cannot be previewed from " ++ row.status.text) 409
  let action ← liftOntology (ontology.action row.actionId)
  let targetType ← liftOntology (ontology.object action.targetType)
  validateActionTarget str action row.targetId targetType.idField row.expectedObjectVersion
    targetSnapshot
  return (row.moved (nextStatus row) now, {
    proposal := some (row, row.moved (nextStatus row) now)
    transitions := previewTransitions row })

def newExecution (proposalId id : String) (now : Time) : ExecutionRow where
  id := id
  proposalId := proposalId
  status := .ready
  createdAt := now
  updatedAt := now

def enqueueExecution (proposalId : String) (authorization : AuthorizationContext) (id : String)
    (now : Time) : Tx ExecutionRow := fun s => do
  let proposal ← authorizedProposal s proposalId authorization
  raiseIf (proposal.status = .pendingApproval) "ACTION_APPROVAL_REQUIRED"
    "Action approval is required" 409
  raiseIf (proposal.status ≠ .ready ∧ proposal.status ≠ .executing ∧
      proposal.status ≠ .succeeded ∧ proposal.status ≠ .failed) "ACTION_CONFLICT"
    ("Proposal cannot execute from " ++ proposal.status.text) 409
  match s.executions.rows.find? fun e => e.proposalId = proposalId with
  | some existing => .ok (existing, {})
  | none =>
    let execution := newExecution proposalId id now
    .ok (execution, {
      insert := some execution
      transitions := [executionTransition execution none .ready none] })

/-- The `WHERE` clause of the claim query. -/
def claimCandidate (now : Time) (e : ExecutionRow) : Bool :=
  (e.status = .ready || e.status = .executing || e.status = .compensating) &&
    (e.status = .ready || e.leaseExpiresAt.any fun t => decide (t < now))

/-- The rows the claim query may pick from; rows locked by another claim are skipped. -/
def claimCandidates (s : Store) (locked : List String) (now : Time) : List ExecutionRow :=
  s.executions.rows.filter fun e => claimCandidate now e && !locked.contains e.id

/-- `ORDER BY created_at LIMIT 1`: an oldest candidate. Equal times are left to the database. -/
def ClaimSelects (s : Store) (locked : List String) (now : Time) : Option ExecutionRow → Prop
  | none => claimCandidates s locked now = []
  | some e => e ∈ claimCandidates s locked now ∧
      ∀ x ∈ claimCandidates s locked now, e.createdAt ≤ x.createdAt

instance (s : Store) (locked : List String) (now : Time) (selected : Option ExecutionRow) :
    Decidable (ClaimSelects s locked now selected) :=
  match selected with
  | none => inferInstanceAs (Decidable (_ = _))
  | some _ => inferInstanceAs (Decidable (_ ∧ _))

/-- A proposal whose execution may be claimed. -/
def ActionStatus.Claimable (st : ActionStatus) : Prop := st = .ready ∨ st.Active

instance : DecidablePred ActionStatus.Claimable := fun _ => inferInstanceAs (Decidable (_ ∨ _))

/-- The status a claim gives to both rows. -/
def claimedStatus (e : ExecutionRow) : ActionStatus :=
  if e.status = .compensating then .compensating else .executing

def leaseRecovered (previous : ActionStatus) : Option String :=
  if previous.Active then some "lease_recovered" else none

def claimReady (selected : Option ExecutionRow) (workerId : String) (leaseSeconds : Int)
    (now : Time) : Tx (Option (ProposalRow × ExecutionRow)) := fun s =>
  match selected with
  | none => .ok (none, {})
  | some execution =>
    match s.proposals.get execution.proposalId with
    | none => .ok (none, {})
    | some proposal =>
      if ¬ proposal.status.Claimable then .ok (none, {})
      else
        let status := claimedStatus execution
        let claimed := execution.claimed status workerId leaseSeconds now
        .ok (some (proposal.moved status now, claimed), {
          proposal := some (proposal, proposal.moved status now)
          execution := some (execution, claimed)
          transitions := [
            executionTransition execution (some execution.status) status
              (leaseRecovered execution.status),
            proposalTransition proposal (some proposal.status) status
              (leaseRecovered proposal.status)] })

/-- The proposal of an execution moved to `status` together with it, and its log row. -/
def moveProposal (s : Store) (execution : ExecutionRow) (status : ActionStatus)
    (reason : Option String) (now : Time) :
    Option (ProposalRow × ProposalRow) × List TransitionRow :=
  match s.proposals.get execution.proposalId with
  | none => (none, [])
  | some p => (some (p, p.moved status now),
      [proposalTransition p (some p.status) status reason])

def beginCompensation (executionId workerId errorCode errorDetail : String) (now : Time) :
    Tx Unit := fun s =>
  let refused := raiseAction "ACTION_CONFLICT"
    "Execution cannot enter compensation from its current state" 409
  match s.executions.get executionId with
  | none => refused
  | some execution =>
    if execution.leaseOwner ≠ some workerId ∨ execution.status ≠ .executing then refused
    else
      let moved := moveProposal s execution .compensating (some errorCode) now
      .ok ((), {
        proposal := moved.1
        execution := some (execution, execution.compensating errorCode errorDetail now)
        transitions := executionTransition execution (some .executing) .compensating
          (some errorCode) :: moved.2 })

def compensationStatus (compensationError : Bool) : ActionStatus :=
  if compensationError then .failed else .compensated

/-- A compensation that succeeds keeps the error it compensates for. -/
def ExecutionRow.compensationCode (row : ExecutionRow) (compensationError : Bool) :
    Option String :=
  if compensationError then some "COMPENSATION_FAILED" else row.errorCode

def ExecutionRow.compensationDetail (row : ExecutionRow) (compensationError : Bool) :
    Option String :=
  if compensationError then some "Action compensation failed" else row.errorDetail

def finishCompensation (executionId workerId : String) (result : Option (Dict Value))
    (compensationError : Bool) (now : Time) : Tx Unit := fun s =>
  let refused := raiseAction "ACTION_CONFLICT"
    "Execution compensation lease is not owned by worker" 409
  match s.executions.get executionId with
  | none => refused
  | some execution =>
    if execution.leaseOwner ≠ some workerId ∨ execution.status ≠ .compensating then refused
    else
      let status := compensationStatus compensationError
      let errorCode := execution.compensationCode compensationError
      let moved := moveProposal s execution status errorCode now
      .ok ((), {
        proposal := moved.1
        execution := some (execution, execution.closed status result errorCode
          (execution.compensationDetail compensationError) now)
        transitions := executionTransition execution (some .compensating) status errorCode
          :: moved.2 })

/-- An empty error code counts as none. -/
def finishStatus (errorCode : Option String) : ActionStatus :=
  if errorCode.any (· ≠ "") then .failed else .succeeded

/-- The execution's own log row is always written as a move from `EXECUTING`. -/
def finish (executionId workerId : String) (result : Option (Dict Value))
    (errorCode errorDetail : Option String) (now : Time) : Tx Unit := fun s =>
  let refused := raiseAction "ACTION_CONFLICT" "Execution lease is not owned by worker" 409
  match s.executions.get executionId with
  | none => refused
  | some execution =>
    if execution.leaseOwner ≠ some workerId then refused
    else
      let status := finishStatus errorCode
      let moved := moveProposal s execution status errorCode now
      .ok ((), {
        proposal := moved.1
        execution := some (execution,
          execution.closed status result errorCode errorDetail now)
        transitions := moved.2 ++ [executionTransition execution (some .executing) status
          errorCode] })

end DeerFlow.Semantic
