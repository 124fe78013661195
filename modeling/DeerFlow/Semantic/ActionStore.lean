import DeerFlow.Semantic.Ontology

/-! The rows of the Action tables, the transition log, and what a database
transaction does to them when it commits. A session writes only the columns
whose value differs from the one it loaded, against whatever the row holds by
then: there is no version check. -/

namespace DeerFlow.Semantic

abbrev Time := Int

inductive ActionStatus where
  | proposed
  | validated
  | previewed
  | pendingApproval
  | ready
  | executing
  | compensating
  | succeeded
  | failed
  | compensated
  deriving DecidableEq, Inhabited

namespace ActionStatus

def text : ActionStatus → String
  | .proposed => "PROPOSED"
  | .validated => "VALIDATED"
  | .previewed => "PREVIEWED"
  | .pendingApproval => "PENDING_APPROVAL"
  | .ready => "READY"
  | .executing => "EXECUTING"
  | .compensating => "COMPENSATING"
  | .succeeded => "SUCCEEDED"
  | .failed => "FAILED"
  | .compensated => "COMPENSATED"

def Active (st : ActionStatus) : Prop := st = .executing ∨ st = .compensating

def Terminal (st : ActionStatus) : Prop := st = .succeeded ∨ st = .failed ∨ st = .compensated

instance : DecidablePred Active := fun _ => inferInstanceAs (Decidable (_ ∨ _))

instance : DecidablePred Terminal := fun _ => inferInstanceAs (Decidable (_ ∨ _))

end ActionStatus

structure ActionError where
  code : String
  detail : String
  statusCode : Nat := 400
  deriving DecidableEq

/-- The exception classes the handlers tell apart. -/
inductive Exc where
  | action (e : ActionError)
  | authorizationContext (detail : String)
  | other (name : String)
  deriving DecidableEq

structure ProposalRow where
  id : String
  actionId : String
  actionVersion : String
  targetType : String
  targetId : String
  parameters : Dict Value
  reason : Option String
  principalId : String
  tenantId : String
  systemCode : String
  scopeHash : String
  permissionVersion : String
  authorizationSnapshot : Dict Value
  status : ActionStatus
  approvalRequired : Bool
  approvedBy : Option String := none
  approvedAt : Option Time := none
  idempotencyKey : String
  expectedObjectVersion : Option String
  executor : Dict Value
  createdAt : Time
  updatedAt : Time

structure ExecutionRow where
  id : String
  proposalId : String
  status : ActionStatus
  result : Option (Dict Value) := none
  errorCode : Option String := none
  errorDetail : Option String := none
  leaseOwner : Option String := none
  leaseExpiresAt : Option Time := none
  startedAt : Option Time := none
  finishedAt : Option Time := none
  createdAt : Time
  updatedAt : Time
  deriving DecidableEq

inductive EntityType where
  | proposal
  | execution
  deriving DecidableEq

structure TransitionRow where
  entityType : EntityType
  entityId : String
  fromStatus : Option ActionStatus
  toStatus : ActionStatus
  reason : Option String := none
  deriving DecidableEq

structure Store where
  proposals : Table ProposalRow.id
  executions : Table ExecutionRow.id
  transitions : List TransitionRow

def Store.empty : Store := ⟨.empty, .empty, []⟩

/-- One column of an `UPDATE`: left out when the session did not change it. -/
def column {β : Type} [DecidableEq β] (loaded new current : β) : β :=
  if new = loaded then current else new

@[simp] theorem column_loaded {β : Type} [DecidableEq β] (loaded new : β) :
    column loaded new loaded = new := by
  unfold column
  split_ifs with h
  · exact h.symm
  · rfl

def ProposalRow.write (loaded new current : ProposalRow) : ProposalRow :=
  { current with
    status := column loaded.status new.status current.status
    approvedBy := column loaded.approvedBy new.approvedBy current.approvedBy
    approvedAt := column loaded.approvedAt new.approvedAt current.approvedAt
    updatedAt := column loaded.updatedAt new.updatedAt current.updatedAt }

def ExecutionRow.write (loaded new current : ExecutionRow) : ExecutionRow :=
  { current with
    status := column loaded.status new.status current.status
    result := column loaded.result new.result current.result
    errorCode := column loaded.errorCode new.errorCode current.errorCode
    errorDetail := column loaded.errorDetail new.errorDetail current.errorDetail
    leaseOwner := column loaded.leaseOwner new.leaseOwner current.leaseOwner
    leaseExpiresAt := column loaded.leaseExpiresAt new.leaseExpiresAt current.leaseExpiresAt
    startedAt := column loaded.startedAt new.startedAt current.startedAt
    finishedAt := column loaded.finishedAt new.finishedAt current.finishedAt
    updatedAt := column loaded.updatedAt new.updatedAt current.updatedAt }

/-- What a session holds when it reaches its commit: for each row it changed the
loaded and the new value, the execution row it adds, and the log rows in order. -/
structure Plan where
  proposal : Option (ProposalRow × ProposalRow) := none
  execution : Option (ExecutionRow × ExecutionRow) := none
  insert : Option ExecutionRow := none
  transitions : List TransitionRow := []

namespace Store

def writeProposal (s : Store) : Option (ProposalRow × ProposalRow) → Table ProposalRow.id
  | none => s.proposals
  | some (loaded, new) => s.proposals.update loaded.id (loaded.write new)

def writeExecution (s : Store) : Option (ExecutionRow × ExecutionRow) → Table ExecutionRow.id
  | none => s.executions
  | some (loaded, new) => s.executions.update loaded.id (loaded.write new)

/-- `id` is the primary key and `proposal_id` is unique. -/
def insertConflict (s : Store) (e : ExecutionRow) : Bool :=
  s.executions.rows.any fun x => x.id = e.id || x.proposalId = e.proposalId

/-- `none` is an `IntegrityError`. No transaction both changes and adds an execution. -/
def commit (s : Store) (w : Plan) : Option Store :=
  match w.insert with
  | none => some ⟨s.writeProposal w.proposal, s.writeExecution w.execution,
      s.transitions ++ w.transitions⟩
  | some e =>
    if s.insertConflict e then none
    else some ⟨s.writeProposal w.proposal, s.executions.put e, s.transitions ++ w.transitions⟩

end Store

end DeerFlow.Semantic
