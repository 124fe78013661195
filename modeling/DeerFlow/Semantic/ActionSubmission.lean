import DeerFlow.Semantic.ActionMachine

/-! `propose` and `enqueue_execution` step by step: what each reads, and the
commit that the constraints of the tables may refuse. After a refusal `propose`
reads the row it ran into; `enqueue_execution` does not. -/

namespace DeerFlow.Semantic
open Transition

def ProposalRow.Differs (existing row : ProposalRow) : Prop :=
  existing.actionId ≠ row.actionId ∨ existing.targetId ≠ row.targetId ∨
    (Value.dict existing.parameters).eq (.dict row.parameters) = false ∨
    existing.reason ≠ row.reason ∨
    existing.expectedObjectVersion ≠ row.expectedObjectVersion ∨
    existing.scopeHash ≠ row.scopeHash

instance (existing row : ProposalRow) : Decidable (existing.Differs row) :=
  inferInstanceAs (Decidable (_ ∨ _))

/-- What `propose` answers with when the key is taken. -/
def answerExisting (existing row : ProposalRow) : Except Exc ProposalRow := do
  raiseIf (existing.Differs row) "ACTION_CONFLICT"
    "Idempotency key was already used for a different Action proposal" 409
  return existing

/-- The states that `enqueue_execution` refuses. -/
def checkExecutable (proposal : ProposalRow) : Except Exc Unit := do
  raiseIf (proposal.status = .pendingApproval) "ACTION_APPROVAL_REQUIRED"
    "Action approval is required" 409
  raiseIf (proposal.status ≠ .ready ∧ proposal.status ≠ .executing ∧
      proposal.status ≠ .succeeded ∧ proposal.status ≠ .failed) "ACTION_CONFLICT"
    ("Proposal cannot execute from " ++ proposal.status.text) 409

namespace Store

/-- `id` is the primary key and `(principal_id, idempotency_key)` is unique. -/
def proposeConflict (s : Store) (row : ProposalRow) : Bool :=
  s.proposals.rows.any fun x => x.id = row.id || row.sameKey x

def addProposal (s : Store) (row : ProposalRow) : Store :=
  { s with
    proposals := s.proposals.put row
    transitions := s.transitions ++ [proposalTransition row none .proposed none] }

def executionOf (s : Store) (proposalId : String) : Option ExecutionRow :=
  s.executions.rows.find? fun e => e.proposalId = proposalId

end Store

inductive SubmitRequest where
  | propose (row : ProposalRow)
  | enqueue (proposalId : String) (authorization : AuthorizationContext) (id : String) (now : Time)

/-- Where a call is. A call that is done has the id that it returned. -/
inductive SubmitPc where
  | start
  | conflicted
  | admitted
  | adding (execution : ExecutionRow)
  | done (result : Except Exc String)

/-- A call, with the proposal that `enqueue_execution` has read. -/
structure SubmitCall where
  request : SubmitRequest
  pc : SubmitPc
  proposal : Option ProposalRow

structure Submissions where
  store : Store
  calls : List SubmitCall

inductive SubmitEvent where
  | propose (ontology : OntologyRegistry) (authorization : AuthorizationContext)
      (request : ProposeRequest) (id : String) (now : Time)
  | enqueue (proposalId : String) (authorization : AuthorizationContext) (id : String) (now : Time)
  | step (i : Nat)
  /-- Another transaction commits, one that adds no execution. -/
  | other (w : Plan)

namespace Submissions

def empty : Submissions := ⟨.empty, []⟩

def setCall (s : Submissions) (i : Nat) (c : SubmitCall) : Submissions :=
  { s with calls := s.calls.modify i fun _ => c }

def proposeStep (s : Submissions) (i : Nat) (c : SubmitCall) (row : ProposalRow) :
    Option Submissions :=
  match c.pc with
  | .start =>
    if s.store.proposeConflict row then some (s.setCall i { c with pc := .conflicted })
    else some { s.setCall i { c with pc := .done (.ok row.id) } with
      store := s.store.addProposal row }
  | .conflicted =>
    let result := match s.store.proposals.rows.find? row.sameKey with
      | none => .error (.other "NoResultFound")
      | some existing => (answerExisting existing row).map (·.id)
    some (s.setCall i { c with pc := .done result })
  | _ => none

def enqueueStep (s : Submissions) (i : Nat) (c : SubmitCall) (proposalId : String)
    (authorization : AuthorizationContext) (id : String) (now : Time) : Option Submissions :=
  match c.pc with
  | .start =>
    match authorizedProposal s.store proposalId authorization with
    | .error e => some (s.setCall i { c with pc := .done (.error e) })
    | .ok proposal =>
      match checkExecutable proposal with
      | .error e => some (s.setCall i { c with pc := .done (.error e), proposal := some proposal })
      | .ok _ => some (s.setCall i { c with pc := .admitted, proposal := some proposal })
  | .admitted =>
    match s.store.executionOf proposalId with
    | some existing => some (s.setCall i { c with pc := .done (.ok existing.id) })
    | none => some (s.setCall i { c with pc := .adding (newExecution proposalId id now) })
  | .adding execution =>
    let plan : Plan := {
      insert := some execution
      transitions := [executionTransition execution none .ready none] }
    match s.store.commit plan with
    | none => some (s.setCall i { c with pc := .done (.error (.other "IntegrityError")) })
    | some store => some { s.setCall i { c with pc := .done (.ok execution.id) } with
        store := store }
  | _ => none

def callStep (s : Submissions) (i : Nat) (c : SubmitCall) : Option Submissions :=
  match c.request with
  | .propose row => s.proposeStep i c row
  | .enqueue proposalId authorization id now => s.enqueueStep i c proposalId authorization id now

/-- A request to propose that fails its checks does not come to the database. -/
def step (s : Submissions) : SubmitEvent → Option Submissions
  | .propose ontology authorization request id now =>
    match newProposal ontology authorization request id now with
    | .error _ => some s
    | .ok row => some { s with calls := s.calls ++ [⟨.propose row, .start, none⟩] }
  | .enqueue proposalId authorization id now =>
    some { s with
      calls := s.calls ++ [⟨.enqueue proposalId authorization id now, .start, none⟩] }
  | .step i => s.calls[i]?.bind fun c => s.callStep i c
  | .other w =>
    if w.insert.isSome then none
    else (s.store.commit w).map fun store => { s with store := store }

end Submissions

def submissions : System Submissions SubmitEvent := .ofFn .empty Submissions.step

end DeerFlow.Semantic
