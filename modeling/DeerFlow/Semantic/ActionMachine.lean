import DeerFlow.Lib.Except
import DeerFlow.Lib.Transition
import DeerFlow.Semantic.ActionRepository

/-! The Action repository as a state machine over the store: any caller may
issue any operation at any time, and each operation is one atomic transaction.
`Call.move` says once and for all what a transaction that passed its checks will
write; every invariant below is proved from it. -/

namespace DeerFlow.Semantic
open Transition

/-- A transaction with its arguments. The clock reading and the fresh id are arguments too. -/
inductive Call where
  | approve (proposalId : String) (authorization : AuthorizationContext) (approvedBy : String)
      (now : Time)
  | preview (str : Value → String) (ontology : OntologyRegistry) (proposalId : String)
      (authorization : AuthorizationContext) (targetSnapshot : Dict Value) (now : Time)
  | enqueueExecution (proposalId : String) (authorization : AuthorizationContext) (id : String)
      (now : Time)
  | claimReady (selected : Option ExecutionRow) (workerId : String) (leaseSeconds : Int)
      (now : Time)
  | beginCompensation (executionId workerId errorCode errorDetail : String) (now : Time)
  | finishCompensation (executionId workerId : String) (result : Option (Dict Value))
      (compensationError : Bool) (now : Time)
  | finish (executionId workerId : String) (result : Option (Dict Value))
      (errorCode errorDetail : Option String) (now : Time)

namespace Call

/-- What the transaction will write, or the exception it raises before writing. -/
def load (s : Store) : Call → Except Exc Plan
  | approve p a b now => (Semantic.approve p a b now s).map Prod.snd
  | preview str o p a t now => (Semantic.preview str o p a t now s).map Prod.snd
  | enqueueExecution p a id now => (Semantic.enqueueExecution p a id now s).map Prod.snd
  | claimReady e w l now => (Semantic.claimReady e w l now s).map Prod.snd
  | beginCompensation e w c d now => (Semantic.beginCompensation e w c d now s).map Prod.snd
  | finishCompensation e w r err now =>
    (Semantic.finishCompensation e w r err now s).map Prod.snd
  | finish e w r c d now => (Semantic.finish e w r c d now s).map Prod.snd

/-- The row a claim works on is one its query may return; rows in `locked` are skipped. -/
def Selects (s : Store) (locked : List String) : Call → Prop
  | claimReady selected _ _ now => ClaimSelects s locked now selected
  | _ => True

instance (s : Store) (locked : List String) (c : Call) : Decidable (c.Selects s locked) :=
  match c with
  | claimReady .. => inferInstanceAs (Decidable (ClaimSelects ..))
  | approve .. | preview .. | enqueueExecution .. | beginCompensation .. | finishCompensation ..
  | finish .. => isTrue trivial

def run (s : Store) (c : Call) : Except Exc Store :=
  match c.load s with
  | .error e => .error e
  | .ok w => match s.commit w with
    | none => .error (.other "IntegrityError")
    | some t => .ok t

end Call

inductive Op where
  | propose (ontology : OntologyRegistry) (authorization : AuthorizationContext)
      (request : ProposeRequest) (id : String) (now : Time)
  | call (c : Call)

def Op.run (s : Store) : Op → Except Exc Store
  | propose o a r id now => (Semantic.propose o a r id now s).map Prod.snd
  | call c => c.run s

def Op.Selects (s : Store) : Op → Prop
  | call c => c.Selects s []
  | propose .. => True

instance (s : Store) (op : Op) : Decidable (op.Selects s) :=
  match op with
  | .propose .. => isTrue trivial
  | .call c => inferInstanceAs (Decidable (c.Selects s []))

/-- An operation that raises leaves the store as it was. -/
def Op.step (s : Store) (op : Op) : Option Store :=
  if op.Selects s then
    match op.run s with
    | .ok t => some t
    | .error _ => some s
  else none

def repository : System Store Op := .ofFn .empty Op.step

theorem exists_reachable {p : Store → Bool} (as : List (Store → Op))
    (h : (runScript Op.step .empty as).any p = true) : ∃ s, Reachable repository s ∧ p s = true :=
  exists_reachable_of_runScript as h

theorem exists_reachable_when {C : Store → Op → Prop} [∀ s op, Decidable (C s op)]
    {p : Store → Bool} (as : List (Store → Op))
    (h : (runScript (guarded C Op.step) .empty as).any p = true) :
    ∃ s, Reachable (repository.when C) s ∧ p s = true := by
  obtain ⟨s, hs, hp⟩ := exists_reachable_of_runScript as h
  exact ⟨s, when_of_guarded hs, hp⟩

/-- The operations that may return without writing anything. -/
def Call.mayIdle : Call → Bool
  | .approve .. | .enqueueExecution .. | .claimReady .. => true
  | _ => false

/-- What a transaction that passed its checks will write, with what it knows of the rows
it loaded. -/
inductive Move (s : Store) : Call → Plan → Prop
  | idle (c : Call) (hc : c.mayIdle = true) : Move s c {}
  | approve {p : ProposalRow} (a : AuthorizationContext) (approvedBy : String) (now : Time)
      (hp : s.proposals.get p.id = some p) (hst : p.status = .pendingApproval) :
      Move s (.approve p.id a approvedBy now) {
        proposal := some (p, p.approved approvedBy now)
        transitions := [proposalTransition p (some p.status) .ready (some "approved")] }
  | preview {p : ProposalRow} (str : Value → String) (o : OntologyRegistry)
      (a : AuthorizationContext) (target : Dict Value) (now : Time)
      (hp : s.proposals.get p.id = some p)
      (hst : p.status = .proposed ∨ p.status = .pendingApproval ∨ p.status = .ready) :
      Move s (.preview str o p.id a target now) {
        proposal := some (p, p.moved (nextStatus p) now)
        transitions := previewTransitions p }
  | enqueue {p : ProposalRow} (a : AuthorizationContext) (id : String) (now : Time)
      (hp : s.proposals.get p.id = some p)
      (hst : p.status = .ready ∨ p.status = .executing ∨ p.status = .succeeded ∨
        p.status = .failed)
      (hnew : ∀ e ∈ s.executions.rows, e.proposalId ≠ p.id) :
      Move s (.enqueueExecution p.id a id now) {
        insert := some (newExecution p.id id now)
        transitions := [executionTransition (newExecution p.id id now) none .ready none] }
  | claim {e : ExecutionRow} {p : ProposalRow} (workerId : String) (leaseSeconds : Int)
      (now : Time) (he : s.executions.get e.id = some e) (hc : claimCandidate now e = true)
      (hp : s.proposals.get e.proposalId = some p) (hst : p.status.Claimable) :
      Move s (.claimReady (some e) workerId leaseSeconds now) {
        proposal := some (p, p.moved (claimedStatus e) now)
        execution := some (e, e.claimed (claimedStatus e) workerId leaseSeconds now)
        transitions := [
          executionTransition e (some e.status) (claimedStatus e) (leaseRecovered e.status),
          proposalTransition p (some p.status) (claimedStatus e) (leaseRecovered p.status)] }
  | begin {e : ExecutionRow} (workerId errorCode errorDetail : String) (now : Time)
      (he : s.executions.get e.id = some e) (ho : e.leaseOwner = some workerId)
      (hst : e.status = .executing) :
      Move s (.beginCompensation e.id workerId errorCode errorDetail now) {
        proposal := (moveProposal s e .compensating (some errorCode) now).1
        execution := some (e, e.compensating errorCode errorDetail now)
        transitions := executionTransition e (some .executing) .compensating (some errorCode)
          :: (moveProposal s e .compensating (some errorCode) now).2 }
  | finishCompensation {e : ExecutionRow} (workerId : String) (result : Option (Dict Value))
      (err : Bool) (now : Time) (he : s.executions.get e.id = some e)
      (ho : e.leaseOwner = some workerId) (hst : e.status = .compensating) :
      Move s (.finishCompensation e.id workerId result err now) {
        proposal := (moveProposal s e (compensationStatus err) (e.compensationCode err) now).1
        execution := some (e, e.closed (compensationStatus err) result (e.compensationCode err)
          (e.compensationDetail err) now)
        transitions := executionTransition e (some .compensating) (compensationStatus err)
            (e.compensationCode err)
          :: (moveProposal s e (compensationStatus err) (e.compensationCode err) now).2 }
  | finish {e : ExecutionRow} (workerId : String) (result : Option (Dict Value))
      (errorCode errorDetail : Option String) (now : Time)
      (he : s.executions.get e.id = some e) (ho : e.leaseOwner = some workerId) :
      Move s (.finish e.id workerId result errorCode errorDetail now) {
        proposal := (moveProposal s e (finishStatus errorCode) errorCode now).1
        execution := some (e, e.closed (finishStatus errorCode) result errorCode errorDetail now)
        transitions := (moveProposal s e (finishStatus errorCode) errorCode now).2 ++
          [executionTransition e (some .executing) (finishStatus errorCode) errorCode] }

section Inversion
variable {s : Store} {w : Plan}

theorem raiseIf_eq_ok {c : Prop} [Decidable c] {code detail : String} {n : Nat} {u : Unit} :
    raiseIf c code detail n = .ok u ↔ ¬ c := by
  unfold raiseIf raiseAction
  split_ifs with h
  · simp [h]
  · simp [h]

theorem authorizedProposal_ok {pid : String} {a : AuthorizationContext} {p : ProposalRow}
    (h : authorizedProposal s pid a = .ok p) : p.id = pid ∧ s.proposals.get p.id = some p := by
  unfold authorizedProposal raiseAction at h
  rcases hg : s.proposals.get pid with _ | row
  · rw [hg] at h
    cases h
  · rw [hg] at h
    simp only at h
    split_ifs at h
    obtain rfl := Except.ok.inj h
    have hid : row.id = pid := Table.key_of_get hg
    exact ⟨hid, hid ▸ hg⟩

theorem approve_move {pid approvedBy : String} {a : AuthorizationContext} {now : Time}
    {r : ProposalRow} (h : approve pid a approvedBy now s = .ok (r, w)) :
    Move s (.approve pid a approvedBy now) w := by
  obtain ⟨p, hp, h⟩ := bind_eq_ok.mp h
  split_ifs at h with hready
  · obtain ⟨-, rfl⟩ := Prod.mk.inj (Except.ok.inj h)
    exact .idle _ rfl
  · obtain ⟨_, hpending, h⟩ := bind_eq_ok.mp h
    obtain ⟨-, rfl⟩ := Prod.mk.inj (Except.ok.inj h)
    obtain ⟨rfl, hget⟩ := authorizedProposal_ok hp
    exact .approve a approvedBy now hget (not_not.mp (raiseIf_eq_ok.mp hpending))

theorem preview_move {str : Value → String} {o : OntologyRegistry} {pid : String}
    {a : AuthorizationContext} {target : Dict Value} {now : Time} {r : ProposalRow}
    (h : preview str o pid a target now s = .ok (r, w)) :
    Move s (.preview str o pid a target now) w := by
  obtain ⟨p, hp, h⟩ := bind_eq_ok.mp h
  obtain ⟨_, hst, h⟩ := bind_eq_ok.mp h
  obtain ⟨_, _, h⟩ := bind_eq_ok.mp h
  obtain ⟨_, _, h⟩ := bind_eq_ok.mp h
  obtain ⟨_, _, h⟩ := bind_eq_ok.mp h
  obtain ⟨-, rfl⟩ := Prod.mk.inj (Except.ok.inj h)
  have hpre : p.status = .proposed ∨ p.status = .pendingApproval ∨ p.status = .ready := by
    have hn := raiseIf_eq_ok.mp hst
    tauto
  obtain ⟨rfl, hget⟩ := authorizedProposal_ok hp
  exact .preview str o a target now hget hpre

theorem enqueueExecution_move {pid id : String} {a : AuthorizationContext} {now : Time}
    {r : ExecutionRow} (h : enqueueExecution pid a id now s = .ok (r, w)) :
    Move s (.enqueueExecution pid a id now) w := by
  obtain ⟨p, hp, h⟩ := bind_eq_ok.mp h
  obtain ⟨_, _, h⟩ := bind_eq_ok.mp h
  obtain ⟨_, hst, h⟩ := bind_eq_ok.mp h
  obtain ⟨rfl, hget⟩ := authorizedProposal_ok hp
  have hpre : p.status = .ready ∨ p.status = .executing ∨ p.status = .succeeded ∨
      p.status = .failed := by
    have hn := raiseIf_eq_ok.mp hst
    tauto
  rcases hf : s.executions.rows.find? (fun e => e.proposalId = p.id) with _ | e
  · rw [hf] at h
    obtain ⟨-, rfl⟩ := Prod.mk.inj (Except.ok.inj h)
    refine .enqueue a id now hget hpre fun e he => ?_
    simpa using List.find?_eq_none.mp hf e he
  · rw [hf] at h
    obtain ⟨-, rfl⟩ := Prod.mk.inj (Except.ok.inj h)
    exact .idle _ rfl

theorem claimReady_move {locked : List String} {selected : Option ExecutionRow}
    {workerId : String} {leaseSeconds : Int} {now : Time}
    {r : Option (ProposalRow × ExecutionRow)} (hsel : ClaimSelects s locked now selected)
    (h : claimReady selected workerId leaseSeconds now s = .ok (r, w)) :
    Move s (.claimReady selected workerId leaseSeconds now) w := by
  unfold claimReady at h
  rcases selected with _ | e
  · obtain ⟨-, rfl⟩ := Prod.mk.inj (Except.ok.inj h)
    exact .idle _ rfl
  · simp only at h
    rcases hp : s.proposals.get e.proposalId with _ | p
    · rw [hp] at h
      obtain ⟨-, rfl⟩ := Prod.mk.inj (Except.ok.inj h)
      exact .idle _ rfl
    · rw [hp] at h
      simp only at h
      split_ifs at h with hst
      · obtain ⟨-, rfl⟩ := Prod.mk.inj (Except.ok.inj h)
        obtain ⟨hmem, hc⟩ := List.mem_filter.mp hsel.1
        have hcand : claimCandidate now e = true := (Bool.and_eq_true_iff.mp hc).1
        exact .claim workerId leaseSeconds now (Table.mem_rows.mp hmem) hcand hp hst
      · obtain ⟨-, rfl⟩ := Prod.mk.inj (Except.ok.inj h)
        exact .idle _ rfl

theorem beginCompensation_move {eid workerId code detail : String} {now : Time} {r : Unit}
    (h : beginCompensation eid workerId code detail now s = .ok (r, w)) :
    Move s (.beginCompensation eid workerId code detail now) w := by
  unfold beginCompensation raiseAction at h
  rcases he : s.executions.get eid with _ | e
  · rw [he] at h
    cases h
  · rw [he] at h
    simp only at h
    split_ifs at h with hc
    obtain ⟨-, rfl⟩ := Prod.mk.inj (Except.ok.inj h)
    obtain ⟨ho, hst⟩ := not_or.mp hc
    obtain rfl : e.id = eid := Table.key_of_get he
    exact .begin workerId code detail now he (not_not.mp ho) (not_not.mp hst)

theorem finishCompensation_move {eid workerId : String} {result : Option (Dict Value)}
    {err : Bool} {now : Time} {r : Unit}
    (h : finishCompensation eid workerId result err now s = .ok (r, w)) :
    Move s (.finishCompensation eid workerId result err now) w := by
  unfold finishCompensation raiseAction at h
  rcases he : s.executions.get eid with _ | e
  · rw [he] at h
    cases h
  · rw [he] at h
    simp only at h
    split_ifs at h with hc
    obtain ⟨-, rfl⟩ := Prod.mk.inj (Except.ok.inj h)
    obtain ⟨ho, hst⟩ := not_or.mp hc
    obtain rfl : e.id = eid := Table.key_of_get he
    exact .finishCompensation workerId result err now he (not_not.mp ho) (not_not.mp hst)

theorem finish_move {eid workerId : String} {result : Option (Dict Value)}
    {code detail : Option String} {now : Time} {r : Unit}
    (h : finish eid workerId result code detail now s = .ok (r, w)) :
    Move s (.finish eid workerId result code detail now) w := by
  unfold finish raiseAction at h
  rcases he : s.executions.get eid with _ | e
  · rw [he] at h
    cases h
  · rw [he] at h
    simp only at h
    split_ifs at h with hc
    obtain ⟨-, rfl⟩ := Prod.mk.inj (Except.ok.inj h)
    obtain rfl : e.id = eid := Table.key_of_get he
    exact .finish workerId result code detail now he (not_not.mp hc)

theorem Call.move {locked : List String} {c : Call} (hsel : c.Selects s locked)
    (h : c.load s = .ok w) : Move s c w := by
  cases c with
  | approve => exact approve_move (map_snd_eq_ok.mp h).choose_spec
  | preview => exact preview_move (map_snd_eq_ok.mp h).choose_spec
  | enqueueExecution => exact enqueueExecution_move (map_snd_eq_ok.mp h).choose_spec
  | claimReady => exact claimReady_move hsel (map_snd_eq_ok.mp h).choose_spec
  | beginCompensation => exact beginCompensation_move (map_snd_eq_ok.mp h).choose_spec
  | finishCompensation => exact finishCompensation_move (map_snd_eq_ok.mp h).choose_spec
  | finish => exact finish_move (map_snd_eq_ok.mp h).choose_spec

end Inversion

/-! The one Action of the repository's tests. Scripts over it show which states are reached. -/

namespace Rename

def str : Value → String
  | .str s => s
  | _ => ""

def compensation : Dict Value :=
  [("type", .str "domain_api"), ("method", .str "POST"),
   ("path", .str "/sites/target/compensate-rename")]

def ontology : OntologyRegistry where
  objects := [("Site", ⟨"Site", "id", []⟩)]
  actions := [("site.rename", {
    name := "site.rename"
    version := "1"
    targetType := "Site"
    scopeDimension := "site"
    parameters := [("name", { name := "name", valueType := .string, required := true })]
    preconditions := []
    approvalRequired := true
    executor := [("type", .str "domain_api"), ("path", .str "/sites/target")]
    compensation := some compensation
    allowedRoles := [] })]

def authorization : AuthorizationContext where
  principalId := "public-user-001"
  tenantId := "public-tenant-001"
  tenantCode := "public_demo"
  systemCode := "demo"
  roleCodes := ["site_admin"]
  scopeMode := .resourceSet
  allowedSiteIds := ["site-demo-001"]
  allowedProjectIds := []
  scopeRef := none
  permissionVersion := "1"
  scopeHash := "scope"

def target : Dict Value := [("id", .str "site-demo-001")]

/-- Proposal `p` is proposed under its own idempotency key. -/
def propose (p : String) (now : Time) : Op :=
  .propose ontology authorization ⟨"site.rename", "site-demo-001", [("name", .str "North")],
    none, p, none⟩ p now

def preview (p : String) (now : Time) : Op :=
  .call (.preview str ontology p authorization target now)

def approve (p : String) (now : Time) : Op :=
  .call (.approve p authorization "public-user-001" now)

def enqueue (p e : String) (now : Time) : Op :=
  .call (.enqueueExecution p authorization e now)

/-- A claim by worker `w` of the first stored candidate, for ten seconds. -/
def claim (w : String) (now : Time) (s : Store) : Op :=
  .call (.claimReady (claimCandidates s [] now).head? w 10 now)

/-- From the proposal of `p` to its queued execution `e`. -/
def queued (p e : String) (now : Time) : List (Store → Op) :=
  [fun _ => propose p now, fun _ => preview p now, fun _ => approve p now,
   fun _ => enqueue p e now]

end Rename

end DeerFlow.Semantic
