import DeerFlow.Semantic.ActionLog

/-! Action workers. `run_once` claims an execution, checks it, and then makes one
call at a time to the executor or to the repository; between two calls anything
else may happen, and the process may die. A fleet is any number of such runs over
one store. -/

namespace DeerFlow.Semantic
open Transition ActionStatus

structure Worker where
  ontology : OntologyRegistry
  workerId : String
  leaseSeconds : Int

def liftContext {α : Type} : Except AuthorizationContextError α → Except Exc α
  | .ok a => .ok a
  | .error e => .error (.authorizationContext e.detail)

/-- Everything `run_once` checks before it acts. `revalidated` and `target` are the outcomes of
the two services it asks. -/
def Worker.check (R : Rendering) (worker : Worker) (proposal : ProposalRow)
    (revalidated : Except Exc AuthorizationContext) (target : Except Exc (Dict Value)) :
    Except Exc ActionDefinition := do
  let stored ← liftContext (R.fromMapping proposal.authorizationSnapshot)
  let action ← liftOntology (worker.ontology.action proposal.actionId)
  raiseIf (action.version ≠ proposal.actionVersion) "ONTOLOGY_VERSION_CONFLICT"
    "Action definition changed" 400
  let _ ← liftOntology (action.validateParameters proposal.parameters)
  raiseIf (stored.scopeHash ≠ proposal.scopeHash) "SCOPE_CHANGED"
    "Stored scope snapshot is invalid" 400
  let authorization ← revalidated
  raiseIf (authorization.principalId ≠ stored.principalId ∨
      authorization.tenantId ≠ stored.tenantId ∨ authorization.tenantCode ≠ stored.tenantCode ∨
      authorization.systemCode ≠ stored.systemCode ∨
      authorization.scopeHash ≠ proposal.scopeHash ∨
      authorization.permissionVersion ≠ proposal.permissionVersion) "SCOPE_CHANGED"
    "Action authorization scope changed" 400
  let action ← asActionError "AUTHORIZATION_DENIED" 403
    (worker.ontology.authorizeAction proposal.actionId authorization)
  let resources := if action.scopeDimension = "site" then authorization.allowedSiteIds
    else authorization.allowedProjectIds
  raiseIf (authorization.scopeMode ≠ .tenantAll ∧ resources.contains proposal.targetId = false)
    "AUTHORIZATION_DENIED" "Action target is outside the stored scope" 400
  let targetSnapshot ← target
  let targetType ← liftOntology (worker.ontology.object action.targetType)
  validateActionTarget R.str action proposal.targetId targetType.idField
    proposal.expectedObjectVersion targetSnapshot
  return action

/-- Where a run stands. -/
inductive Phase where
  | checking
  | executing (action : ActionDefinition)
  | inExecute (action : ActionDefinition)
  | executed (result : Dict Value)
  | beginning (compensation : Dict Value) (error : Exc)
  | compensating (compensation : Dict Value) (errorCode : String)
  | inCompensate
  | closing (result : Option (Dict Value)) (compensationError : Bool)
  /-- In one of the two outer handlers. -/
  | handling (exc : Exc)
  | returned
  /-- `run_once` propagates `exc`; the lease was then owned by `leaseOwner`. -/
  | raised (exc : Exc) (leaseOwner : Option String)
  | crashed

def Phase.live : Phase → Bool
  | .returned | .raised _ _ | .crashed => false
  | _ => true

/-- One invocation of `run_once` that claimed an execution. -/
structure WorkerRun where
  worker : Worker
  proposal : ProposalRow
  execution : ExecutionRow
  phase : Phase

/-- What an observer of the run with index `run` sees. -/
inductive Obs where
  | executeInvoked (run : Nat) (executionId : String)
  | executeReturned (run : Nat) (executionId : String)
  | compensateInvoked (run : Nat) (executionId : String)
  | compensateReturned (run : Nat) (executionId : String)
  | compensateRaised (run : Nat) (executionId : String)
  /-- The Action of an execution to compensate declares no compensation. -/
  | undeclared (run : Nat) (executionId : String)
  | recorded (run : Nat) (executionId : String) (status : ActionStatus)
  deriving DecidableEq

def compensationErrorCode : Exc → String
  | .action e => e.code
  | _ => "EXECUTION_FAILED"

def compensationErrorDetail : Exc → String
  | .action e => e.detail
  | _ => "Action execution failed before compensation"

def handlerCode : Exc → String
  | .action e => e.code
  | .authorizationContext _ => "AUTHORIZATION_DENIED"
  | .other _ => "EXECUTION_FAILED"

def handlerDetail : Exc → String
  | .action e => e.detail
  | .authorizationContext detail => detail
  | .other _ => "Action execution failed"

/-- `str(execution.get("error_code") or "EXECUTION_FAILED")`. -/
def ExecutionRow.recoveredCode (row : ExecutionRow) : String :=
  match row.errorCode with
  | none | some "" => "EXECUTION_FAILED"
  | some code => code

namespace WorkerRun
variable (run : WorkerRun)

/-- The branch taken once the checks have passed. -/
def start (action : ActionDefinition) : Phase :=
  if run.execution.status = .compensating then
    match action.compensation with
    | none => .closing none true
    | some c => .compensating c run.execution.recoveredCode
  else .executing action

def checked (r : Nat) : Except Exc ActionDefinition → Phase × List Obs
  | .error exc => (.handling exc, [])
  | .ok action => (run.start action,
      if run.execution.status = .compensating ∧ action.compensation = none then
        [.undeclared r run.execution.id]
      else [])

def invoked (r : Nat) : Option (Phase × List Obs) :=
  match run.phase with
  | .executing action => some (.inExecute action, [.executeInvoked r run.execution.id])
  | .compensating _ _ => some (.inCompensate, [.compensateInvoked r run.execution.id])
  | _ => none

def answered (r : Nat) (outcome : Except Exc (Dict Value)) : Option (Phase × List Obs) :=
  match run.phase, outcome with
  | .inExecute _, .ok result => some (.executed result, [.executeReturned r run.execution.id])
  | .inExecute action, .error exc => match action.compensation with
    | none => some (.handling exc, [])
    | some c => some (.beginning c exc, [])
  | .inCompensate, .ok result =>
    some (.closing (some result) false, [.compensateReturned r run.execution.id])
  | .inCompensate, .error _ => some (.closing none true, [.compensateRaised r run.execution.id])
  | _, _ => none

/-- The repository call the run makes next, with the status it records. -/
def call (now : Time) : Option (Call × ActionStatus) :=
  let id := run.execution.id
  let worker := run.worker.workerId
  match run.phase with
  | .executed result => some (.finish id worker (some result) none none now, finishStatus none)
  | .beginning _ exc => some (.beginCompensation id worker (compensationErrorCode exc)
      (compensationErrorDetail exc) now, .compensating)
  | .closing result err => some (.finishCompensation id worker result err now,
      compensationStatus err)
  | .handling exc => some (.finish id worker none (some (handlerCode exc))
      (some (handlerDetail exc)) now, finishStatus (some (handlerCode exc)))
  | _ => none

/-- The phase after a repository call that committed. -/
def succeeded : Phase :=
  match run.phase with
  | .beginning c exc => .compensating c (compensationErrorCode exc)
  | _ => .returned

/-- The phase after a repository call that raised: the handlers call `finish` once more, and
what that raises leaves `run_once`. -/
def failed (exc : Exc) (leaseOwner : Option String) : Phase :=
  match run.phase with
  | .handling _ => .raised exc leaseOwner
  | _ => .handling exc

end WorkerRun

structure Fleet where
  store : Store
  runs : List WorkerRun
  history : List Obs

namespace Fleet

def empty : Fleet := ⟨.empty, [], []⟩

def setPhase (f : Fleet) (r : Nat) (run : WorkerRun) (phase : Phase) (seen : List Obs) : Fleet :=
  { f with runs := f.runs.set r { run with phase := phase }, history := f.history ++ seen }

def leaseOwner (f : Fleet) (executionId : String) : Option String :=
  (f.store.executions.get executionId).bind ExecutionRow.leaseOwner

end Fleet

def Op.isApi : Op → Bool
  | .propose .. | .call (.preview ..) | .call (.approve ..) | .call (.enqueueExecution ..) => true
  | _ => false

inductive FleetEvent where
  | api (op : Op)
  | claim (worker : Worker) (selected : Option ExecutionRow) (now : Time)
  | check (r : Nat) (revalidated : Except Exc AuthorizationContext)
      (target : Except Exc (Dict Value))
  | invoke (r : Nat)
  | answer (r : Nat) (outcome : Except Exc (Dict Value))
  /-- The next repository call of a run; `fault` is the exception of the database that rolled it
  back, if one did. -/
  | call (r : Nat) (now : Time) (fault : Option String)
  | crash (r : Nat)

/-- A transaction that a fault of the database may roll back. -/
def Call.attempt (fault : Option String) (s : Store) (c : Call) : Except Exc Store :=
  match fault with
  | some name => .error (.other name)
  | none => c.run s

namespace Fleet

def claim (f : Fleet) (worker : Worker) (selected : Option ExecutionRow) (now : Time) :
    Option Fleet :=
  if ClaimSelects f.store [] now selected then
    match claimReady selected worker.workerId worker.leaseSeconds now f.store with
    | .ok (some (p, e), w) => (f.store.commit w).map fun t =>
        { f with store := t, runs := f.runs ++ [⟨worker, p, e, .checking⟩] }
    | _ => some f
  else none

def call (f : Fleet) (r : Nat) (run : WorkerRun) (now : Time) (fault : Option String) :
    Option Fleet :=
  match run.call now with
  | none => none
  | some (c, status) =>
    match c.attempt fault f.store with
    | .error exc => some (f.setPhase r run (run.failed exc (f.leaseOwner run.execution.id)) [])
    | .ok t => some { f.setPhase r run run.succeeded [.recorded r run.execution.id status] with
        store := t }

def step (R : Rendering) (f : Fleet) : FleetEvent → Option Fleet
  | .api op => if op.isApi then (op.step f.store).map fun t => { f with store := t } else none
  | .claim worker selected now => f.claim worker selected now
  | .check r revalidated target => f.runs[r]?.bind fun run =>
      match run.phase with
      | .checking =>
        let next := run.checked r (run.worker.check R run.proposal revalidated target)
        some (f.setPhase r run next.1 next.2)
      | _ => none
  | .invoke r => f.runs[r]?.bind fun run =>
      (run.invoked r).map fun next => f.setPhase r run next.1 next.2
  | .answer r outcome => f.runs[r]?.bind fun run =>
      (run.answered r outcome).map fun next => f.setPhase r run next.1 next.2
  | .call r now fault => f.runs[r]?.bind fun run => f.call r run now fault
  | .crash r => f.runs[r]?.bind fun run =>
      if run.phase.live then some (f.setPhase r run .crashed []) else none

end Fleet

def fleet (R : Rendering) : System Fleet FleetEvent := .ofFn .empty (Fleet.step R)

/-- What a step of the fleet can do. -/
inductive FleetMove (R : Rendering) (f : Fleet) : FleetEvent → Fleet → Prop
  | api {op : Op} {t : Store} (hop : op.isApi = true) (ht : repository.step f.store op t) :
      FleetMove R f (.api op) { f with store := t }
  | idle (a : FleetEvent) : FleetMove R f a f
  | claim {worker : Worker} {selected : Option ExecutionRow} {now : Time} {t : Store}
      (p : ProposalRow) (e : ExecutionRow)
      (ht : repository.step f.store
        (.call (.claimReady selected worker.workerId worker.leaseSeconds now)) t) :
      FleetMove R f (.claim worker selected now)
        { f with store := t, runs := f.runs ++ [⟨worker, p, e, .checking⟩] }
  | check {r : Nat} {run : WorkerRun} (revalidated : Except Exc AuthorizationContext)
      (target : Except Exc (Dict Value)) (hr : f.runs[r]? = some run)
      (hp : run.phase = .checking) (result : Except Exc ActionDefinition) :
      FleetMove R f (.check r revalidated target)
        (f.setPhase r run (run.checked r result).1 (run.checked r result).2)
  | invoke {r : Nat} {run : WorkerRun} {phase : Phase} {seen : List Obs}
      (hr : f.runs[r]? = some run) (hi : run.invoked r = some (phase, seen)) :
      FleetMove R f (.invoke r) (f.setPhase r run phase seen)
  | answer {r : Nat} {run : WorkerRun} {phase : Phase} {seen : List Obs}
      (outcome : Except Exc (Dict Value)) (hr : f.runs[r]? = some run)
      (hi : run.answered r outcome = some (phase, seen)) :
      FleetMove R f (.answer r outcome) (f.setPhase r run phase seen)
  | refuse {r : Nat} {run : WorkerRun} {now : Time} {fault : Option String} {c : Call}
      {st : ActionStatus} {exc : Exc} (hr : f.runs[r]? = some run)
      (hc : run.call now = some (c, st)) (hx : c.attempt fault f.store = .error exc) :
      FleetMove R f (.call r now fault)
        (f.setPhase r run (run.failed exc (f.leaseOwner run.execution.id)) [])
  | commit {r : Nat} {run : WorkerRun} {now : Time} {c : Call} {st : ActionStatus} {t : Store}
      (hr : f.runs[r]? = some run) (hc : run.call now = some (c, st))
      (ht : repository.step f.store (.call c) t) (hrun : c.run f.store = .ok t) :
      FleetMove R f (.call r now none)
        { f.setPhase r run run.succeeded [.recorded r run.execution.id st] with store := t }
  | crash {r : Nat} {run : WorkerRun} (hr : f.runs[r]? = some run) (hl : run.phase.live = true) :
      FleetMove R f (.crash r) (f.setPhase r run .crashed [])

section Inversion
variable {R : Rendering} {f g : Fleet} {a : FleetEvent}

theorem Call.step_of_run {s t : Store} {c : Call} (hsel : c.Selects s [])
    (h : c.run s = .ok t) : repository.step s (.call c) t := by
  change Op.step s (.call c) = some t
  unfold Op.step
  rw [if_pos (show (Op.call c).Selects s from hsel)]
  rw [show (Op.call c).run s = .ok t from h]

section Run
variable {run : WorkerRun} {r : Nat}

theorem WorkerRun.checked_cases (run : WorkerRun) (r : Nat)
    (result : Except Exc ActionDefinition) :
    (∃ exc, run.checked r result = (.handling exc, [])) ∨
    (∃ action, run.checked r result = (.executing action, [])) ∨
    (∃ c code, run.checked r result = (.compensating c code, [])) ∨
    run.checked r result = (.closing none true, [.undeclared r run.execution.id]) := by
  cases result with
  | error exc => exact .inl ⟨exc, rfl⟩
  | ok action =>
    by_cases hst : run.execution.status = .compensating
    · cases hc : action.compensation with
      | none => exact .inr (.inr (.inr (by simp [WorkerRun.checked, WorkerRun.start, hst, hc])))
      | some c =>
        refine .inr (.inr (.inl ⟨c, run.execution.recoveredCode, ?_⟩))
        simp [WorkerRun.checked, WorkerRun.start, hst, hc]
    · exact .inr (.inl ⟨action, by simp [WorkerRun.checked, WorkerRun.start, hst]⟩)

theorem WorkerRun.invoked_cases {phase : Phase} {seen : List Obs}
    (h : run.invoked r = some (phase, seen)) :
    (∃ action, run.phase = .executing action ∧ phase = .inExecute action ∧
      seen = [.executeInvoked r run.execution.id]) ∨
    ∃ c code, run.phase = .compensating c code ∧ phase = .inCompensate ∧
      seen = [.compensateInvoked r run.execution.id] := by
  unfold WorkerRun.invoked at h
  cases hp : run.phase with
  | executing action =>
    rw [hp] at h
    cases h
    exact .inl ⟨action, rfl, rfl, rfl⟩
  | compensating c code =>
    rw [hp] at h
    cases h
    exact .inr ⟨c, code, rfl, rfl, rfl⟩
  | _ =>
    rw [hp] at h
    cases h

/-- What a run does with an answer of the executor: to `execute` if it returned or raised, and to
`compensate` likewise. -/
theorem WorkerRun.answered_cases {outcome : Except Exc (Dict Value)} {phase : Phase}
    {seen : List Obs} (h : run.answered r outcome = some (phase, seen)) :
    (∃ action result, run.phase = .inExecute action ∧ phase = .executed result ∧
      seen = [.executeReturned r run.execution.id]) ∨
    (∃ action exc, run.phase = .inExecute action ∧ seen = [] ∧
      (phase = .handling exc ∨ ∃ c, phase = .beginning c exc)) ∨
    (∃ result, run.phase = .inCompensate ∧ phase = .closing (some result) false ∧
      seen = [.compensateReturned r run.execution.id]) ∨
    run.phase = .inCompensate ∧ phase = .closing none true ∧
      seen = [.compensateRaised r run.execution.id] := by
  unfold WorkerRun.answered at h
  cases hp : run.phase with
  | inExecute action =>
    cases outcome with
    | ok result =>
      rw [hp] at h
      cases h
      exact .inl ⟨action, result, rfl, rfl, rfl⟩
    | error exc =>
      simp only [hp] at h
      cases hc : action.compensation with
      | none =>
        rw [hc] at h
        cases h
        exact .inr (.inl ⟨action, exc, rfl, rfl, .inl rfl⟩)
      | some c =>
        rw [hc] at h
        cases h
        exact .inr (.inl ⟨action, exc, rfl, rfl, .inr ⟨c, rfl⟩⟩)
  | inCompensate =>
    cases outcome with
    | ok result =>
      rw [hp] at h
      cases h
      exact .inr (.inr (.inl ⟨result, rfl, rfl, rfl⟩))
    | error exc =>
      rw [hp] at h
      cases h
      exact .inr (.inr (.inr ⟨rfl, rfl, rfl⟩))
  | _ =>
    rw [hp] at h
    cases h

theorem WorkerRun.call_cases {now : Time} {c : Call} {st : ActionStatus}
    (h : run.call now = some (c, st)) :
    (∃ result, run.phase = .executed result ∧ st = .succeeded ∧
      c = .finish run.execution.id run.worker.workerId (some result) none none now) ∨
    (∃ comp exc, run.phase = .beginning comp exc ∧ st = .compensating ∧
      c = .beginCompensation run.execution.id run.worker.workerId (compensationErrorCode exc)
        (compensationErrorDetail exc) now) ∨
    (∃ result err, run.phase = .closing result err ∧ st = compensationStatus err ∧
      c = .finishCompensation run.execution.id run.worker.workerId result err now) ∨
    ∃ exc, run.phase = .handling exc ∧ st = finishStatus (some (handlerCode exc)) ∧
      c = .finish run.execution.id run.worker.workerId none (some (handlerCode exc))
        (some (handlerDetail exc)) now := by
  unfold WorkerRun.call at h
  cases hp : run.phase with
  | executed result =>
    rw [hp] at h
    cases h
    exact .inl ⟨result, rfl, rfl, rfl⟩
  | beginning comp exc =>
    rw [hp] at h
    cases h
    exact .inr (.inl ⟨comp, exc, rfl, rfl, rfl⟩)
  | closing result err =>
    rw [hp] at h
    cases h
    exact .inr (.inr (.inl ⟨result, err, rfl, rfl, rfl⟩))
  | handling exc =>
    rw [hp] at h
    cases h
    exact .inr (.inr (.inr ⟨exc, rfl, rfl, rfl⟩))
  | _ =>
    rw [hp] at h
    cases h

/-- A call that commits ends the run, except in the midst of a compensation. -/
theorem WorkerRun.succeeded_cases (run : WorkerRun) :
    run.succeeded = .returned ∨
    ∃ c exc, run.phase = .beginning c exc ∧
      run.succeeded = .compensating c (compensationErrorCode exc) := by
  unfold WorkerRun.succeeded
  cases run.phase with
  | beginning c exc => exact .inr ⟨c, exc, rfl, rfl⟩
  | _ => exact .inl rfl

/-- A call that raises leads to the handlers, and out of them if it was theirs. -/
theorem WorkerRun.failed_cases (run : WorkerRun) (exc : Exc) (leaseOwner : Option String) :
    run.failed exc leaseOwner = .handling exc ∨
    ∃ cause, run.phase = .handling cause ∧ run.failed exc leaseOwner = .raised exc leaseOwner := by
  unfold WorkerRun.failed
  cases run.phase with
  | handling cause => exact .inr ⟨cause, rfl, rfl⟩
  | _ => exact .inl rfl

/-- A run makes no claim of its own after the first. -/
theorem WorkerRun.call_selects {now : Time} {c : Call} {st : ActionStatus}
    (h : run.call now = some (c, st)) (s : Store) (locked : List String) :
    c.Selects s locked := by
  rcases WorkerRun.call_cases h with ⟨_, _, _, rfl⟩ | ⟨_, _, _, _, rfl⟩ | ⟨_, _, _, _, rfl⟩ |
    ⟨_, _, _, rfl⟩ <;> exact trivial

end Run

theorem Fleet.claim_move {worker : Worker} {selected : Option ExecutionRow} {now : Time}
    (h : f.claim worker selected now = some g) : FleetMove R f (.claim worker selected now) g := by
  unfold Fleet.claim at h
  split_ifs at h with hsel
  rcases hc : claimReady selected worker.workerId worker.leaseSeconds now f.store with
    e | ⟨_ | ⟨p, e⟩, w⟩
  · rw [hc] at h
    exact Option.some.inj h ▸ .idle _
  · rw [hc] at h
    exact Option.some.inj h ▸ .idle _
  · rw [hc] at h
    obtain ⟨t, ht, rfl⟩ := Option.map_eq_some_iff.mp h
    refine .claim p e (Call.step_of_run hsel ?_)
    have hload : (Call.claimReady selected worker.workerId worker.leaseSeconds now).load f.store =
        .ok w := by
      change (claimReady selected worker.workerId worker.leaseSeconds now f.store).map Prod.snd = _
      rw [hc]
      rfl
    unfold Call.run
    simp only [hload, ht]

theorem Fleet.call_move {r : Nat} {run : WorkerRun} {now : Time} {fault : Option String}
    (hr : f.runs[r]? = some run) (h : f.call r run now fault = some g) :
    FleetMove R f (.call r now fault) g := by
  unfold Fleet.call at h
  rcases hc : run.call now with _ | ⟨c, st⟩
  · rw [hc] at h
    cases h
  · rw [hc] at h
    simp only at h
    rcases hx : c.attempt fault f.store with exc | t
    · rw [hx] at h
      exact Option.some.inj h ▸ .refuse hr hc hx
    · rw [hx] at h
      unfold Call.attempt at hx
      cases fault with
      | some exc => cases hx
      | none =>
        exact Option.some.inj h ▸ .commit hr hc
          (Call.step_of_run (WorkerRun.call_selects hc _ _) hx) hx

theorem fleet_move (h : (fleet R).step f a g) : FleetMove R f a g := by
  change f.step R a = some g at h
  cases a with
  | api op =>
    unfold Fleet.step at h
    simp only at h
    split_ifs at h with hop
    obtain ⟨t, ht, rfl⟩ := Option.map_eq_some_iff.mp h
    exact .api hop ht
  | claim worker selected now => exact Fleet.claim_move h
  | check r revalidated target =>
    obtain ⟨run, hr, h⟩ := Option.bind_eq_some_iff.mp h
    cases hp : run.phase with
    | checking =>
      rw [hp] at h
      exact Option.some.inj h ▸ .check revalidated target hr hp _
    | _ =>
      rw [hp] at h
      cases h
  | invoke r =>
    obtain ⟨run, hr, h⟩ := Option.bind_eq_some_iff.mp h
    obtain ⟨⟨phase, seen⟩, hi, rfl⟩ := Option.map_eq_some_iff.mp h
    exact .invoke hr hi
  | answer r outcome =>
    obtain ⟨run, hr, h⟩ := Option.bind_eq_some_iff.mp h
    obtain ⟨⟨phase, seen⟩, hi, rfl⟩ := Option.map_eq_some_iff.mp h
    exact .answer outcome hr hi
  | call r now fault =>
    obtain ⟨run, hr, h⟩ := Option.bind_eq_some_iff.mp h
    exact Fleet.call_move hr h
  | crash r =>
    obtain ⟨run, hr, h⟩ := Option.bind_eq_some_iff.mp h
    split_ifs at h with hl
    exact Option.some.inj h ▸ .crash hr hl

theorem FleetMove.store (h : FleetMove R f a g) :
    g.store = f.store ∨ ∃ op, repository.step f.store op g.store := by
  cases h with
  | api _ ht | claim _ _ ht | commit _ _ ht => exact .inr ⟨_, ht⟩
  | idle | check | invoke | answer | refuse | crash => exact .inl rfl

theorem repository_of_fleet (h : Reachable (fleet R) f) : Reachable repository f.store :=
  h.simulate Fleet.store (fun _ h0 => congrArg Fleet.store h0) fun _ _ _ _ ht =>
    (fleet_move ht).store

end Inversion

end DeerFlow.Semantic
