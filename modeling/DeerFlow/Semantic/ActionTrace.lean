import DeerFlow.Semantic.ActionWorker

/-! The transition log under workers. `finish` logs a move from EXECUTING
whatever the status was, and the handlers of `run_once` can reach it from
COMPENSATING; as long as they do not, every log is a chain. -/

namespace DeerFlow.Semantic
open Transition ActionStatus

/-- A `finish` that a run is about to commit finds its execution EXECUTING. -/
def Fleet.FinishesExecuting (f : Fleet) : FleetEvent → Prop
  | .call r now none => ∀ run ∈ f.runs[r]?, ∀ c ∈ run.call now,
      Semantic.FinishesExecuting f.store (.call c.1)
  | _ => True

instance (f : Fleet) (a : FleetEvent) : Decidable (f.FinishesExecuting a) :=
  match a with
  | .call _ _ none => inferInstanceAs (Decidable (∀ _ ∈ _, ∀ _ ∈ _, _))
  | .call _ _ (some _) | .api _ | .claim .. | .check .. | .invoke _ | .answer .. | .crash _ =>
    isTrue trivial

section Trace
variable {R : Rendering} {f g : Fleet} {a : FleetEvent}

theorem finishesExecuting_of_api {s : Store} {op : Op} (h : op.isApi = true) :
    FinishesExecuting s op := by
  cases op with
  | propose => exact trivial
  | call c =>
    cases c with
    | finish => cases h
    | _ => exact trivial

/-- The store moves as the repository does, and keeps the condition on `finish`. -/
theorem FleetMove.finishing (h : FleetMove R f a g) (hc : f.FinishesExecuting a) :
    g.store = f.store ∨ ∃ op, FinishesExecuting f.store op ∧ repository.step f.store op g.store := by
  cases h with
  | api hop ht => exact .inr ⟨_, finishesExecuting_of_api hop, ht⟩
  | claim _ _ ht => exact .inr ⟨.call (.claimReady ..), trivial, ht⟩
  | commit hr hcall ht => exact .inr ⟨_, hc _ hr _ hcall, ht⟩
  | idle | check | invoke | answer | refuse | crash => exact .inl rfl

theorem log_chained_while_finishing_executing
    (h : Reachable ((fleet R).when Fleet.FinishesExecuting) f) : Chained f.store := by
  refine chained_of_reachable (h.simulate Fleet.store (T := repository.when FinishesExecuting)
    (fun f h0 => ?_) fun f a g _ ht => ?_)
  · change f.store = .empty
    rw [show f = .empty from h0]
    rfl
  · exact (fleet_move ht.2).finishing ht.1

end Trace

namespace Rename

def rendering : Rendering := ⟨str, fun _ => "scope"⟩

def worker (id : String) : Worker := ⟨ontology, id, 10⟩

def workerClaim (id : String) (now : Time) (f : Fleet) : FleetEvent :=
  .claim (worker id) (claimCandidates f.store [] now).head? now

/-- The checks of run `r` pass. -/
def pass (r : Nat) : FleetEvent := .check r (.ok authorization) (.ok target)

/-- The authorization service is down while run `r` checks its execution. -/
def unavailable (r : Nat) : FleetEvent :=
  .check r (.error (.action ⟨"POLICY_UNAVAILABLE", "Action authorization service is unavailable",
    400⟩)) (.ok target)

def fleetQueued : List (Fleet → FleetEvent) :=
  [fun _ => .api (propose "proposal-1" 1), fun _ => .api (preview "proposal-1" 1),
   fun _ => .api (approve "proposal-1" 1), fun _ => .api (enqueue "proposal-1" "execution-1" 1)]

/-- The first worker fails to execute, begins the compensation, and dies. -/
def abandoned : List (Fleet → FleetEvent) :=
  fleetQueued ++ [workerClaim "worker-1" 5, fun _ => pass 0, fun _ => .invoke 0,
    fun _ => .answer 0 (.error (.other "RuntimeError")), fun _ => .call 0 6 none,
    fun _ => .crash 0]

def recoveryFails : List (Fleet → FleetEvent) :=
  abandoned ++ [workerClaim "worker-2" 20, fun _ => unavailable 1, fun _ => .call 1 21 none]

def recovered : List (Fleet → FleetEvent) :=
  abandoned ++ [workerClaim "worker-2" 20, fun _ => pass 1, fun _ => .invoke 1,
    fun _ => .answer 1 (.ok []), fun _ => .call 1 21 none]

end Rename

theorem log_chained_after_recovery :
    ∃ f, Reachable ((fleet Rename.rendering).when Fleet.FinishesExecuting) f ∧
      (f.store.executions.get "execution-1").any (·.status = .compensated) = true ∧
      Chained f.store := by
  have hrun : (runScript (guarded Fleet.FinishesExecuting (Fleet.step Rename.rendering)) .empty
      Rename.recovered).any (fun f =>
        (f.store.executions.get "execution-1").any (·.status = .compensated)) = true := by
    decide +kernel
  obtain ⟨f, hf, h⟩ := exists_reachable_of_runScript _ hrun
  exact ⟨f, when_of_guarded hf, h, log_chained_while_finishing_executing (when_of_guarded hf)⟩

/-- The log of `execution-1` ends `COMPENSATING → COMPENSATING`, `EXECUTING → FAILED`. -/
theorem failed_recovery_breaks_log :
    ¬ ∀ f, Reachable (fleet Rename.rendering) f → Chained f.store := by
  intro hall
  have hrun : (runScript (Fleet.step Rename.rendering) .empty Rename.recoveryFails).any
      (fun f => decide (¬ Log.Path TransitionRow.fromStatus TransitionRow.toStatus none
        (f.store.log .execution "execution-1")
        ((f.store.executions.get "execution-1").map ExecutionRow.status))) = true := by
    decide +kernel
  obtain ⟨f, hf, h⟩ := exists_reachable_of_runScript _ hrun
  exact of_decide_eq_true h ((hall f hf).execution "execution-1")

end DeerFlow.Semantic
