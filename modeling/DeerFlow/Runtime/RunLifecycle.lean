import DeerFlow.Runtime.RunRegistry

/-! The life of a run. `start_run` has a record created and, if nothing goes wrong
until then, attaches the task that executes `run_agent`. The task suspends at
its awaits, where it can be cancelled; the registry is changed only by the
manager's methods. -/

namespace DeerFlow.Runtime
open Transition

/-- How `run_agent` ends. -/
inductive RunOutcome where
  | success
  | failed (message : String)
  | rolledBack
  | interrupted
  deriving DecidableEq

namespace RunOutcome

def status : RunOutcome → RunStatus
  | .success => .success
  | .failed _ | .rolledBack => .error
  | .interrupted => .interrupted

def error : RunOutcome → Option String
  | .failed message => some message
  | .rolledBack => some "Rolled back by user"
  | .success | .interrupted => none

def ofAction : AbortAction → RunOutcome
  | .rollback => .rolledBack
  | .interrupt => .interrupted

end RunOutcome

inductive Block where
  | tryBlock
  | cancelHandler
  | errorHandler
  deriving DecidableEq

/-- Where `run_agent` is suspended. -/
inductive RunPc where
  /-- The task exists; the coroutine has not been entered. -/
  | created
  /-- In `wait_for_prior_finalizing`. -/
  | waitPrior
  /-- Before `set_status(running)`. -/
  | markRunning
  /-- From there to the final status of the try block. -/
  | body
  /-- Before `set_finalizing(True)`. -/
  | markFinalizing (block : Block)
  /-- Before the `set_status` that ends the block. -/
  | settle (block : Block) (outcome : RunOutcome)
  | rest (block : Block)
  /-- In the finally block, up to its look at `record.finalizing`. -/
  | finallyBlock
  /-- Before `set_finalizing(False)`. -/
  | clearFinalizing
  | publishEnd
  | done
  deriving DecidableEq

namespace RunPc

/-- Where a `CancelledError` that is raised at the await leads. -/
def cancelled : RunPc → RunPc
  | .created => .done
  | .waitPrior | .markRunning | .body | .markFinalizing .tryBlock | .settle .tryBlock _ |
    .rest .tryBlock => .markFinalizing .cancelHandler
  | .markFinalizing _ | .settle _ _ | .rest _ => .finallyBlock
  | .finallyBlock | .clearFinalizing | .publishEnd | .done => .done

def InTry : RunPc → Prop
  | .waitPrior | .markRunning | .body | .markFinalizing .tryBlock | .settle .tryBlock _ |
    .rest .tryBlock => True
  | _ => False

instance (pc : RunPc) : Decidable pc.InTry := by
  unfold InTry
  split <;> infer_instance

end RunPc

/-- `cancelling` stands for a requested cancellation that has not been raised yet. -/
structure RunTask where
  pc : RunPc
  cancelling : Bool
  deriving DecidableEq

def RunTask.Active (t : RunTask) : Prop := t.pc ≠ .done

instance (t : RunTask) : Decidable t.Active := inferInstanceAs (Decidable (_ ≠ _))

/-- `task.cancel()`. -/
def RunTask.cancel (t : RunTask) : RunTask := if t.Active then { t with cancelling := true } else t

/-- The part of a record that the life of its run depends on. -/
structure RunControl where
  threadId : String
  status : RunStatus
  abortEvent : Bool
  abortAction : AbortAction
  finalizing : Bool
  deriving DecidableEq

def RunRecord.control (r : RunRecord) : RunControl :=
  ⟨r.threadId, r.status, r.abortEvent, r.abortAction, r.finalizing⟩

def RunManager.control (m : RunManager) (runId : String) : Option RunControl :=
  (m.runs.get runId).map RunRecord.control

namespace RunControl

def Busy (c : RunControl) : Prop := c.status = .pending ∨ c.status = .running

instance (c : RunControl) : Decidable c.Busy := inferInstanceAs (Decidable (_ ∨ _))

def Inflight (c : RunControl) : Prop := c.Busy ∨ c.finalizing = true

instance (c : RunControl) : Decidable c.Inflight := inferInstanceAs (Decidable (_ ∨ _))

def abort (c : RunControl) (action : AbortAction) (taskActive : Bool) : RunControl :=
  { c with
    abortAction := action, abortEvent := true, finalizing := taskActive, status := .interrupted }

end RunControl

/-- What a task does when it runs on from its await. -/
inductive TaskMove where
  | proceed
  /-- The agent has finished; `error` is the fallback message of a failed model call. -/
  | finish (error : Option String)
  /-- The agent has finished or stopped, and the abort event is set. -/
  | abort
  | raise (message : String)
  /-- The requested cancellation is raised. -/
  | deliver
  /-- The agent swallows the cancellation. -/
  | absorb
  deriving DecidableEq

/-- The call of the manager that goes with a move. -/
inductive TaskCall where
  | none
  | setStatus (status : RunStatus) (error : Option String)
  | setFinalizing (finalizing : Bool)

def TaskCall.apply (c : RunControl) : TaskCall → RunControl
  | .none => c
  | .setStatus status _ => { c with status := status }
  | .setFinalizing finalizing => { c with finalizing := finalizing }

/-- The next await when nothing is raised. -/
def RunPc.proceed (c : Option RunControl) : RunPc → Option (RunTask × TaskCall)
  | .created => some (⟨.waitPrior, false⟩, .none)
  | .waitPrior => some (⟨.markRunning, false⟩, .none)
  | .markRunning => some (⟨.body, false⟩, .setStatus .running none)
  | .markFinalizing block =>
    let outcome := c.elim .interrupted fun c => .ofAction c.abortAction
    some (⟨.settle block outcome, false⟩, .setFinalizing true)
  | .settle block outcome => some (⟨.rest block, false⟩, .setStatus outcome.status outcome.error)
  | .rest _ => some (⟨.finallyBlock, false⟩, .none)
  | .finallyBlock =>
    if c.any fun c => c.finalizing then some (⟨.clearFinalizing, false⟩, .none)
    else some (⟨.publishEnd, false⟩, .none)
  | .clearFinalizing => some (⟨.publishEnd, false⟩, .setFinalizing false)
  | .publishEnd => some (⟨.done, false⟩, .none)
  | .body | .done => none

/-- The next await of `run_agent`, and the manager's method it calls on the way. `c` is its
record, if the manager still has it. -/
def RunTask.next (t : RunTask) (c : Option RunControl) : TaskMove → Option (RunTask × TaskCall)
  | .deliver =>
    if t.cancelling ∧ t.Active then some (⟨t.pc.cancelled, false⟩, .none) else none
  | .absorb =>
    if t.cancelling ∧ t.pc = .body then some (⟨.body, false⟩, .none) else none
  | .finish error =>
    if t.cancelling = false ∧ t.pc = .body ∧ c.all (fun c => !c.abortEvent) then
      some (⟨.settle .tryBlock (error.elim .success .failed), false⟩, .none)
    else none
  | .abort =>
    if t.cancelling = false ∧ t.pc = .body ∧ c.all (fun c => c.abortEvent) then
      some (⟨.markFinalizing .tryBlock, false⟩, .none)
    else none
  | .raise message =>
    if t.cancelling = false ∧ (t.pc = .waitPrior ∨ t.pc = .body) then
      some (⟨.settle .errorHandler (.failed message), false⟩, .none)
    else none
  | .proceed =>
    if t.cancelling then none
    else t.pc.proceed c

/-- `preparing` are the runs whose `start_run` has its record and has still to attach a task. -/
structure RunSystem where
  registry : Registry
  preparing : List String
  tasks : Dict RunTask

inductive RunEvent where
  | createOrReject (args : NewRun) (runId now : String)
  | written
  | writeFailed (error : CreateError)
  | trailed (i : Nat)
  | trailCancelled (i : Nat)
  | returned (i : Nat)
  /-- `start_run` raises, or is cancelled, after it got its record. -/
  | startFails (runId : String)
  | attach (runId : String)
  | cancel (runId : String) (action : AbortAction) (now : String)
  | updateModelName (runId : String) (modelName : Option String) (now : String)
  | updateRunCompletion (runId : String) (kwargs : UsageUpdate) (error : Option String)
      (now : String)
  | updateRunProgress (runId : String) (kwargs : UsageUpdate) (now : String)
  | cleanup (runId : String)
  /-- Someone other than the manager cancels the task. -/
  | cancelTask (runId : String)
  | task (runId : String) (move : TaskMove) (now : String)

namespace RunSystem

def empty : RunSystem := ⟨.empty, [], []⟩

def control (s : RunSystem) (runId : String) : Option RunControl := s.registry.manager.control runId

/-- The runs whose task is not done. -/
def active (s : RunSystem) : List String :=
  s.tasks.keys.filter fun runId => (s.tasks.get runId).any fun t => t.Active

/-- The runs whose `start_run` is in progress and has not attached a task. -/
def starting (s : RunSystem) : List String :=
  (s.registry.holder.map fun creation => creation.record.runId).toList ++
    s.registry.trailing.map Trailing.runId ++ s.preparing

/-- A call of the manager. -/
def call (s : RunSystem) (e : RegistryEvent) : Option RunSystem :=
  (e.step s.registry).map fun r => { s with registry := r }

def cancelTasks (s : RunSystem) (runIds : List String) : RunSystem :=
  { s with tasks := s.tasks.map fun x => if x.1 ∈ runIds then (x.1, x.2.cancel) else x }

/-- The runs that storing the current creation aborts. -/
def aborting (s : RunSystem) : List String :=
  s.registry.holder.elim [] s.registry.aborting

/-- `wait_for_prior_finalizing` ends only when no earlier run of the thread is finalizing. -/
def mayProceed (s : RunSystem) (runId : String) (t : RunTask) : Bool :=
  t.pc ≠ .waitPrior || (s.registry.holder.isNone &&
    (s.control runId).all fun c => s.registry.manager.priorFinalized c.threadId runId)

def taskCall (s : RunSystem) (runId now : String) : TaskCall → Option RunSystem
  | .none => some s
  | .setStatus status error => s.call (.record (.setStatus runId status error now))
  | .setFinalizing finalizing => s.call (.record (.setFinalizing runId finalizing now))

end RunSystem

def RunEvent.step (s : RunSystem) : RunEvent → Option RunSystem
  | .createOrReject args runId now => s.call (.createOrReject args runId now)
  | .written => (s.call (.written s.active)).map fun t => t.cancelTasks s.aborting
  | .writeFailed error => s.call (.writeFailed error)
  | .trailed i => s.call (.trailed i)
  | .trailCancelled i => s.call (.trailCancelled i)
  | .returned i =>
    match s.registry.trailing[i]? with
    | none => none
    | some call => (s.call (.returned i)).map fun t =>
        { t with preparing := t.preparing ++ [call.runId] }
  | .startFails runId =>
    if runId ∈ s.preparing then some { s with preparing := s.preparing.filter (· ≠ runId) } else none
  | .attach runId =>
    if runId ∈ s.preparing ∧ s.tasks.get runId = none then
      some { s with
        preparing := s.preparing.filter (· ≠ runId)
        tasks := s.tasks.set runId ⟨.created, false⟩ }
    else none
  | .cancel runId action now =>
    (s.call (.record (.cancel runId action (s.active.contains runId) now))).map fun t =>
      if s.registry.manager.cancels runId then t.cancelTasks [runId] else t
  | .updateModelName runId modelName now => s.call (.record (.updateModelName runId modelName now))
  | .updateRunCompletion runId kwargs error now =>
    s.call (.record (.updateRunCompletion runId kwargs error now))
  | .updateRunProgress runId kwargs now => s.call (.record (.updateRunProgress runId kwargs now))
  | .cleanup runId => s.call (.cleanup runId)
  | .cancelTask runId => some (s.cancelTasks [runId])
  | .task runId move now =>
    match s.tasks.get runId with
    | none => none
    | some t =>
      if move = .proceed ∧ s.mayProceed runId t = false then none
      else match t.next (s.control runId) move with
        | none => none
        | some (t', call) => (s.taskCall runId now call).map fun u =>
            { u with tasks := u.tasks.set runId t' }

def runSystem : System RunSystem RunEvent := .ofFn .empty RunEvent.step

end DeerFlow.Runtime
