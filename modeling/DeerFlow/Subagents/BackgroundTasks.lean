import DeerFlow.Lib.Transition

/-! Background subagents. Each call of `execute_async` makes a record, puts it into a table
under a task id that its caller chose, and is from then on worked on by four parties: its
`run_task` in a pool, its execution in an event loop, the poller that waits for its outcome and,
where the poller gave up, a deferred cleanup. All of them look the id up again. -/

namespace DeerFlow.Subagents
open Transition

inductive SubagentStatus where
  | pending
  | running
  | completed
  | failed
  | cancelled
  | timedOut
  deriving DecidableEq

namespace SubagentStatus

def isTerminal : SubagentStatus → Bool
  | pending | running => false
  | completed | failed | cancelled | timedOut => true

def value : SubagentStatus → String
  | pending => "pending"
  | running => "running"
  | completed => "completed"
  | failed => "failed"
  | cancelled => "cancelled"
  | timedOut => "timed_out"

end SubagentStatus

section Records
variable {M U : Type}

structure SubagentResult (M U : Type) where
  status : SubagentStatus
  result : Option String := none
  error : Option String := none
  stopReason : Option String := none
  /-- `completed_at` is not `None`. -/
  completed : Bool := false
  aiMessages : List M := []
  tokenUsageRecords : List U := []
  /-- `cancel_event` is set. -/
  cancelRequested : Bool := false

/-- The arguments of `try_set_terminal`, which refuses a status that is not terminal. -/
structure TerminalWrite (U : Type) where
  status : SubagentStatus
  result : Option String := none
  error : Option String := none
  stopReason : Option String := none
  tokenUsageRecords : Option (List U) := none
  terminal : status.isTerminal = true := by rfl

namespace SubagentResult

/-- `try_set_terminal`: the status is published last, and all under a lock. -/
def trySetTerminal (r : SubagentResult M U) (w : TerminalWrite U) : SubagentResult M U :=
  if r.status.isTerminal then r
  else { r with
    result := w.result.or r.result
    error := w.error.or r.error
    stopReason := w.stopReason.or r.stopReason
    tokenUsageRecords := w.tokenUsageRecords.getD r.tokenUsageRecords
    completed := true
    status := w.status }

/-- `_is_subagent_terminal`, and the condition in `cleanup_background_task`. -/
def safeToCleanUp (r : SubagentResult M U) : Bool := r.status.isTerminal || r.completed

end SubagentResult

/-- How `_aexecute` ends when it is not cancelled: the stream is exhausted, the recursion limit
is reached, with the usable partial text and the stop reason of a guard if there are any, or an
exception is raised. -/
inductive Ending (U : Type) where
  | completed (result : String) (stopReason : Option String) (records : List U)
  | outOfTurns (usablePartial stopReason : Option String) (records : Option (List U))
  | raised (error : String) (records : Option (List U))

structure SubagentConfig where
  maxTurns : Nat
  timeoutSeconds : Nat

def SubagentConfig.maxPollCount (config : SubagentConfig) : Nat := (config.timeoutSeconds + 60) / 5

def SubagentConfig.pollingTimedOutMessage (config : SubagentConfig) (status : SubagentStatus) :
    String :=
  s!"Task polling timed out after {config.timeoutSeconds / 60} minutes. " ++
    s!"This may indicate the background task is stuck. Status: {status.value}"

def Ending.write (config : SubagentConfig) : Ending U → TerminalWrite U
  | completed result stopReason records => {
      status := .completed
      result := some result
      stopReason := stopReason
      tokenUsageRecords := some records }
  | outOfTurns (some text) stopReason records => {
      status := .completed
      result := some text
      stopReason := some (stopReason.getD "turn_capped")
      tokenUsageRecords := records }
  | outOfTurns none stopReason records => {
      status := .failed
      error := some s!"Reached max_turns={config.maxTurns}"
      stopReason := some (stopReason.getD "turn_capped")
      tokenUsageRecords := records }
  | raised error records => {
      status := .failed
      error := some error
      tokenUsageRecords := records }

def cancelledWrite (records : List U) : TerminalWrite U where
  status := .cancelled
  error := some "Cancelled by user"
  tokenUsageRecords := some records

/-- What `task_tool` returns. -/
inductive TaskResult where
  | completed (result stopReason : Option String)
  | failed (error stopReason : Option String)
  | cancelled (error : Option String)
  | timedOut (error : Option String)
  | pollingTimedOut (error : String)
  deriving DecidableEq

/-- What the poller makes of a record with a terminal status. -/
def SubagentResult.outcome? (r : SubagentResult M U) : Option TaskResult :=
  match r.status with
  | .completed => some (.completed r.result r.stopReason)
  | .failed => some (.failed r.error r.stopReason)
  | .cancelled => some (.cancelled r.error)
  | .timedOut => some (.timedOut r.error)
  | .pending | .running => none

end Records

/-- Where `run_task` is. A holder is the record that it found under the id. -/
inductive TaskPc where
  | submitted
  | started (holder : Nat)
  | waiting (holder : Nat)
  | timedOut (holder : Nat)
  | failing (error : String)
  | settling (found : Nat) (error : String)
  | returned
  | crashed
  deriving DecidableEq

/-- Where `_aexecute` is: before the stream, in it, or between a look at `cancel_event` and the
append of the step messages of a chunk. -/
inductive ExecutionPc (M : Type) where
  | idle
  | building (holder : Nat)
  | streaming (holder : Nat)
  | capturing (holder : Nat) (messages : List M)
  | ended
  | aborted

/-- Where the poller of a call is, with the polls it has made and the record it has found. -/
inductive PollerPc where
  | get (count : Nat)
  | check (count found : Nat)
  | sleep (count found : Nat)
  | missing
  | finish (result : TaskResult)
  | giveUp (found : Nat)
  | interrupted
  | await (count : Nat)
  | awaitCheck (count found : Nat)
  | final (found : Option Nat)
  | dropping
  | returned (result : TaskResult)
  | raised
  deriving DecidableEq

/-- Where a deferred cleanup is. -/
inductive CleanerPc where
  | idle
  | get (count : Nat)
  | check (count found : Nat)
  | remove
  | done
  deriving DecidableEq

/-- A call of `execute_async` by `task_tool`, and what became of it. -/
structure Invocation (M U : Type) where
  taskId : String
  config : SubagentConfig
  record : SubagentResult M U
  task : TaskPc
  execution : ExecutionPc M
  poller : PollerPc
  cleaner : CleanerPc

/-- `_background_tasks` names the call whose record is under an id. -/
structure BackgroundState (M U : Type) where
  tasks : String → Option Nat
  calls : List (Invocation M U)

inductive BackgroundEvent (M U : Type) where
  | executeAsync (taskId : String) (config : SubagentConfig)
  | task (i : Nat)
  | submitRaises (i : Nat) (error : String)
  | timeOut (i : Nat)
  | beginStream (i : Nat) (records : List U)
  | chunk (i : Nat) (messages : List M) (records : List U)
  | capture (i : Nat)
  | finish (i : Nat) (ending : Ending U)
  | abort (i : Nat)
  | poll (i : Nat)
  | interrupt (i : Nat)
  | clean (i : Nat)

namespace BackgroundState
variable {M U : Type}

def init : BackgroundState M U := ⟨fun _ => none, []⟩

def modifyCall (s : BackgroundState M U) (i : Nat) (f : Invocation M U → Invocation M U) :
    BackgroundState M U :=
  { s with calls := s.calls.modify i f }

def updateRecord (s : BackgroundState M U) (i : Nat)
    (f : SubagentResult M U → SubagentResult M U) : BackgroundState M U :=
  s.modifyCall i fun c => { c with record := f c.record }

def record? (s : BackgroundState M U) (i : Nat) : Option (SubagentResult M U) :=
  s.calls[i]?.map (·.record)

def requestCancel (s : BackgroundState M U) (i : Nat) : BackgroundState M U :=
  s.updateRecord i fun r => { r with cancelRequested := true }

def requestCancelBackgroundTask (s : BackgroundState M U) (taskId : String) :
    BackgroundState M U :=
  match s.tasks taskId with
  | none => s
  | some i => s.requestCancel i

def cleanupBackgroundTask (s : BackgroundState M U) (taskId : String) : BackgroundState M U :=
  match (s.tasks taskId).bind s.record? with
  | none => s
  | some r =>
    if r.safeToCleanUp then { s with tasks := fun k => if k = taskId then none else s.tasks k }
    else s

def executeAsync (s : BackgroundState M U) (taskId : String) (config : SubagentConfig) :
    BackgroundState M U where
  tasks k := if k = taskId then some s.calls.length else s.tasks k
  calls := s.calls ++ [{
    taskId := taskId
    config := config
    record := { status := .pending }
    task := .submitted
    execution := .idle
    poller := .get 0
    cleaner := .idle }]

def setTask (s : BackgroundState M U) (i : Nat) (pc : TaskPc) : BackgroundState M U :=
  s.modifyCall i fun c => { c with task := pc }

def setExecution (s : BackgroundState M U) (i : Nat) (pc : ExecutionPc M) :
    BackgroundState M U :=
  s.modifyCall i fun c => { c with execution := pc }

def setPoller (s : BackgroundState M U) (i : Nat) (pc : PollerPc) : BackgroundState M U :=
  s.modifyCall i fun c => { c with poller := pc }

def setCleaner (s : BackgroundState M U) (i : Nat) (pc : CleanerPc) : BackgroundState M U :=
  s.modifyCall i fun c => { c with cleaner := pc }

section Task
variable (s : BackgroundState M U) (i : Nat) (c : Invocation M U)

/-- The next step of `run_task`. -/
def taskStep : Option (BackgroundState M U) :=
  match c.task with
  | .submitted =>
    match s.tasks c.taskId with
    | none => some (s.setTask i .crashed)
    | some h =>
      some ((s.updateRecord h fun r => { r with status := .running }).setTask i (.started h))
  | .started h => some ((s.setTask i (.waiting h)).setExecution i (.building h))
  | .waiting _ =>
    match c.execution with
    | .ended => some (s.setTask i .returned)
    | .aborted => some (s.setTask i (.failing ""))
    | _ => none
  | .timedOut h =>
    some ((s.updateRecord h fun r => r.trySetTerminal {
      status := .timedOut
      error := some s!"Execution timed out after {c.config.timeoutSeconds} seconds" }).setTask i
        .returned)
  | .failing error =>
    match s.tasks c.taskId with
    | none => some (s.setTask i .crashed)
    | some h => some (s.setTask i (.settling h error))
  | .settling h error =>
    some ((s.updateRecord h fun r => r.trySetTerminal {
      status := .failed
      error := some error }).setTask i .returned)
  | .returned | .crashed => none

def submitRaises (error : String) : Option (BackgroundState M U) :=
  match c.task with
  | .started _ => some (s.setTask i (.failing error))
  | _ => none

/-- `execution_future.result` runs into its timeout. -/
def timeOut : Option (BackgroundState M U) :=
  match c.task, c.execution with
  | .waiting _, .ended | .waiting _, .aborted => none
  | .waiting h, _ => some ((s.requestCancel h).setTask i (.timedOut h))
  | _, _ => none

end Task

section Execution
variable (s : BackgroundState M U) (i : Nat) (c : Invocation M U)

def endExecution (h : Nat) (w : TerminalWrite U) : BackgroundState M U :=
  (s.updateRecord h fun r => r.trySetTerminal w).setExecution i .ended

/-- The look at `cancel_event` before the stream. -/
def beginStream (records : List U) : Option (BackgroundState M U) :=
  match c.execution with
  | .building h => (s.record? h).map fun r =>
    if r.cancelRequested then s.endExecution i h (cancelledWrite records)
    else s.setExecution i (.streaming h)
  | _ => none

/-- A chunk arrives, and `cancel_event` is looked at. -/
def chunk (messages : List M) (records : List U) : Option (BackgroundState M U) :=
  match c.execution with
  | .streaming h => (s.record? h).map fun r =>
    if r.cancelRequested then s.endExecution i h (cancelledWrite records)
    else s.setExecution i (.capturing h messages)
  | _ => none

/-- The new step messages are appended to the list of the record. -/
def capture : Option (BackgroundState M U) :=
  match c.execution with
  | .capturing h messages =>
    some ((s.updateRecord h fun r => { r with
      aiMessages := r.aiMessages ++ messages }).setExecution i (.streaming h))
  | _ => none

def finish (ending : Ending U) : Option (BackgroundState M U) :=
  match c.execution, ending with
  | .streaming h, _ | .building h, .raised _ _ =>
    some (s.endExecution i h (ending.write c.config))
  | _, _ => none

def abort : Option (BackgroundState M U) :=
  match c.execution with
  | .building _ | .streaming _ => some (s.setExecution i .aborted)
  | _ => none

end Execution

section Poller
variable (s : BackgroundState M U) (i : Nat) (c : Invocation M U)

/-- `_schedule_deferred_subagent_cleanup`, and the end of the poller. -/
def defer (pc : PollerPc) : BackgroundState M U :=
  (s.setCleaner i (.get 0)).setPoller i pc

/-- The next step of the polling loop of `task_tool`. -/
def pollStep : Option (BackgroundState M U) :=
  match c.poller with
  | .get count =>
    match s.tasks c.taskId with
    | none => some (s.setPoller i .missing)
    | some h => some (s.setPoller i (.check count h))
  | .check count h => (s.record? h).map fun r =>
    match r.outcome? with
    | some result => s.setPoller i (.finish result)
    | none => s.setPoller i (.sleep count h)
  | .sleep count h =>
    if count + 1 > c.config.maxPollCount then some (s.setPoller i (.giveUp h))
    else some (s.setPoller i (.get (count + 1)))
  | .missing => some ((s.cleanupBackgroundTask c.taskId).setPoller i
      (.returned (.failed (some s!"Task {c.taskId} disappeared from background tasks") none)))
  | .finish result => some ((s.cleanupBackgroundTask c.taskId).setPoller i (.returned result))
  | .giveUp h => (s.record? h).map fun r =>
    (s.requestCancelBackgroundTask c.taskId).defer i
      (.returned (.pollingTimedOut (c.config.pollingTimedOutMessage r.status)))
  | .interrupted => some ((s.requestCancelBackgroundTask c.taskId).setPoller i (.await 0))
  | .await count =>
    if count < c.config.maxPollCount then
      match s.tasks c.taskId with
      | none => some (s.setPoller i (.final none))
      | some h => some (s.setPoller i (.awaitCheck count h))
    else some (s.setPoller i (.final none))
  | .awaitCheck count h => (s.record? h).map fun r =>
    if r.safeToCleanUp then s.setPoller i (.final (some h))
    else s.setPoller i (.await (count + 1))
  | .final found =>
    match (found.or (s.tasks c.taskId)).bind s.record? with
    | none => some (s.defer i .raised)
    | some r => if r.safeToCleanUp then some (s.setPoller i .dropping) else some (s.defer i .raised)
  | .dropping => some ((s.cleanupBackgroundTask c.taskId).setPoller i .raised)
  | .returned _ | .raised => none

/-- `task_tool` is cancelled while it sleeps, or again while it awaits a terminal status. -/
def interruptStep : Option (BackgroundState M U) :=
  match c.poller with
  | .sleep _ _ => some (s.setPoller i .interrupted)
  | .await _ | .awaitCheck _ _ => some (s.setPoller i (.final none))
  | _ => none

/-- The next step of `_deferred_cleanup_subagent_task`. -/
def cleanStep : Option (BackgroundState M U) :=
  match c.cleaner with
  | .get count =>
    match s.tasks c.taskId with
    | none => some (s.setCleaner i .done)
    | some h => some (s.setCleaner i (.check count h))
  | .check count h => (s.record? h).map fun r =>
    if r.safeToCleanUp then s.setCleaner i .remove
    else if count ≥ c.config.maxPollCount then s.setCleaner i .done
    else s.setCleaner i (.get (count + 1))
  | .remove => some ((s.cleanupBackgroundTask c.taskId).setCleaner i .done)
  | .idle | .done => none

end Poller

def step (s : BackgroundState M U) : BackgroundEvent M U → Option (BackgroundState M U)
  | .executeAsync taskId config => some (s.executeAsync taskId config)
  | .task i => s.calls[i]?.bind (s.taskStep i)
  | .submitRaises i error => s.calls[i]?.bind fun c => s.submitRaises i c error
  | .timeOut i => s.calls[i]?.bind (s.timeOut i)
  | .beginStream i records => s.calls[i]?.bind fun c => s.beginStream i c records
  | .chunk i messages records => s.calls[i]?.bind fun c => s.chunk i c messages records
  | .capture i => s.calls[i]?.bind (s.capture i)
  | .finish i ending => s.calls[i]?.bind fun c => s.finish i c ending
  | .abort i => s.calls[i]?.bind (s.abort i)
  | .poll i => s.calls[i]?.bind (s.pollStep i)
  | .interrupt i => s.calls[i]?.bind (s.interruptStep i)
  | .clean i => s.calls[i]?.bind (s.cleanStep i)

end BackgroundState

def backgroundTasks (M U : Type) : System (BackgroundState M U) (BackgroundEvent M U) :=
  System.ofFn .init BackgroundState.step

end DeerFlow.Subagents
