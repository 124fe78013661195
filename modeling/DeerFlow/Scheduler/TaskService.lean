import DeerFlow.Runtime.RunManager
import DeerFlow.Scheduler.TaskTables

/-! The scheduled task service and the requests that change tasks. A coroutine
suspends at its repository calls and at the launch of a run, and each of these
may raise. A crash ends every coroutine and every run of the process. -/

namespace DeerFlow.Scheduler
open Transition DeerFlow.Runtime

/-- The configuration of the service, and what it asks of the schedules. -/
structure ServiceEnv where
  leaseOwner : String
  leaseSeconds : Int
  maxConcurrentRuns : Int
  minOnceDelaySeconds : Int
  validTimezone : String → Bool
  /-- `normalize_cron_expression`, or the text it raises. -/
  normalizeCron : String → Except String String
  /-- `next_run_at`, or the text it raises. -/
  nextRunAt : ScheduleType → Dict Value → String → Int → Except String (Option Int)

def ServiceEnv.nextOf (env : ServiceEnv) (task : ScheduledTaskRow) (now : Int) :
    Except String (Option Int) :=
  env.nextRunAt task.scheduleType task.scheduleSpec task.timezone now

section Dispatch

inductive Outcome where
  | launched
  | skipped
  | conflict
  | failed
  deriving DecidableEq

structure DispatchResult where
  outcome : Outcome
  taskRunId : Option String
  runId : Option String
  threadId : String
  error : Option String

/-- What was launched, with the bookkeeping that is still to be written. -/
structure Launched where
  runId : String
  nextAt : Option Int
  taskStatus : TaskStatus

/-- A failure on its way into the tables. -/
structure Failure where
  error : String
  overlap : Bool
  nextAt : Option Int

/-- The await at which `dispatch_task` is suspended. -/
inductive DispatchPc where
  /-- At `has_active_runs`. -/
  | check
  | create (skipError : Option String)
  | skipRun (taskRunId error : String) (nextAt : Option Int)
  | skipTask (taskRunId error : String) (nextAt : Option Int)
  | launch (taskRunId : String)
  | markRunning (taskRunId : String) (launched : Launched)
  | afterLaunch (taskRunId : String) (launched : Launched)
  | failRun (taskRunId : String) (failure : Failure)
  | failTask (taskRunId : String) (failure : Failure)

structure DispatchCall where
  task : ScheduledTaskRow
  trigger : Trigger
  now : Int
  threadId : String
  pc : DispatchPc

/-- An agent run that `launch_run` has started, until its completion hook. -/
structure LaunchedRun where
  runId : String
  threadId : String
  userId : String
  taskId : String
  taskRunId : String
  /-- The status and error it ended with, once it no longer blocks its thread. -/
  ended : Option (RunStatus × Option String)

/-- What happens at the await of a dispatch. -/
inductive DispatchEvent where
  /-- The call succeeds; `uuid` is the text of the identifier that is made next, if any. -/
  | succeeds (uuid : String)
  /-- The repository raises. -/
  | raises (error : String)
  /-- `create` has committed its row when its `session.refresh` raises. -/
  | refreshRaises (uuid : String)
  | launches (runId : String)
  /-- `launch_run` raises, `overlap` if by a conflict with another run. -/
  | launchRaises (error : String) (overlap : Bool)
  /-- The await raises `CancelledError`, which no handler of a dispatch catches. -/
  | cancelled

inductive DispatchNext where
  | goOn (pc : DispatchPc)
  | returns (result : DispatchResult)
  | raises
  | cancelled

namespace DispatchCall

def taskStatusForFailure (task : ScheduledTaskRow) (trigger : Trigger) : TaskStatus :=
  match trigger, task.scheduleType with
  | .manual, _ => task.status
  | .scheduled, .once => .failed
  | .scheduled, .cron => .enabled

def taskStatusForSkip (task : ScheduledTaskRow) : TaskStatus :=
  match task.scheduleType with
  | .once => .failed
  | .cron => .enabled

def taskStatusForLaunch (task : ScheduledTaskRow) (trigger : Trigger) : TaskStatus :=
  match task.scheduleType with
  | .once => .running
  | .cron => if trigger = .manual ∧ task.status = .paused then .paused else .enabled

/-- The start of `dispatch_task`, up to its first await. -/
def enter (task : ScheduledTaskRow) (trigger : Trigger) (now : Int) (uuid : String) : DispatchCall where
  task := task
  trigger := trigger
  now := now
  threadId :=
    match task.contextMode, task.threadId with
    | .reuseThread, some threadId => if threadId = "" then uuid else threadId
    | _, _ => uuid
  pc := if task.overlapPolicy = .skip then .check else .create none

def finalizeSkip (env : ServiceEnv) (c : DispatchCall) (taskRunId error : String) : DispatchNext :=
  match env.nextOf c.task c.now with
  | .error _ => .raises
  | .ok nextAt => .goOn (.skipRun taskRunId error nextAt)

/-- The `except` block of a launch, up to its first await. -/
def launchFailed (env : ServiceEnv) (c : DispatchCall) (taskRunId error : String) (overlap : Bool) :
    DispatchNext :=
  match env.nextOf c.task c.now with
  | .error _ => .raises
  | .ok nextAt =>
    if overlap ∧ c.trigger = .scheduled ∧ c.task.overlapPolicy = .skip then
      c.finalizeSkip env taskRunId error
    else .goOn (.failRun taskRunId ⟨error, overlap, nextAt⟩)

/-- The row of the run a dispatch is about. -/
def newRun (c : DispatchCall) (taskRunId : String) : ScheduledTaskRunRow where
  id := taskRunId
  taskId := c.task.id
  threadId := c.threadId
  runId := none
  scheduledFor := c.now
  trigger := c.trigger
  status := .queued
  error := none
  startedAt := none
  finishedAt := none

def skipUpdate (c : DispatchCall) (error : String) : RunUpdate :=
  ⟨.skipped, none, some error, some c.now, some c.now, false⟩

def skipAfterLaunch (c : DispatchCall) (error : String) (nextAt : Option Int) : AfterLaunch where
  status := taskStatusForSkip c.task
  nextRunAt := nextAt
  lastRunAt := c.task.lastRunAt
  lastRunId := c.task.lastRunId
  lastThreadId := c.task.lastThreadId
  lastError := if c.task.scheduleType = .once then some error else none
  incrementRunCount := false
  protectTerminal := false

def launchUpdate (c : DispatchCall) (l : Launched) : RunUpdate :=
  ⟨.running, some l.runId, none, some c.now, none, true⟩

def launchAfterLaunch (c : DispatchCall) (l : Launched) : AfterLaunch where
  status := l.taskStatus
  nextRunAt := l.nextAt
  lastRunAt := some c.now
  lastRunId := some l.runId
  lastThreadId := some c.threadId
  lastError := none
  incrementRunCount := true
  protectTerminal := true

def failUpdate (c : DispatchCall) (f : Failure) : RunUpdate :=
  ⟨.failed, none, some f.error, some c.now, some c.now, false⟩

def failAfterLaunch (c : DispatchCall) (f : Failure) : AfterLaunch where
  status := taskStatusForFailure c.task c.trigger
  nextRunAt := f.nextAt
  lastRunAt := some c.now
  lastRunId := none
  lastThreadId := some c.threadId
  lastError := some f.error
  incrementRunCount := false
  protectTerminal := false

end DispatchCall

end Dispatch

section Requests

/-- The fields of a patch request that the tables depend on. -/
structure TaskPatch where
  contextMode : Option ContextMode
  threadId : Option String
  scheduleSpec : Option (Dict Value)
  timezone : Option String

inductive TaskChange where
  | pause
  | resume
  | patch (body : TaskPatch)

/-- A request that has read the task and is about to change it. -/
structure TaskRequest where
  change : TaskChange
  existing : ScheduledTaskRow

structure HttpError where
  status : Nat
  detail : String
  deriving DecidableEq

def patchSpec (env : ServiceEnv) (scheduleType : ScheduleType) (spec : Dict Value) :
    Except HttpError (Dict Value) :=
  match scheduleType, spec.get "cron" with
  | .once, _ => .ok spec
  | .cron, some (.str cron) =>
    match env.normalizeCron cron with
    | .ok text => .ok (spec.set "cron" (.str text))
    | .error text => .error ⟨422, text⟩
  | .cron, _ => .error ⟨422, "cron schedule requires schedule_spec.cron"⟩

/-- The part of a patch that depends on the schedule. -/
def patchSchedule (env : ServiceEnv) (body : TaskPatch) (existing : ScheduledTaskRow) (now : Int)
    (u : TaskUpdates) : Except HttpError TaskUpdates := do
  let spec ← patchSpec env existing.scheduleType (body.scheduleSpec.getD existing.scheduleSpec)
  match env.nextRunAt existing.scheduleType spec (body.timezone.getD existing.timezone) now with
  | .error text => .error ⟨422, text⟩
  | .ok nextAt =>
    if existing.scheduleType = .once ∧ nextAt = none then
      .error ⟨422, "once schedule must be in the future"⟩
    else if existing.scheduleType = .once ∧ (∃ t ∈ nextAt, t - now < env.minOnceDelaySeconds) then
      .error ⟨422, "once schedule must be at least " ++ toString env.minOnceDelaySeconds ++
        " seconds in the future"⟩
    else .ok { u with
      scheduleSpec := some spec
      nextRunAt := some nextAt
      -- a terminal task whose schedule now lies in the future is armed again
      status := if nextAt.isSome ∧ existing.status.isTerminal then some .enabled else u.status }

/-- A task that reuses its thread needs one that the user has access to. -/
def patchThread (body : TaskPatch) (existing : ScheduledTaskRow) (hasAccess : Bool)
    (u : TaskUpdates) : Except HttpError TaskUpdates :=
  match body.contextMode.getD existing.contextMode with
  | .reuseThread =>
    if ((body.threadId.or existing.threadId).getD "") = "" then
      .error ⟨422, "reuse_thread requires thread_id"⟩
    else if hasAccess then .ok u
    else .error ⟨404, "Thread not found"⟩
  | .freshThreadPerRun => .ok { u with threadId := some none }

def patchUpdates (env : ServiceEnv) (body : TaskPatch) (existing : ScheduledTaskRow) (now : Int)
    (hasAccess : Bool) : Except HttpError TaskUpdates := do
  let u ← patchThread body existing hasAccess { TaskUpdates.none with
    contextMode := body.contextMode
    threadId := body.threadId.map some
    scheduleSpec := body.scheduleSpec
    timezone := body.timezone }
  match body.timezone.filter fun t => !env.validTimezone t with
  | some timezone => .error ⟨422, "Unknown timezone: " ++ timezone⟩
  | none =>
    if body.scheduleSpec.isSome || body.timezone.isSome then
      patchSchedule env body existing now u
    else .ok u

def TaskRequest.updates (env : ServiceEnv) (r : TaskRequest) (now : Int) (hasAccess : Bool) :
    Except HttpError TaskUpdates :=
  match r.change with
  | .pause => .ok { TaskUpdates.none with status := some .paused }
  | .resume => .ok { TaskUpdates.none with status := some .enabled }
  | .patch body => patchUpdates env body r.existing now hasAccess

/-- What a task is created with. -/
structure NewTask where
  id : String
  userId : String
  threadId : Option String
  contextMode : ContextMode
  scheduleType : ScheduleType
  scheduleSpec : Dict Value
  timezone : String
  nextRunAt : Option Int

def NewTask.row (t : NewTask) : ScheduledTaskRow where
  id := t.id
  userId := t.userId
  threadId := t.threadId
  contextMode := t.contextMode
  scheduleType := t.scheduleType
  scheduleSpec := t.scheduleSpec
  timezone := t.timezone
  status := .enabled
  overlapPolicy := .skip
  nextRunAt := t.nextRunAt
  lastRunAt := none
  lastRunId := none
  lastThreadId := none
  lastError := none
  leaseOwner := none
  leaseExpiresAt := none
  runCount := 0

end Requests

section Completion

def terminalStatus : RunStatus × Option String → Option (TaskRunStatus × Option String)
  | (.success, _) => some (.success, none)
  | (.interrupted, error) =>
    some (.interrupted, some ((error.filter (· ≠ "")).getD
      "run was interrupted before completion"))
  | (.error, error) | (.timeout, error) => some (.failed, error)
  | (.pending, _) | (.running, _) => none

/-- The await at which a completion hook is suspended, after it has updated the run's row. -/
inductive HookPc where
  | get
  | update (task : ScheduledTaskRow)

structure CompletionHook where
  run : LaunchedRun
  status : TaskRunStatus
  error : Option String
  pc : HookPc

/-- The single occurrence of a `once` task is consumed whatever the outcome. -/
def CompletionHook.updates (h : CompletionHook) (task : ScheduledTaskRow) : TaskUpdates :=
  { TaskUpdates.none with
    lastError := some h.error
    status :=
      match task.scheduleType, h.status with
      | .cron, _ => none
      | .once, .success => some .completed
      | .once, .interrupted => some .cancelled
      | .once, _ => some .failed }

end Completion

/-- Where the poll loop is suspended, apart from the dispatch it awaits. -/
inductive PollPc where
  | idle
  /-- At `claim_due_tasks`. -/
  | counted (now budget : Int)
  /-- With the claimed tasks that are still to be dispatched. -/
  | dispatching (now : Int) (rest : List ScheduledTaskRow)
  /-- The loop has ended, and `start()` does not begin another one. -/
  | stopped

structure SchedulerState where
  tasks : TaskTable
  runs : TaskRunTable
  poll : PollPc
  calls : List DispatchCall
  requests : List TaskRequest
  live : List LaunchedRun
  hooks : List CompletionHook
  started : Bool
  /-- The tasks ever created; identifiers are never made twice. -/
  created : List NewTask

inductive SchedulerEvent where
  | createTask (task : NewTask)
  | trigger (taskId userId : String) (now : Int) (uuid : String)
  | readTask (change : TaskChange) (taskId userId : String)
  | writeTask (i : Nat) (now : Int) (hasAccess : Bool)
  | failRequest (i : Nat)
  | deleteTask (taskId userId : String)
  | pollCount (now : Int)
  | pollClaim
  | pollRaises
  | pollDispatch (uuid : String)
  | pollEnd
  | dispatch (i : Nat) (event : DispatchEvent)
  | endRun (i : Nat) (status : RunStatus) (error : Option String)
  | hookRun (i : Nat) (now : Int) (raises : Bool)
  | hookGet (i : Nat) (raises : Bool)
  | hookUpdate (i : Nat) (raises : Bool)
  | crash
  | start (now : Int) (sweepsRuns sweepsTasks : Bool)

namespace SchedulerState

def init : SchedulerState := ⟨.empty, .empty, .idle, [], [], [], [], false, []⟩

def restartError : String := "interrupted: gateway restarted before the run reached a terminal state"

/-- A run with a status that is not terminal holds its thread. -/
def threadBusy (s : SchedulerState) (threadId : String) : Bool :=
  s.live.any fun r => r.threadId = threadId && r.ended.isNone

/-- One step of a dispatch, from its await to the next. -/
def dispatchStep (env : ServiceEnv) (s : SchedulerState) (c : DispatchCall) (event : DispatchEvent) :
    Option (DispatchNext × SchedulerState) :=
  match c.pc, event with
  | .check, .succeeds _ =>
    if s.runs.hasActiveRuns c.task.id then
      match c.trigger with
      | .manual => some (.returns ⟨.conflict, none, none, c.threadId,
          some "task already has an active run"⟩, s)
      | .scheduled =>
        some (.goOn (.create (some "skipped: a previous run of this task is still active")), s)
    else some (.goOn (.create none), s)
  | .create skipError, .succeeds uuid =>
    let taskRunId := "task-run-" ++ uuid
    if (s.runs.get taskRunId).isSome then none
    else
      let s := { s with runs := s.runs.put (c.newRun taskRunId) }
      match skipError with
      | some error => some (c.finalizeSkip env taskRunId error, s)
      | none => some (.goOn (.launch taskRunId), s)
  | .create _, .refreshRaises uuid =>
    let taskRunId := "task-run-" ++ uuid
    if (s.runs.get taskRunId).isSome then none
    else some (.raises, { s with runs := s.runs.put (c.newRun taskRunId) })
  | .skipRun id error nextAt, .succeeds _ =>
    some (.goOn (.skipTask id error nextAt),
      { s with runs := s.runs.updateStatus id (c.skipUpdate error) })
  | .skipTask id error nextAt, .succeeds _ =>
    some (.returns ⟨.skipped, some id, none, c.threadId, some error⟩,
      { s with tasks := s.tasks.updateAfterLaunch c.task.id (c.skipAfterLaunch error nextAt) })
  | .launch id, .launches runId =>
    if s.threadBusy c.threadId then none
    else
      let s := { s with live := s.live ++ [⟨runId, c.threadId, c.task.userId, c.task.id, id, none⟩] }
      match env.nextOf c.task c.now with
      | .error error => some (c.launchFailed env id error false, s)
      | .ok nextAt => some (.goOn (.markRunning id
          ⟨runId, nextAt, DispatchCall.taskStatusForLaunch c.task c.trigger⟩), s)
  | .launch id, .launchRaises error overlap => some (c.launchFailed env id error overlap, s)
  | .markRunning id l, .succeeds _ =>
    some (.goOn (.afterLaunch id l), { s with runs := s.runs.updateStatus id (c.launchUpdate l) })
  | .afterLaunch id l, .succeeds _ =>
    some (.returns ⟨.launched, some id, some l.runId, c.threadId, none⟩,
      { s with tasks := s.tasks.updateAfterLaunch c.task.id (c.launchAfterLaunch l) })
  | .markRunning id _, .raises error | .afterLaunch id _, .raises error =>
    some (c.launchFailed env id error false, s)
  | .failRun id f, .succeeds _ =>
    some (.goOn (.failTask id f), { s with runs := s.runs.updateStatus id (c.failUpdate f) })
  | .failTask id f, .succeeds _ =>
    some (.returns ⟨if f.overlap then .conflict else .failed, some id, none, c.threadId,
        some f.error⟩,
      { s with tasks := s.tasks.updateAfterLaunch c.task.id (c.failAfterLaunch f) })
  | _, .cancelled => some (.cancelled, s)
  | .check, .raises _ | .create _, .raises _ | .skipRun _ _ _, .raises _ |
    .skipTask _ _ _, .raises _ | .failRun _ _, .raises _ | .failTask _ _, .raises _ =>
    some (.raises, s)
  | _, _ => none

/-- The dispatch goes on, or its caller does; an exception ends the round of the poll loop, and
a cancellation the loop. -/
def resume (s : SchedulerState) (i : Nat) (c : DispatchCall) : DispatchNext → SchedulerState
  | .goOn pc => { s with calls := s.calls.set i { c with pc := pc } }
  | .returns _ => { s with calls := s.calls.eraseIdx i }
  | .raises => { s with
      calls := s.calls.eraseIdx i
      poll := if c.trigger = .scheduled then .idle else s.poll }
  | .cancelled => { s with
      calls := s.calls.eraseIdx i
      poll := if c.trigger = .scheduled then .stopped else s.poll }

def awaitsDispatch (s : SchedulerState) : Bool := s.calls.any fun c => c.trigger = .scheduled

def pollStep (env : ServiceEnv) (s : SchedulerState) : SchedulerEvent → Option SchedulerState
  | .pollCount now =>
    match s.poll with
    | .idle =>
      let budget := env.maxConcurrentRuns - s.runs.countActiveRuns
      some (if budget ≤ 0 then s else { s with poll := .counted now budget })
    | _ => none
  | .pollClaim =>
    match s.poll with
    | .counted now budget =>
      let (rows, tasks) := s.tasks.claimDueTasks now env.leaseOwner env.leaseSeconds budget
      some { s with tasks := tasks, poll := .dispatching now rows }
    | _ => none
  | .pollRaises =>
    match s.poll with
    | .counted _ _ => some { s with poll := .idle }
    | _ => none
  | .pollDispatch uuid =>
    match s.poll with
    | .dispatching now (task :: rest) =>
      if s.awaitsDispatch then none
      else some { s with
        poll := .dispatching now rest
        calls := s.calls ++ [.enter task .scheduled now uuid] }
    | _ => none
  | .pollEnd =>
    match s.poll with
    | .dispatching _ [] => if s.awaitsDispatch then none else some { s with poll := .idle }
    | _ => none
  | _ => none

def requestStep (env : ServiceEnv) (s : SchedulerState) : SchedulerEvent → Option SchedulerState
  | .createTask task =>
    if task.id ∈ s.created.map NewTask.id then none
    else some { s with tasks := s.tasks.put task.row, created := s.created ++ [task] }
  | .trigger taskId userId now uuid =>
    (s.tasks.getFor taskId userId).map fun task =>
      { s with calls := s.calls ++ [.enter task .manual now uuid] }
  | .readTask change taskId userId =>
    match s.tasks.getFor taskId userId with
    | none => none
    | some task =>
      if task.status = .running then none
      else some { s with requests := s.requests ++ [⟨change, task⟩] }
  | .writeTask i now hasAccess =>
    match s.requests[i]? with
    | none => none
    | some r =>
      let s := { s with requests := s.requests.eraseIdx i }
      match r.updates env now hasAccess with
      | .error _ => some s
      | .ok u => some { s with tasks := s.tasks.updateFor r.existing.id r.existing.userId u }
  | .failRequest i => if i < s.requests.length then
      some { s with requests := s.requests.eraseIdx i } else none
  | .deleteTask taskId userId => some { s with tasks := s.tasks.deleteFor taskId userId }
  | _ => none

def hookStep (s : SchedulerState) : SchedulerEvent → Option SchedulerState
  | .endRun i status error =>
    match s.live[i]? with
    | none => none
    | some r => if r.ended.isSome then none
      else some { s with live := s.live.set i { r with ended := some (status, error) } }
  | .hookRun i now raises =>
    match s.live[i]? with
    | none => none
    | some r =>
      let s := { s with live := s.live.eraseIdx i }
      match r.ended with
      | none => none
      | some ending =>
        match terminalStatus ending with
        | none => some s
        | some (status, error) =>
          if r.userId = "" || raises then some s
          else some { s with
            runs := s.runs.updateStatus r.taskRunId
              ⟨status, some r.runId, error, none, some now, false⟩
            hooks := s.hooks ++ [⟨r, status, error, .get⟩] }
  | .hookGet i raises =>
    match s.hooks[i]? with
    | none => none
    | some h =>
      match h.pc, s.tasks.getFor h.run.taskId h.run.userId, raises with
      | .get, some task, false => some { s with hooks := s.hooks.set i { h with pc := .update task } }
      | .get, _, _ => some { s with hooks := s.hooks.eraseIdx i }
      | .update _, _, _ => none
  | .hookUpdate i raises =>
    match s.hooks[i]? with
    | none => none
    | some h =>
      match h.pc with
      | .get => none
      | .update task =>
        let s := { s with hooks := s.hooks.eraseIdx i }
        some (if raises then s else
          { s with tasks := s.tasks.updateFor task.id h.run.userId (h.updates task) })
  | _ => none

/-- The process ends; the tables stay. -/
def crash (s : SchedulerState) : SchedulerState :=
  { s with poll := .idle, calls := [], requests := [], live := [], hooks := [], started := false }

/-- `start()`, in which each sweep may raise by itself. -/
def start (s : SchedulerState) (now : Int) (sweepsRuns sweepsTasks : Bool) : SchedulerState :=
  { s with
    runs := if sweepsRuns then s.runs.markStaleActiveRuns restartError now else s.runs
    tasks := if sweepsTasks then s.tasks.cancelStuckOnceTasks restartError else s.tasks
    started := true }

def step (env : ServiceEnv) (s : SchedulerState) (event : SchedulerEvent) : Option SchedulerState :=
  match s.started, event with
  | false, .start now sweepsRuns sweepsTasks => some (s.start now sweepsRuns sweepsTasks)
  | false, _ => none
  | true, .start _ _ _ => none
  | true, .crash => some s.crash
  | true, .dispatch i event =>
    s.calls[i]?.bind fun c => (s.dispatchStep env c event).map fun x => x.2.resume i c x.1
  | true, event =>
    match event with
    | .pollCount _ | .pollClaim | .pollRaises | .pollDispatch _ | .pollEnd => s.pollStep env event
    | .endRun _ _ _ | .hookRun _ _ _ | .hookGet _ _ | .hookUpdate _ _ => s.hookStep event
    | _ => s.requestStep env event

end SchedulerState

def scheduler (env : ServiceEnv) : System SchedulerState SchedulerEvent :=
  System.ofFn .init (SchedulerState.step env)

end DeerFlow.Scheduler
