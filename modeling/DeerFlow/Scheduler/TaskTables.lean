import DeerFlow.Runtime.Value

/-! Scheduled tasks and the rows of their runs, with the repositories over them.
Each method is one transaction. Instants are numbers. -/

namespace DeerFlow.Scheduler

inductive ScheduleType where
  | once
  | cron
  deriving DecidableEq

inductive ContextMode where
  | freshThreadPerRun
  | reuseThread
  deriving DecidableEq

inductive OverlapPolicy where
  | skip
  /-- Any other text in the column. -/
  | other
  deriving DecidableEq

inductive Trigger where
  | scheduled
  | manual
  deriving DecidableEq

inductive TaskStatus where
  | enabled
  | running
  | paused
  | completed
  | failed
  | cancelled
  deriving DecidableEq

/-- `TERMINAL_TASK_STATUSES`. -/
def TaskStatus.isTerminal : TaskStatus → Bool
  | .completed | .failed | .cancelled => true
  | .enabled | .running | .paused => false

structure ScheduledTaskRow where
  id : String
  userId : String
  threadId : Option String
  contextMode : ContextMode
  scheduleType : ScheduleType
  scheduleSpec : Dict Value
  timezone : String
  status : TaskStatus
  overlapPolicy : OverlapPolicy
  nextRunAt : Option Int
  lastRunAt : Option Int
  lastRunId : Option String
  lastThreadId : Option String
  lastError : Option String
  leaseOwner : Option String
  leaseExpiresAt : Option Int
  runCount : Nat

abbrev TaskTable := Table ScheduledTaskRow.id

/-- The columns that `update` is called with; `none` leaves one alone. -/
structure TaskUpdates where
  status : Option TaskStatus
  lastError : Option (Option String)
  contextMode : Option ContextMode
  threadId : Option (Option String)
  scheduleSpec : Option (Dict Value)
  timezone : Option String
  nextRunAt : Option (Option Int)

def TaskUpdates.none : TaskUpdates :=
  ⟨Option.none, Option.none, Option.none, Option.none, Option.none, Option.none, Option.none⟩

def TaskUpdates.apply (u : TaskUpdates) (r : ScheduledTaskRow) : ScheduledTaskRow :=
  { r with
    status := u.status.getD r.status
    lastError := u.lastError.getD r.lastError
    contextMode := u.contextMode.getD r.contextMode
    threadId := u.threadId.getD r.threadId
    scheduleSpec := u.scheduleSpec.getD r.scheduleSpec
    timezone := u.timezone.getD r.timezone
    nextRunAt := u.nextRunAt.getD r.nextRunAt }

/-- The arguments of `update_after_launch`. -/
structure AfterLaunch where
  status : TaskStatus
  nextRunAt : Option Int
  lastRunAt : Option Int
  lastRunId : Option String
  lastThreadId : Option String
  lastError : Option String
  incrementRunCount : Bool
  protectTerminal : Bool

def AfterLaunch.apply (a : AfterLaunch) (r : ScheduledTaskRow) : ScheduledTaskRow :=
  let kept := a.protectTerminal && r.status.isTerminal
  { r with
    status := if kept then r.status else a.status
    lastError := if kept then r.lastError else a.lastError
    nextRunAt := a.nextRunAt
    lastRunAt := a.lastRunAt
    lastRunId := a.lastRunId
    lastThreadId := a.lastThreadId
    runCount := if a.incrementRunCount then r.runCount + 1 else r.runCount
    leaseOwner := none
    leaseExpiresAt := none }

namespace TaskTable

def getFor (t : TaskTable) (taskId userId : String) : Option ScheduledTaskRow :=
  (t.get taskId).filter fun r => r.userId = userId

/-- `ScheduledTaskRepository.update`. -/
def updateFor (t : TaskTable) (taskId userId : String) (u : TaskUpdates) : TaskTable :=
  t.update taskId fun r => if r.userId = userId then u.apply r else r

def deleteFor (t : TaskTable) (taskId userId : String) : TaskTable :=
  match t.getFor taskId userId with
  | none => t
  | some _ => t.erase taskId

/-- The rows `claim_due_tasks` selects: due, and free or held past the lease. -/
def Due (now : Int) (r : ScheduledTaskRow) : Prop :=
  (∃ due ∈ r.nextRunAt, due ≤ now) ∧
    ((r.status = .enabled ∧ ∀ e ∈ r.leaseExpiresAt, e < now) ∨
      (r.status = .running ∧ ∃ e ∈ r.leaseExpiresAt, e < now))

instance (now : Int) (r : ScheduledTaskRow) : Decidable (Due now r) :=
  inferInstanceAs (Decidable (_ ∧ _))

/-- `order_by(next_run_at, id)`. -/
def Before (r r' : ScheduledTaskRow) : Prop :=
  r.nextRunAt.getD 0 < r'.nextRunAt.getD 0 ∨
    (r.nextRunAt.getD 0 = r'.nextRunAt.getD 0 ∧ r.id ≤ r'.id)

instance (r r' : ScheduledTaskRow) : Decidable (Before r r') :=
  inferInstanceAs (Decidable (_ ∨ _))

def claimed (t : TaskTable) (now limit : Int) : List ScheduledTaskRow :=
  ((t.rows.filter fun r => Due now r).insertionSort Before).take limit.toNat

def lease (owner : String) (expiresAt : Int) (r : ScheduledTaskRow) : ScheduledTaskRow :=
  { r with leaseOwner := some owner, leaseExpiresAt := some expiresAt, status := .running }

/-- `claim_due_tasks`: the rows as claimed, and the table. -/
def claimDueTasks (t : TaskTable) (now : Int) (owner : String) (leaseSeconds limit : Int) :
    List ScheduledTaskRow × TaskTable :=
  let rows := t.claimed now limit
  (rows.map (lease owner (now + leaseSeconds)),
    t.mapRows (fun r => if r.id ∈ rows.map ScheduledTaskRow.id then
      lease owner (now + leaseSeconds) r else r) (fun r => by split <;> rfl))

def updateAfterLaunch (t : TaskTable) (taskId : String) (a : AfterLaunch) : TaskTable :=
  t.update taskId (AfterLaunch.apply a)

/-- `cancel_stuck_once_tasks`: a task that holds a lease is left alone. -/
def cancelStuckOnceTasks (t : TaskTable) (error : String) : TaskTable :=
  t.mapRows (fun r =>
    if r.scheduleType = .once ∧ r.status = .running ∧ r.leaseExpiresAt = none then
      { r with status := .cancelled, lastError := some error }
    else r) (fun r => by split <;> rfl)

end TaskTable

inductive TaskRunStatus where
  | queued
  | running
  | success
  | failed
  | skipped
  | interrupted
  deriving DecidableEq

/-- `ACTIVE_RUN_STATUSES`; the others are terminal. -/
def TaskRunStatus.isActive : TaskRunStatus → Bool
  | .queued | .running => true
  | .success | .failed | .skipped | .interrupted => false

structure ScheduledTaskRunRow where
  id : String
  taskId : String
  threadId : String
  runId : Option String
  scheduledFor : Int
  trigger : Trigger
  status : TaskRunStatus
  error : Option String
  startedAt : Option Int
  finishedAt : Option Int

abbrev TaskRunTable := Table ScheduledTaskRunRow.id

/-- The arguments of `ScheduledTaskRunRepository.update_status`. -/
structure RunUpdate where
  status : TaskRunStatus
  runId : Option String
  error : Option String
  startedAt : Option Int
  finishedAt : Option Int
  protectTerminal : Bool

/-- A terminal row that is protected only has its bookkeeping filled in. -/
def RunUpdate.apply (u : RunUpdate) (r : ScheduledTaskRunRow) : ScheduledTaskRunRow :=
  if u.protectTerminal && !r.status.isActive then
    { r with runId := r.runId.or u.runId, startedAt := r.startedAt.or u.startedAt }
  else
    { r with
      status := u.status
      runId := u.runId
      error := u.error
      startedAt := u.startedAt.or r.startedAt
      finishedAt := u.finishedAt.or r.finishedAt }

namespace TaskRunTable

def countActiveRuns (t : TaskRunTable) : Int := (t.rows.filter fun r => r.status.isActive).length

def hasActiveRuns (t : TaskRunTable) (taskId : String) : Bool :=
  t.rows.any fun r => r.taskId = taskId && r.status.isActive

def updateStatus (t : TaskRunTable) (id : String) (u : RunUpdate) : TaskRunTable := t.update id u.apply

def markStaleActiveRuns (t : TaskRunTable) (error : String) (now : Int) : TaskRunTable :=
  t.mapRows (fun r => if r.status.isActive then
      { r with status := .interrupted, error := some error, finishedAt := some now }
    else r) (fun r => by split <;> rfl)

end TaskRunTable

end DeerFlow.Scheduler
