import DeerFlow.Scheduler.TaskOrigins

/-! A pause that was accepted is kept: the task stays `paused`, and is not claimed, until a
resume or a change of its schedule is accepted. A write that was decided from an older
snapshot of the task breaks this. -/

namespace DeerFlow.Scheduler
open Transition DeerFlow.Runtime

section Pauses

/-- The dispatch ends with a status that is not `paused`. One triggered by hand keeps the
status of a cron task that it has read as paused. -/
def DispatchCall.OverwritesPause (c : DispatchCall) : Prop :=
  match c.pc with
  | .skipTask _ _ _ => True
  | .afterLaunch _ _ =>
    ¬ (c.trigger = .manual ∧ c.task.scheduleType = .cron ∧ c.task.status = .paused)
  | .failTask _ _ => ¬ (c.trigger = .manual ∧ c.task.status = .paused)
  | .check | .create _ | .skipRun _ _ _ | .launch _ | .markRunning _ _ | .failRun _ _ => False

/-- The run of a `once` task has completed, and its task with it. -/
def CompletionHook.Completes (h : CompletionHook) (taskId : String) : Prop :=
  match h.pc with
  | .get => False
  | .update task => task.id = taskId ∧ task.scheduleType = .once

def TaskChange.Reschedules : TaskChange → Prop
  | .pause => False
  | .resume => True
  | .patch body => body.scheduleSpec.isSome = true ∨ body.timezone.isSome = true

namespace SchedulerState

def PauseKept (s : SchedulerState) (taskId : String) : Prop :=
  ∀ r ∈ s.tasks.rows, r.id = taskId →
    r.status = .paused ∧ ∀ now limit, r ∉ s.tasks.claimed now limit

/-- The step in which `pause_scheduled_task` updates the task, and succeeds. -/
def AcceptsPause (s : SchedulerState) (taskId : String) : SchedulerEvent → Prop
  | .writeTask i _ _ => ∃ r ∈ s.requests[i]?, r.change = .pause ∧ r.existing.id = taskId ∧
      (s.tasks.getFor taskId r.existing.userId).isSome = true
  | _ => False

/-- A resume, or a patch of the schedule, is accepted. -/
def AcceptsSchedule (env : ServiceEnv) (s : SchedulerState) (taskId : String) :
    SchedulerEvent → Prop
  | .writeTask i now hasAccess => ∃ r ∈ s.requests[i]?, r.existing.id = taskId ∧
      r.change.Reschedules ∧ (r.updates env now hasAccess).isOk = true
  | _ => False

/-- A dispatch, or the completion hook of a `once` task, writes another status. -/
def LosesPause (s : SchedulerState) (taskId : String) : SchedulerEvent → Prop
  | .dispatch i (.succeeds _) => ∃ c ∈ s.calls[i]?, c.task.id = taskId ∧ c.OverwritesPause ∧
      (s.tasks.get taskId).isSome = true
  | .hookUpdate i false => ∃ h ∈ s.hooks[i]?, h.Completes taskId ∧
      (s.tasks.getFor taskId h.run.userId).isSome = true
  | _ => False

/-- The steps after which a pause of the task is still to hold. -/
def KeepsPause (env : ServiceEnv) (taskId : String) (s : SchedulerState) (event : SchedulerEvent) :
    Prop := ¬ s.LosesPause taskId event ∧ ¬ s.AcceptsSchedule env taskId event

end SchedulerState

instance (c : DispatchCall) : Decidable c.OverwritesPause := by
  unfold DispatchCall.OverwritesPause
  rcases c.pc with _ | _ <;> infer_instance

instance (h : CompletionHook) (taskId : String) : Decidable (h.Completes taskId) := by
  unfold CompletionHook.Completes
  split <;> infer_instance

instance (change : TaskChange) : Decidable change.Reschedules := by
  unfold TaskChange.Reschedules
  split <;> infer_instance

instance (env : ServiceEnv) (s : SchedulerState) (taskId : String) (event : SchedulerEvent) :
    Decidable (s.AcceptsSchedule env taskId event) := by
  unfold SchedulerState.AcceptsSchedule
  rcases event with _ | _ <;> infer_instance

instance (env : ServiceEnv) (s : SchedulerState) (taskId : String) (event : SchedulerEvent) :
    Decidable (s.KeepsPause env taskId event) := by
  unfold SchedulerState.KeepsPause SchedulerState.LosesPause
  rcases event with _ | _ | _ | _ | _ | _ | _ | _ | _ | _ | _ | ⟨_, _ | _⟩ | _ | _ | _ |
    ⟨_, _ | _⟩ | _ <;> infer_instance

instance (change : TaskChange) : Decidable (change = .pause) :=
  match change with
  | .pause => isTrue rfl
  | .resume => isFalse nofun
  | .patch _ => isFalse nofun

instance (s : SchedulerState) (taskId : String) (event : SchedulerEvent) :
    Decidable (s.AcceptsPause taskId event) := by
  unfold SchedulerState.AcceptsPause
  rcases event with _ | _ <;> infer_instance

end Pauses

section Kept
variable {env : ServiceEnv} {s t : SchedulerState} {taskId : String}

theorem patchUpdates_unscheduled {body : TaskPatch} {existing : ScheduledTaskRow} {now : Int}
    {hasAccess : Bool} {u : TaskUpdates} (hspec : body.scheduleSpec = none)
    (hzone : body.timezone = none) (h : patchUpdates env body existing now hasAccess = .ok u) :
    u.status = none := by
  obtain ⟨v, hv, h⟩ := bind_eq_ok.mp h
  rw [hspec, hzone] at h
  obtain rfl : v = u := Except.ok.inj h
  exact patchThread_status hv

theorem paused_updates {q : TaskRequest} {now : Int} {hasAccess : Bool} {u : TaskUpdates}
    {x : ScheduledTaskRow} (hchange : ¬ q.change.Reschedules)
    (hu : q.updates env now hasAccess = .ok u) (hpaused : x.status = .paused) :
    (u.apply x).status = .paused := by
  obtain ⟨change, existing⟩ := q
  cases change with
  | pause =>
    cases hu
    rfl
  | resume => exact absurd trivial hchange
  | patch body =>
    have hspec : body.scheduleSpec = none := by
      by_contra hne
      exact hchange (.inl (Option.isSome_iff_ne_none.mpr hne))
    have hzone : body.timezone = none := by
      by_contra hne
      exact hchange (.inr (Option.isSome_iff_ne_none.mpr hne))
    have hstatus := patchUpdates_unscheduled hspec hzone hu
    change u.status.getD x.status = .paused
    rw [hstatus]
    exact hpaused

/-- A dispatch that does not overwrite a pause writes the `paused` that it has read. -/
theorem paused_afterLaunch {c : DispatchCall} {event : DispatchEvent} {a : AfterLaunch}
    {x : ScheduledTaskRow} (h : c.Ends event a) (hplanned : c.Planned)
    (hkeeps : ¬ c.OverwritesPause) (hpaused : x.status = .paused) :
    (a.apply x).status = .paused := by
  -- `paused` is not terminal, so nothing protects the row from this write
  have hunkept : ∀ {b : Bool}, (b && x.status.isTerminal) = false := by
    intro b
    rw [hpaused]
    exact Bool.and_false b
  have hstatus : (a.apply x).status = a.status := by
    change (if (a.protectTerminal && x.status.isTerminal) = true then x.status else a.status) = _
    rw [hunkept, if_neg Bool.false_ne_true]
  rw [hstatus]
  unfold DispatchCall.OverwritesPause at hkeeps
  cases h with
  | skipped hpc =>
    rw [hpc] at hkeeps
    exact absurd trivial hkeeps
  | @launched uuid id l hpc =>
    rw [hpc] at hkeeps
    obtain ⟨hmanual, hcron, hread⟩ := not_not.mp hkeeps
    change l.taskStatus = .paused
    rw [hplanned l (by rw [hpc]; rfl), DispatchCall.taskStatusForLaunch, hcron]
    exact if_pos ⟨hmanual, hread⟩
  | failed hpc =>
    rw [hpc] at hkeeps
    obtain ⟨hmanual, hread⟩ := not_not.mp hkeeps
    change DispatchCall.taskStatusForFailure c.task c.trigger = .paused
    rw [hmanual]
    exact hread

structure SchedulerState.Paused (s : SchedulerState) (taskId : String) : Prop where
  created : taskId ∈ s.created.map NewTask.id
  rows : ∀ r ∈ s.tasks.rows, r.id = taskId → r.status = .paused

theorem paused_row {event : SchedulerEvent} {r : ScheduledTaskRow}
    (h : RowOrigin env s t event r) (hplanned : ∀ c ∈ s.calls, c.Planned)
    (hp : s.Paused taskId) (hkeeps : s.KeepsPause env taskId event) (hid : r.id = taskId) :
    r.status = .paused := by
  obtain ⟨hkept, hunscheduled⟩ := hkeeps
  cases h with
  | kept hr => exact hp.rows r hr hid
  | @created task hnew _ hrow =>
    rw [hrow] at hid
    -- identifiers are never made twice
    have hsame : task.id = taskId := hid
    exact absurd (hsame ▸ hp.created) hnew
  | @requested i now hasAccess q u x hevent hrequest hu hx hrequested hrow =>
    rw [hrow] at hid ⊢
    have hpaused := hp.rows x hx hid
    refine paused_updates (fun hchange => hunscheduled ?_) hu hpaused
    rw [hevent]
    exact ⟨q, hrequest, hrequested.symm.trans hid, hchange, by rw [hu]; rfl⟩
  | @hooked i hook task x hevent hhook hpc hx htask huser hrow =>
    rw [hrow] at hid ⊢
    have hpaused := hp.rows x hx hid
    -- the hook of a `cron` task leaves the status alone
    have hcron : task.scheduleType = .cron := by
      cases htype : task.scheduleType with
      | cron => rfl
      | once =>
        refine absurd ?_ hkept
        rw [hevent]
        refine ⟨hook, hhook, ?_, ?_⟩
        · unfold CompletionHook.Completes
          rw [hpc]
          exact ⟨htask.symm.trans hid, htype⟩
        · have hget : s.tasks.get taskId = some x := hid ▸ Table.mem_rows.mp hx
          unfold TaskTable.getFor
          rw [hget, Option.filter_some, if_pos (decide_eq_true huser)]
          rfl
    change ((hook.updates task).status).getD x.status = .paused
    unfold CompletionHook.updates
    rw [hcron]
    exact hpaused
  | leased hx hdue hrow =>
    rw [hrow] at hid
    -- a paused row is not claimed
    have hpaused := hp.rows _ hx hid
    rcases hdue.2 with ⟨hfree, -⟩ | ⟨hstuck, -⟩
    · rw [hpaused] at hfree
      cases hfree
    · rw [hpaused] at hstuck
      cases hstuck
  | @dispatched i e c a x hevent hcall hends hx htask hrow =>
    rw [hrow] at hid ⊢
    have hpaused := hp.rows x hx hid
    refine paused_afterLaunch hends (hplanned c (List.mem_of_getElem? hcall)) (fun hover => ?_)
      hpaused
    have hget : (s.tasks.get taskId).isSome = true := by
      rw [← show x.id = taskId from hid, Table.mem_rows.mp hx]
      rfl
    refine hkept ?_
    rw [hevent]
    cases hends with
    | skipped | launched | failed => exact ⟨c, hcall, htask.symm.trans hid, hover, hget⟩
  | cancelled hx hrunning hrow =>
    rw [hrow] at hid
    have hpaused := hp.rows _ hx hid
    rw [hrunning] at hpaused
    cases hpaused

theorem paused_step {event : SchedulerEvent} (h : SchedulerStep env s event t)
    (hplanned : ∀ c ∈ s.calls, c.Planned) (hp : s.Paused taskId)
    (hkeeps : s.KeepsPause env taskId event) : t.Paused taskId := by
  refine ⟨?_, fun r hr hid => paused_row (row_origin h hr) hplanned hp hkeeps hid⟩
  rcases created_step h with hsame | ⟨task, -, -, hmore⟩
  · rw [hsame]
    exact hp.created
  · rw [hmore, List.map_append]
    exact List.mem_append_left _ hp.created

theorem TaskTable.get_updateFor (tasks : TaskTable) (id userId : String) (u : TaskUpdates) :
    (tasks.updateFor id userId u).get id =
      (tasks.get id).map fun r => if r.userId = userId then u.apply r else r := by
  unfold updateFor
  rw [Table.get_update (fun r => by split <;> rfl), if_pos rfl]

theorem write_pause {i : Nat} {now : Int} {hasAccess : Bool} {q : TaskRequest}
    (h : (scheduler env).step s (.writeTask i now hasAccess) t) (hrequest : s.requests[i]? = some q)
    (hpause : q.change = .pause) :
    t = { s with
      requests := s.requests.eraseIdx i
      tasks := s.tasks.updateFor q.existing.id q.existing.userId
        { TaskUpdates.none with status := some .paused } } := by
  change SchedulerState.step env s _ = some t at h
  cases hstarted : s.started with
  | false => simp [SchedulerState.step, hstarted] at h
  | true =>
    simp only [SchedulerState.step, hstarted, SchedulerState.requestStep, hrequest,
      TaskRequest.updates, hpause] at h
    exact (Option.some.inj h).symm

theorem paused_accept {event : SchedulerEvent} (h : (scheduler env).step s event t)
    (hp : s.Provenance) (haccept : s.AcceptsPause taskId event) : t.Paused taskId := by
  unfold SchedulerState.AcceptsPause at haccept
  split at haccept
  · next i now hasAccess =>
    obtain ⟨q, hrequest, hpause, hid, hfound⟩ := haccept
    obtain ⟨x, hget⟩ := Option.isSome_iff_exists.mp hfound
    obtain ⟨hget, huser⟩ := Option.filter_eq_some_iff.mp hget
    rw [write_pause h hrequest hpause, hid]
    refine ⟨?_, fun r hr hrow => ?_⟩
    · obtain ⟨task, htask, hof⟩ := hp.tasks x (Table.mem_of_get hget)
      have hname : task.id = taskId := hof.id.symm.trans (Table.key_of_get hget)
      exact List.mem_map.mpr ⟨task, htask, hname⟩
    · have hrow' : (s.tasks.updateFor taskId q.existing.userId
          { TaskUpdates.none with status := some .paused }).get r.id = some r :=
        Table.mem_rows.mp hr
      rw [hrow, TaskTable.get_updateFor, hget, Option.map_some, if_pos (of_decide_eq_true huser)] at hrow'
      cases hrow'
      rfl
  · cases haccept

theorem pauseKept_of_paused (hp : s.Paused taskId) : s.PauseKept taskId := by
  intro r hr hid
  have hpaused := hp.rows r hr hid
  refine ⟨hpaused, fun now limit hclaimed => ?_⟩
  rcases (TaskTable.mem_claimed hclaimed).2.2 with ⟨hfree, -⟩ | ⟨hstuck, -⟩
  · rw [hpaused] at hfree
    cases hfree
  · rw [hpaused] at hstuck
    cases hstuck

end Kept

section Results
variable {env : ServiceEnv} {s t u : SchedulerState} {taskId : String}

namespace PauseRun

def pause : SchedulerEvent := .writeTask 0 0 true

/-- The task is read for a pause, and some events follow. -/
def read (events : List SchedulerEvent) : List (SchedulerState → SchedulerEvent) :=
  (.start 0 true true :: .createTask (.hourly .freshThreadPerRun) ::
    .readTask .pause "task-0" "user" :: events).map fun event _ => event

def claimed : List (SchedulerState → SchedulerEvent) :=
  read [.pollCount 3600, .pollClaim, .pollDispatch "a"]

def launched : List SchedulerEvent :=
  [.dispatch 0 (.succeeds ""), .dispatch 0 (.succeeds "0"), .dispatch 0 (.launches "run-0"),
    .dispatch 0 (.succeeds ""), .dispatch 0 (.succeeds "")]

def triggered : List (SchedulerState → SchedulerEvent) :=
  (.trigger "task-0" "user" 9 "b" :: launched).map fun event _ => event

end PauseRun

end Results

end DeerFlow.Scheduler
