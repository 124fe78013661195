import DeerFlow.Scheduler.TaskOrigins

/-! No cron task is stranded: one that is `running` can be claimed again once its
lease has run out. A manual dispatch breaks this when it fails and writes back the
`running` that it has read. -/

namespace DeerFlow.Scheduler
open Transition DeerFlow.Runtime

section Stranding

namespace SchedulerState

/-- A task that will be run again, or that a dispatch still answers for. -/
def Served (s : SchedulerState) (r : ScheduledTaskRow) : Prop :=
  r.status = .enabled ∨ r.leaseExpiresAt.isSome = true ∨ ∃ c ∈ s.calls, c.task.id = r.id

def NoneStranded (s : SchedulerState) : Prop :=
  ∀ r ∈ s.tasks.rows, r.scheduleType = .cron → r.status ≠ .paused → r.status.isTerminal = false →
    s.Served r

/-- A manual dispatch has failed, and the task it has read was `running` then. -/
def WritesBackRunning (s : SchedulerState) (c : DispatchCall) : Prop :=
  match c.pc with
  | .failTask _ _ => c.trigger = .manual ∧ c.task.scheduleType = .cron ∧
      c.task.status = .running ∧ (s.tasks.get c.task.id).isSome = true
  | _ => False

/-- The step in which such a dispatch updates the task. -/
def Strands (s : SchedulerState) : SchedulerEvent → Prop
  | .dispatch i (.succeeds _) => ∃ c ∈ s.calls[i]?, s.WritesBackRunning c
  | _ => False

instance (s : SchedulerState) : Decidable s.NoneStranded := by
  unfold NoneStranded Served
  infer_instance

instance (s : SchedulerState) (c : DispatchCall) : Decidable (s.WritesBackRunning c) := by
  unfold WritesBackRunning
  split <;> infer_instance

instance (s : SchedulerState) (event : SchedulerEvent) : Decidable (s.Strands event) := by
  unfold Strands
  split <;> infer_instance

end SchedulerState

end Stranding

section Leases

/-- `claim_due_tasks` finds a cron task that is `running` by its lease. -/
def ScheduledTaskRow.Leased (r : ScheduledTaskRow) : Prop :=
  r.scheduleType = .cron → r.status = .running → r.leaseExpiresAt.isSome = true

structure SchedulerState.Leased (s : SchedulerState) : Prop where
  tasks : ∀ r ∈ s.tasks.rows, r.Leased
  calls : ∀ c ∈ s.calls, c.Planned

theorem leased_updates {u : TaskUpdates} {r : ScheduledTaskRow} (hu : u.status ≠ some .running)
    (h : r.Leased) : (u.apply r).Leased := by
  intro htype hstatus
  apply h htype
  have hget : u.status.getD r.status = .running := hstatus
  rcases hstatus : u.status with _ | status
  · rwa [hstatus] at hget
  · rw [hstatus] at hget
    exact absurd (hstatus.trans (congrArg some hget)) hu

theorem leased_afterLaunch {a : AfterLaunch} {r : ScheduledTaskRow}
    (ha : r.scheduleType = .cron → a.status ≠ .running) : (a.apply r).Leased := by
  intro htype hstatus
  have hget : (if (a.protectTerminal && r.status.isTerminal) = true then r.status
      else a.status) = .running := hstatus
  split_ifs at hget with hkept
  · rw [hget] at hkept
    simp [TaskStatus.isTerminal] at hkept
  · exact absurd hget (ha htype)

variable {env : ServiceEnv} {s t : SchedulerState} {c : DispatchCall}

theorem DispatchCall.cron_launch {task : ScheduledTaskRow} (h : task.scheduleType = .cron)
    (trigger : Trigger) : DispatchCall.taskStatusForLaunch task trigger ≠ .running := by
  unfold DispatchCall.taskStatusForLaunch
  rw [h]
  simp only
  split_ifs <;> simp

theorem DispatchCall.cron_skip {task : ScheduledTaskRow} (h : task.scheduleType = .cron) :
    DispatchCall.taskStatusForSkip task ≠ .running := by
  unfold DispatchCall.taskStatusForSkip
  rw [h]
  simp

theorem DispatchCall.cron_failure {task : ScheduledTaskRow} {trigger : Trigger}
    (h : task.scheduleType = .cron) (hread : trigger = .manual → task.status ≠ .running) :
    DispatchCall.taskStatusForFailure task trigger ≠ .running := by
  unfold DispatchCall.taskStatusForFailure
  cases trigger with
  | manual => exact hread rfl
  | scheduled =>
    rw [h]
    simp

/-- A dispatch leaves a cron task out of `running`, unless it writes it back. -/
theorem DispatchCall.Ends.status {event : DispatchEvent} {a : AfterLaunch} (h : c.Ends event a)
    (htype : c.task.scheduleType = .cron) (hplanned : c.Planned)
    (hexists : (s.tasks.get c.task.id).isSome = true) (hsafe : ¬ s.WritesBackRunning c) :
    a.status ≠ .running := by
  cases h with
  | skipped => exact DispatchCall.cron_skip htype
  | @launched uuid id l hpc =>
    change l.taskStatus ≠ .running
    rw [hplanned l (by rw [hpc]; rfl)]
    exact DispatchCall.cron_launch htype _
  | failed hpc =>
    refine DispatchCall.cron_failure htype fun hmanual hrunning => hsafe ?_
    unfold SchedulerState.WritesBackRunning
    rw [hpc]
    exact ⟨hmanual, htype, hrunning, hexists⟩

theorem leased_row {event : SchedulerEvent} {r : ScheduledTaskRow} (h : RowOrigin env s t event r)
    (hp : s.Provenance) (hl : s.Leased) (hsafe : ¬ s.Strands event) : r.Leased := by
  cases h with
  | kept hr => exact hl.tasks r hr
  | created _ _ hrow | cancelled _ _ hrow =>
    rw [hrow]
    intro _ hrunning
    cases hrunning
  | requested _ _ hu hx _ hrow =>
    rw [hrow]
    exact leased_updates (TaskRequest.updates_status hu) (hl.tasks _ hx)
  | hooked _ _ _ hx _ _ hrow =>
    rw [hrow]
    exact leased_updates (CompletionHook.updates_status _ _) (hl.tasks _ hx)
  | leased _ _ hrow =>
    rw [hrow]
    exact fun _ _ => rfl
  | @dispatched i e c a x hevent hcall hends hx hid hrow =>
    have hc := List.mem_of_getElem? hcall
    have hexists : (s.tasks.get c.task.id).isSome = true := by
      rw [← hid, Table.mem_rows.mp hx]
      rfl
    rw [hrow]
    apply leased_afterLaunch
    intro hcron
    -- the snapshot is of the same task, so its schedule is of the same type
    have htype : c.task.scheduleType = .cron :=
      (hp.scheduleType (hp.calls c hc) (hp.tasks x hx) hid.symm).trans hcron
    refine hends.status htype (hl.calls c hc) hexists fun hwrites => hsafe ?_
    rw [hevent]
    cases hends with
    | skipped | launched | failed => exact ⟨c, hcall, hwrites⟩

theorem leased_step {event : SchedulerEvent} (h : SchedulerStep env s event t)
    (hp : s.Provenance) (hl : s.Leased) (hsafe : ¬ s.Strands event) : t.Leased := by
  exact ⟨fun r hr => leased_row (row_origin h hr) hp hl hsafe, planned_step h hl.calls⟩

theorem leased_init : SchedulerState.Leased .init :=
  ⟨fun r hr => (by cases hr), fun c hc => (by cases hc)⟩

end Leases

section Results
variable {env : ServiceEnv} {s : SchedulerState}

theorem noneStranded_of_leased (h : s.Leased) : s.NoneStranded := by
  intro r hr htype hpaused hterminal
  cases hstatus : r.status with
  | enabled => exact .inl hstatus
  | running => exact .inr (.inl (h.tasks r hr htype hstatus))
  | paused => exact absurd hstatus hpaused
  | completed | failed | cancelled =>
    rw [hstatus] at hterminal
    cases hterminal

/-- While no manual dispatch writes back a `running` that it has read, no task is stranded. -/
theorem no_task_stranded
    (h : Reachable ((scheduler env).when fun s event => ¬ s.Strands event) s) :
    s.NoneStranded := by
  apply noneStranded_of_leased
  refine h.invariant ?_ fun s event t hs hl hstep => ?_
  · rintro s rfl
    exact leased_init
  · exact leased_step (scheduler_cases hstep.2) (provenance_of_reachable hs.of_when) hl hstep.1

/-- However old the row is that a dispatch has read, it has the schedule type and the overlap policy
of its task, and the dispatch writes the status it planned when its run was launched. -/
theorem dispatches_of_created_tasks (h : Reachable (scheduler env) s) :
    ∀ c ∈ s.calls, (∃ task ∈ s.created, c.task.IsOf task) ∧
      (∀ r ∈ s.tasks.rows, r.id = c.task.id →
        r.scheduleType = c.task.scheduleType ∧ r.overlapPolicy = c.task.overlapPolicy) ∧
      ∀ l ∈ c.pc.launched?, l.taskStatus = DispatchCall.taskStatusForLaunch c.task c.trigger := by
  intro c hc
  have hprovenance := provenance_of_reachable h
  obtain ⟨task, htask, hof⟩ := hprovenance.calls c hc
  refine ⟨⟨task, htask, hof⟩, fun r hr hid => ⟨?_, ?_⟩, planned_of_reachable h c hc⟩
  · exact hprovenance.scheduleType (hprovenance.tasks r hr) ⟨task, htask, hof⟩ hid
  · obtain ⟨task', -, hof'⟩ := hprovenance.tasks r hr
    rw [hof'.overlapPolicy, hof.overlapPolicy]

namespace LeaseRun

def trigger : SchedulerEvent := .trigger "task-0" "user" 3601 "b"

/-- A task is claimed and triggered by hand, in some order. Neither dispatch has created its
run when the other looks for one; the scheduled one launches its run, and the manual one fails. -/
def overlapping (events : List SchedulerEvent) : List SchedulerEvent :=
  [.start 0 true true, .createTask (.hourly .reuseThread), .pollCount 3600] ++ events ++
    [.pollDispatch "a", .dispatch 0 (.succeeds ""), .dispatch 1 (.succeeds ""),
      .dispatch 1 (.succeeds "s"), .dispatch 0 (.succeeds "m"), .dispatch 1 (.launches "run-1"),
      .dispatch 0 (.launchRaises "Thread thread already has an active run" true),
      .dispatch 1 (.succeeds ""), .dispatch 1 (.succeeds ""),
      .dispatch 0 (.succeeds ""), .dispatch 0 (.succeeds "")]

def triggerFirst : List (SchedulerState → SchedulerEvent) :=
  (overlapping [trigger, .pollClaim]).map fun event _ => event

def claimFirst : List (SchedulerState → SchedulerEvent) :=
  (overlapping [.pollClaim, trigger]).map fun event _ => event

end LeaseRun

theorem none_stranded_by_trigger_before_claim :
    ∃ s, Reachable ((scheduler .hourly).when fun s event => ¬ s.Strands event) s ∧
      (s.tasks.rows.map ScheduledTaskRow.status = [.enabled] ∧ s.calls.length = 0) ∧
        s.NoneStranded := by
  have hrun : (runScript (guarded (fun s event => ¬ SchedulerState.Strands s event)
      (SchedulerState.step .hourly)) .init LeaseRun.triggerFirst).any (fun s =>
        decide (s.tasks.rows.map ScheduledTaskRow.status = [.enabled] ∧ s.calls.length = 0)) =
      true := by
    decide +kernel
  obtain ⟨s, hs, h⟩ := exists_reachable_of_decide _ hrun
  exact ⟨s, when_of_guarded hs, h, no_task_stranded (when_of_guarded hs)⟩

/-- The scheduled dispatch has launched its run, and the manual one is about to. -/
theorem dispatches_of_created_tasks_launched :
    ∃ s, Reachable (scheduler .hourly) s ∧
      (s.tasks.rows.map (fun r => (r.id, r.scheduleType)) = [("task-0", .cron)] ∧
        s.calls.map (fun c => (c.task.id, c.pc.launched?.map Launched.taskStatus)) =
          [("task-0", none), ("task-0", some .enabled)]) ∧
      ∀ c ∈ s.calls, (∃ task ∈ s.created, c.task.IsOf task) ∧
        (∀ r ∈ s.tasks.rows, r.id = c.task.id →
          r.scheduleType = c.task.scheduleType ∧ r.overlapPolicy = c.task.overlapPolicy) ∧
        ∀ l ∈ c.pc.launched?, l.taskStatus = DispatchCall.taskStatusForLaunch c.task c.trigger := by
  have hrun : (runScript (SchedulerState.step .hourly) .init (LeaseRun.claimFirst.take 11)).any
      (fun s => decide (s.tasks.rows.map (fun r => (r.id, r.scheduleType)) = [("task-0", .cron)] ∧
        s.calls.map (fun c => (c.task.id, c.pc.launched?.map Launched.taskStatus)) =
          [("task-0", none), ("task-0", some .enabled)])) = true := by
    decide +kernel
  obtain ⟨s, hs, h⟩ := exists_reachable_of_decide _ hrun
  exact ⟨s, hs, h, dispatches_of_created_tasks hs⟩

/-- A task triggered after it was claimed stays `running`, without a lease. -/
theorem task_stranded_by_trigger_after_claim :
    ∃ s, Reachable (scheduler .hourly) s ∧ s.calls.length = 0 ∧ ¬ s.NoneStranded := by
  have hrun : (runScript (SchedulerState.step .hourly) .init LeaseRun.claimFirst).any (fun s =>
      decide (s.calls.length = 0 ∧ ¬ s.NoneStranded)) = true := by
    decide +kernel
  obtain ⟨s, hs, h⟩ := exists_reachable_of_decide _ hrun
  exact ⟨s, hs, h⟩

end Results

end DeerFlow.Scheduler
