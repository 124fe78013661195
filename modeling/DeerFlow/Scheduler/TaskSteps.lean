import DeerFlow.Scheduler.TaskService

/-! What one step of the scheduler can do: the steps of a dispatch, each with what it
found at its await, and those of everything around it. -/

namespace DeerFlow.Scheduler
open Transition DeerFlow.Runtime

section Steps

/-- The awaits inside the `try` of a dispatch. -/
def DispatchPc.launching : DispatchPc → Bool
  | .launch _ | .markRunning _ _ | .afterLaunch _ _ => true
  | .check | .create _ | .skipRun _ _ _ | .skipTask _ _ _ | .failRun _ _ | .failTask _ _ => false

/-- The steps of a dispatch, each with what it found at its await. -/
inductive DispatchStep (env : ServiceEnv) (s : SchedulerState) (c : DispatchCall) :
    DispatchEvent → DispatchNext → SchedulerState → Prop
  | conflict {uuid : String} {result : DispatchResult} (hpc : c.pc = .check)
      (hactive : s.runs.hasActiveRuns c.task.id = true) (htrigger : c.trigger = .manual) :
      DispatchStep env s c (.succeeds uuid) (.returns result) s
  | skip {uuid error : String} (hpc : c.pc = .check)
      (hactive : s.runs.hasActiveRuns c.task.id = true) (htrigger : c.trigger = .scheduled) :
      DispatchStep env s c (.succeeds uuid) (.goOn (.create (some error))) s
  | free {uuid : String} (hpc : c.pc = .check)
      (hfree : s.runs.hasActiveRuns c.task.id = false) :
      DispatchStep env s c (.succeeds uuid) (.goOn (.create none)) s
  | create {uuid : String} (hpc : c.pc = .create none)
      (hnew : s.runs.get ("task-run-" ++ uuid) = none) :
      DispatchStep env s c (.succeeds uuid) (.goOn (.launch ("task-run-" ++ uuid)))
        { s with runs := s.runs.put (c.newRun ("task-run-" ++ uuid)) }
  | createSkipped {uuid error : String} (hpc : c.pc = .create (some error))
      (hnew : s.runs.get ("task-run-" ++ uuid) = none) :
      DispatchStep env s c (.succeeds uuid) (c.finalizeSkip env ("task-run-" ++ uuid) error)
        { s with runs := s.runs.put (c.newRun ("task-run-" ++ uuid)) }
  | unrefreshed {uuid : String} {skipError : Option String} (hpc : c.pc = .create skipError)
      (hnew : s.runs.get ("task-run-" ++ uuid) = none) :
      DispatchStep env s c (.refreshRaises uuid) .raises
        { s with runs := s.runs.put (c.newRun ("task-run-" ++ uuid)) }
  | skipRun {uuid id error : String} {nextAt : Option Int} (hpc : c.pc = .skipRun id error nextAt) :
      DispatchStep env s c (.succeeds uuid) (.goOn (.skipTask id error nextAt))
        { s with runs := s.runs.updateStatus id (c.skipUpdate error) }
  | skipTask {uuid id error : String} {nextAt : Option Int} {result : DispatchResult}
      (hpc : c.pc = .skipTask id error nextAt) :
      DispatchStep env s c (.succeeds uuid) (.returns result)
        { s with tasks := s.tasks.updateAfterLaunch c.task.id (c.skipAfterLaunch error nextAt) }
  | launch {runId id : String} {nextAt : Option Int} (hpc : c.pc = .launch id)
      (hfree : s.threadBusy c.threadId = false) :
      DispatchStep env s c (.launches runId)
        (.goOn (.markRunning id ⟨runId, nextAt, DispatchCall.taskStatusForLaunch c.task c.trigger⟩))
        { s with live := s.live ++ [⟨runId, c.threadId, c.task.userId, c.task.id, id, none⟩] }
  | launchUnplanned {runId id error : String} (hpc : c.pc = .launch id)
      (hfree : s.threadBusy c.threadId = false) :
      DispatchStep env s c (.launches runId) (c.launchFailed env id error false)
        { s with live := s.live ++ [⟨runId, c.threadId, c.task.userId, c.task.id, id, none⟩] }
  | launchRaises {id error : String} {overlap : Bool} (hpc : c.pc = .launch id) :
      DispatchStep env s c (.launchRaises error overlap) (c.launchFailed env id error overlap) s
  | markRunning {uuid id : String} {l : Launched} (hpc : c.pc = .markRunning id l) :
      DispatchStep env s c (.succeeds uuid) (.goOn (.afterLaunch id l))
        { s with runs := s.runs.updateStatus id (c.launchUpdate l) }
  | afterLaunch {uuid id : String} {l : Launched} {result : DispatchResult}
      (hpc : c.pc = .afterLaunch id l) :
      DispatchStep env s c (.succeeds uuid) (.returns result)
        { s with tasks := s.tasks.updateAfterLaunch c.task.id (c.launchAfterLaunch l) }
  | unrecorded {id error : String} {l : Launched}
      (hpc : c.pc = .markRunning id l ∨ c.pc = .afterLaunch id l) :
      DispatchStep env s c (.raises error) (c.launchFailed env id error false) s
  | failRun {uuid id : String} {f : Failure} (hpc : c.pc = .failRun id f) :
      DispatchStep env s c (.succeeds uuid) (.goOn (.failTask id f))
        { s with runs := s.runs.updateStatus id (c.failUpdate f) }
  | failTask {uuid id : String} {f : Failure} {result : DispatchResult}
      (hpc : c.pc = .failTask id f) :
      DispatchStep env s c (.succeeds uuid) (.returns result)
        { s with tasks := s.tasks.updateAfterLaunch c.task.id (c.failAfterLaunch f) }
  | raises {error : String} (hpc : c.pc.launching = false) :
      DispatchStep env s c (.raises error) .raises s
  | cancelled : DispatchStep env s c .cancelled .cancelled s

variable {env : ServiceEnv} {s t : SchedulerState} {c : DispatchCall}

theorem dispatch_cases {event : DispatchEvent} {next : DispatchNext}
    (h : s.dispatchStep env c event = some (next, t)) : DispatchStep env s c event next t := by
  unfold SchedulerState.dispatchStep at h
  split at h
  · next hpc =>
    split at h
    · next hactive =>
      split at h
      · next htrigger =>
        cases h
        exact .conflict hpc hactive htrigger
      · next htrigger =>
        cases h
        exact .skip hpc hactive htrigger
    · next hfree =>
      cases h
      exact .free hpc (Bool.eq_false_of_not_eq_true hfree)
  · next skipError uuid hpc =>
    simp only at h
    split at h
    · cases h
    · next hnew =>
      have hnone : s.runs.get ("task-run-" ++ uuid) = none := by simpa using hnew
      split at h
      · cases h
        exact .createSkipped hpc hnone
      · cases h
        exact .create hpc hnone
  · next skipError uuid hpc =>
    simp only at h
    split at h
    · cases h
    · next hnew =>
      cases h
      exact .unrefreshed hpc (by simpa using hnew)
  · next hpc =>
    cases h
    exact .skipRun hpc
  · next hpc =>
    cases h
    exact .skipTask hpc
  · next hpc =>
    split at h
    · cases h
    · next hbusy =>
      have hfree := Bool.eq_false_of_not_eq_true hbusy
      simp only at h
      split at h
      · cases h
        exact .launchUnplanned hpc hfree
      · cases h
        exact .launch hpc hfree
  · next hpc =>
    cases h
    exact .launchRaises hpc
  · next hpc =>
    cases h
    exact .markRunning hpc
  · next hpc =>
    cases h
    exact .afterLaunch hpc
  · next hpc =>
    cases h
    exact .unrecorded (.inl hpc)
  · next hpc =>
    cases h
    exact .unrecorded (.inr hpc)
  · next hpc =>
    cases h
    exact .failRun hpc
  · next hpc =>
    cases h
    exact .failTask hpc
  · cases h
    exact .cancelled
  all_goals
    first
    | next hpc =>
      cases h
      exact .raises (congrArg DispatchPc.launching hpc)
    | cases h

/-- The claimed tasks that the poll loop still has to dispatch. -/
def PollPc.rest : PollPc → List ScheduledTaskRow
  | .idle | .counted _ _ | .stopped => []
  | .dispatching _ rest => rest

/-- The completion hook of a run writes its row. -/
def LaunchedRun.Recorded (r : LaunchedRun) (raises : Bool) : Prop :=
  (r.ended.bind terminalStatus).isSome = true ∧ r.userId ≠ "" ∧ raises = false

instance (r : LaunchedRun) (raises : Bool) : Decidable (r.Recorded raises) :=
  inferInstanceAs (Decidable (_ ∧ _))

/-- The steps of the scheduler. A step that is quiet changes no table, no dispatch and no run. -/
inductive SchedulerStep (env : ServiceEnv) (s : SchedulerState) :
    SchedulerEvent → SchedulerState → Prop
  | quiet {event : SchedulerEvent} {requests : List TaskRequest} {hooks : List CompletionHook}
      {poll : PollPc} (hstarted : s.started = true) (hpoll : poll = s.poll ∨ poll.rest = []) :
      SchedulerStep env s event { s with requests := requests, hooks := hooks, poll := poll }
  | createTask {task : NewTask} (hstarted : s.started = true)
      (hnew : task.id ∉ s.created.map NewTask.id) :
      SchedulerStep env s (.createTask task)
        { s with tasks := s.tasks.put task.row, created := s.created ++ [task] }
  | trigger {taskId userId uuid : String} {now : Int} {task : ScheduledTaskRow}
      (hstarted : s.started = true) (hget : s.tasks.getFor taskId userId = some task) :
      SchedulerStep env s (.trigger taskId userId now uuid)
        { s with calls := s.calls ++ [.enter task .manual now uuid] }
  | writeTask {i : Nat} {now : Int} {hasAccess : Bool} {r : TaskRequest} {u : TaskUpdates}
      (hstarted : s.started = true) (hrequest : s.requests[i]? = some r)
      (hu : r.updates env now hasAccess = .ok u) :
      SchedulerStep env s (.writeTask i now hasAccess) { s with
        requests := s.requests.eraseIdx i
        tasks := s.tasks.updateFor r.existing.id r.existing.userId u }
  | deleteTask {taskId userId : String} (hstarted : s.started = true) :
      SchedulerStep env s (.deleteTask taskId userId)
        { s with tasks := s.tasks.deleteFor taskId userId }
  | pollClaim {now budget : Int} (hstarted : s.started = true) (hpoll : s.poll = .counted now budget) :
      SchedulerStep env s .pollClaim { s with
        tasks := (s.tasks.claimDueTasks now env.leaseOwner env.leaseSeconds budget).2
        poll := .dispatching now
          (s.tasks.claimDueTasks now env.leaseOwner env.leaseSeconds budget).1 }
  | pollDispatch {uuid : String} {now : Int} {task : ScheduledTaskRow}
      {rest : List ScheduledTaskRow} (hstarted : s.started = true)
      (hpoll : s.poll = .dispatching now (task :: rest)) :
      SchedulerStep env s (.pollDispatch uuid) { s with
        poll := .dispatching now rest
        calls := s.calls ++ [.enter task .scheduled now uuid] }
  | dispatch {i : Nat} {event : DispatchEvent} {c : DispatchCall} {next : DispatchNext}
      {t : SchedulerState} (hstarted : s.started = true) (hcall : s.calls[i]? = some c)
      (hstep : DispatchStep env s c event next t) :
      SchedulerStep env s (.dispatch i event) (t.resume i c next)
  | endRun {i : Nat} {r : LaunchedRun} {status : RunStatus} {error : Option String}
      (hstarted : s.started = true) (hrun : s.live[i]? = some r) :
      SchedulerStep env s (.endRun i status error)
        { s with live := s.live.set i { r with ended := some (status, error) } }
  | leave {i : Nat} {now : Int} {raises : Bool} {r : LaunchedRun} (hstarted : s.started = true)
      (hrun : s.live[i]? = some r) (hlost : ¬ r.Recorded raises) :
      SchedulerStep env s (.hookRun i now raises) { s with live := s.live.eraseIdx i }
  | hookRun {i : Nat} {now : Int} {raises : Bool} {r : LaunchedRun} {u : RunUpdate}
      {hooks : List CompletionHook} (hstarted : s.started = true) (hrun : s.live[i]? = some r)
      (hended : u.status.isActive = false) :
      SchedulerStep env s (.hookRun i now raises) { s with
        live := s.live.eraseIdx i
        runs := s.runs.updateStatus r.taskRunId u
        hooks := hooks }
  | hookUpdate {i : Nat} {h : CompletionHook} {task : ScheduledTaskRow}
      (hstarted : s.started = true) (hhook : s.hooks[i]? = some h) (hpc : h.pc = .update task) :
      SchedulerStep env s (.hookUpdate i false) { s with
        hooks := s.hooks.eraseIdx i
        tasks := s.tasks.updateFor task.id h.run.userId (h.updates task) }
  | crash (hstarted : s.started = true) : SchedulerStep env s .crash s.crash
  | start {now : Int} {sweepsRuns sweepsTasks : Bool} (hstopped : s.started = false) :
      SchedulerStep env s (.start now sweepsRuns sweepsTasks) (s.start now sweepsRuns sweepsTasks)

theorem request_cases {event : SchedulerEvent} (hstarted : s.started = true)
    (h : s.requestStep env event = some t) : SchedulerStep env s event t := by
  unfold SchedulerState.requestStep at h
  split at h
  · split at h
    · cases h
    · next hnew =>
      cases h
      exact .createTask hstarted hnew
  · obtain ⟨task, hget, rfl⟩ := Option.map_eq_some_iff.mp h
    exact .trigger hstarted hget
  · split at h
    · cases h
    · split at h
      · cases h
      · cases h
        exact .quiet hstarted (.inl rfl)
  · split at h
    · cases h
    · next r hrequest =>
      simp only at h
      split at h
      · cases h
        exact .quiet hstarted (.inl rfl)
      · next hu =>
        cases h
        exact .writeTask hstarted hrequest hu
  · split at h
    · cases h
      exact .quiet hstarted (.inl rfl)
    · cases h
  · cases h
    exact .deleteTask hstarted
  · cases h

theorem poll_cases {event : SchedulerEvent} (hstarted : s.started = true)
    (h : s.pollStep env event = some t) : SchedulerStep env s event t := by
  unfold SchedulerState.pollStep at h
  split at h
  · split at h
    · cases h
      split
      · exact .quiet hstarted (.inl rfl)
      · exact .quiet hstarted (.inr rfl)
    · cases h
  · split at h
    · next hpoll =>
      cases h
      exact .pollClaim hstarted hpoll
    · cases h
  · split at h
    · cases h
      exact .quiet hstarted (.inr rfl)
    · cases h
  · split at h
    · next hpoll =>
      split at h
      · cases h
      · cases h
        exact .pollDispatch hstarted hpoll
    · cases h
  · split at h
    · split at h
      · cases h
      · cases h
        exact .quiet hstarted (.inr rfl)
    · cases h
  · cases h

theorem terminalStatus_ended {ending : RunStatus × Option String} {status : TaskRunStatus}
    {error : Option String} (h : terminalStatus ending = some (status, error)) :
    status.isActive = false := by
  unfold terminalStatus at h
  split at h <;> cases h <;> rfl

theorem hook_cases {event : SchedulerEvent} (hstarted : s.started = true)
    (h : s.hookStep event = some t) : SchedulerStep env s event t := by
  unfold SchedulerState.hookStep at h
  split at h
  · next i status error =>
    split at h
    · cases h
    · next r hrun =>
      split at h
      · cases h
      · cases h
        exact .endRun hstarted hrun
  · split at h
    · cases h
    · next r hrun =>
      simp only at h
      split at h
      · cases h
      · next ending hended =>
        split at h
        · next hnone =>
          cases h
          refine .leave hstarted hrun fun hrecorded => ?_
          have hsome := hrecorded.1
          rw [hended, Option.bind_some, hnone] at hsome
          cases hsome
        · next status error hstatus =>
          split at h
          · next hskipped =>
            cases h
            refine .leave hstarted hrun fun hrecorded => ?_
            obtain ⟨-, huser, rfl⟩ := hrecorded
            simp [huser] at hskipped
          · cases h
            exact .hookRun hstarted hrun (terminalStatus_ended hstatus)
  · split at h
    · cases h
    · split at h
      · cases h
        exact .quiet hstarted (.inl rfl)
      · cases h
        exact .quiet hstarted (.inl rfl)
      · cases h
  · next i raises =>
    split at h
    · cases h
    · next hook hhook =>
      split at h
      · cases h
      · next task hpc =>
        cases raises with
        | true =>
          cases h
          exact .quiet hstarted (.inl rfl)
        | false =>
          cases h
          exact .hookUpdate hstarted hhook hpc
  · cases h

theorem scheduler_cases {event : SchedulerEvent} (h : (scheduler env).step s event t) :
    SchedulerStep env s event t := by
  change SchedulerState.step env s event = some t at h
  unfold SchedulerState.step at h
  split at h
  · next hstopped =>
    cases h
    exact .start hstopped
  · cases h
  · cases h
  · next hstarted =>
    cases h
    exact .crash hstarted
  · next hstarted =>
    obtain ⟨c, hcall, h⟩ := Option.bind_eq_some_iff.mp h
    obtain ⟨⟨next, u⟩, hstep, rfl⟩ := Option.map_eq_some_iff.mp h
    exact .dispatch hstarted hcall (dispatch_cases hstep)
  · next hstarted _ _ _ =>
    split at h
    · exact poll_cases hstarted h
    · exact poll_cases hstarted h
    · exact poll_cases hstarted h
    · exact poll_cases hstarted h
    · exact poll_cases hstarted h
    · exact hook_cases hstarted h
    · exact hook_cases hstarted h
    · exact hook_cases hstarted h
    · exact hook_cases hstarted h
    · exact request_cases hstarted h

end Steps

section Rows

theorem RunUpdate.apply_id (u : RunUpdate) (r : ScheduledTaskRunRow) : (u.apply r).id = r.id := by
  unfold RunUpdate.apply
  split <;> rfl

theorem RunUpdate.apply_taskId (u : RunUpdate) (r : ScheduledTaskRunRow) :
    (u.apply r).taskId = r.taskId := by
  unfold RunUpdate.apply
  split <;> rfl

theorem DispatchCall.launchUpdate_active (c : DispatchCall) (l : Launched)
    (r : ScheduledTaskRunRow) :
    ((c.launchUpdate l).apply r).status.isActive = r.status.isActive := by
  unfold RunUpdate.apply
  split
  · rfl
  · next hactive => simpa [launchUpdate, TaskRunStatus.isActive] using hactive

theorem TaskRunTable.get_updateStatus (t : TaskRunTable) (id : String) (u : RunUpdate)
    (k : String) : (t.updateStatus id u).get k =
      if k = id then (t.get id).map u.apply else t.get k :=
  Table.get_update u.apply_id id k

/-- The row of the run that a dispatch is about, once it is created. -/
def DispatchCall.held (c : DispatchCall) : Option String :=
  match c.pc with
  | .check | .create _ => none
  | .skipRun id _ _ | .skipTask id _ _ | .launch id | .markRunning id _ | .afterLaunch id _ |
    .failRun id _ | .failTask id _ => some id

theorem DispatchCall.enter_pc (task : ScheduledTaskRow) (trigger : Trigger) (now : Int)
    (uuid : String) : (DispatchCall.enter task trigger now uuid).pc = .check ∨
      (DispatchCall.enter task trigger now uuid).pc = .create none := by
  unfold DispatchCall.enter
  simp only
  split
  · exact .inl rfl
  · exact .inr rfl

/-- The task of a live run, and its row. -/
def LaunchedRun.occupant (r : LaunchedRun) : String × String := (r.taskId, r.taskRunId)

end Rows

section Resume
variable {env : ServiceEnv} {s t : SchedulerState} {c : DispatchCall}

theorem DispatchStep.frame {event : DispatchEvent} {next : DispatchNext}
    (h : DispatchStep env s c event next t) :
    t.calls = s.calls ∧ t.poll = s.poll ∧ t.created = s.created ∧ t.started = s.started := by
  cases h <;> exact ⟨rfl, rfl, rfl, rfl⟩

namespace SchedulerState

@[simp] theorem resume_tasks (s : SchedulerState) (i : Nat) (c : DispatchCall) (n : DispatchNext) :
    (s.resume i c n).tasks = s.tasks := by cases n <;> rfl

@[simp] theorem resume_runs (s : SchedulerState) (i : Nat) (c : DispatchCall) (n : DispatchNext) :
    (s.resume i c n).runs = s.runs := by cases n <;> rfl

@[simp] theorem resume_live (s : SchedulerState) (i : Nat) (c : DispatchCall) (n : DispatchNext) :
    (s.resume i c n).live = s.live := by cases n <;> rfl

@[simp] theorem resume_created (s : SchedulerState) (i : Nat) (c : DispatchCall)
    (n : DispatchNext) : (s.resume i c n).created = s.created := by cases n <;> rfl

@[simp] theorem resume_started (s : SchedulerState) (i : Nat) (c : DispatchCall)
    (n : DispatchNext) : (s.resume i c n).started = s.started := by cases n <;> rfl

end SchedulerState

/-- A call that is in progress after a step was there before, or is the one that took it. -/
theorem mem_resume_calls {i : Nat} {next : DispatchNext} {d : DispatchCall}
    (h : d ∈ (s.resume i c next).calls) :
    d ∈ s.calls ∨ ∃ pc, next = .goOn pc ∧ d = { c with pc := pc } := by
  cases next with
  | goOn pc =>
    rcases List.mem_or_eq_of_mem_set h with h | h
    · exact .inl h
    · exact .inr ⟨pc, rfl, h⟩
  | returns _ | raises | cancelled => exact .inl (List.mem_of_mem_eraseIdx h)

/-- The dispatch itself, when it goes on. -/
def DispatchNext.calls (c : DispatchCall) : DispatchNext → List DispatchCall
  | .goOn pc => [{ c with pc := pc }]
  | .returns _ | .raises | .cancelled => []

theorem resume_calls {i : Nat} {next : DispatchNext} (hcall : s.calls[i]? = some c) :
    (s.resume i c next).calls.Perm (next.calls c ++ s.calls.eraseIdx i) := by
  obtain ⟨hi, -⟩ := List.getElem?_eq_some_iff.mp hcall
  cases next with
  | goOn pc => exact List.set_perm_cons_eraseIdx hi _
  | returns _ | raises | cancelled => exact .refl _

theorem perm_of_getElem? {α : Type*} {xs : List α} {i : Nat} {x : α} (h : xs[i]? = some x) :
    xs.Perm (x :: xs.eraseIdx i) := by
  obtain ⟨hi, rfl⟩ := List.getElem?_eq_some_iff.mp h
  exact (List.getElem_cons_eraseIdx_perm hi).symm

theorem resume_rest {i : Nat} {next : DispatchNext} :
    (s.resume i c next).poll.rest ⊆ s.poll.rest := by
  cases next with
  | goOn _ | returns _ => exact List.Subset.refl _
  | raises | cancelled =>
    unfold SchedulerState.resume
    simp only
    split
    · exact List.nil_subset _
    · exact List.Subset.refl _

theorem finalizeSkip_goOn {id error : String} {pc : DispatchPc}
    (h : c.finalizeSkip env id error = .goOn pc) : ∃ nextAt, pc = .skipRun id error nextAt := by
  unfold DispatchCall.finalizeSkip at h
  split at h
  · cases h
  · exact ⟨_, (DispatchNext.goOn.inj h).symm⟩

theorem finalizeSkip_next (env : ServiceEnv) (c : DispatchCall) (id error : String) :
    (∃ pc, c.finalizeSkip env id error = .goOn pc) ∨
      c.finalizeSkip env id error = .raises ∧ (env.nextOf c.task c.now).isOk = false := by
  unfold DispatchCall.finalizeSkip
  split
  · next hnext => exact .inr ⟨rfl, by rw [hnext]; rfl⟩
  · exact .inl ⟨_, rfl⟩

theorem launchFailed_next (env : ServiceEnv) (c : DispatchCall) (id error : String)
    (overlap : Bool) : (∃ pc, c.launchFailed env id error overlap = .goOn pc) ∨
      c.launchFailed env id error overlap = .raises ∧ (env.nextOf c.task c.now).isOk = false := by
  unfold DispatchCall.launchFailed
  split
  · next hnext => exact .inr ⟨rfl, by rw [hnext]; rfl⟩
  · split
    · exact finalizeSkip_next env c id error
    · exact .inl ⟨_, rfl⟩

/-- A launch that has failed is skipped when it conflicts with another run, or fails. -/
theorem launchFailed_goOn {id error : String} {overlap : Bool} {pc : DispatchPc}
    (h : c.launchFailed env id error overlap = .goOn pc) :
    (overlap = true ∧ ∃ nextAt, pc = .skipRun id error nextAt) ∨ ∃ f, pc = .failRun id f := by
  unfold DispatchCall.launchFailed at h
  split at h
  · cases h
  · split at h
    · next hconflict => exact .inl ⟨hconflict.1, finalizeSkip_goOn h⟩
    · exact .inr ⟨_, (DispatchNext.goOn.inj h).symm⟩

end Resume

end DeerFlow.Scheduler
