import DeerFlow.Lib.Except
import DeerFlow.Scheduler.TaskSteps

/-! Where the rows of the tasks, and the snapshots of them that a dispatch acts on, come
from in a step. Whatever is written to them, they are of a task that was created. -/

namespace DeerFlow.Scheduler
open Transition DeerFlow.Runtime

section Writes
namespace TaskTable
variable {t : TaskTable} {r : ScheduledTaskRow}

theorem mem_getFor {taskId userId : String} (h : t.getFor taskId userId = some r) :
    r ∈ t.rows := by
  obtain ⟨hget, -⟩ := Option.filter_eq_some_iff.mp h
  exact Table.mem_of_get hget

theorem mem_updateFor {taskId userId : String} {u : TaskUpdates}
    (h : r ∈ (t.updateFor taskId userId u).rows) :
    r ∈ t.rows ∨ ∃ x ∈ t.rows, x.id = taskId ∧ x.userId = userId ∧ r = u.apply x := by
  rcases Table.mem_update h with h | ⟨x, hx, hid, rfl⟩
  · exact .inl h
  · split
    · next huser => exact .inr ⟨x, hx, hid, huser, rfl⟩
    · exact .inl hx

theorem mem_deleteFor {taskId userId : String} (h : r ∈ (t.deleteFor taskId userId).rows) :
    r ∈ t.rows := by
  unfold deleteFor at h
  split at h
  · exact h
  · exact Table.mem_erase h

theorem mem_claimed {now limit : Int} (h : r ∈ t.claimed now limit) :
    r ∈ t.rows ∧ Due now r := by
  have hsorted := List.mem_of_mem_take h
  rw [List.mem_insertionSort, List.mem_filter] at hsorted
  exact ⟨hsorted.1, of_decide_eq_true hsorted.2⟩

theorem mem_claimDueTasks {now leaseSeconds limit : Int} {owner : String}
    (h : r ∈ (t.claimDueTasks now owner leaseSeconds limit).2.rows) :
    r ∈ t.rows ∨ ∃ x ∈ t.rows, Due now x ∧ r = lease owner (now + leaseSeconds) x := by
  obtain ⟨x, hx, hr⟩ := List.mem_map.mp h
  rw [← hr]
  split
  · next hid =>
    obtain ⟨y, hy, hid⟩ := List.mem_map.mp hid
    obtain ⟨hmem, hdue⟩ := mem_claimed hy
    have hsame : y = x := List.inj_on_of_nodup_map t.nodup hmem hx hid
    exact .inr ⟨x, hx, hsame ▸ hdue, rfl⟩
  · exact .inl hx

theorem mem_claimDueTasks_rows {now leaseSeconds limit : Int} {owner : String}
    (h : r ∈ (t.claimDueTasks now owner leaseSeconds limit).1) :
    ∃ x ∈ t.rows, r = lease owner (now + leaseSeconds) x := by
  obtain ⟨x, hx, rfl⟩ := List.mem_map.mp h
  exact ⟨x, (mem_claimed hx).1, rfl⟩

theorem mem_cancelStuckOnceTasks {error : String} (h : r ∈ (t.cancelStuckOnceTasks error).rows) :
    r ∈ t.rows ∨ ∃ x ∈ t.rows, x.status = .running ∧
      r = { x with status := .cancelled, lastError := some error } := by
  obtain ⟨x, hx, hr⟩ := List.mem_map.mp h
  rw [← hr]
  split
  · next hstuck => exact .inr ⟨x, hx, hstuck.2.1, rfl⟩
  · exact .inl hx

end TaskTable

theorem patchSchedule_status {env : ServiceEnv} {body : TaskPatch} {existing : ScheduledTaskRow}
    {now : Int} {u v : TaskUpdates} (hu : u.status = none)
    (h : patchSchedule env body existing now u = .ok v) : v.status ≠ some .running := by
  obtain ⟨spec, -, h⟩ := bind_eq_ok.mp h
  split at h
  · cases h
  · split_ifs at h
    · cases h
      simp
    · cases h
      simp [hu]

theorem patchThread_status {body : TaskPatch} {existing : ScheduledTaskRow} {hasAccess : Bool}
    {u v : TaskUpdates} (h : patchThread body existing hasAccess u = .ok v) :
    v.status = u.status := by
  unfold patchThread at h
  split at h
  · split_ifs at h
    cases h
    rfl
  · cases h
    rfl

theorem patchUpdates_status {env : ServiceEnv} {body : TaskPatch} {existing : ScheduledTaskRow}
    {now : Int} {hasAccess : Bool} {u : TaskUpdates}
    (h : patchUpdates env body existing now hasAccess = .ok u) : u.status ≠ some .running := by
  obtain ⟨v, hv, h⟩ := bind_eq_ok.mp h
  have hnone : v.status = none := patchThread_status hv
  split at h
  · cases h
  · split_ifs at h
    · exact patchSchedule_status hnone h
    · cases h
      rw [hnone]
      simp

theorem TaskRequest.updates_status {env : ServiceEnv} {r : TaskRequest} {now : Int}
    {hasAccess : Bool} {u : TaskUpdates} (h : r.updates env now hasAccess = .ok u) :
    u.status ≠ some .running := by
  unfold TaskRequest.updates at h
  split at h
  · cases h
    simp
  · cases h
    simp
  · exact patchUpdates_status h

theorem CompletionHook.updates_status (h : CompletionHook) (task : ScheduledTaskRow) :
    (h.updates task).status ≠ some .running := by
  unfold CompletionHook.updates
  simp only
  split <;> simp

end Writes

section Origins
variable {env : ServiceEnv} {s t : SchedulerState} {c d : DispatchCall}

/-- The update of its task with which a dispatch ends. -/
inductive DispatchCall.Ends (c : DispatchCall) : DispatchEvent → AfterLaunch → Prop
  | skipped {uuid id error : String} {nextAt : Option Int} (hpc : c.pc = .skipTask id error nextAt) :
      c.Ends (.succeeds uuid) (c.skipAfterLaunch error nextAt)
  | launched {uuid id : String} {l : Launched} (hpc : c.pc = .afterLaunch id l) :
      c.Ends (.succeeds uuid) (c.launchAfterLaunch l)
  | failed {uuid id : String} {f : Failure} (hpc : c.pc = .failTask id f) :
      c.Ends (.succeeds uuid) (c.failAfterLaunch f)

/-- How a row of the tasks after a step comes from those before it. -/
inductive RowOrigin (env : ServiceEnv) (s t : SchedulerState) (event : SchedulerEvent)
    (r : ScheduledTaskRow) : Prop
  | kept (hr : r ∈ s.tasks.rows)
  | created {task : NewTask} (hnew : task.id ∉ s.created.map NewTask.id)
      (htask : task ∈ t.created) (hr : r = task.row)
  | requested {i : Nat} {now : Int} {hasAccess : Bool} {q : TaskRequest} {u : TaskUpdates}
      {x : ScheduledTaskRow} (hevent : event = .writeTask i now hasAccess)
      (hrequest : s.requests[i]? = some q) (hu : q.updates env now hasAccess = .ok u)
      (hx : x ∈ s.tasks.rows) (hid : x.id = q.existing.id) (hr : r = u.apply x)
  | hooked {i : Nat} {h : CompletionHook} {task x : ScheduledTaskRow}
      (hevent : event = .hookUpdate i false) (hhook : s.hooks[i]? = some h)
      (hpc : h.pc = .update task) (hx : x ∈ s.tasks.rows) (hid : x.id = task.id)
      (huser : x.userId = h.run.userId) (hr : r = (h.updates task).apply x)
  | leased {now : Int} {owner : String} {expiresAt : Int} {x : ScheduledTaskRow}
      (hx : x ∈ s.tasks.rows) (hdue : TaskTable.Due now x)
      (hr : r = TaskTable.lease owner expiresAt x)
  | dispatched {i : Nat} {e : DispatchEvent} {c : DispatchCall} {a : AfterLaunch}
      {x : ScheduledTaskRow} (hevent : event = .dispatch i e) (hcall : s.calls[i]? = some c)
      (hends : c.Ends e a) (hx : x ∈ s.tasks.rows) (hid : x.id = c.task.id) (hr : r = a.apply x)
  | cancelled {error : String} {x : ScheduledTaskRow} (hx : x ∈ s.tasks.rows)
      (hrunning : x.status = .running)
      (hr : r = { x with status := .cancelled, lastError := some error })

theorem dispatch_rows {event : DispatchEvent} {next : DispatchNext}
    (h : DispatchStep env s c event next t) {r : ScheduledTaskRow} (hr : r ∈ t.tasks.rows) :
    r ∈ s.tasks.rows ∨ ∃ a x, c.Ends event a ∧ x ∈ s.tasks.rows ∧ x.id = c.task.id ∧
      r = a.apply x := by
  have hwritten : ∀ {a}, c.Ends event a → r ∈ (s.tasks.updateAfterLaunch c.task.id a).rows →
      r ∈ s.tasks.rows ∨ ∃ a x, c.Ends event a ∧ x ∈ s.tasks.rows ∧ x.id = c.task.id ∧
        r = a.apply x := by
    intro a hends hr
    rcases Table.mem_update hr with hr | ⟨x, hx, hid, rfl⟩
    · exact .inl hr
    · exact .inr ⟨a, x, hends, hx, hid, rfl⟩
  cases h with
  | skipTask hpc => exact hwritten (.skipped hpc) hr
  | afterLaunch hpc => exact hwritten (.launched hpc) hr
  | failTask hpc => exact hwritten (.failed hpc) hr
  | _ => exact .inl hr

theorem row_origin {event : SchedulerEvent} (h : SchedulerStep env s event t)
    {r : ScheduledTaskRow} (hr : r ∈ t.tasks.rows) : RowOrigin env s t event r := by
  cases h with
  | createTask _ hnew =>
    rcases Table.mem_put hr with hr | hr
    · exact .created hnew (List.mem_append_right _ (List.mem_singleton_self _)) hr
    · exact .kept hr
  | writeTask _ hrequest hu =>
    rcases TaskTable.mem_updateFor hr with hr | ⟨x, hx, hid, -, hr⟩
    · exact .kept hr
    · exact .requested rfl hrequest hu hx hid hr
  | hookUpdate _ hhook hpc =>
    rcases TaskTable.mem_updateFor hr with hr | ⟨x, hx, hid, huser, hr⟩
    · exact .kept hr
    · exact .hooked rfl hhook hpc hx hid huser hr
  | deleteTask => exact .kept (TaskTable.mem_deleteFor hr)
  | pollClaim =>
    rcases TaskTable.mem_claimDueTasks hr with hr | ⟨x, hx, hdue, hr⟩
    · exact .kept hr
    · exact .leased hx hdue hr
  | dispatch _ hcall hstep =>
    rw [SchedulerState.resume_tasks] at hr
    rcases dispatch_rows hstep hr with hr | ⟨a, x, hends, hx, hid, hr⟩
    · exact .kept hr
    · exact .dispatched rfl hcall hends hx hid hr
  | @start now sweepsRuns sweepsTasks _ =>
    unfold SchedulerState.start at hr
    cases sweepsTasks with
    | false => exact .kept hr
    | true =>
      rcases TaskTable.mem_cancelStuckOnceTasks hr with hr | ⟨x, hx, hrunning, hr⟩
      · exact .kept hr
      · exact .cancelled hx hrunning hr
  | quiet | trigger | pollDispatch | endRun | leave | hookRun | crash => exact .kept hr

/-- How a dispatch in progress after a step comes from the state before it. -/
inductive CallOrigin (env : ServiceEnv) (s : SchedulerState) (d : DispatchCall) : Prop
  | kept (hd : d ∈ s.calls)
  | entered {task : ScheduledTaskRow} {trigger : Trigger} {now : Int} {uuid : String}
      (htask : task ∈ s.tasks.rows ∨ task ∈ s.poll.rest) (hd : d = .enter task trigger now uuid)
  | went {c : DispatchCall} {e : DispatchEvent} {pc : DispatchPc} {u : SchedulerState}
      (hc : c ∈ s.calls) (hstep : DispatchStep env s c e (.goOn pc) u) (hd : d = { c with pc := pc })

theorem call_origin {event : SchedulerEvent} (h : SchedulerStep env s event t)
    (hd : d ∈ t.calls) : CallOrigin env s d := by
  cases h with
  | trigger _ hget =>
    rcases List.mem_append.mp hd with hd | hd
    · exact .kept hd
    · exact .entered (.inl (TaskTable.mem_getFor hget)) (List.mem_singleton.mp hd)
  | @pollDispatch uuid now task rest _ hpoll =>
    rcases List.mem_append.mp hd with hd | hd
    · exact .kept hd
    · refine .entered (.inr ?_) (List.mem_singleton.mp hd)
      rw [hpoll]
      exact List.mem_cons_self ..
  | dispatch _ hcall hstep =>
    rcases mem_resume_calls hd with hkept | ⟨pc, rfl, hwent⟩
    · exact .kept (hstep.frame.1 ▸ hkept)
    · exact .went (List.mem_of_getElem? hcall) hstep hwent
  | crash => cases hd
  | _ => exact .kept hd

theorem polled_origin {event : SchedulerEvent} (h : SchedulerStep env s event t)
    {r : ScheduledTaskRow} (hr : r ∈ t.poll.rest) :
    r ∈ s.poll.rest ∨ ∃ owner expiresAt, ∃ x ∈ s.tasks.rows, r = TaskTable.lease owner expiresAt x := by
  cases h with
  | quiet _ hpoll =>
    rcases hpoll with rfl | hpoll
    · exact .inl hr
    · rw [show _ = [] from hpoll] at hr
      cases hr
  | pollClaim =>
    obtain ⟨x, hx, hr⟩ := TaskTable.mem_claimDueTasks_rows hr
    exact .inr ⟨_, _, x, hx, hr⟩
  | pollDispatch _ hpoll =>
    rw [hpoll]
    exact .inl (List.mem_cons_of_mem _ hr)
  | dispatch _ _ hstep => exact .inl (hstep.frame.2.1 ▸ resume_rest hr)
  | crash => cases hr
  | _ => exact .inl hr

end Origins

section Provenance

/-- What never changes between the creation of a task and any of its rows. -/
structure ScheduledTaskRow.IsOf (r : ScheduledTaskRow) (task : NewTask) : Prop where
  id : r.id = task.id
  scheduleType : r.scheduleType = task.scheduleType
  overlapPolicy : r.overlapPolicy = .skip

def SchedulerState.Created (s : SchedulerState) (r : ScheduledTaskRow) : Prop :=
  ∃ task ∈ s.created, r.IsOf task

/-- Every row, and every snapshot a dispatch acts on, is of a task that was created. -/
structure SchedulerState.Provenance (s : SchedulerState) : Prop where
  distinct : (s.created.map NewTask.id).Nodup
  tasks : ∀ r ∈ s.tasks.rows, s.Created r
  polled : ∀ r ∈ s.poll.rest, s.Created r
  calls : ∀ c ∈ s.calls, s.Created c.task

variable {env : ServiceEnv} {s t : SchedulerState}

/-- Two rows of one task agree on the type of its schedule, however old they are. -/
theorem SchedulerState.Provenance.scheduleType (h : s.Provenance) {r r' : ScheduledTaskRow}
    (hr : s.Created r) (hr' : s.Created r') (hid : r.id = r'.id) :
    r.scheduleType = r'.scheduleType := by
  obtain ⟨task, htask, hof⟩ := hr
  obtain ⟨task', htask', hof'⟩ := hr'
  have heq : task = task' := by
    apply List.inj_on_of_nodup_map h.distinct htask htask'
    rw [← hof.id, ← hof'.id, hid]
  rw [hof.scheduleType, hof'.scheduleType, heq]

theorem created_step {event : SchedulerEvent} (h : SchedulerStep env s event t) :
    t.created = s.created ∨ ∃ task, event = .createTask task ∧
      task.id ∉ s.created.map NewTask.id ∧ t.created = s.created ++ [task] := by
  cases h with
  | createTask _ hnew => exact .inr ⟨_, rfl, hnew, rfl⟩
  | dispatch _ _ hstep =>
    left
    rw [SchedulerState.resume_created, hstep.frame.2.2.1]
  | _ => exact .inl rfl

theorem created_mono {event : SchedulerEvent} (h : SchedulerStep env s event t)
    {r : ScheduledTaskRow} (hr : s.Created r) : t.Created r := by
  obtain ⟨task, htask, hof⟩ := hr
  refine ⟨task, ?_, hof⟩
  rcases created_step h with hsame | ⟨_, -, -, hmore⟩
  · rwa [hsame]
  · rw [hmore]
    exact List.mem_append_left _ htask

theorem provenance_step {event : SchedulerEvent} (h : SchedulerStep env s event t)
    (hp : s.Provenance) : t.Provenance := by
  -- no write changes what the rows of a task have in common
  have hkept : ∀ {x r : ScheduledTaskRow}, x ∈ s.tasks.rows → r.id = x.id →
      r.scheduleType = x.scheduleType → r.overlapPolicy = x.overlapPolicy → t.Created r := by
    intro x r hx hid htype hpolicy
    obtain ⟨task, htask, hof⟩ := created_mono h (hp.tasks x hx)
    exact ⟨task, htask, hid.trans hof.id, htype.trans hof.scheduleType,
      hpolicy.trans hof.overlapPolicy⟩
  constructor
  · rcases created_step h with hsame | ⟨task, -, hnew, hmore⟩
    · rw [hsame]
      exact hp.distinct
    · rw [hmore, List.map_append, List.map_singleton]
      exact List.Nodup.append hp.distinct (List.nodup_singleton _)
        (List.disjoint_singleton.mpr hnew)
  · intro r hr
    cases row_origin h hr with
    | kept hr => exact created_mono h (hp.tasks r hr)
    | created _ htask hrow =>
      rw [hrow]
      exact ⟨_, htask, rfl, rfl, rfl⟩
    | requested _ _ _ hx _ hrow | hooked _ _ _ hx _ _ hrow | leased hx _ hrow
    | dispatched _ _ _ hx _ hrow | cancelled hx _ hrow =>
      rw [hrow]
      exact hkept hx rfl rfl rfl
  · intro r hr
    rcases polled_origin h hr with hr | ⟨owner, expiresAt, x, hx, rfl⟩
    · exact created_mono h (hp.polled r hr)
    · exact hkept hx rfl rfl rfl
  · intro d hd
    cases call_origin h hd with
    | kept hd => exact created_mono h (hp.calls d hd)
    | entered htask hentered =>
      rw [hentered]
      exact created_mono h (htask.elim (hp.tasks _) (hp.polled _))
    | went hc hstep hwent =>
      rw [hwent]
      have htask := hp.calls _ hc
      exact created_mono h htask

theorem provenance_of_reachable (h : Reachable (scheduler env) s) : s.Provenance := by
  refine h.invariant ?_ fun s event t _ hp hstep => provenance_step (scheduler_cases hstep) hp
  rintro s rfl
  exact ⟨List.nodup_nil, fun r hr => (by cases hr), fun r hr => (by cases hr),
    fun c hc => (by cases hc)⟩

end Provenance

section Plans
variable {env : ServiceEnv} {s t : SchedulerState} {c : DispatchCall}

def DispatchPc.launched? : DispatchPc → Option Launched
  | .markRunning _ l | .afterLaunch _ l => some l
  | .check | .create _ | .skipRun _ _ _ | .skipTask _ _ _ | .launch _ | .failRun _ _ |
    .failTask _ _ => none

/-- The status of its task that a dispatch has planned when its run was launched. -/
def DispatchCall.Planned (c : DispatchCall) : Prop :=
  ∀ l ∈ c.pc.launched?, l.taskStatus = DispatchCall.taskStatusForLaunch c.task c.trigger

theorem planned_dispatch {event : DispatchEvent} {next : DispatchNext} {pc : DispatchPc}
    (h : DispatchStep env s c event next t) (hnext : next = .goOn pc) (hc : c.Planned) :
    DispatchCall.Planned { c with pc := pc } := by
  have hfailed : ∀ {id error overlap}, c.launchFailed env id error overlap = .goOn pc →
      pc.launched? = none := by
    intro id error overlap hgo
    rcases launchFailed_goOn hgo with ⟨-, nextAt, rfl⟩ | ⟨f, rfl⟩
    · rfl
    · rfl
  intro l hmem
  cases h with
  | skip | free | create | skipRun | failRun =>
    obtain rfl := DispatchNext.goOn.inj hnext
    cases hmem
  | createSkipped =>
    obtain ⟨nextAt, rfl⟩ := finalizeSkip_goOn hnext
    cases hmem
  | launch =>
    obtain rfl := DispatchNext.goOn.inj hnext
    cases hmem
    rfl
  | launchUnplanned | launchRaises | unrecorded =>
    rw [hfailed hnext] at hmem
    cases hmem
  | markRunning hpc =>
    obtain rfl := DispatchNext.goOn.inj hnext
    exact hc l (by rw [hpc]; exact hmem)
  | conflict | unrefreshed | skipTask | afterLaunch | failTask | raises | cancelled => cases hnext

theorem planned_step {event : SchedulerEvent} (h : SchedulerStep env s event t)
    (hplanned : ∀ c ∈ s.calls, c.Planned) : ∀ d ∈ t.calls, d.Planned := by
  intro d hd
  cases call_origin h hd with
  | kept hd => exact hplanned d hd
  | @entered task trigger now uuid _ hentered =>
    rw [hentered]
    intro l hmem
    rcases DispatchCall.enter_pc task trigger now uuid with hpc | hpc
    · rw [hpc] at hmem
      cases hmem
    · rw [hpc] at hmem
      cases hmem
  | went hc hstep hwent =>
    rw [hwent]
    exact planned_dispatch hstep rfl (hplanned _ hc)

theorem planned_of_reachable (h : Reachable (scheduler env) s) : ∀ c ∈ s.calls, c.Planned := by
  refine h.invariant ?_ fun s event t _ hp hstep => planned_step (scheduler_cases hstep) hp
  rintro s rfl
  exact fun c hc => (by cases hc)

end Plans

section Hourly

/-- Tasks that run at every full hour, with instants in seconds. -/
def ServiceEnv.hourly : ServiceEnv where
  leaseOwner := "host:0"
  leaseSeconds := 120
  maxConcurrentRuns := 3
  minOnceDelaySeconds := 60
  validTimezone timezone := timezone = "UTC"
  normalizeCron := .ok
  nextRunAt
    | .cron, _, _, now => .ok (some ((now / 3600 + 1) * 3600))
    | .once, _, _, _ => .error "once schedule requires run_at"

def NewTask.hourly (contextMode : ContextMode) : NewTask where
  id := "task-0"
  userId := "user"
  threadId := if contextMode = .reuseThread then some "thread" else none
  contextMode := contextMode
  scheduleType := .cron
  scheduleSpec := [("cron", .str "0 * * * *")]
  timezone := "UTC"
  nextRunAt := some 3600

end Hourly

end DeerFlow.Scheduler
