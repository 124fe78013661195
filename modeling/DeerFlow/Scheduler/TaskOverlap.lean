import DeerFlow.Scheduler.TaskOrigins

/-! The overlap policy `skip`: at most one run of a task is live. It rests on the rows of
the runs, and two dispatches break it: one that creates its run after another has, and one
that fails the row of a run that is live. -/

namespace DeerFlow.Scheduler
open Transition DeerFlow.Runtime

section Overlap

namespace SchedulerState

/-- At most one launched run of each task is live. -/
def NoOverlap (s : SchedulerState) : Prop :=
  ∀ taskId, (s.live.filter fun r => r.taskId = taskId).length ≤ 1

/-- Another run of the task has become active since this dispatch looked for one. -/
def RacesCheck (s : SchedulerState) (c : DispatchCall) : Prop :=
  match c.pc with
  | .create none => c.task.overlapPolicy = .skip ∧ s.runs.hasActiveRuns c.task.id = true
  | _ => False

/-- The run of a dispatch whose bookkeeping has failed is live. -/
def FailsLiveRun (s : SchedulerState) (c : DispatchCall) : Prop :=
  match c.pc with
  | .failRun id _ => ∃ r ∈ s.live, r.taskRunId = id
  | _ => False

/-- The step in which one of the two writes its row. -/
def BreaksSkip (s : SchedulerState) : SchedulerEvent → Prop
  | .dispatch i (.succeeds _) => ∃ c ∈ s.calls[i]?, s.RacesCheck c ∨ s.FailsLiveRun c
  | _ => False

instance (s : SchedulerState) (c : DispatchCall) : Decidable (s.RacesCheck c) := by
  unfold RacesCheck
  rcases c.pc with _ | (_ | _) | _ <;> infer_instance

instance (s : SchedulerState) (c : DispatchCall) : Decidable (s.FailsLiveRun c) := by
  unfold FailsLiveRun
  rcases c.pc with _ | _ <;> infer_instance

instance (s : SchedulerState) (event : SchedulerEvent) : Decidable (s.BreaksSkip event) := by
  unfold BreaksSkip
  cases event with
  | dispatch _ event => cases event <;> infer_instance
  | _ => infer_instance

end SchedulerState

end Overlap

section Occupants

/-- A dispatch about to launch its run counts as well. -/
def DispatchCall.occupant? (c : DispatchCall) : Option (String × String) :=
  match c.pc with
  | .launch id => some (c.task.id, id)
  | .check | .create _ | .skipRun _ _ _ | .skipTask _ _ _ | .markRunning _ _ |
    .afterLaunch _ _ | .failRun _ _ | .failTask _ _ => none

def occupants (live : List (String × String)) (calls : List DispatchCall) :
    List (String × String) := live ++ calls.filterMap DispatchCall.occupant?

/-- Each run that is live or about to be launched is the only one of its task, and its row
is active, so that `has_active_runs` sees it. -/
structure Exclusive (runs : TaskRunTable) (live : List (String × String))
    (calls : List DispatchCall) : Prop where
  alone : ((occupants live calls).map Prod.fst).Nodup
  active : ∀ o ∈ occupants live calls, ∃ r ∈ runs.get o.2, r.taskId = o.1 ∧ r.status.isActive = true
  held : (calls.filterMap DispatchCall.held).Nodup
  known : ∀ c ∈ calls, ∀ id ∈ c.held, (runs.get id).isSome = true
  skipped : ∀ c ∈ calls, ∀ id error nextAt, c.pc = .skipRun id error nextAt → ∀ o ∈ live, o.2 ≠ id

variable {runs : TaskRunTable} {live live' : List (String × String)} {calls calls' : List DispatchCall}
  {c d : DispatchCall}

theorem DispatchCall.held_of_occupant {o : String × String} (h : c.occupant? = some o) :
    c.held = some o.2 ∧ o.1 = c.task.id := by
  unfold DispatchCall.occupant? at h
  split at h
  · next id hpc =>
    cases h
    refine ⟨?_, rfl⟩
    unfold DispatchCall.held
    rw [hpc]
  all_goals cases h

theorem mem_occupants {o : String × String} :
    o ∈ occupants live calls ↔ o ∈ live ∨ ∃ c ∈ calls, c.occupant? = some o := by
  unfold occupants
  rw [List.mem_append, List.mem_filterMap]

namespace Exclusive

theorem perm (h : Exclusive runs live calls) (hlive : live.Perm live') (hcalls : calls.Perm calls') :
    Exclusive runs live' calls' := by
  have hoccupants : (occupants live calls).Perm (occupants live' calls') :=
    hlive.append (hcalls.filterMap _)
  exact {
    alone := (hoccupants.map _).nodup_iff.mp h.alone
    active := fun o ho => h.active o (hoccupants.mem_iff.mpr ho)
    held := (hcalls.filterMap _).nodup_iff.mp h.held
    known := fun c hc => h.known c (hcalls.mem_iff.mpr hc)
    skipped := fun c hc id error nextAt hpc o ho =>
      h.skipped c (hcalls.mem_iff.mpr hc) id error nextAt hpc o (hlive.mem_iff.mpr ho) }

theorem rows (h : Exclusive runs live calls) : ((occupants live calls).map Prod.snd).Nodup := by
  refine List.Nodup.map_on (fun o ho o' ho' hrow => ?_) h.alone.of_map
  obtain ⟨r, hr, htask, -⟩ := h.active o ho
  obtain ⟨r', hr', htask', -⟩ := h.active o' ho'
  rw [hrow, hr'] at hr
  cases hr
  exact List.inj_on_of_nodup_map h.alone ho ho' (htask.symm.trans htask')

theorem sublist (h : Exclusive runs live calls) (hlive : live'.Sublist live)
    (hcalls : calls'.Sublist calls) : Exclusive runs live' calls' := by
  have hoccupants : (occupants live' calls').Sublist (occupants live calls) :=
    hlive.append (hcalls.filterMap _)
  exact {
    alone := h.alone.sublist (hoccupants.map _)
    active := fun o ho => h.active o (hoccupants.subset ho)
    held := h.held.sublist (hcalls.filterMap _)
    known := fun c hc => h.known c (hcalls.subset hc)
    skipped := fun c hc id error nextAt hpc o ho =>
      h.skipped c (hcalls.subset hc) id error nextAt hpc o (hlive.subset ho) }

theorem occupants_idle (hidle : d.occupant? = none) :
    occupants live (d :: calls) = occupants live calls := by
  unfold occupants
  rw [List.filterMap_cons_none hidle]

theorem enter (h : Exclusive runs live calls) (hheld : d.held = none) (hidle : d.occupant? = none) :
    Exclusive runs live (d :: calls) := by
  have hsame : occupants live (d :: calls) = occupants live calls := occupants_idle hidle
  refine ⟨by rw [hsame]; exact h.alone, by rw [hsame]; exact h.active, ?_,
    fun e he id hid => ?_, fun e he id error nextAt hpc => ?_⟩
  · rw [List.filterMap_cons_none hheld]
    exact h.held
  · rcases List.mem_cons.mp he with rfl | he
    · rw [hheld] at hid
      cases hid
    · exact h.known e he id hid
  · rcases List.mem_cons.mp he with rfl | he
    · unfold DispatchCall.held at hheld
      rw [hpc] at hheld
      cases hheld
    · exact h.skipped e he id error nextAt hpc

theorem goOn (h : Exclusive runs live (c :: calls)) (hheld : d.held = c.held)
    (hidle : d.occupant? = none)
    (hskipped : ∀ id error nextAt, d.pc = .skipRun id error nextAt → ∀ o ∈ live, o.2 ≠ id) :
    Exclusive runs live (d :: calls) := by
  have hrest := h.sublist (List.Sublist.refl _) (List.sublist_cons_self c calls)
  have hsame : (d :: calls).filterMap DispatchCall.held =
      (c :: calls).filterMap DispatchCall.held := by
    rw [List.filterMap_cons, List.filterMap_cons, hheld]
  have hidle : occupants live (d :: calls) = occupants live calls := occupants_idle hidle
  refine ⟨by rw [hidle]; exact hrest.alone, by rw [hidle]; exact hrest.active, hsame ▸ h.held,
    fun e he id hid => ?_, fun e he => ?_⟩
  · rcases List.mem_cons.mp he with rfl | he
    · exact h.known c (List.mem_cons_self ..) id (hheld ▸ hid)
    · exact hrest.known e he id hid
  · rcases List.mem_cons.mp he with rfl | he
    · exact hskipped
    · exact hrest.skipped e he

/-- A row may be updated as long as it stays active or no run rests on it. -/
theorem update (h : Exclusive runs live calls) {id : String} {u : RunUpdate}
    (hu : (∀ o ∈ occupants live calls, o.2 ≠ id) ∨
      ∀ r : ScheduledTaskRunRow, r.status.isActive = true → (u.apply r).status.isActive = true) :
    Exclusive (runs.updateStatus id u) live calls := by
  refine ⟨h.alone, fun o ho => ?_, h.held, fun c hc k hk => ?_, h.skipped⟩
  · obtain ⟨r, hr, hof, hactive⟩ := h.active o ho
    rw [TaskRunTable.get_updateStatus]
    split_ifs with hk
    · rcases hu with hu | hu
      · exact absurd hk (hu o ho)
      · refine ⟨u.apply r, ?_, (u.apply_taskId r).trans hof, hu r hactive⟩
        rw [← hk, hr]
        rfl
    · exact ⟨r, hr, hof, hactive⟩
  · have hknown := h.known c hc k hk
    rw [TaskRunTable.get_updateStatus]
    split_ifs with hkid
    · rw [Option.isSome_map, ← hkid]
      exact hknown
    · exact hknown

theorem put (h : Exclusive runs live calls) {row : ScheduledTaskRunRow}
    (hnew : runs.get row.id = none) : Exclusive (runs.put row) live calls := by
  have hget : ∀ {k r}, runs.get k = some r → (runs.put row).get k = some r := by
    intro k r hr
    rw [Table.get_put]
    split_ifs with hk
    · rw [hk, hnew] at hr
      cases hr
    · exact hr
  refine ⟨h.alone, fun o ho => ?_, h.held, fun c hc k hk => ?_, h.skipped⟩
  · obtain ⟨r, hr, hrest⟩ := h.active o ho
    exact ⟨r, hget hr, hrest⟩
  · obtain ⟨r, hr⟩ := Option.isSome_iff_exists.mp (h.known c hc k hk)
    rw [hget hr]
    rfl

theorem rows_known (h : Exclusive runs live calls) {id : String} (hnew : runs.get id = none) :
    (∀ o ∈ occupants live calls, o.2 ≠ id) ∧ id ∉ calls.filterMap DispatchCall.held := by
  constructor
  · rintro o ho rfl
    obtain ⟨r, hr, -⟩ := h.active o ho
    rw [hnew] at hr
    cases hr
  · intro hmem
    obtain ⟨c, hc, hheld⟩ := List.mem_filterMap.mp hmem
    have hknown := h.known c hc id hheld
    rw [hnew] at hknown
    cases hknown

theorem create (h : Exclusive runs live calls) {row : ScheduledTaskRunRow}
    (hnew : runs.get row.id = none) (hheld : d.held = some row.id)
    (hoccupants : d.occupant? = none ∨ d.occupant? = some (row.taskId, row.id) ∧
      row.status.isActive = true ∧ ∀ o ∈ occupants live calls, o.1 ≠ row.taskId) :
    Exclusive (runs.put row) live (d :: calls) := by
  have hput := h.put hnew
  obtain ⟨hfree, hunheld⟩ := h.rows_known hnew
  have hrow : (runs.put row).get row.id = some row := by
    rw [Table.get_put, if_pos rfl]
  have hperm : (occupants live (d :: calls)).Perm
      (d.occupant?.toList ++ occupants live calls) := by
    unfold occupants
    rcases hidle : d.occupant? with _ | o
    · rw [List.filterMap_cons_none hidle]
      exact .refl _
    · rw [List.filterMap_cons_some hidle]
      exact List.perm_middle
  refine ⟨?_, fun o ho => ?_, ?_, fun e he id hid => ?_, fun e he id error nextAt hpc o ho => ?_⟩
  · rw [(hperm.map _).nodup_iff]
    rcases hoccupants with hidle | ⟨hlaunch, -, halone⟩
    · rw [hidle]
      exact hput.alone
    · rw [hlaunch]
      refine List.nodup_cons.mpr ⟨fun hmem => ?_, hput.alone⟩
      obtain ⟨o, ho, htask⟩ := List.mem_map.mp hmem
      exact halone o ho htask
  · rcases List.mem_append.mp (hperm.mem_iff.mp ho) with hnewest | ho
    · rcases hoccupants with hidle | ⟨hlaunch, hactive, -⟩
      · rw [hidle] at hnewest
        cases hnewest
      · rw [hlaunch] at hnewest
        obtain rfl := List.mem_singleton.mp hnewest
        exact ⟨row, hrow, rfl, hactive⟩
    · exact hput.active o ho
  · rw [List.filterMap_cons_some hheld]
    exact List.nodup_cons.mpr ⟨hunheld, hput.held⟩
  · rcases List.mem_cons.mp he with rfl | he
    · rw [hheld] at hid
      rw [← Option.some.inj hid, hrow]
      rfl
    · exact hput.known e he id hid
  · rcases List.mem_cons.mp he with rfl | he
    · have hid : row.id = id := by
        unfold DispatchCall.held at hheld
        rw [hpc] at hheld
        exact (Option.some.inj hheld).symm
      exact hid ▸ hfree o (mem_occupants.mpr (.inl ho))
    · exact hput.skipped e he id error nextAt hpc o ho

theorem launch (h : Exclusive runs live (c :: calls)) {o : String × String}
    (ho : c.occupant? = some o) (hheld : d.held = c.held) (hidle : d.occupant? = none)
    (hskip : ∀ id error nextAt, d.pc ≠ .skipRun id error nextAt) :
    Exclusive runs (o :: live) (d :: calls) := by
  have hperm : (occupants (o :: live) (d :: calls)).Perm (occupants live (c :: calls)) := by
    unfold occupants
    rw [List.filterMap_cons_none hidle, List.filterMap_cons_some ho]
    exact List.perm_middle.symm
  have hsame : (d :: calls).filterMap DispatchCall.held =
      (c :: calls).filterMap DispatchCall.held := by
    rw [List.filterMap_cons, List.filterMap_cons, hheld]
  refine ⟨(hperm.map _).nodup_iff.mpr h.alone, fun o' ho' => h.active o' (hperm.mem_iff.mp ho'),
    hsame ▸ h.held, fun e he id hid => ?_, fun e he id error nextAt hpc o' ho' => ?_⟩
  · rcases List.mem_cons.mp he with rfl | he
    · exact h.known c (List.mem_cons_self ..) id (hheld ▸ hid)
    · exact h.known e (List.mem_cons_of_mem _ he) id hid
  · rcases List.mem_cons.mp he with rfl | he
    · exact absurd hpc (hskip id error nextAt)
    · rcases List.mem_cons.mp ho' with rfl | ho'
      · -- another dispatch holds another row
        intro hrow
        have hnodup := h.held
        rw [List.filterMap_cons_some (DispatchCall.held_of_occupant ho).1, List.nodup_cons] at hnodup
        refine hnodup.1 (List.mem_filterMap.mpr ⟨e, he, ?_⟩)
        unfold DispatchCall.held
        rw [hpc, hrow]
      · exact h.skipped e (List.mem_cons_of_mem _ he) id error nextAt hpc o' ho'

/-- No other dispatch, and no run it is not about, rests on the row a dispatch holds. -/
theorem row_unused (h : Exclusive runs live (c :: calls)) {id : String} (hheld : c.held = some id)
    (hidle : c.occupant? = none) (hlive : ∀ o ∈ live, o.2 ≠ id) :
    ∀ o ∈ occupants live (c :: calls), o.2 ≠ id := by
  intro o ho hrow
  rcases mem_occupants.mp ho with hin | ⟨e, he, hin⟩
  · exact hlive o hin hrow
  · rcases List.mem_cons.mp he with rfl | he
    · rw [hidle] at hin
      cases hin
    · have hnodup := h.held
      rw [List.filterMap_cons_some hheld, List.nodup_cons] at hnodup
      refine hnodup.1 (List.mem_filterMap.mpr ⟨e, he, ?_⟩)
      rw [(DispatchCall.held_of_occupant hin).1, hrow]

/-- The row of a run that is about to be launched is not that of a live one. -/
theorem row_unlaunched (h : Exclusive runs live (c :: calls)) {o : String × String}
    (ho : c.occupant? = some o) : ∀ o' ∈ live, o'.2 ≠ o.2 := by
  intro o' ho' hrow
  have hnodup := h.rows
  unfold occupants at hnodup
  rw [List.filterMap_cons_some ho, List.map_append, List.map_cons] at hnodup
  refine List.disjoint_of_nodup_append hnodup (List.mem_map_of_mem ho') ?_
  rw [hrow]
  exact List.mem_cons_self ..

theorem leave (h : Exclusive runs live calls) {o : String × String} {rest : List (String × String)}
    (hlive : live.Perm (o :: rest)) (u : RunUpdate) :
    Exclusive (runs.updateStatus o.2 u) rest calls := by
  have hfull := h.perm hlive (.refl _)
  have hnodup := hfull.rows
  refine (hfull.sublist (List.sublist_cons_self o rest) (List.Sublist.refl _)).update (.inl ?_)
  intro o' ho' hrow
  refine (List.nodup_cons.mp hnodup).1 ?_
  rw [← hrow]
  exact List.mem_map_of_mem ho'

end Exclusive

end Occupants

section Steps
variable {env : ServiceEnv} {s t : SchedulerState} {c d : DispatchCall} {rest : List DispatchCall}

/-- After a failure the dispatch still holds its row, and has nothing to launch. -/
theorem exclusive_launchFailed {runs : TaskRunTable} {live : List (String × String)}
    {id error : String} {overlap : Bool} (hx : Exclusive runs live (d :: rest))
    (hheld : d.held = some id) (hlive : overlap = true → ∀ o ∈ live, o.2 ≠ id) :
    Exclusive runs live ((c.launchFailed env id error overlap).calls c ++ rest) := by
  cases hnext : c.launchFailed env id error overlap with
  | goOn pc =>
    rcases launchFailed_goOn hnext with ⟨hoverlap, nextAt, rfl⟩ | ⟨f, rfl⟩
    · refine hx.goOn hheld.symm rfl fun id' error' nextAt' hpc => ?_
      obtain ⟨rfl, -, -⟩ := DispatchPc.skipRun.inj hpc
      exact hlive hoverlap
    · exact hx.goOn hheld.symm rfl fun _ _ _ hpc => (by cases hpc)
  | returns _ | raises | cancelled => exact hx.sublist (List.Sublist.refl _) (List.sublist_cons_self _ _)

theorem alone_of_free {runs : TaskRunTable} {live : List (String × String)}
    {calls : List DispatchCall} {taskId : String} (hx : Exclusive runs live calls)
    (hfree : runs.hasActiveRuns taskId = false) : ∀ o ∈ occupants live calls, o.1 ≠ taskId := by
  rintro o ho htask
  obtain ⟨r, hr, hof, hactive⟩ := hx.active o ho
  have hany : runs.hasActiveRuns taskId = true := by
    refine List.any_eq_true.mpr ⟨r, Table.mem_of_get hr, ?_⟩
    rw [hof, htask, hactive]
    simp
  rw [hfree] at hany
  cases hany

theorem exclusive_dispatch {event : DispatchEvent} {next : DispatchNext}
    (h : DispatchStep env s c event next t)
    (hx : Exclusive s.runs (s.live.map LaunchedRun.occupant) (c :: rest))
    (hpolicy : c.task.overlapPolicy = .skip)
    (hsafe : (∃ uuid, event = .succeeds uuid) → ¬ (s.RacesCheck c ∨ s.FailsLiveRun c)) :
    Exclusive t.runs (t.live.map LaunchedRun.occupant) (next.calls c ++ rest) := by
  have hrest := hx.sublist (List.Sublist.refl _) (List.sublist_cons_self c rest)
  obtain ⟨task, trigger, now, threadId, pc⟩ := c
  cases h with
  | conflict | skipTask | afterLaunch | failTask | raises | cancelled => exact hrest
  | skip | free => exact hrest.enter rfl rfl
  | @create uuid hpc hnew =>
    obtain rfl : pc = .create none := hpc
    have hfree : s.runs.hasActiveRuns task.id = false := by
      apply Bool.eq_false_of_not_eq_true
      intro hactive
      exact hsafe ⟨_, rfl⟩ (.inl ⟨hpolicy, hactive⟩)
    exact hrest.create hnew rfl (.inr ⟨rfl, rfl, alone_of_free hrest hfree⟩)
  | @createSkipped uuid error hpc hnew =>
    cases hnext : DispatchCall.finalizeSkip env ⟨task, trigger, now, threadId, pc⟩
      ("task-run-" ++ uuid) error with
    | goOn pc' =>
      obtain ⟨nextAt, rfl⟩ := finalizeSkip_goOn hnext
      exact hrest.create hnew rfl (.inl rfl)
    | returns _ | raises | cancelled => exact hrest.put hnew
  | unrefreshed _ hnew => exact hrest.put hnew
  | @skipRun uuid id error nextAt hpc =>
    obtain rfl : pc = .skipRun id error nextAt := hpc
    have hlive := hx.skipped _ (List.mem_cons_self ..) id error nextAt rfl
    exact (hx.update (.inl (hx.row_unused rfl rfl hlive))).goOn rfl rfl
      fun _ _ _ hpc => (by cases hpc)
  | @launch runId id nextAt hpc =>
    obtain rfl : pc = .launch id := hpc
    have hlaunched := hx.launch (d := ⟨task, trigger, now, threadId, .markRunning id ⟨runId, nextAt,
      DispatchCall.taskStatusForLaunch task trigger⟩⟩) rfl rfl rfl fun _ _ _ hpc => (by cases hpc)
    rw [List.map_append]
    exact hlaunched.perm (List.perm_append_singleton _ _).symm (.refl _)
  | @launchUnplanned runId id error hpc =>
    obtain rfl : pc = .launch id := hpc
    have hlaunched := hx.launch (d := ⟨task, trigger, now, threadId, .failRun id
      ⟨error, false, none⟩⟩) rfl rfl rfl fun _ _ _ hpc => (by cases hpc)
    rw [List.map_append]
    exact (exclusive_launchFailed hlaunched rfl fun hoverlap => (by cases hoverlap)).perm
      (List.perm_append_singleton _ _).symm (.refl _)
  | @launchRaises id error overlap hpc =>
    obtain rfl : pc = .launch id := hpc
    exact exclusive_launchFailed hx rfl fun _ => hx.row_unlaunched rfl
  | @markRunning uuid id l hpc =>
    obtain rfl : pc = .markRunning id l := hpc
    exact (hx.update (.inr fun r hr => (DispatchCall.launchUpdate_active _ l r).trans hr)).goOn rfl rfl
      fun _ _ _ hpc => (by cases hpc)
  | @unrecorded id error l hpc =>
    -- the run may be live, but the dispatch only holds its row so far
    rcases hpc with hpc | hpc
    · obtain rfl : pc = .markRunning id l := hpc
      exact exclusive_launchFailed hx rfl fun hoverlap => (by cases hoverlap)
    · obtain rfl : pc = .afterLaunch id l := hpc
      exact exclusive_launchFailed hx rfl fun hoverlap => (by cases hoverlap)
  | @failRun uuid id f hpc =>
    obtain rfl : pc = .failRun id f := hpc
    have hlive : ∀ o ∈ s.live.map LaunchedRun.occupant, o.2 ≠ id := by
      intro o ho hrow
      obtain ⟨r, hr, rfl⟩ := List.mem_map.mp ho
      exact hsafe ⟨_, rfl⟩ (.inr ⟨r, hr, hrow⟩)
    exact (hx.update (.inl (hx.row_unused rfl rfl hlive))).goOn rfl rfl
      fun _ _ _ hpc => (by cases hpc)

structure SchedulerState.Exclusive (s : SchedulerState) : Prop where
  stopped : s.started = false → s.calls = [] ∧ s.live = []
  runs : Scheduler.Exclusive s.runs (s.live.map LaunchedRun.occupant) s.calls

theorem exclusive_enter (hs : s.Exclusive) (task : ScheduledTaskRow) (trigger : Trigger) (now : Int)
    (uuid : String) : Exclusive s.runs (s.live.map LaunchedRun.occupant)
      (s.calls ++ [.enter task trigger now uuid]) := by
  have hentered : Exclusive s.runs (s.live.map LaunchedRun.occupant)
      (.enter task trigger now uuid :: s.calls) := by
    rcases DispatchCall.enter_pc task trigger now uuid with hpc | hpc
    · exact hs.runs.enter (by rw [DispatchCall.held, hpc]) (by rw [DispatchCall.occupant?, hpc])
    · exact hs.runs.enter (by rw [DispatchCall.held, hpc]) (by rw [DispatchCall.occupant?, hpc])
  exact hentered.perm (.refl _) (List.perm_append_singleton _ _).symm

theorem exclusive_step {event : SchedulerEvent} (h : SchedulerStep env s event t)
    (hp : s.Provenance) (hs : s.Exclusive) (hsafe : ¬ s.BreaksSkip event) : t.Exclusive := by
  have hstart : ∀ {p : Prop}, s.started = true → s.started = false → p := by
    intro p htrue hfalse
    rw [htrue] at hfalse
    cases hfalse
  cases h with
  | quiet | createTask | writeTask | deleteTask | pollClaim | hookUpdate =>
    exact ⟨hs.stopped, hs.runs⟩
  | trigger hstarted | pollDispatch hstarted => exact ⟨hstart hstarted, exclusive_enter hs _ _ _ _⟩
  | @dispatch i event c next u hstarted hcall hstep =>
    obtain ⟨hcalls, -, -, hsame⟩ := hstep.frame
    refine ⟨fun hfalse => ?_, ?_⟩
    · rw [SchedulerState.resume_started, hsame] at hfalse
      exact hstart hstarted hfalse
    · obtain ⟨task, -, hof⟩ := hp.calls c (List.mem_of_getElem? hcall)
      have hx := hs.runs.perm (.refl _) (perm_of_getElem? hcall)
      have hdone := exclusive_dispatch hstep hx hof.overlapPolicy (by
        rintro ⟨uuid, rfl⟩ hbreaks
        exact hsafe ⟨c, hcall, hbreaks⟩)
      rw [SchedulerState.resume_runs, SchedulerState.resume_live]
      exact hdone.perm (.refl _) (hcalls ▸ resume_calls (hcalls ▸ hcall)).symm
  | @endRun i r status error hstarted hrun =>
    refine ⟨hstart hstarted, ?_⟩
    obtain ⟨hi, -⟩ := List.getElem?_eq_some_iff.mp hrun
    have hlive := (perm_of_getElem? hrun).map LaunchedRun.occupant
    have hset := (List.set_perm_cons_eraseIdx hi { r with ended := some (status, error) }).map
      LaunchedRun.occupant
    exact hs.runs.perm (hlive.trans hset.symm) (.refl _)
  | leave hstarted hrun =>
    exact ⟨hstart hstarted, hs.runs.sublist ((List.eraseIdx_sublist _ _).map _) (.refl _)⟩
  | @hookRun i now raises r u hooks hstarted hrun =>
    have hlive := (perm_of_getElem? hrun).map LaunchedRun.occupant
    exact ⟨hstart hstarted, hs.runs.leave hlive u⟩
  | crash => exact ⟨fun _ => ⟨rfl, rfl⟩, hs.runs.sublist (List.nil_sublist _) (List.nil_sublist _)⟩
  | @start now sweepsRuns sweepsTasks hstopped =>
    obtain ⟨hcalls, hlive⟩ := hs.stopped hstopped
    refine ⟨fun hfalse => (by cases hfalse), ?_⟩
    unfold SchedulerState.start
    simp only [hcalls, hlive]
    exact ⟨List.nodup_nil, fun o ho => (by cases ho), List.nodup_nil, fun c hc => (by cases hc),
      fun c hc => (by cases hc)⟩

end Steps

section Results
variable {env : ServiceEnv} {s : SchedulerState}

theorem noOverlap_of_exclusive (h : s.Exclusive) : s.NoOverlap := by
  intro taskId
  have hnodup : (s.live.map LaunchedRun.taskId).Nodup := by
    have halone := h.runs.alone
    unfold occupants at halone
    rw [List.map_append, List.map_map] at halone
    exact halone.of_append_left
  have hcount := List.nodup_iff_count_le_one.mp hnodup taskId
  rw [List.count_eq_countP, List.countP_map, List.countP_eq_length_filter] at hcount
  exact hcount

/-- While no dispatch creates its run after another has become active, and none fails the row
of a live run, at most one run of a task is live. -/
theorem skip_holds
    (h : Reachable ((scheduler env).when fun s event => ¬ s.BreaksSkip event) s) :
    s.NoOverlap := by
  apply noOverlap_of_exclusive
  refine h.invariant ?_ fun s event t hs hx hstep => ?_
  · rintro s rfl
    exact ⟨fun _ => ⟨rfl, rfl⟩, List.nodup_nil, fun o ho => (by cases ho), List.nodup_nil,
      fun c hc => (by cases hc), fun c hc => (by cases hc)⟩
  · exact exclusive_step (scheduler_cases hstep.2) (provenance_of_reachable hs.of_when) hx hstep.1

namespace OverlapRun

def trigger (uuid : String) : SchedulerEvent := .trigger "task-0" "user" 7 uuid

def begun (events : List SchedulerEvent) : List (SchedulerState → SchedulerEvent) :=
  (.start 0 true true :: .createTask (.hourly .freshThreadPerRun) :: events).map fun event _ => event

/-- A run is launched and completed before the task is triggered again. -/
def oneByOne : List (SchedulerState → SchedulerEvent) :=
  begun [trigger "a", .dispatch 0 (.succeeds ""), .dispatch 0 (.succeeds "0"),
    .dispatch 0 (.launches "run-0"), .dispatch 0 (.succeeds ""), .dispatch 0 (.succeeds ""),
    .endRun 0 .success none, .hookRun 0 9 false,
    trigger "b", .dispatch 0 (.succeeds ""), .dispatch 0 (.succeeds "1"),
    .dispatch 0 (.launches "run-1")]

/-- Two dispatches look for an active run before either creates its own. -/
def raced : List (SchedulerState → SchedulerEvent) :=
  begun [trigger "a", trigger "b", .dispatch 0 (.succeeds ""), .dispatch 1 (.succeeds ""),
    .dispatch 0 (.succeeds "0"), .dispatch 1 (.succeeds "1"),
    .dispatch 0 (.launches "run-0"), .dispatch 1 (.launches "run-1")]

/-- The database fails after the launch, and the run is marked as failed. -/
def unrecorded : List (SchedulerState → SchedulerEvent) :=
  begun [trigger "a", .dispatch 0 (.succeeds ""), .dispatch 0 (.succeeds "0"),
    .dispatch 0 (.launches "run-0"), .dispatch 0 (.raises "database is locked"),
    .dispatch 0 (.succeeds ""), .dispatch 0 (.succeeds ""),
    trigger "b", .dispatch 0 (.succeeds ""), .dispatch 0 (.succeeds "1"),
    .dispatch 0 (.launches "run-1")]

end OverlapRun

theorem skip_holds_one_by_one :
    ∃ s, Reachable ((scheduler .hourly).when fun s event => ¬ s.BreaksSkip event) s ∧
      s.live.map LaunchedRun.runId = ["run-1"] ∧ s.NoOverlap := by
  have hrun : (runScript (guarded (fun s event => ¬ SchedulerState.BreaksSkip s event)
      (SchedulerState.step .hourly)) .init OverlapRun.oneByOne).any (fun s =>
        decide (s.live.map LaunchedRun.runId = ["run-1"])) = true := by
    decide +kernel
  obtain ⟨s, hs, h⟩ := exists_reachable_of_decide _ hrun
  exact ⟨s, when_of_guarded hs, h, skip_holds (when_of_guarded hs)⟩

/-- Two runs of a task are live, by either of the two ways. -/
theorem skip_fails_by_race_and_by_bookkeeping :
    (runScript (SchedulerState.step .hourly) .init OverlapRun.raced).any (fun s =>
        s.live.map LaunchedRun.taskId = ["task-0", "task-0"]) = true ∧
      (runScript (SchedulerState.step .hourly) .init OverlapRun.unrecorded).any (fun s =>
        s.live.map LaunchedRun.taskId = ["task-0", "task-0"]) = true ∧
      ¬ ∀ s, Reachable (scheduler .hourly) s → s.NoOverlap := by
  have hraced : (runScript (SchedulerState.step .hourly) .init OverlapRun.raced).any (fun s =>
      s.live.map LaunchedRun.taskId = ["task-0", "task-0"]) = true := by
    decide +kernel
  refine ⟨hraced, by decide +kernel, fun hall => ?_⟩
  obtain ⟨s, hs, h⟩ := exists_reachable_of_runScript _ hraced
  have hlive : s.live.map LaunchedRun.taskId = ["task-0", "task-0"] := of_decide_eq_true h
  have hone := hall s hs "task-0"
  have htwo : (s.live.filter fun r => r.taskId = "task-0").length = 2 := by
    rw [← List.countP_eq_length_filter]
    have hcount : (s.live.map LaunchedRun.taskId).countP (fun id => id = "task-0") = 2 := by
      rw [hlive]
      decide
    rw [List.countP_map] at hcount
    exact hcount
  omega

end Results

end DeerFlow.Scheduler
