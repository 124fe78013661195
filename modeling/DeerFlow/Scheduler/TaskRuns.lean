import DeerFlow.Scheduler.TaskAccounts

/-! The rows of the runs are truthful: one is active only while a dispatch or a live run
answers for it, and a terminal one keeps its status. A dispatch that ends without writing
its row breaks the first, and one that records a failure over what a run has done the second. -/

namespace DeerFlow.Scheduler
open Transition DeerFlow.Runtime

section Truth

namespace SchedulerState

def RunLive (s : SchedulerState) (id : String) : Prop := ∃ l ∈ s.live, l.taskRunId = id

structure RowsTruthful (s : SchedulerState) : Prop where
  active : ∀ id, s.runs.Active id → (∃ c ∈ s.calls, c.held = some id) ∨ s.RunLive id
  live : ∀ l ∈ s.live, s.runs.Active l.taskRunId

/-- `count_active_runs` and `has_active_runs` count the live runs, and at most the dispatches in
progress beside them. -/
structure CountsLiveWork (s : SchedulerState) : Prop where
  live : (s.live.length : Int) ≤ s.runs.countActiveRuns
  budget : s.runs.countActiveRuns ≤ s.live.length + (s.calls.filterMap DispatchCall.held).length
  seen : ∀ l ∈ s.live, s.runs.hasActiveRuns l.taskId = true
  blocked : ∀ taskId, s.runs.hasActiveRuns taskId = true →
    (∃ l ∈ s.live, l.taskId = taskId) ∨ ∃ c ∈ s.calls, c.held.isSome = true ∧ c.task.id = taskId

/-- The row is active, and no live run will end it. -/
def Orphaned (s : SchedulerState) (id : String) : Prop := s.runs.Active id ∧ ¬ s.RunLive id

/-- The dispatch ends, or its handler does, and leaves an orphaned row behind. -/
def AbandonsRow (env : ServiceEnv) (s : SchedulerState) (c : DispatchCall) : DispatchEvent → Prop
  | .succeeds _ =>
    match c.pc with
    | .create (some _) => (env.nextOf c.task c.now).isOk = false
    | .afterLaunch id _ => s.Orphaned id
    | _ => False
  | .launches _ => False
  | .launchRaises _ _ => (env.nextOf c.task c.now).isOk = false
  | .raises _ => (c.pc.launching = true → (env.nextOf c.task c.now).isOk = false) ∧
      ∃ id ∈ c.held, s.Orphaned id
  | .refreshRaises _ => True
  | .cancelled => ∃ id ∈ c.held, s.Orphaned id

/-- The dispatch records a failure, but its run is live or has ended otherwise. -/
def MisrecordsFailure (s : SchedulerState) (c : DispatchCall) : DispatchEvent → Prop
  | .succeeds _ =>
    match c.pc with
    | .failRun id _ => s.RunLive id ∨
        ∃ r ∈ s.runs.get id, r.status.isActive = false ∧ r.status ≠ .failed
    | _ => False
  | _ => False

/-- Apart from the dispatches, a completion hook that does not write its row abandons it, and
so does a start that does not sweep the rows. -/
def Untruthful (env : ServiceEnv) (s : SchedulerState) : SchedulerEvent → Prop
  | .dispatch i event =>
    ∃ c ∈ s.calls[i]?, s.AbandonsRow env c event ∨ s.MisrecordsFailure c event
  | .hookRun i _ raises => ∃ l ∈ s.live[i]?, ¬ l.Recorded raises ∧
      ∀ c ∈ s.calls, c.held ≠ some l.taskRunId
  | .start _ sweepsRuns _ => sweepsRuns = false ∧ ∃ r ∈ s.runs.rows, r.status.isActive = true
  | _ => False

instance (s : SchedulerState) (id : String) : Decidable (s.RunLive id) := by
  unfold RunLive
  infer_instance

instance (s : SchedulerState) (id : String) : Decidable (s.Orphaned id) :=
  inferInstanceAs (Decidable (_ ∧ _))

instance (env : ServiceEnv) (s : SchedulerState) (c : DispatchCall) (event : DispatchEvent) :
    Decidable (s.AbandonsRow env c event) := by
  unfold AbandonsRow
  rcases event with _ | _
  · rcases c.pc with _ | (_ | _) | _ <;> infer_instance
  all_goals infer_instance

instance (s : SchedulerState) (c : DispatchCall) (event : DispatchEvent) :
    Decidable (s.MisrecordsFailure c event) := by
  unfold MisrecordsFailure
  rcases event with _ | _
  · rcases c.pc with _ | _ <;> infer_instance
  all_goals infer_instance

instance (env : ServiceEnv) (s : SchedulerState) (event : SchedulerEvent) :
    Decidable (s.Untruthful env event) := by
  unfold Untruthful
  rcases event with _ | _ <;> infer_instance

end SchedulerState

end Truth

section Steps
variable {env : ServiceEnv} {s t : SchedulerState} {c d : DispatchCall} {rest : List DispatchCall}

theorem runLive_iff {id : String} :
    s.RunLive id ↔ ∃ o ∈ s.live.map LaunchedRun.occupant, o.2 = id := by
  constructor
  · rintro ⟨l, hl, hrow⟩
    exact ⟨_, List.mem_map_of_mem hl, hrow⟩
  · rintro ⟨o, ho, hrow⟩
    obtain ⟨l, hl, rfl⟩ := List.mem_map.mp ho
    exact ⟨l, hl, hrow⟩

theorem live_of_not_orphaned {id : String} (h : ¬ s.Orphaned id) (hactive : s.runs.Active id) :
    ∃ o ∈ s.live.map LaunchedRun.occupant, o.2 = id := by
  apply runLive_iff.mp
  by_contra hlive
  exact h ⟨hactive, hlive⟩

/-- After a failure the dispatch still answers for its row, unless it has no schedule. -/
theorem accounted_launchFailed {runs : TaskRunTable} {live : List (String × String)}
    {id error : String} {overlap : Bool} (ha : Accounted runs live (d :: rest))
    (hheld : d.held = some id) (htask : d.task = c.task)
    (hskip : overlap = true → runs.Active id ∧ ∀ o ∈ live, o.2 ≠ id)
    (hend : (env.nextOf c.task c.now).isOk = false → runs.Active id → ∃ o ∈ live, o.2 = id) :
    Accounted runs live ((c.launchFailed env id error overlap).calls c ++ rest) := by
  have hknown : ∀ k ∈ some id, ∃ r ∈ runs.get k, r.taskId = c.task.id := by
    intro k hk
    rw [← htask]
    exact (ha.dispatches d (List.mem_cons_self ..)).known k (hheld.trans hk)
  rcases launchFailed_next env c id error overlap with ⟨pc, hgo⟩ | ⟨hraises, hunplanned⟩
  · rw [hgo]
    rcases launchFailed_goOn hgo with ⟨hoverlap, nextAt, rfl⟩ | ⟨f, rfl⟩
    · refine ha.goOn hheld.symm ⟨hknown, fun k hk => ?_, fun k hk => (by cases hk)⟩
      cases hk
      exact hskip hoverlap
    · exact ha.goOn hheld.symm ⟨hknown, fun k hk => (by cases hk), fun k hk => (by cases hk)⟩
  · rw [hraises]
    refine ha.finish fun k hk hactive => ?_
    obtain rfl := Option.some.inj (hheld.symm.trans hk)
    exact hend hunplanned hactive

theorem accounted_dispatch {event : DispatchEvent} {next : DispatchNext}
    (h : DispatchStep env s c event next t)
    (ha : Accounted s.runs (s.live.map LaunchedRun.occupant) (c :: rest))
    (hsafe : ¬ (s.AbandonsRow env c event ∨ s.MisrecordsFailure c event)) :
    Accounted t.runs (t.live.map LaunchedRun.occupant) (next.calls c ++ rest) := by
  have hcall := ha.dispatches c (List.mem_cons_self ..)
  have hunheld : c.held = none → Accounted s.runs (s.live.map LaunchedRun.occupant) rest :=
    fun hnone => ha.finish fun id hid => (by rw [hnone] at hid; cases hid)
  have hended : ∀ id, c.pc.ended? = some id →
      Accounted s.runs (s.live.map LaunchedRun.occupant) rest := by
    intro id hid
    refine ha.finish fun k hk hactive => ?_
    obtain rfl := Option.some.inj ((DispatchCall.held_of_ended hid).symm.trans hk)
    exact absurd hactive (hcall.ended id hid)
  have hquits : (¬ ∃ id ∈ c.held, s.Orphaned id) →
      Accounted s.runs (s.live.map LaunchedRun.occupant) rest := by
    intro hnone
    exact ha.finish fun id hid hactive =>
      live_of_not_orphaned (fun horphaned => hnone ⟨id, hid, horphaned⟩) hactive
  -- the row goes over to the run at the launch; a dispatch that ends before leaves none behind
  obtain ⟨task, trigger, now, threadId, pc⟩ := c
  cases h with
  | conflict hpc =>
    obtain rfl : pc = .check := hpc
    exact hunheld rfl
  | skip hpc | free hpc =>
    obtain rfl : pc = .check := hpc
    exact (hunheld rfl).enter rfl
  | create hpc hnew =>
    obtain rfl : pc = .create none := hpc
    exact (hunheld rfl).create hnew rfl rfl rfl rfl
  | @createSkipped uuid error hpc hnew =>
    obtain rfl : pc = .create (some error) := hpc
    rcases finalizeSkip_next env ⟨task, trigger, now, threadId, .create (some error)⟩
      ("task-run-" ++ uuid) error with ⟨pc', hgo⟩ | ⟨-, hunplanned⟩
    · rw [hgo]
      obtain ⟨nextAt, rfl⟩ := finalizeSkip_goOn hgo
      exact (hunheld rfl).create hnew rfl rfl rfl rfl
    · exact absurd (.inl hunplanned) hsafe
  | unrefreshed => exact absurd (.inl trivial) hsafe
  | @skipRun uuid id error nextAt hpc =>
    obtain rfl : pc = .skipRun id error nextAt := hpc
    exact ha.endRow rfl (hcall.pending id rfl).2 (fun _ => rfl) rfl rfl rfl
  | @skipTask uuid id error nextAt result hpc =>
    obtain rfl : pc = .skipTask id error nextAt := hpc
    exact hended id rfl
  | @launch runId id nextAt hpc =>
    obtain rfl : pc = .launch id := hpc
    have hlaunched := ha.launch (d := ⟨task, trigger, now, threadId, .markRunning id ⟨runId, nextAt,
      DispatchCall.taskStatusForLaunch task trigger⟩⟩) rfl rfl rfl rfl rfl
    rw [List.map_append]
    exact hlaunched.perm (List.perm_append_singleton _ _).symm (.refl _)
  | @launchUnplanned runId id error hpc =>
    obtain rfl : pc = .launch id := hpc
    have hlaunched := ha.launch (d := ⟨task, trigger, now, threadId, .failRun id
      ⟨error, false, none⟩⟩) rfl rfl rfl rfl rfl
    rw [List.map_append]
    refine (accounted_launchFailed hlaunched rfl rfl ?_ ?_).perm
      (List.perm_append_singleton _ _).symm (.refl _)
    · exact nofun
    · exact fun _ _ => ⟨_, List.mem_cons_self .., rfl⟩
  | @launchRaises id error overlap hpc =>
    obtain rfl : pc = .launch id := hpc
    exact accounted_launchFailed ha rfl rfl (fun _ => hcall.pending id rfl)
      fun hunplanned => absurd (.inl hunplanned) hsafe
  | @markRunning uuid id l hpc =>
    obtain rfl : pc = .markRunning id l := hpc
    refine (ha.rewrite (DispatchCall.launchUpdate_active _ l)).goOn rfl ⟨?_, ?_, ?_⟩
    · exact ((ha.rewrite (DispatchCall.launchUpdate_active _ l)).dispatches _
        (List.mem_cons_self ..)).known
    · exact fun k hk => (by cases hk)
    · exact fun k hk => (by cases hk)
  | @afterLaunch uuid id l result hpc =>
    obtain rfl : pc = .afterLaunch id l := hpc
    refine hquits fun ⟨k, hk, horphaned⟩ => hsafe (.inl ?_)
    cases hk
    exact horphaned
  | @unrecorded id error l hpc =>
    have hend : ∀ {pc}, pc = .markRunning id l ∨ pc = .afterLaunch id l →
        ¬ s.AbandonsRow env ⟨task, trigger, now, threadId, pc⟩ (.raises error) →
        (env.nextOf task now).isOk = false → s.runs.Active id →
          ∃ o ∈ s.live.map LaunchedRun.occupant, o.2 = id := by
      intro pc hpc hsafe hunplanned hactive
      refine live_of_not_orphaned (fun horphaned => hsafe ⟨fun _ => hunplanned, id, ?_, horphaned⟩)
        hactive
      rcases hpc with rfl | rfl
      · rfl
      · rfl
    have hends := hend hpc fun habandons => hsafe (.inl habandons)
    rcases hpc with hpc | hpc
    · obtain rfl : pc = .markRunning id l := hpc
      exact accounted_launchFailed ha rfl rfl (nofun) hends
    · obtain rfl : pc = .afterLaunch id l := hpc
      exact accounted_launchFailed ha rfl rfl (nofun) hends
  | @failRun uuid id f hpc =>
    obtain rfl : pc = .failRun id f := hpc
    refine ha.endRow rfl (fun o ho hrow => ?_) (fun _ => rfl) rfl rfl rfl
    exact hsafe (.inr (.inl (runLive_iff.mpr ⟨o, ho, hrow⟩)))
  | @failTask uuid id f result hpc =>
    obtain rfl : pc = .failTask id f := hpc
    exact hended id rfl
  | raises hpc =>
    refine hquits fun horphaned => hsafe (.inl ⟨fun hlaunching => ?_, horphaned⟩)
    rw [hpc] at hlaunching
    cases hlaunching
  | cancelled => exact hquits fun horphaned => hsafe (.inl horphaned)

structure SchedulerState.Accounted (s : SchedulerState) : Prop where
  stopped : s.started = false → s.calls = [] ∧ s.live = []
  runs : s.started = true → Scheduler.Accounted s.runs (s.live.map LaunchedRun.occupant) s.calls

theorem accounted_enter (ha : Accounted s.runs (s.live.map LaunchedRun.occupant) s.calls)
    (task : ScheduledTaskRow) (trigger : Trigger) (now : Int) (uuid : String) :
    Accounted s.runs (s.live.map LaunchedRun.occupant)
      (s.calls ++ [.enter task trigger now uuid]) := by
  have hheld : (DispatchCall.enter task trigger now uuid).held = none := by
    rcases DispatchCall.enter_pc task trigger now uuid with hpc | hpc
    · rw [DispatchCall.held, hpc]
    · rw [DispatchCall.held, hpc]
  exact (ha.enter hheld).perm (.refl _) (List.perm_append_singleton _ _).symm

theorem accounted_start {now : Int} {sweepsRuns sweepsTasks : Bool}
    (hstopped : s.calls = [] ∧ s.live = [])
    (hsafe : ¬ s.Untruthful env (.start now sweepsRuns sweepsTasks)) :
    Accounted (s.start now sweepsRuns sweepsTasks).runs
      ((s.start now sweepsRuns sweepsTasks).live.map LaunchedRun.occupant)
      (s.start now sweepsRuns sweepsTasks).calls := by
  obtain ⟨hcalls, hlive⟩ := hstopped
  have hnone : ∀ id, ¬ (s.start now sweepsRuns sweepsTasks).runs.Active id := by
    intro id hactive
    cases sweepsRuns with
    | true => exact TaskRunTable.active_markStaleActiveRuns hactive
    | false =>
      obtain ⟨r, hr, hactive⟩ := hactive
      exact hsafe ⟨rfl, r, Table.mem_of_get hr, hactive⟩
  unfold SchedulerState.start at hnone ⊢
  simp only [hcalls, hlive]
  exact ⟨fun id hactive => absurd hactive (hnone id), fun o ho => (by cases ho), List.nodup_nil,
    List.nodup_nil, fun c hc => (by cases hc)⟩

theorem accounted_step {event : SchedulerEvent} (h : SchedulerStep env s event t)
    (ha : s.Accounted) (hsafe : ¬ s.Untruthful env event) : t.Accounted := by
  have hnever : ∀ {p : Prop}, s.started = true → s.started = false → p := by
    intro p htrue hfalse
    rw [htrue] at hfalse
    cases hfalse
  cases h with
  | quiet | createTask | writeTask | deleteTask | pollClaim | hookUpdate =>
    exact ⟨ha.stopped, ha.runs⟩
  | trigger hstarted | pollDispatch hstarted =>
    exact ⟨hnever hstarted, fun _ => accounted_enter (ha.runs hstarted) _ _ _ _⟩
  | @dispatch i event c next u hstarted hcall hstep =>
    obtain ⟨hcalls, -, -, hsame⟩ := hstep.frame
    refine ⟨fun hfalse => ?_, fun _ => ?_⟩
    · rw [SchedulerState.resume_started, hsame] at hfalse
      exact hnever hstarted hfalse
    · -- the dispatch that moves is put first, and back again after its step
      have hx := (ha.runs hstarted).perm (.refl _) (perm_of_getElem? hcall)
      have hdone := accounted_dispatch hstep hx fun hbad => hsafe ⟨c, hcall, hbad⟩
      rw [SchedulerState.resume_runs, SchedulerState.resume_live]
      exact hdone.perm (.refl _) (hcalls ▸ resume_calls (hcalls ▸ hcall)).symm
  | @endRun i r status error hstarted hrun =>
    refine ⟨hnever hstarted, fun _ => ?_⟩
    obtain ⟨hi, -⟩ := List.getElem?_eq_some_iff.mp hrun
    have hlive := (perm_of_getElem? hrun).map LaunchedRun.occupant
    have hset := (List.set_perm_cons_eraseIdx hi { r with ended := some (status, error) }).map
      LaunchedRun.occupant
    exact (ha.runs hstarted).perm (hlive.trans hset.symm) (.refl _)
  | @leave i now raises r hstarted hrun hlost =>
    refine ⟨hnever hstarted, fun _ => ?_⟩
    have hlive := (perm_of_getElem? hrun).map LaunchedRun.occupant
    refine ((ha.runs hstarted).perm hlive (.refl _)).lose ?_
    by_contra hnone
    exact hsafe ⟨r, hrun, hlost, fun c hc hheld => hnone ⟨c, hc, hheld⟩⟩
  | @hookRun i now raises r u hooks hstarted hrun hended =>
    refine ⟨hnever hstarted, fun _ => ?_⟩
    have hlive := (perm_of_getElem? hrun).map LaunchedRun.occupant
    refine ((ha.runs hstarted).perm hlive (.refl _)).leave fun x => ?_
    unfold RunUpdate.apply
    split
    · next hkept => simpa using (Bool.and_eq_true_iff.mp hkept).2
    · exact hended
  | crash => exact ⟨fun _ => ⟨rfl, rfl⟩, nofun⟩
  | start hstopped =>
    exact ⟨nofun, fun _ => accounted_start (ha.stopped hstopped) hsafe⟩

theorem fixed_dispatch {event : DispatchEvent} {next : DispatchNext}
    (h : DispatchStep env s c event next t) (hcall : c.Accounts s.runs
      (s.live.map LaunchedRun.occupant))
    (hsafe : ¬ (s.AbandonsRow env c event ∨ s.MisrecordsFailure c event)) :
    s.runs.Fixed t.runs := by
  obtain ⟨task, trigger, now, threadId, pc⟩ := c
  cases h with
  | create _ hnew | createSkipped _ hnew | unrefreshed _ hnew => exact TaskRunTable.fixed_put hnew
  | @skipRun uuid id error nextAt hpc =>
    obtain rfl : pc = .skipRun id error nextAt := hpc
    refine TaskRunTable.fixed_updateStatus fun r hr hended => ?_
    -- the row is still active, since its run was not launched
    obtain ⟨⟨r', hr', hactive⟩, -⟩ := hcall.pending id rfl
    obtain rfl := Option.some.inj (hr.symm.trans hr')
    rw [hended] at hactive
    cases hactive
  | markRunning =>
    refine TaskRunTable.fixed_updateStatus fun r _ hended => ?_
    unfold RunUpdate.apply
    rw [if_pos (by rw [hended]; rfl)]
  | @failRun uuid id f hpc =>
    obtain rfl : pc = .failRun id f := hpc
    refine TaskRunTable.fixed_updateStatus fun r hr hended => ?_
    by_contra hchanged
    exact hsafe (.inr (.inr ⟨r, hr, hended, fun hfailed => hchanged hfailed.symm⟩))
  | _ => exact TaskRunTable.Fixed.refl _

theorem fixed_step {event : SchedulerEvent} (h : SchedulerStep env s event t)
    (ha : s.Accounted) (hsafe : ¬ s.Untruthful env event) : s.runs.Fixed t.runs := by
  cases h with
  | dispatch hstarted hcall hstep =>
    rw [SchedulerState.resume_runs]
    exact fixed_dispatch hstep ((ha.runs hstarted).dispatches _ (List.mem_of_getElem? hcall))
      fun hbad => hsafe ⟨_, hcall, hbad⟩
  | hookRun hstarted hrun =>
    refine TaskRunTable.fixed_updateStatus fun x hx hended => ?_
    -- the row of a live run is active
    obtain ⟨r', hr', -, hactive⟩ := (ha.runs hstarted).present _
      (List.mem_map_of_mem (List.mem_of_getElem? hrun))
    obtain rfl := Option.some.inj (hx.symm.trans hr')
    rw [hended] at hactive
    cases hactive
  | @start now sweepsRuns sweepsTasks _ =>
    unfold SchedulerState.start
    cases sweepsRuns with
    | true => exact TaskRunTable.fixed_markStaleActiveRuns _ _ _
    | false => exact TaskRunTable.Fixed.refl _
  | _ => exact TaskRunTable.Fixed.refl _

end Steps

section Results
variable {env : ServiceEnv} {s t : SchedulerState}

theorem truthful_of_accounted
    (ha : Accounted s.runs (s.live.map LaunchedRun.occupant) s.calls) : s.RowsTruthful where
  active id hactive := (ha.active id hactive).imp_right runLive_iff.mpr
  live l hl := by
    obtain ⟨r, hr, -, hactive⟩ := ha.present _ (List.mem_map_of_mem hl)
    exact ⟨r, hr, hactive⟩

theorem counts_of_accounted
    (ha : Accounted s.runs (s.live.map LaunchedRun.occupant) s.calls) : s.CountsLiveWork where
  live := by
    -- each live run has an active row of its own
    have hsub : (s.live.map LaunchedRun.taskRunId) ⊆ s.runs.activeIds := by
      intro id hid
      obtain ⟨l, hl, rfl⟩ := List.mem_map.mp hid
      exact TaskRunTable.mem_activeIds.mpr ((truthful_of_accounted ha).live l hl)
    have hnodup : (s.live.map LaunchedRun.taskRunId).Nodup := by
      have halone := ha.alone
      rwa [List.map_map] at halone
    have hle := (List.subperm_of_subset hnodup hsub).length_le
    rw [List.length_map] at hle
    rw [TaskRunTable.countActiveRuns_eq]
    exact_mod_cast hle
  budget := by
    -- an active row is that of a live run, or a dispatch holds it
    have hsub : s.runs.activeIds ⊆
        s.live.map LaunchedRun.taskRunId ++ s.calls.filterMap DispatchCall.held := by
      intro id hid
      rcases (truthful_of_accounted ha).active id (TaskRunTable.mem_activeIds.mp hid) with
        ⟨c, hc, hheld⟩ | ⟨l, hl, hrow⟩
      · exact List.mem_append_right _ (List.mem_filterMap.mpr ⟨c, hc, hheld⟩)
      · exact List.mem_append_left _ (List.mem_map.mpr ⟨l, hl, hrow⟩)
    have hnodup : s.runs.activeIds.Nodup := s.runs.nodup.sublist (List.filter_sublist.map _)
    have hle := (List.subperm_of_subset hnodup hsub).length_le
    rw [List.length_append, List.length_map] at hle
    rw [TaskRunTable.countActiveRuns_eq]
    exact_mod_cast hle
  seen l hl := by
    obtain ⟨r, hr, htask, hactive⟩ := ha.present _ (List.mem_map_of_mem hl)
    exact TaskRunTable.hasActiveRuns_iff.mpr ⟨_, r, hr, htask, hactive⟩
  blocked taskId h := by
    obtain ⟨id, r, hr, rfl, hactive⟩ := TaskRunTable.hasActiveRuns_iff.mp h
    rcases ha.active id ⟨r, hr, hactive⟩ with ⟨c, hc, hheld⟩ | ⟨o, ho, hrow⟩
    · obtain ⟨r', hr', htask⟩ := (ha.dispatches c hc).known id hheld
      obtain rfl := Option.some.inj (hr.symm.trans hr')
      exact .inr ⟨c, hc, by rw [hheld]; rfl, htask.symm⟩
    · obtain ⟨l, hl, rfl⟩ := List.mem_map.mp ho
      obtain ⟨r', hr', htask, -⟩ := ha.present _ ho
      rw [hrow] at hr'
      obtain rfl := Option.some.inj (hr.symm.trans hr')
      exact .inl ⟨l, hl, htask.symm⟩

theorem accounted_of_reachable
    (h : Reachable ((scheduler env).when fun s event => ¬ s.Untruthful env event) s) :
    s.Accounted := by
  refine h.invariant ?_ fun s event t _ ha hstep => ?_
  · rintro s rfl
    exact ⟨fun _ => ⟨rfl, rfl⟩, nofun⟩
  · exact accounted_step (scheduler_cases hstep.2) ha hstep.1

namespace RowsRun

def begun (events : List SchedulerEvent) : List (SchedulerState → SchedulerEvent) :=
  (.start 0 true true :: .createTask (.hourly .freshThreadPerRun) ::
    .trigger "task-0" "user" 7 "a" :: .dispatch 0 (.succeeds "") :: .dispatch 0 (.succeeds "0") ::
      events).map fun event _ => event

/-- A launch fails, and its failure is recorded; the next one is launched and completed. -/
def recorded : List (SchedulerState → SchedulerEvent) :=
  begun [.dispatch 0 (.launchRaises "no such model" false), .dispatch 0 (.succeeds ""),
    .dispatch 0 (.succeeds ""), .trigger "task-0" "user" 8 "b", .dispatch 0 (.succeeds ""),
    .dispatch 0 (.succeeds "1"), .dispatch 0 (.launches "run-1"), .dispatch 0 (.succeeds ""),
    .dispatch 0 (.succeeds ""), .endRun 0 .success none, .hookRun 0 9 false]

/-- The launch fails, and so does the database when the failure is to be recorded. -/
def abandoned : List (SchedulerState → SchedulerEvent) :=
  begun [.dispatch 0 (.launchRaises "no such model" false), .dispatch 0 (.raises "database is locked")]

def succeeded : List (SchedulerState → SchedulerEvent) :=
  begun [.dispatch 0 (.launches "run-0"), .endRun 0 .success none, .hookRun 0 9 false]

def failed : List (SchedulerState → SchedulerEvent) :=
  [fun _ => .dispatch 0 (.raises "database is locked"), fun _ => .dispatch 0 (.succeeds "")]

end RowsRun

end Results

end DeerFlow.Scheduler
