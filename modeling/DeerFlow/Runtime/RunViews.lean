import DeerFlow.Runtime.RunLifecycle

/-! One run among the others: what a step of the system can do to the record, the
task and the start of a single run. Every invariant of the runs is derived from
this list of cases. -/

namespace DeerFlow.Runtime
open Transition

section Tables
variable {m : RunManager} {k : String}

theorem RunManager.control_modify (m : RunManager) (runId k : String) {f : RunRecord → RunRecord}
    {g : RunControl → RunControl} (hf : ∀ r, (f r).control = g r.control) :
    (m.modify runId f).control k = if k = runId then (m.control k).map g else m.control k := by
  have hcomp : RunRecord.control ∘ f = g ∘ RunRecord.control := funext hf
  unfold RunManager.control
  rw [get_modify]
  split_ifs with hk
  · rw [hk, Option.map_map, Option.map_map, hcomp]
  · rfl

theorem RunManager.control_abortAll (m : RunManager) (action : AbortAction) (active : List String)
    (now : String) (runIds : List String) (k : String) :
    (m.abortAll action active now runIds).control k =
      if k ∈ runIds then (m.control k).map fun c => c.abort action (active.contains k)
      else m.control k := by
  unfold RunManager.abortAll
  induction runIds generalizing m with
  | nil => simp
  | cons runId runIds ih =>
    rw [List.foldl_cons, ih, control_modify m runId k (g := fun c => c.abort action
      (active.contains runId)) fun _ => rfl]
    by_cases hk : k = runId
    · subst hk
      -- aborting a run twice is aborting it once
      rcases m.control k with _ | c
      · simp
      · simp [RunControl.abort]
    · simp [hk]

theorem RunManager.control_drop (m : RunManager) (runId k : String) :
    (m.drop runId).control k = if k = runId then none else m.control k := by
  unfold RunManager.control
  rw [RunManager.get_drop]
  split_ifs <;> rfl

theorem RunOutcome.status_not_busy (outcome : RunOutcome) :
    outcome.status ≠ .pending ∧ outcome.status ≠ .running := by
  cases outcome <;> simp [status]

theorem Dict.get_map_values {β : Type*} (d : Dict β) (p : String → Prop) [DecidablePred p]
    (f : β → β) (k : String) :
    Dict.get (d.map fun x => if p x.1 then (x.1, f x.2) else x) k =
      if p k then (d.get k).map f else d.get k := by
  induction d with
  | nil => simp
  | cons x d ih =>
    rw [List.map_cons, Dict.get_cons, Dict.get_cons, ih]
    by_cases hx : x.1 = k
    · subst hx
      split_ifs <;> rfl
    · have hne : (if p x.1 then (x.1, f x.2) else x).1 ≠ k := by
        split_ifs
        · exact hx
        · exact hx
      rw [if_neg hne, if_neg hx]

end Tables

section Admission
variable {m : RunManager} {c d : Registry} {b : RegistryEvent}

/-- What an admission knows of its thread: the runs that were in flight when it took the lock. -/
structure Creation.Admitted (creation : Creation) : Prop where
  complete : ∀ {k r}, creation.before.runs.get k = some r →
    r.threadId = creation.record.threadId → r.Inflight → k ∈ creation.inflight
  inflight : ∀ {k}, k ∈ creation.inflight → ∃ r, creation.before.runs.get k = some r ∧ r.Inflight
  aborts : creation.record.multitaskStrategy.aborts = none → creation.inflight = []

theorem RunManager.admission_ok {args : NewRun} {inflight : List String}
    (h : m.admission args = .ok inflight) :
    inflight = ((m.threadRecords args.threadId).filter fun r => r.Inflight).map RunRecord.runId ∧
      (args.multitaskStrategy.aborts = none → inflight = []) := by
  unfold RunManager.admission at h
  rcases hs : args.multitaskStrategy with _ | _ | _ | name
  · rw [hs] at h
    simp only at h
    split_ifs at h with hempty
    cases h
    rw [List.isEmpty_iff.mp hempty]
    exact ⟨rfl, fun _ => rfl⟩
  · rw [hs] at h
    exact ⟨(Except.ok.inj h).symm, nofun⟩
  · rw [hs] at h
    exact ⟨(Except.ok.inj h).symm, nofun⟩
  · rw [hs] at h
    cases h

theorem RunManager.Indexed.admitted (h : m.Indexed) {args : NewRun} {inflight : List String}
    (hadm : m.admission args = .ok inflight) (runId now : String) :
    Creation.Admitted ⟨.new args runId now, inflight, m⟩ := by
  obtain ⟨rfl, haborts⟩ := RunManager.admission_ok hadm
  refine ⟨?_, ?_, haborts⟩
  · intro k r hr hthread hflight
    obtain rfl := h.runId_of_get hr
    refine List.mem_map_of_mem (List.mem_filter.mpr ⟨?_, by simpa using hflight⟩)
    exact h.mem_threadRecords.mpr ⟨hr, hthread⟩
  · intro k hk
    obtain ⟨r, hr, rfl⟩ := List.mem_map.mp hk
    obtain ⟨hmem, hflight⟩ := List.mem_filter.mp hr
    exact ⟨r, (h.mem_threadRecords.mp hmem).1, by simpa using hflight⟩

/-- The steps of the registry that go with the steps of the runs: every run is admitted through
`create_or_reject`. -/
def RegistryEvent.Serves (e : RunEvent) : RegistryEvent → Prop
  | .create .. => False
  | .written _ => e = .written
  | _ => True

def Registry.Admitted (c : Registry) : Prop :=
  ∀ creation, c.holder = some creation → creation.Admitted

theorem Registry.admitted_of_free (h : c.holder = none) : c.Admitted := by
  intro creation hcreation
  rw [h] at hcreation
  cases hcreation

theorem Registry.Admitted.step {e : RunEvent} (h : c.Admitted) (hc : c.manager.Indexed)
    (hb : b.Serves e) (ht : b.step c = some d) : d.Admitted := by
  cases RegistryEvent.cases_step ht with
  | create => exact hb.elim
  | refused | trailed | trailCancelled | returned | record | cleanup =>
    exact fun creation hcreation => h creation hcreation
  | admitted hfree hnew hadm =>
    intro creation hcreation
    cases hcreation
    exact hc.admitted hadm _ _
  | written | writeFailed => exact Registry.admitted_of_free rfl

end Admission

section Calls
variable {s t : RunSystem} {e : RunEvent} {k runId : String}

@[simp] theorem RunSystem.call_eq_some {b : RegistryEvent} :
    s.call b = some t ↔ ∃ r, b.step s.registry = some r ∧ { s with registry := r } = t := by
  unfold RunSystem.call
  exact Option.map_eq_some_iff

theorem RunSystem.get_cancelTasks (s : RunSystem) (runIds : List String) (k : String) :
    (s.cancelTasks runIds).tasks.get k =
      if k ∈ runIds then (s.tasks.get k).map RunTask.cancel else s.tasks.get k :=
  Dict.get_map_values s.tasks (· ∈ runIds) RunTask.cancel k

theorem RunSystem.active_contains (s : RunSystem) (k : String) :
    s.active.contains k = (s.tasks.get k).any fun t => t.Active := by
  rw [Bool.eq_iff_iff, List.contains_iff_mem]
  unfold RunSystem.active
  rw [List.mem_filter, Dict.mem_keys]
  rcases s.tasks.get k with _ | t
  · simp
  · simp

/-- A task that runs on: what it finds, where it gets to and what it calls. -/
theorem RunEvent.task_step {move : TaskMove} {now : String}
    (ht : (RunEvent.task runId move now).step s = some t) : ∃ task task' call u,
      s.tasks.get runId = some task ∧ (move = .proceed → s.mayProceed runId task = true) ∧
      task.next (s.control runId) move = some (task', call) ∧
      s.taskCall runId now call = some u ∧ t = { u with tasks := u.tasks.set runId task' } := by
  simp only [RunEvent.step] at ht
  split at ht
  · cases ht
  · rename_i task htask
    split_ifs at ht with hmay
    split at ht
    · cases ht
    · rename_i task' call hnext
      obtain ⟨u, hu, rfl⟩ := Option.map_eq_some_iff.mp ht
      refine ⟨task, task', call, u, htask, ?_, hnext, hu, rfl⟩
      intro hmove
      simpa [hmove] using hmay

/-- The step of the registry that goes with a step of the runs. -/
theorem RunEvent.registry_step (ht : e.step s = some t) : t.registry = s.registry ∨
    ∃ b : RegistryEvent, b.Serves e ∧ b.step s.registry = some t.registry := by
  have hcall : ∀ {b : RegistryEvent} {u : RunSystem}, s.call b = some u →
      t.registry = u.registry → b.Serves e →
      ∃ b : RegistryEvent, b.Serves e ∧ b.step s.registry = some t.registry := by
    intro b u hu hreg hb
    obtain ⟨r, hr, rfl⟩ := RunSystem.call_eq_some.mp hu
    rw [hreg]
    exact ⟨b, hb, hr⟩
  cases e with
  | createOrReject | writeFailed | trailed | trailCancelled | updateModelName |
    updateRunCompletion | updateRunProgress | cleanup => exact .inr (hcall ht rfl trivial)
  | written =>
    obtain ⟨u, hu, rfl⟩ := Option.map_eq_some_iff.mp ht
    exact .inr (hcall hu rfl rfl)
  | returned i =>
    simp only [RunEvent.step] at ht
    split at ht
    · cases ht
    · obtain ⟨u, hu, rfl⟩ := Option.map_eq_some_iff.mp ht
      exact .inr (hcall hu rfl trivial)
  | startFails | attach =>
    simp only [RunEvent.step] at ht
    split_ifs at ht
    cases ht
    exact .inl rfl
  | cancel runId action now =>
    obtain ⟨u, hu, rfl⟩ := Option.map_eq_some_iff.mp ht
    refine .inr (hcall hu ?_ trivial)
    split_ifs <;> rfl
  | cancelTask =>
    cases ht
    exact .inl rfl
  | task runId move now =>
    obtain ⟨task, task', call, u, -, -, -, hu, rfl⟩ := RunEvent.task_step ht
    cases call with
    | none =>
      cases hu
      exact .inl rfl
    | setStatus | setFinalizing => exact .inr (hcall hu rfl trivial)

theorem RunSystem.registry_reachable (h : Reachable runSystem s) :
    Reachable Runtime.registry s.registry := by
  refine h.simulate RunSystem.registry ?_ ?_
  · intro s hs
    obtain rfl : s = .empty := hs
    rfl
  · intro s e t _ ht
    exact (RunEvent.registry_step ht).imp_right fun ⟨b, _, hb⟩ => ⟨b, hb⟩

theorem RunSystem.locked (h : Reachable runSystem s) : s.registry.Locked :=
  locked_of_reachable (registry_reachable h)

theorem RunSystem.admitted (h : Reachable runSystem s) : s.registry.Admitted := by
  refine h.invariant (I := fun s => s.registry.Admitted) ?_ ?_
  · intro s hs
    obtain rfl : s = .empty := hs
    exact Registry.admitted_of_free rfl
  · intro s e t hs had ht
    rcases RunEvent.registry_step ht with heq | ⟨b, hb, ht⟩
    · rw [heq]
      exact had
    · exact had.step (RunSystem.locked hs).indexed hb ht

end Calls

section Views
variable {s t : RunSystem} {e : RunEvent} {k : String}

/-- A run as it is seen on its own. -/
@[ext]
structure RunView where
  control : Option RunControl
  task : Option RunTask
  starting : Bool
  minted : Bool

def RunSystem.view (s : RunSystem) (runId : String) : RunView where
  control := s.control runId
  task := s.tasks.get runId
  starting := s.starting.contains runId
  minted := s.registry.minted.contains runId

/-- The runs whose `start_run` ends in a step without a task. -/
def RunSystem.unstarts (s : RunSystem) : RunEvent → List String
  | .startFails runId => [runId]
  | .trailCancelled i => (s.registry.trailing[i]?.map Trailing.runId).toList
  | _ => []

/-- What a step can do to the run `k`. -/
inductive RunView.Step (s : RunSystem) (e : RunEvent) (k : String) : RunView → Prop
  | same : Step s e k (s.view k)
  | created (args : NewRun) (now : String) : e = .createOrReject args k now →
      k ∉ s.registry.minted →
      Step s e k ⟨some (RunRecord.new args k now).control, s.tasks.get k, true, true⟩
  | gone (starting : Bool) : (starting = true → k ∈ s.starting) →
      Step s e k { s.view k with control := none, starting := starting }
  | unstarted (starting : Bool) : k ∈ s.unstarts e → (starting = true → k ∈ s.starting) →
      Step s e k { s.view k with starting := starting }
  | attached (starting : Bool) : k ∈ s.starting → s.tasks.get k = none →
      Step s e k { s.view k with task := some ⟨.created, false⟩, starting := starting }
  | aborted (c : RunControl) (action : AbortAction) : s.control k = some c → c.Busy →
      ((∃ action now, e = .cancel k action now) ∨ e = .written ∧ k ∈ s.aborting) →
      Step s e k { s.view k with
        control := some (c.abort action ((s.tasks.get k).any fun t => t.Active))
        task := (s.tasks.get k).map RunTask.cancel }
  | cancelled : e = .cancelTask k →
      Step s e k { s.view k with task := (s.tasks.get k).map RunTask.cancel }
  | ran (task task' : RunTask) (move : TaskMove) (call : TaskCall) (now : String) :
      e = .task k move now → s.tasks.get k = some task →
      task.next (s.control k) move = some (task', call) →
      Step s e k { s.view k with
        control := (s.control k).map call.apply
        task := some task' }

theorem contains_congr {xs ys : List String} (h : k ∈ xs ↔ k ∈ ys) :
    xs.contains k = ys.contains k := by
  rw [Bool.eq_iff_iff]
  simpa using h

theorem RunSystem.view_eq (hc : t.control k = s.control k) (hk : t.tasks.get k = s.tasks.get k)
    (hs : k ∈ t.starting ↔ k ∈ s.starting)
    (hm : k ∈ t.registry.minted ↔ k ∈ s.registry.minted) : t.view k = s.view k :=
  RunView.ext hc hk (contains_congr hs) (contains_congr hm)

/-- The methods that leave the life of a run alone. -/
theorem RunManager.control_modify_same {m : RunManager} {runId : String}
    {f : RunRecord → RunRecord} (hf : ∀ r, (f r).control = r.control) :
    (m.modify runId f).control k = m.control k := by
  rw [RunManager.control_modify m runId k (g := id) hf]
  split_ifs
  · exact Option.map_id_apply
  · rfl

theorem RegistryEvent.record_step {c d : Registry} {call : RecordCall}
    (h : (RegistryEvent.record call).step c = some d) :
    d = { c with manager := call.apply c.manager } := by
  cases RegistryEvent.cases_step h
  rfl

theorem RunView.Step.of_same (h : t.view k = s.view k) : RunView.Step s e k (t.view k) := by
  rw [h]
  exact .same

theorem RunView.Step.of_gone (hc : t.control k = none) (hk : t.tasks.get k = s.tasks.get k)
    (hs : k ∈ t.starting → k ∈ s.starting) (hm : t.registry.minted = s.registry.minted) :
    RunView.Step s e k (t.view k) := by
  have heq : t.view k = { s.view k with control := none, starting := t.starting.contains k } :=
    RunView.ext hc hk rfl (congrArg (List.contains · k) hm)
  rw [heq]
  exact .gone _ fun h => hs (List.contains_iff_mem.mp h)

theorem RunView.Step.of_unstarted (hk : k ∈ s.unstarts e) (hr : t.registry.manager = s.registry.manager)
    (ht : t.tasks = s.tasks) (hs : k ∈ t.starting → k ∈ s.starting)
    (hm : t.registry.minted = s.registry.minted) : RunView.Step s e k (t.view k) := by
  have heq : t.view k = { s.view k with starting := t.starting.contains k } :=
    RunView.ext (congrArg (RunManager.control · k) hr) (congrArg (Dict.get · k) ht) rfl
      (congrArg (List.contains · k) hm)
  rw [heq]
  exact .unstarted _ hk fun h => hs (List.contains_iff_mem.mp h)

theorem RunView.Step.of_attached (hmem : k ∈ s.starting) (hnone : s.tasks.get k = none)
    (hr : t.registry.manager = s.registry.manager)
    (ht : t.tasks.get k = some ⟨.created, false⟩) (hm : t.registry.minted = s.registry.minted) :
    RunView.Step s e k (t.view k) := by
  have heq : t.view k = { s.view k with
      task := some ⟨.created, false⟩, starting := t.starting.contains k } :=
    RunView.ext (congrArg (RunManager.control · k) hr) ht rfl (congrArg (List.contains · k) hm)
  rw [heq]
  exact .attached _ hmem hnone

theorem RunView.Step.of_aborted {c : RunControl} {action : AbortAction} (hc : s.control k = some c)
    (hbusy : c.Busy)
    (he : (∃ action now, e = .cancel k action now) ∨ e = .written ∧ k ∈ s.aborting)
    (hcontrol : t.control k = (s.control k).map fun c => c.abort action (s.active.contains k))
    (htask : t.tasks.get k = (s.tasks.get k).map RunTask.cancel)
    (hs : k ∈ t.starting ↔ k ∈ s.starting) (hm : t.registry.minted = s.registry.minted) :
    RunView.Step s e k (t.view k) := by
  rw [hc, Option.map_some, RunSystem.active_contains] at hcontrol
  have heq : t.view k = { s.view k with
      control := some (c.abort action ((s.tasks.get k).any fun t => t.Active))
      task := (s.tasks.get k).map RunTask.cancel } :=
    RunView.ext hcontrol htask (contains_congr hs) (congrArg (List.contains · k) hm)
  rw [heq]
  exact .aborted c action hc hbusy he

theorem RunView.Step.of_record {call : RecordCall} (ht : s.call (.record call) = some t)
    (hcall : (call.apply s.registry.manager).control k = s.control k) :
    RunView.Step s e k (t.view k) := by
  obtain ⟨r, hr, rfl⟩ := RunSystem.call_eq_some.mp ht
  rw [RegistryEvent.record_step hr]
  exact .of_same (RunSystem.view_eq hcall rfl Iff.rfl Iff.rfl)

theorem RunSystem.mem_starting : k ∈ s.starting ↔
    (∃ creation, s.registry.holder = some creation ∧ creation.record.runId = k) ∨
      (∃ call ∈ s.registry.trailing, call.runId = k) ∨ k ∈ s.preparing := by
  unfold RunSystem.starting
  rcases s.registry.holder with _ | creation
  · simp
  · simp [eq_comm]

theorem RunView.step_createOrReject {args : NewRun} {runId now : String}
    (ht : (RunEvent.createOrReject args runId now).step s = some t) :
    RunView.Step s (.createOrReject args runId now) k (t.view k) := by
  obtain ⟨r, hr, rfl⟩ := RunSystem.call_eq_some.mp ht
  cases RegistryEvent.cases_step hr with
  | refused => exact .of_same (RunSystem.view_eq rfl rfl Iff.rfl Iff.rfl)
  | admitted hfree hnew =>
    by_cases hk : k = runId
    · subst hk
      convert RunView.Step.created args now rfl hnew using 1
      refine RunView.ext ?_ rfl ?_ ?_
      · show ((s.registry.manager.runs.set k _).get k).map RunRecord.control = _
        rw [Dict.get_set_self, Option.map_some]
      · simp [RunSystem.view, RunSystem.mem_starting, Registry.begin, RunRecord.new]
      · simp [RunSystem.view, Registry.begin, RunRecord.new]
    · refine .of_same (RunSystem.view_eq ?_ rfl ?_ ?_)
      · show ((s.registry.manager.runs.set runId _).get k).map RunRecord.control = _
        rw [Dict.get_set_ne hk]
        rfl
      · simp [RunSystem.mem_starting, Registry.begin, RunRecord.new, hfree, Ne.symm hk]
      · simp [Registry.begin, RunRecord.new, hk]

/-- The runs that an admission aborts were pending or running when it took the lock. -/
theorem RunSystem.busy_of_aborting (hlocked : s.registry.Locked) (hadm : s.registry.Admitted)
    (hk : k ∈ s.aborting) : ∃ c, s.control k = some c ∧ c.Busy := by
  unfold RunSystem.aborting at hk
  rcases hh : s.registry.holder with _ | creation
  · simp [hh] at hk
  · rw [hh] at hk
    simp only [Option.elim_some, Registry.aborting] at hk
    split at hk
    · cases hk
    · obtain ⟨hmem, hfinal⟩ := List.mem_filter.mp hk
      obtain ⟨r, hr, hflight⟩ := (hadm creation hh).inflight hmem
      obtain ⟨-, hfresh, hmanager⟩ := hlocked.holder hh
      have hne : k ≠ creation.record.runId := by
        rintro rfl
        rw [hfresh] at hr
        cases hr
      have hget : s.registry.manager.runs.get k = some r := by
        rw [hmanager]
        exact (Dict.get_set_ne hne).trans hr
      refine ⟨r.control, by rw [control, RunManager.control, hget, Option.map_some], ?_⟩
      have hrun : r.finalizing = false := by simpa [hget] using hfinal
      exact hflight.resolve_right (by simp [hrun])

theorem Registry.control_afterAborts (c : Registry) (creation : Creation) (active : List String)
    (k : String) : ∃ action, (c.afterAborts creation active).control k =
      if k ∈ c.aborting creation then
        (c.manager.control k).map fun c => c.abort action (active.contains k)
      else c.manager.control k := by
  unfold Registry.afterAborts
  split
  · rename_i hnone
    exact ⟨.interrupt, by simp [Registry.aborting, hnone]⟩
  · rename_i action _
    exact ⟨action, RunManager.control_abortAll ..⟩

theorem RunView.step_written (hlocked : s.registry.Locked) (hadm : s.registry.Admitted)
    (ht : RunEvent.written.step s = some t) : RunView.Step s .written k (t.view k) := by
  obtain ⟨u, hu, rfl⟩ := Option.map_eq_some_iff.mp ht
  obtain ⟨r, hr, rfl⟩ := RunSystem.call_eq_some.mp hu
  cases RegistryEvent.cases_step hr with
  | @written creation _ hh =>
    obtain ⟨action, hcontrol⟩ := s.registry.control_afterAborts creation s.active k
    have haborting : s.aborting = s.registry.aborting creation := by
      rw [RunSystem.aborting, hh, Option.elim_some]
    have hstarting : ∀ t : RunSystem, t.registry.holder = none →
        t.registry.trailing = s.registry.trailing ++
          [⟨creation.record.runId, s.registry.aborting creation, creation.before⟩] →
        t.preparing = s.preparing → (k ∈ t.starting ↔ k ∈ s.starting) := by
      intro t hholder htrailing hpreparing
      simp only [RunSystem.mem_starting, hholder, htrailing, hpreparing, hh]
      simp only [List.mem_append, List.mem_singleton, Option.some.injEq, exists_eq_left',
        reduceCtorEq, false_and, exists_false, false_or, or_and_right, exists_or, exists_eq_left]
      rw [or_assoc, or_left_comm]
    by_cases hk : k ∈ s.aborting
    · obtain ⟨c, hc, hbusy⟩ := RunSystem.busy_of_aborting hlocked hadm hk
      rw [if_pos (haborting ▸ hk)] at hcontrol
      refine .of_aborted hc hbusy (.inr ⟨rfl, hk⟩) hcontrol ?_ (hstarting _ rfl rfl rfl) rfl
      rw [RunSystem.get_cancelTasks, if_pos hk]
    · rw [if_neg (haborting ▸ hk)] at hcontrol
      refine .of_same (RunSystem.view_eq hcontrol ?_ (hstarting _ rfl rfl rfl) Iff.rfl)
      rw [RunSystem.get_cancelTasks, if_neg hk]

theorem RunView.step_writeFailed {error : CreateError}
    (ht : (RunEvent.writeFailed error).step s = some t) :
    RunView.Step s (.writeFailed error) k (t.view k) := by
  obtain ⟨r, hr, rfl⟩ := RunSystem.call_eq_some.mp ht
  cases RegistryEvent.cases_step hr with
  | @writeFailed creation _ hh =>
    have hcontrol := RunManager.control_drop s.registry.manager creation.record.runId k
    by_cases hk : k = creation.record.runId
    · rw [if_pos hk] at hcontrol
      refine .of_gone hcontrol rfl ?_ rfl
      simp only [RunSystem.mem_starting, Registry.refuse, reduceCtorEq, false_and, exists_false,
        false_or]
      exact .inr
    · rw [if_neg hk] at hcontrol
      refine .of_same (RunSystem.view_eq hcontrol rfl ?_ Iff.rfl)
      simp [RunSystem.mem_starting, Registry.refuse, hh, Ne.symm hk]

theorem mem_eraseIdx_runId {calls : List Trailing} {i : Nat} {call : Trailing}
    (h : calls[i]? = some call) (hk : k ≠ call.runId) :
    (∃ x ∈ calls.eraseIdx i, x.runId = k) ↔ ∃ x ∈ calls, x.runId = k := by
  constructor
  · rintro ⟨x, hx, hxk⟩
    exact ⟨x, List.mem_of_mem_eraseIdx hx, hxk⟩
  · rintro ⟨x, hx, hxk⟩
    obtain ⟨j, hj⟩ := List.mem_iff_getElem?.mp hx
    refine ⟨x, List.mem_eraseIdx_iff_getElem?.mpr ⟨j, ?_, hj⟩, hxk⟩
    rintro rfl
    rw [h] at hj
    cases hj
    exact hk hxk.symm

theorem map_runId_set {calls : List Trailing} {i : Nat} {call : Trailing}
    (h : calls[i]? = some call) (remaining : List String) :
    (calls.set i { call with remaining := remaining }).map Trailing.runId =
      calls.map Trailing.runId := by
  obtain ⟨hi, rfl⟩ := List.getElem?_eq_some_iff.mp h
  rw [List.map_set, ← List.getElem_map Trailing.runId (h := by simpa using hi),
    List.set_getElem_self]

theorem RunView.step_trailing {i : Nat} (he : e = .trailed i ∨ e = .trailCancelled i ∨ e = .returned i)
    (ht : e.step s = some t) : RunView.Step s e k (t.view k) := by
  rcases he with rfl | rfl | rfl
  · obtain ⟨r, hr, rfl⟩ := RunSystem.call_eq_some.mp ht
    cases RegistryEvent.cases_step hr with
    | trailed hcall =>
      refine .of_same (RunSystem.view_eq rfl rfl ?_ Iff.rfl)
      simp only [RunSystem.starting, map_runId_set hcall]
  · obtain ⟨r, hr, rfl⟩ := RunSystem.call_eq_some.mp ht
    cases RegistryEvent.cases_step hr with
    | @trailCancelled _ call hcall =>
      by_cases hk : k = call.runId
      · have hmem : k ∈ s.unstarts (.trailCancelled i) := by simp [RunSystem.unstarts, hcall, hk]
        refine .of_unstarted hmem rfl rfl ?_ rfl
        simp only [RunSystem.mem_starting]
        refine Or.imp_right (Or.imp_left ?_)
        exact fun ⟨x, hx, hxk⟩ => ⟨x, List.mem_of_mem_eraseIdx hx, hxk⟩
      · refine .of_same (RunSystem.view_eq rfl rfl ?_ Iff.rfl)
        simp only [RunSystem.mem_starting]
        exact or_congr Iff.rfl (or_congr (mem_eraseIdx_runId hcall hk) Iff.rfl)
  · simp only [RunEvent.step] at ht
    split at ht
    · cases ht
    · rename_i call hcall
      obtain ⟨u, hu, rfl⟩ := Option.map_eq_some_iff.mp ht
      obtain ⟨r, hr, rfl⟩ := RunSystem.call_eq_some.mp hu
      cases RegistryEvent.cases_step hr
      refine .of_same (RunSystem.view_eq rfl rfl ?_ Iff.rfl)
      simp only [RunSystem.mem_starting, List.mem_append, List.mem_singleton]
      by_cases hk : k = call.runId
      · have hin : ∃ x ∈ s.registry.trailing, x.runId = k :=
          ⟨call, List.mem_of_getElem? hcall, hk.symm⟩
        exact iff_of_true (.inr (.inr (.inr hk))) (.inr (.inl hin))
      · rw [mem_eraseIdx_runId hcall hk]
        simp [hk]

theorem RunView.step_cancel {runId : String} {action : AbortAction} {now : String}
    (ht : (RunEvent.cancel runId action now).step s = some t) :
    RunView.Step s (.cancel runId action now) k (t.view k) := by
  obtain ⟨u, hu, rfl⟩ := Option.map_eq_some_iff.mp ht
  obtain ⟨r, hr, rfl⟩ := RunSystem.call_eq_some.mp hu
  rw [RegistryEvent.record_step hr]
  simp only [RecordCall.apply, RunManager.cancel_fst]
  split_ifs with hcancels
  · have hcontrol := RunManager.control_modify s.registry.manager runId k
      (f := fun r => r.abort action (s.active.contains runId) now)
      (g := fun c => c.abort action (s.active.contains runId)) fun _ => rfl
    by_cases hk : k = runId
    · subst hk
      obtain ⟨r, hr, hbusy⟩ := (Option.any_eq_true _ _).mp hcancels
      have hc : s.control k = some r.control := by
        rw [RunSystem.control, RunManager.control, hr, Option.map_some]
      rw [if_pos rfl] at hcontrol
      refine .of_aborted hc (of_decide_eq_true hbusy) (.inl ⟨action, now, rfl⟩) hcontrol ?_ Iff.rfl rfl
      rw [RunSystem.get_cancelTasks, if_pos (List.mem_singleton_self k)]
    · rw [if_neg hk] at hcontrol
      refine .of_same (RunSystem.view_eq hcontrol ?_ Iff.rfl Iff.rfl)
      rw [RunSystem.get_cancelTasks, if_neg (by simpa using hk)]
  · exact .of_same (RunSystem.view_eq rfl rfl Iff.rfl Iff.rfl)

/-- A call of a task changes the record of its own run. -/
theorem RunSystem.taskCall_control {u : RunSystem} {runId now : String} {call : TaskCall}
    (hu : s.taskCall runId now call = some u) (k : String) :
    u.control k = if k = runId then (s.control k).map call.apply else s.control k := by
  cases call with
  | none =>
    cases hu
    split_ifs
    · exact Option.map_id_apply.symm
    · rfl
  | setStatus status error | setFinalizing finalizing =>
    obtain ⟨r, hr, rfl⟩ := RunSystem.call_eq_some.mp hu
    rw [RegistryEvent.record_step hr]
    exact RunManager.control_modify _ _ _ fun _ => rfl

theorem RunSystem.taskCall_frame {u : RunSystem} {runId now : String} {call : TaskCall}
    (hu : s.taskCall runId now call = some u) : u.tasks = s.tasks ∧ u.starting = s.starting ∧
      u.registry.minted = s.registry.minted := by
  cases call with
  | none =>
    cases hu
    exact ⟨rfl, rfl, rfl⟩
  | setStatus | setFinalizing =>
    obtain ⟨r, hr, rfl⟩ := RunSystem.call_eq_some.mp hu
    rw [RegistryEvent.record_step hr]
    exact ⟨rfl, rfl, rfl⟩

theorem RunView.step_task {runId : String} {move : TaskMove} {now : String}
    (ht : (RunEvent.task runId move now).step s = some t) :
    RunView.Step s (.task runId move now) k (t.view k) := by
  obtain ⟨task, task', call, u, htask, -, hnext, hu, rfl⟩ := RunEvent.task_step ht
  have hcontrol := RunSystem.taskCall_control hu k
  obtain ⟨htasks, hstarting, hminted⟩ := RunSystem.taskCall_frame hu
  have hget := Dict.get_set u.tasks runId k task'
  by_cases hk : k = runId
  · subst hk
    rw [if_pos rfl] at hcontrol hget
    have heq : RunSystem.view { u with tasks := u.tasks.set k task' } k = { s.view k with
        control := (s.control k).map call.apply
        task := some task' } :=
      RunView.ext hcontrol hget (congrArg (List.contains · k) hstarting)
        (congrArg (List.contains · k) hminted)
    rw [heq]
    exact .ran task task' move call now rfl htask hnext
  · rw [if_neg hk] at hcontrol hget
    refine .of_same (RunSystem.view_eq hcontrol ?_ ?_ ?_)
    · rw [hget, htasks]
    · exact iff_of_eq (congrArg (k ∈ ·) hstarting)
    · rw [hminted]

/-- Every step is one of the cases, seen from every run. -/
theorem RunSystem.view_step (hs : Reachable runSystem s) (ht : e.step s = some t) (k : String) :
    RunView.Step s e k (t.view k) := by
  cases e with
  | createOrReject => exact RunView.step_createOrReject ht
  | written => exact RunView.step_written (locked hs) (admitted hs) ht
  | writeFailed => exact RunView.step_writeFailed ht
  | trailed i => exact RunView.step_trailing (.inl rfl) ht
  | trailCancelled i => exact RunView.step_trailing (.inr (.inl rfl)) ht
  | returned i => exact RunView.step_trailing (.inr (.inr rfl)) ht
  | cancel => exact RunView.step_cancel ht
  | task => exact RunView.step_task ht
  | updateModelName | updateRunCompletion =>
    exact .of_record ht (RunManager.control_modify_same fun _ => rfl)
  | updateRunProgress runId kwargs now =>
    refine .of_record ht (RunManager.control_modify_same fun r => ?_)
    split_ifs <;> rfl
  | startFails runId =>
    simp only [RunEvent.step] at ht
    split_ifs at ht
    cases ht
    by_cases hk : k = runId
    · refine .of_unstarted (List.mem_singleton.mpr hk) rfl rfl ?_ rfl
      simp only [mem_starting]
      exact Or.imp_right (Or.imp_right List.mem_of_mem_filter)
    · refine .of_same (view_eq rfl rfl ?_ Iff.rfl)
      simp [mem_starting, hk]
  | attach runId =>
    simp only [RunEvent.step] at ht
    split_ifs at ht with hg
    cases ht
    by_cases hk : k = runId
    · subst hk
      have hmem : k ∈ s.starting := mem_starting.mpr (.inr (.inr hg.1))
      exact .of_attached hmem hg.2 rfl (Dict.get_set_self ..) rfl
    · refine .of_same (view_eq rfl (Dict.get_set_ne hk) ?_ Iff.rfl)
      simp [mem_starting, hk]
  | cleanup runId =>
    obtain ⟨r, hr, rfl⟩ := call_eq_some.mp ht
    cases RegistryEvent.cases_step hr
    have hcontrol := RunManager.control_drop s.registry.manager runId k
    by_cases hk : k = runId
    · rw [if_pos hk] at hcontrol
      exact .of_gone hcontrol rfl id rfl
    · rw [if_neg hk] at hcontrol
      exact .of_same (view_eq hcontrol rfl Iff.rfl Iff.rfl)
  | cancelTask runId =>
    cases ht
    have hget := get_cancelTasks s [runId] k
    by_cases hk : k = runId
    · subst hk
      rw [if_pos (List.mem_singleton_self k)] at hget
      have heq : (s.cancelTasks [k]).view k =
          { s.view k with task := (s.tasks.get k).map RunTask.cancel } :=
        RunView.ext rfl hget rfl rfl
      rw [heq]
      exact .cancelled rfl
    · rw [if_neg (by simpa using hk)] at hget
      exact .of_same (view_eq rfl hget Iff.rfl Iff.rfl)

theorem RunView.Step.minted {w : RunView} (h : RunView.Step s e k w)
    (hm : (s.view k).minted = true) : w.minted = true := by
  cases h with
  | created => rfl
  | _ => exact hm

end Views

end DeerFlow.Runtime
