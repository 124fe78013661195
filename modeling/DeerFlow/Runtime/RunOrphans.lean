import DeerFlow.Runtime.RunViews

/-! Runs nobody ends. A record in flight keeps its thread from admitting a run
with `reject`, and a finalizing one keeps later runs of the thread waiting, so
each of them has to have a task, or a `start_run` that is to attach one. -/

namespace DeerFlow.Runtime
open Transition

/-- The final status has been set, or the handler was left. -/
def RunPc.Settled : RunPc → Prop
  | .rest _ | .finallyBlock | .clearFinalizing | .publishEnd | .done => True
  | _ => False

/-- `record.finalizing` has been looked at. -/
def RunPc.Closed : RunPc → Prop
  | .publishEnd | .done => True
  | _ => False

/-- A cancellation raised at the await leaves the run in flight with no one to end it: before
the coroutine is entered and in the finally block nothing handles it, and a handler that has
still to set the status is left for the finally block. -/
def RunPc.Loses (pc : RunPc) (c : RunControl) : Prop :=
  match pc with
  | .created | .finallyBlock | .clearFinalizing => c.Inflight
  | .markFinalizing .cancelHandler | .markFinalizing .errorHandler |
    .settle .cancelHandler _ | .settle .errorHandler _ => c.Busy
  | _ => False

instance (pc : RunPc) (c : RunControl) : Decidable (pc.Loses c) := by
  unfold RunPc.Loses
  split <;> infer_instance

/-- The step takes from a run in flight the party that would have ended it: its `start_run`
raises or is cancelled, or its task is cancelled where nothing ends the run. -/
def RunSystem.Abandons (s : RunSystem) : RunEvent → Prop
  | .startFails runId => ∃ c ∈ s.control runId, c.Inflight
  | .trailCancelled i => ∃ call ∈ s.registry.trailing[i]?, ∃ c ∈ s.control call.runId, c.Inflight
  | .task runId .deliver _ => ∃ t ∈ s.tasks.get runId, ∃ c ∈ s.control runId, t.pc.Loses c
  | _ => False

instance (s : RunSystem) (e : RunEvent) : Decidable (s.Abandons e) := by
  unfold RunSystem.Abandons
  split <;> infer_instance

def KeepsOwner (s : RunSystem) (e : RunEvent) : Prop := ¬ s.Abandons e

instance (s : RunSystem) (e : RunEvent) : Decidable (KeepsOwner s e) :=
  inferInstanceAs (Decidable (¬ _))

section Owned
variable {s t : RunSystem} {e : RunEvent} {k : String}

/-- A task that will end a run in flight. -/
structure RunTask.Ends (t : RunTask) (c : RunControl) : Prop where
  settled : t.pc.Settled → ¬ c.Busy
  closed : t.pc.Closed → c.finalizing = false

def RunView.Owned (v : RunView) : Prop := ∀ c, v.control = some c → c.Inflight →
  v.starting = true ∨ ∃ t, v.task = some t ∧ t.Ends c

theorem RunTask.Ends.active {t : RunTask} {c : RunControl} (h : t.Ends c) (hc : c.Inflight) :
    t.Active := by
  intro hdone
  have hclosed := h.closed (by rw [hdone]; trivial)
  rcases hc with hbusy | hfinal
  · exact h.settled (by rw [hdone]; trivial) hbusy
  · rw [hclosed] at hfinal
    cases hfinal

theorem RunTask.Ends.cancelled {t : RunTask} {c : RunControl} (h : t.Ends c) (hc : c.Inflight)
    (hkeep : ¬ t.pc.Loses c) : RunTask.Ends ⟨t.pc.cancelled, false⟩ c := by
  obtain ⟨pc, cancelling⟩ := t
  cases pc with
  | created | finallyBlock | clearFinalizing => exact absurd hc hkeep
  | waitPrior | markRunning | body => exact ⟨nofun, nofun⟩
  | markFinalizing block | settle block outcome =>
    cases block with
    | tryBlock => exact ⟨nofun, nofun⟩
    | cancelHandler | errorHandler => exact ⟨fun _ => hkeep, nofun⟩
  | rest block =>
    cases block with
    | tryBlock => exact ⟨nofun, nofun⟩
    | cancelHandler | errorHandler => exact ⟨fun _ => h.settled trivial, nofun⟩
  | publishEnd | done => exact ⟨fun _ => h.settled trivial, fun _ => h.closed trivial⟩

theorem RunTask.Ends.next {t t' : RunTask} {c : RunControl} {move : TaskMove} {call : TaskCall}
    (h : c.Inflight → t.Ends c) (hc : (call.apply c).Inflight)
    (hkeep : move = .deliver → ¬ t.pc.Loses c)
    (hnext : t.next (some c) move = some (t', call)) : t'.Ends (call.apply c) := by
  cases move with
  | deliver =>
    simp only [RunTask.next] at hnext
    split_ifs at hnext
    cases hnext
    exact (h hc).cancelled hc (hkeep rfl)
  | absorb | finish | abort | raise =>
    simp only [RunTask.next] at hnext
    split_ifs at hnext
    cases hnext
    exact ⟨nofun, nofun⟩
  | proceed =>
    simp only [RunTask.next] at hnext
    split_ifs at hnext
    obtain ⟨pc, cancelling⟩ := t
    cases pc with
    | created | waitPrior | markRunning | markFinalizing =>
      cases hnext
      exact ⟨nofun, nofun⟩
    | settle block outcome =>
      cases hnext
      refine ⟨fun _ hbusy => ?_, nofun⟩
      exact hbusy.elim outcome.status_not_busy.1 outcome.status_not_busy.2
    | rest block =>
      cases hnext
      exact ⟨fun _ => (h hc).settled trivial, nofun⟩
    | finallyBlock =>
      simp only [RunPc.proceed, Option.any_some] at hnext
      split_ifs at hnext with hfinal
      · cases hnext
        exact ⟨fun _ => (h hc).settled trivial, nofun⟩
      · cases hnext
        exact ⟨fun _ => (h hc).settled trivial, fun _ => by simpa [TaskCall.apply] using hfinal⟩
    | clearFinalizing =>
      cases hnext
      have hbusy : c.Busy := hc.resolve_right nofun
      exact absurd hbusy ((h (.inl hbusy)).settled trivial)
    | publishEnd =>
      cases hnext
      exact ⟨fun _ => (h hc).settled trivial, fun _ => (h hc).closed trivial⟩
    | body | done => cases hnext

theorem RunSystem.not_inflight_of_unstarts (hkeep : KeepsOwner s e) (hk : k ∈ s.unstarts e)
    {c : RunControl} (hc : s.control k = some c) : ¬ c.Inflight := by
  intro hflight
  apply hkeep
  cases e with
  | startFails runId =>
    obtain rfl := List.mem_singleton.mp hk
    exact ⟨c, hc, hflight⟩
  | trailCancelled i =>
    obtain ⟨call, hcall, rfl⟩ := Option.map_eq_some_iff.mp (Option.mem_toList.mp hk)
    exact ⟨call, hcall, c, hc, hflight⟩
  | _ => cases hk

/-- Aborting a run cancels its task, which goes on to end it. -/
theorem RunView.Owned.aborted {v : RunView} (h : v.Owned) {c : RunControl}
    (hc : v.control = some c) (hbusy : c.Busy) (action : AbortAction) :
    RunView.Owned { v with
      control := some (c.abort action (v.task.any fun t => t.Active))
      task := v.task.map RunTask.cancel } := by
  intro c' hc' hflight
  cases hc'
  refine (h c hc (.inl hbusy)).imp_right ?_
  rintro ⟨t, ht, hends⟩
  have hpc : t.cancel.pc = t.pc := by
    unfold RunTask.cancel
    split_ifs <;> rfl
  refine ⟨t.cancel, by rw [ht, Option.map_some], ?_, ?_⟩
  · exact fun _ hb => hb.elim nofun nofun
  · intro hclosed
    rw [hpc] at hclosed
    have hsettled : t.pc.Settled := by
      cases hp : t.pc <;> simp_all [RunPc.Closed, RunPc.Settled]
    exact absurd hbusy (hends.settled hsettled)

theorem RunView.Owned.step {w : RunView} (h : (s.view k).Owned) (hkeep : KeepsOwner s e)
    (hstep : RunView.Step s e k w) : w.Owned := by
  cases hstep with
  | same => exact h
  | created args now he hnew => exact fun _ _ _ => .inl rfl
  | gone starting _ => exact nofun
  | unstarted starting hk _ =>
    exact fun c hc hflight => absurd hflight (RunSystem.not_inflight_of_unstarts hkeep hk hc)
  | attached starting hmem hnone => exact fun c hc _ => .inr ⟨_, rfl, nofun, nofun⟩
  | aborted c action hc hbusy he => exact h.aborted hc hbusy action
  | cancelled he =>
    intro c hc hflight
    refine (h c hc hflight).imp_right ?_
    rintro ⟨t, ht, hends⟩
    have hpc : t.cancel.pc = t.pc := by
      unfold RunTask.cancel
      split_ifs <;> rfl
    exact ⟨t.cancel, congrArg (Option.map _) ht, hpc ▸ hends.settled, hpc ▸ hends.closed⟩
  | ran task task' move call now he htask hnext =>
    intro c' hc' hflight
    obtain ⟨c, hc, rfl⟩ := Option.map_eq_some_iff.mp hc'
    by_cases hstarting : (s.view k).starting = true
    · exact .inl hstarting
    · right
      refine ⟨task', rfl, RunTask.Ends.next ?_ hflight ?_ (hc ▸ hnext)⟩
      · intro hc0
        obtain ⟨t, ht, hends⟩ := (h c hc hc0).resolve_left hstarting
        obtain rfl := Option.some.inj (htask.symm.trans ht)
        exact hends
      · rintro rfl hloses
        subst he
        exact hkeep ⟨task, htask, c, hc, hloses⟩

theorem owned_of_reachable (h : Reachable (runSystem.when KeepsOwner) s) (k : String) :
    (s.view k).Owned := by
  refine h.invariant (I := fun s => ∀ k, (s.view k).Owned) ?_ ?_ k
  · intro s hs k
    obtain rfl : s = .empty := hs
    exact nofun
  · intro s e t hs hown ht k
    exact (hown k).step ht.1 (RunSystem.view_step hs.of_when ht.2 k)

/-- Every run in flight has someone to end it, so that the runs a thread is waiting for are
being started or executed. -/
structure RunSystem.NoOrphan (s : RunSystem) : Prop where
  owner : ∀ r ∈ s.registry.manager.runs.values, r.Inflight →
    r.runId ∈ s.starting ∨ r.runId ∈ s.active
  rejected : ∀ args message, s.registry.manager.admission args = .error (.conflict message) →
    ∃ r ∈ s.registry.manager.threadRecords args.threadId,
      r.runId ∈ s.starting ∨ r.runId ∈ s.active
  waiting : ∀ threadId runId, s.registry.manager.priorFinalized threadId runId = false →
    ∃ r ∈ s.registry.manager.threadRecords threadId,
      r.runId ∈ s.starting ∨ r.runId ∈ s.active

theorem no_orphan_while_owners_stay (h : Reachable (runSystem.when KeepsOwner) s) :
    s.NoOrphan := by
  have hindexed := (RunSystem.locked h.of_when).indexed
  have howner : ∀ r ∈ s.registry.manager.runs.values, r.Inflight →
      r.runId ∈ s.starting ∨ r.runId ∈ s.active := by
    intro r hr hflight
    have hget : s.control r.runId = some r.control :=
      congrArg (Option.map RunRecord.control) (hindexed.get_of_mem hr)
    refine (owned_of_reachable h r.runId _ hget hflight).imp ?_ ?_
    · intro hstarting
      exact List.contains_iff_mem.mp hstarting
    · rintro ⟨t, ht, hends⟩
      have hactive := s.active_contains r.runId
      have htask : s.tasks.get r.runId = some t := ht
      rw [htask, Option.any_some, decide_eq_true (hends.active hflight)] at hactive
      exact List.contains_iff_mem.mp hactive
  have hthread : ∀ {threadId : String} {r}, r ∈ s.registry.manager.threadRecords threadId →
      r.Inflight → r.runId ∈ s.starting ∨ r.runId ∈ s.active := by
    intro threadId r hr hflight
    rw [hindexed.threadRecords] at hr
    exact howner r (List.mem_of_mem_filter hr) hflight
  refine ⟨howner, ?_, ?_⟩
  · intro args message hadm
    obtain ⟨r, hr, hflight⟩ := RunManager.inflight_of_conflict hadm
    exact ⟨r, hr, hthread hr hflight⟩
  · intro threadId runId hprior
    obtain ⟨r, hr, hfinal⟩ := RunManager.finalizing_of_waiting hprior
    exact ⟨r, hr, hthread hr (.inr hfinal)⟩

end Owned

namespace OneThread

/-- `start_run` has a record for its run and prepares the task. -/
def prepared : List (RunSystem → RunEvent) :=
  [fun _ => .createOrReject { threadId := "thread-1" } "run-1" "1", fun _ => .written,
   fun _ => .returned 0]

def running : List (RunSystem → RunEvent) :=
  prepared ++ [fun _ => .attach "run-1", fun _ => .task "run-1" .proceed "2",
    fun _ => .task "run-1" .proceed "2", fun _ => .task "run-1" .proceed "3"]

/-- A second run interrupts the first one. -/
def interrupting : List (RunSystem → RunEvent) :=
  [fun _ => .createOrReject { threadId := "thread-1", multitaskStrategy := .interrupt } "run-2" "4",
   fun _ => .written]

end OneThread

theorem no_orphan_after_interrupt : ∃ s : RunSystem,
    Reachable (runSystem.when KeepsOwner) s ∧ s.tasks.get "run-1" = some ⟨.body, true⟩ ∧
      s.NoOrphan := by
  have hrun : (runScript (guarded KeepsOwner RunEvent.step) .empty
      (OneThread.running ++ OneThread.interrupting)).any
      (fun s => decide (s.tasks.get "run-1" = some ⟨.body, true⟩)) = true := by
    decide +kernel
  obtain ⟨s, hs, h⟩ := exists_reachable_of_decide _ hrun
  exact ⟨s, when_of_guarded hs, h, no_orphan_while_owners_stay (when_of_guarded hs)⟩

/-- The request is turned down after its run was admitted. -/
theorem failed_start_leaves_orphan : ¬ ∀ s, Reachable runSystem s → s.NoOrphan := by
  intro hall
  have hrun : (runScript RunEvent.step .empty
      (OneThread.prepared ++ [fun _ => .startFails "run-1"])).any
      (fun s => decide (s.starting = [] ∧ s.active = [] ∧
        ∃ r ∈ s.registry.manager.runs.values, r.Inflight)) = true := by
    decide +kernel
  obtain ⟨s, hs, hstarting, hactive, r, hr, hflight⟩ := exists_reachable_of_decide _ hrun
  have howner := (hall s hs).owner r hr hflight
  rw [hstarting, hactive] at howner
  simp at howner

end DeerFlow.Runtime
