import DeerFlow.Runtime.RunViews

/-! One run at a time in a thread. A run is interrupted by cancelling its task, so
that a run whose task is attached later is not stopped by it: `run_agent` marks
its run as running whatever its status is. -/

namespace DeerFlow.Runtime
open Transition

/-- The runs that a step interrupts. -/
def RunSystem.interrupts (s : RunSystem) : RunEvent → List String
  | .cancel runId _ _ => if s.registry.manager.cancels runId then [runId] else []
  | .written => s.aborting
  | _ => []

/-- The runs whose task someone other than the manager cancels. -/
def RunEvent.cancelsTask : RunEvent → List String
  | .cancelTask runId => [runId]
  | _ => []

/-- A run is interrupted only after its task was attached, and nobody but the manager cancels
the task of a run that is pending or running. -/
structure InterruptsTasks (s : RunSystem) (e : RunEvent) : Prop where
  attached : ∀ k ∈ s.interrupts e, (s.tasks.get k).isSome
  cancelsTask : ∀ k ∈ e.cancelsTask, ∀ c ∈ s.control k, ¬ c.Busy

instance (s : RunSystem) (e : RunEvent) : Decidable (InterruptsTasks s e) :=
  decidable_of_iff ((∀ k ∈ s.interrupts e, (s.tasks.get k).isSome) ∧
    ∀ k ∈ e.cancelsTask, ∀ c ∈ s.control k, ¬ c.Busy) ⟨fun h => ⟨h.1, h.2⟩, fun h => ⟨h.1, h.2⟩⟩

/-- Before the run is marked as running. -/
def RunPc.Early : RunPc → Prop
  | .created | .waitPrior | .markRunning => True
  | _ => False

section Calm
variable {s t : RunSystem} {e : RunEvent} {k : String}

/-- A record that is aborted or finalizing is not pending or running. -/
structure RunControl.Quiet (c : RunControl) : Prop where
  aborted : c.abortEvent = true → ¬ c.Busy
  finalizing : c.finalizing = true → ¬ c.Busy

/-- A task that cannot run on to mark a stopped run as running. -/
structure RunTask.Calm (t : RunTask) (c : RunControl) : Prop where
  stopped : ¬ c.Busy → t.pc.Early → t.cancelling = true
  cancelling : t.cancelling = true ∨ (∃ block, t.pc = .markFinalizing block) → ¬ c.Busy

structure RunView.Calm (v : RunView) : Prop where
  minted : v.minted = false → v.control = none ∧ v.task = none ∧ v.starting = false
  quiet : ∀ c, v.control = some c → c.Quiet
  attached : ∀ c, v.control = some c → ¬ c.Busy → v.task.isSome
  task : ∀ c t, v.control = some c → v.task = some t → t.Calm c

theorem RunControl.quiet_of_not_busy {c : RunControl} (h : ¬ c.Busy) : c.Quiet :=
  ⟨fun _ => h, fun _ => h⟩

theorem RunView.calm_of_gone {v : RunView} (hcontrol : v.control = none)
    (hminted : v.minted = false → v.task = none ∧ v.starting = false) : v.Calm := by
  have hgone : ∀ {c}, v.control ≠ some c := by
    intro c hc
    rw [hcontrol] at hc
    cases hc
  exact {
    minted := fun hm => ⟨hcontrol, hminted hm⟩
    quiet := fun c hc => absurd hc hgone
    attached := fun c hc => absurd hc hgone
    task := fun c t hc => absurd hc hgone }

theorem RunPc.not_early_cancelled (pc : RunPc) : ¬ pc.cancelled.Early := by
  cases pc with
  | markFinalizing block | settle block _ | rest block =>
    cases block <;> exact id
  | _ => exact id

/-- A call of a task leaves a stopped run stopped. -/
structure RunTask.Passes (t' : RunTask) (c c' : RunControl) : Prop where
  calm : t'.Calm c'
  quiet : c'.Quiet
  busy : c'.Busy → c.Busy

theorem RunTask.Calm.next {t t' : RunTask} {c : RunControl} {move : TaskMove} {call : TaskCall}
    (h : t.Calm c) (hq : c.Quiet) (hnext : t.next (some c) move = some (t', call)) :
    t'.Passes c (call.apply c) := by
  cases move with
  | deliver =>
    simp only [RunTask.next] at hnext
    split_ifs at hnext with hg
    cases hnext
    have hstop := h.cancelling (.inl hg.1)
    exact ⟨⟨fun _ he => (t.pc.not_early_cancelled he).elim, fun _ => hstop⟩, hq, id⟩
  | absorb =>
    simp only [RunTask.next] at hnext
    split_ifs at hnext with hg
    cases hnext
    exact ⟨⟨nofun, fun _ => h.cancelling (.inl hg.1)⟩, hq, id⟩
  | abort =>
    simp only [RunTask.next] at hnext
    split_ifs at hnext with hg
    cases hnext
    exact ⟨⟨nofun, fun _ => hq.aborted (by simpa using hg.2.2)⟩, hq, id⟩
  | finish | raise =>
    simp only [RunTask.next] at hnext
    split_ifs at hnext
    cases hnext
    exact ⟨⟨nofun, by simp⟩, hq, id⟩
  | proceed =>
    simp only [RunTask.next] at hnext
    split_ifs at hnext with hg
    obtain ⟨pc, cancelling⟩ := t
    obtain rfl : cancelling = false := by simpa using hg
    -- a task that may run on from an early await belongs to a run that nobody has stopped
    have hbusy : pc.Early → c.Busy := by
      intro hearly
      by_contra hstop
      exact absurd (h.stopped hstop hearly) (by simp)
    cases pc with
    | created | waitPrior =>
      cases hnext
      exact ⟨⟨fun hstop => (hstop (hbusy trivial)).elim, by simp⟩, hq, id⟩
    | markRunning =>
      cases hnext
      have hrun := hbusy trivial
      refine ⟨⟨nofun, by simp⟩, ⟨?_, ?_⟩, fun _ => hrun⟩
      · exact fun habort => absurd hrun (hq.aborted habort)
      · exact fun hfinal => absurd hrun (hq.finalizing hfinal)
    | markFinalizing block =>
      cases hnext
      have hstop := h.cancelling (.inr ⟨block, rfl⟩)
      exact ⟨⟨nofun, by simp⟩, RunControl.quiet_of_not_busy hstop, id⟩
    | settle block outcome =>
      cases hnext
      have hstop : ¬ RunControl.Busy { c with status := outcome.status } :=
        fun hb => hb.elim outcome.status_not_busy.1 outcome.status_not_busy.2
      exact ⟨⟨nofun, by simp⟩, RunControl.quiet_of_not_busy hstop, fun hb => (hstop hb).elim⟩
    | rest | publishEnd =>
      cases hnext
      exact ⟨⟨nofun, by simp⟩, hq, id⟩
    | finallyBlock =>
      simp only [RunPc.proceed, Option.any_some] at hnext
      split_ifs at hnext
      · cases hnext
        exact ⟨⟨nofun, by simp⟩, hq, id⟩
      · cases hnext
        exact ⟨⟨nofun, by simp⟩, hq, id⟩
    | clearFinalizing =>
      cases hnext
      exact ⟨⟨nofun, by simp⟩, ⟨hq.aborted, nofun⟩, id⟩
    | body | done => cases hnext

theorem RunSystem.interrupts_of_aborted {c : RunControl} (hc : s.control k = some c)
    (hbusy : c.Busy)
    (he : (∃ action now, e = .cancel k action now) ∨ e = .written ∧ k ∈ s.aborting) :
    k ∈ s.interrupts e := by
  rcases he with ⟨action, now, rfl⟩ | ⟨rfl, hk⟩
  · obtain ⟨r, hr, rfl⟩ := Option.map_eq_some_iff.mp hc
    have hcancels : s.registry.manager.cancels k = true := by
      rw [RunManager.cancels, hr, Option.any_some]
      exact decide_eq_true hbusy
    simp only [interrupts, hcancels, if_true, List.mem_singleton]
  · exact hk

/-- A cancelled task is not at an early await, or it cannot go on from there. -/
theorem RunTask.calm_cancel {t : RunTask} {c : RunControl} (hc : ¬ c.Busy) : t.cancel.Calm c := by
  refine ⟨fun _ hearly => ?_, fun _ => hc⟩
  unfold RunTask.cancel at hearly ⊢
  split_ifs at hearly ⊢ with hactive
  · rfl
  · have hdone : t.pc = .done := of_not_not hactive
    rw [hdone] at hearly
    exact hearly.elim

theorem starting_eq_false {starting : Bool} (hs : (s.view k).starting = false)
    (h : starting = true → k ∈ s.starting) : starting = false := by
  by_contra hstarting
  have hmem := h (by simpa using hstarting)
  exact absurd (List.contains_iff_mem.mpr hmem) (by simpa [RunSystem.view] using hs)

theorem RunView.Calm.step {w : RunView} (h : (s.view k).Calm) (hcond : InterruptsTasks s e)
    (hstep : RunView.Step s e k w) : w.Calm := by
  cases hstep with
  | same => exact h
  | created args now he hnew =>
    have hnone := h.minted (by simpa [RunSystem.view] using hnew)
    refine ⟨fun hm => (by cases hm), ?_, ?_, ?_⟩
    · rintro c ⟨rfl⟩
      exact ⟨fun hb => (by cases hb), fun hb => (by cases hb)⟩
    · rintro c ⟨rfl⟩ hstop
      exact absurd (.inl rfl) hstop
    · intro c t _ ht
      cases hnone.2.1.symm.trans ht
  | gone starting hstarting =>
    refine RunView.calm_of_gone rfl fun hm => ?_
    obtain ⟨-, ht, hs⟩ := h.minted hm
    exact ⟨ht, starting_eq_false hs hstarting⟩
  | unstarted starting hk hstarting =>
    refine ⟨fun hm => ?_, h.quiet, h.attached, h.task⟩
    obtain ⟨hc, ht, hs⟩ := h.minted hm
    exact ⟨hc, ht, starting_eq_false hs hstarting⟩
  | attached starting hmem hnone =>
    have hminted : (s.view k).minted = true := by
      by_contra hm
      have hs := (h.minted (by simpa using hm)).2.2
      exact absurd (List.contains_iff_mem.mpr hmem) (by simpa [RunSystem.view] using hs)
    refine ⟨fun hm => ?_, h.quiet, fun _ _ _ => rfl, ?_⟩
    · exact absurd (hminted.symm.trans hm) (by decide)
    · rintro c t hc ⟨rfl⟩
      refine ⟨fun hstop _ => ?_, by simp⟩
      -- a run that was stopped had a task already
      have htask := h.attached c hc hstop
      rw [show (s.view k).task = none from hnone] at htask
      cases htask
  | aborted c action hc hbusy he =>
    have hstop : ¬ (c.abort action ((s.tasks.get k).any fun t => t.Active)).Busy :=
      fun hb => by rcases hb with hb | hb <;> cases hb
    have htask := hcond.attached k (RunSystem.interrupts_of_aborted hc hbusy he)
    refine ⟨fun hm => ?_, ?_, ?_, ?_⟩
    · cases hc.symm.trans (h.minted hm).1
    · rintro c' ⟨rfl⟩
      exact RunControl.quiet_of_not_busy hstop
    · rintro c' - -
      simpa using htask
    · rintro c' t' ⟨rfl⟩ ht'
      obtain ⟨t, -, rfl⟩ := Option.map_eq_some_iff.mp ht'
      exact RunTask.calm_cancel hstop
  | cancelled he =>
    refine ⟨fun hm => ?_, h.quiet, ?_, ?_⟩
    · obtain ⟨hc, ht, hs⟩ := h.minted hm
      exact ⟨hc, congrArg (Option.map _) ht, hs⟩
    · intro c hc hstop
      rw [Option.isSome_map]
      exact h.attached c hc hstop
    · intro c t' hc ht'
      obtain ⟨t, -, rfl⟩ := Option.map_eq_some_iff.mp ht'
      exact RunTask.calm_cancel (hcond.cancelsTask k (he ▸ List.mem_singleton_self k) c hc)
  | ran task task' move call now he htask hnext =>
    have hpass : ∀ c, s.control k = some c → task'.Passes c (call.apply c) :=
      fun c hc => (h.task c task hc htask).next (h.quiet c hc) (hc ▸ hnext)
    refine ⟨fun hm => ?_, ?_, fun _ _ _ => rfl, ?_⟩
    · cases htask.symm.trans (h.minted hm).2.1
    · intro c' hc'
      obtain ⟨c, hc, rfl⟩ := Option.map_eq_some_iff.mp hc'
      exact (hpass c hc).quiet
    · rintro c' t' hc' ⟨rfl⟩
      obtain ⟨c, hc, rfl⟩ := Option.map_eq_some_iff.mp hc'
      exact (hpass c hc).calm

theorem calm_of_reachable (h : Reachable (runSystem.when InterruptsTasks) s) (k : String) :
    (s.view k).Calm := by
  refine h.invariant (I := fun s => ∀ k, (s.view k).Calm) ?_ ?_ k
  · intro s hs k
    obtain rfl : s = .empty := hs
    exact RunView.calm_of_gone rfl fun _ => ⟨rfl, rfl⟩
  · intro s e t hs hcalm ht k
    exact (hcalm k).step ht.1 (RunSystem.view_step hs.of_when ht.2 k)

/-- A run that is pending or running after a step has just been created, or was so before. -/
theorem RunView.Calm.busy {w : RunView} (h : (s.view k).Calm) (hstep : RunView.Step s e k w)
    {c' : RunControl} (hc' : w.control = some c') (hbusy : c'.Busy) :
    (∃ args now, e = .createOrReject args k now ∧ k ∉ s.registry.minted) ∨
      ∃ c, s.control k = some c ∧ c.Busy ∧ c.threadId = c'.threadId := by
  cases hstep with
  | same | unstarted | attached | cancelled => exact .inr ⟨c', hc', hbusy, rfl⟩
  | created args now he hnew => exact .inl ⟨args, now, he, hnew⟩
  | gone => cases hc'
  | aborted c action hc hb he =>
    cases hc'
    exact hbusy.elim nofun nofun
  | ran task task' move call now he htask hnext =>
    obtain ⟨c, hc, rfl⟩ := Option.map_eq_some_iff.mp hc'
    have hpass := (h.task c task hc htask).next (h.quiet c hc) (hc ▸ hnext)
    refine .inr ⟨c, hc, hpass.busy hbusy, ?_⟩
    cases call <;> rfl

end Calm

section Exclusion
variable {s t : RunSystem} {e : RunEvent} {k : String}

/-- `k` is the run of the admission that holds the lock. -/
def RunSystem.Admitting (s : RunSystem) (k : String) : Prop :=
  ∃ creation, s.registry.holder = some creation ∧ creation.record.runId = k

/-- At most one run of a thread is pending or running, beside the one that is being admitted. -/
def RunSystem.Exclusive (s : RunSystem) : Prop := ∀ k₁ k₂ c₁ c₂, s.control k₁ = some c₁ →
  s.control k₂ = some c₂ → c₁.Busy → c₂.Busy → c₁.threadId = c₂.threadId →
  ¬ s.Admitting k₁ → ¬ s.Admitting k₂ → k₁ = k₂

/-- The lock is released when the new row is stored, or with the new run dropped. -/
theorem RegistryEvent.holder_step {c d : Registry} {b : RegistryEvent} (ht : b.step c = some d)
    (hb : ∀ active, b ≠ .written active) {creation : Creation} (hh : c.holder = some creation) :
    d.holder = some creation ∨ d.manager.control creation.record.runId = none := by
  cases RegistryEvent.cases_step ht with
  | create hfree | refused hfree | admitted hfree | record hfree | cleanup hfree =>
    rw [hfree] at hh
    cases hh
  | written => exact absurd rfl (hb _)
  | writeFailed hholder =>
    obtain rfl := Option.some.inj (hholder.symm.trans hh)
    right
    show (c.manager.drop _).control _ = none
    rw [RunManager.control_drop, if_pos rfl]
  | trailed | trailCancelled | returned => exact .inl hh

theorem RunSystem.admitting_step (ht : e.step s = some t) (he : e ≠ .written)
    (hk : s.Admitting k) : t.Admitting k ∨ t.control k = none := by
  obtain ⟨creation, hh, rfl⟩ := hk
  rcases RunEvent.registry_step ht with heq | ⟨b, hb, ht⟩
  · exact .inl ⟨creation, heq ▸ hh, rfl⟩
  · refine (RegistryEvent.holder_step ht ?_ hh).imp_left fun h => ⟨creation, h, rfl⟩
    rintro active rfl
    exact he hb

/-- A run that is created takes the lock. -/
theorem RunSystem.admitting_of_created {args : NewRun} {now : String}
    (ht : (RunEvent.createOrReject args k now).step s = some t) (hnone : s.control k = none)
    {c : RunControl} (hc : t.control k = some c) : t.Admitting k := by
  obtain ⟨r, hr, rfl⟩ := call_eq_some.mp ht
  cases RegistryEvent.cases_step hr with
  | refused => cases hnone.symm.trans hc
  | admitted => exact ⟨_, rfl, rfl⟩

/-- When the row of an admission is stored, no other run of its thread stays pending or
running. -/
theorem RunSystem.alone_after_written (hs : Reachable runSystem s)
    (hquiet : ∀ k c, s.control k = some c → c.Quiet) (ht : RunEvent.written.step s = some t)
    {creation : Creation} (hh : s.registry.holder = some creation) {c : RunControl}
    (hc : t.control k = some c) (hbusy : c.Busy)
    (hthread : c.threadId = creation.record.threadId) : k = creation.record.runId := by
  by_contra hk
  obtain ⟨u, hu, rfl⟩ := Option.map_eq_some_iff.mp ht
  obtain ⟨r, hr, rfl⟩ := call_eq_some.mp hu
  cases RegistryEvent.cases_step hr with | written hholder => ?_
  obtain rfl := Option.some.inj (hh.symm.trans hholder)
  obtain ⟨action, hcontrol⟩ := s.registry.control_afterAborts _ s.active k
  have hafter : (s.registry.afterAborts creation s.active).control k = some c := hc
  rw [hafter] at hcontrol
  split_ifs at hcontrol with haborting
  · -- an aborted run is interrupted
    obtain ⟨c₀, -, rfl⟩ := Option.map_eq_some_iff.mp hcontrol.symm
    exact hbusy.elim nofun nofun
  · -- every other run of the thread was in flight when the lock was taken
    apply haborting
    have hbefore : s.control k = some c := hcontrol.symm
    have hfinal : c.finalizing = false := by
      by_contra hf
      exact (hquiet k c hbefore).finalizing (by simpa using hf) hbusy
    obtain ⟨r, hr, rfl⟩ := Option.map_eq_some_iff.mp hbefore
    obtain ⟨-, -, hmanager⟩ := (locked hs).holder hh
    have hget : creation.before.runs.get k = some r := by
      rw [hmanager] at hr
      exact (Dict.get_set_ne hk).symm.trans hr
    have hadmitted := admitted hs creation hh
    have hmem := hadmitted.complete hget hthread (.inl hbusy)
    unfold Registry.aborting
    split
    · rename_i hnone
      rw [hadmitted.aborts hnone] at hmem
      cases hmem
    · refine List.mem_filter.mpr ⟨hmem, ?_⟩
      rw [hr, Option.any_some]
      exact congrArg not hfinal

theorem RunSystem.control_admitting (hs : Reachable runSystem s) {creation : Creation}
    (hh : s.registry.holder = some creation) :
    s.control creation.record.runId = some creation.record.control := by
  obtain ⟨-, -, hmanager⟩ := (locked hs).holder hh
  unfold control RunManager.control
  rw [hmanager]
  exact congrArg (Option.map RunRecord.control) (Dict.get_set_self ..)

theorem RunSystem.Exclusive.step (hs : Reachable runSystem s) (h : s.Exclusive)
    (hcalm : ∀ k, (s.view k).Calm) (ht : e.step s = some t) : t.Exclusive := by
  intro k₁ k₂ c₁ c₂ hc₁ hc₂ hb₁ hb₂ hthread ha₁ ha₂
  have hold : ∀ {k c}, t.control k = some c → c.Busy → ¬ t.Admitting k →
      ∃ c₀, s.control k = some c₀ ∧ c₀.Busy ∧ c₀.threadId = c.threadId := by
    intro k c hc hb ha
    refine ((hcalm k).busy (view_step hs ht k) hc hb).resolve_left ?_
    rintro ⟨args, now, rfl, hnew⟩
    have hnone := ((hcalm k).minted (by simpa [view] using hnew)).1
    exact ha (admitting_of_created ht hnone hc)
  obtain ⟨d₁, hd₁, hbd₁, ht₁⟩ := hold hc₁ hb₁ ha₁
  obtain ⟨d₂, hd₂, hbd₂, ht₂⟩ := hold hc₂ hb₂ ha₂
  have hsame : d₁.threadId = d₂.threadId := by rw [ht₁, ht₂, hthread]
  by_cases he : e = .written
  · subst he
    have hquiet := fun k => (hcalm k).quiet
    by_cases hk₁ : s.Admitting k₁
    · obtain ⟨creation, hh, rfl⟩ := hk₁
      obtain rfl := Option.some.inj ((control_admitting hs hh).symm.trans hd₁)
      exact (alone_after_written hs hquiet ht hh hc₂ hb₂ (hthread.symm.trans ht₁.symm)).symm
    · by_cases hk₂ : s.Admitting k₂
      · obtain ⟨creation, hh, rfl⟩ := hk₂
        obtain rfl := Option.some.inj ((control_admitting hs hh).symm.trans hd₂)
        exact alone_after_written hs hquiet ht hh hc₁ hb₁ (hthread.trans ht₂.symm)
      · exact h k₁ k₂ d₁ d₂ hd₁ hd₂ hbd₁ hbd₂ hsame hk₁ hk₂
  · refine h k₁ k₂ d₁ d₂ hd₁ hd₂ hbd₁ hbd₂ hsame ?_ ?_
    · intro hk
      rcases admitting_step ht he hk with hk | hnone
      · exact ha₁ hk
      · cases hnone.symm.trans hc₁
    · intro hk
      rcases admitting_step ht he hk with hk | hnone
      · exact ha₂ hk
      · cases hnone.symm.trans hc₂

theorem exclusive_of_reachable (h : Reachable (runSystem.when InterruptsTasks) s) :
    s.Exclusive := by
  refine h.invariant (I := RunSystem.Exclusive) ?_ ?_
  · intro s hs
    obtain rfl : s = .empty := hs
    intro k₁ k₂ c₁ c₂ hc₁
    cases hc₁
  · intro s e t hs hexcl ht
    exact hexcl.step hs.of_when (calm_of_reachable hs) ht.2

/-- A run that is not pending or running: it will not be again. -/
def RunSystem.Stopped (s : RunSystem) (k : String) : Prop :=
  k ∈ s.registry.minted ∧ ∀ c, s.control k = some c → ¬ c.Busy

theorem RunSystem.Stopped.step (hs : Reachable (runSystem.when InterruptsTasks) s)
    (h : s.Stopped k) (ht : (runSystem.when InterruptsTasks).step s e t) : t.Stopped k := by
  have hview := view_step hs.of_when ht.2 k
  refine ⟨List.contains_iff_mem.mp (hview.minted (List.contains_iff_mem.mpr h.1)), ?_⟩
  · intro c' hc' hbusy
    rcases (calm_of_reachable hs k).busy hview hc' hbusy with ⟨-, -, -, hnew⟩ | ⟨c, hc, hb, -⟩
    · exact hnew h.1
    · exact h.2 c hc hb

/-- A thread has at most one run that is pending or running, the one that an admission is about
to store not counted; and a run that was interrupted is in no later state pending or running. -/
structure OneAtATime (S : System RunSystem RunEvent) (s : RunSystem) : Prop where
  exclusive : ∀ r₁ ∈ s.registry.manager.runs.values, ∀ r₂ ∈ s.registry.manager.runs.values,
    r₁.Busy → r₂.Busy → r₁.threadId = r₂.threadId →
      ¬ s.Admitting r₁.runId → ¬ s.Admitting r₂.runId → r₁ = r₂
  stays : ∀ {runId r}, s.registry.manager.runs.get runId = some r → r.status = .interrupted →
    ∀ {t}, Later S s t → ∀ {r'}, t.registry.manager.runs.get runId = some r' → ¬ r'.Busy

theorem RunSystem.not_admitting_of_free (hfree : s.registry.holder = none) (k : String) :
    ¬ s.Admitting k := by
  rintro ⟨creation, hh, -⟩
  rw [hfree] at hh
  cases hh

theorem one_at_a_time_while_interrupts_reach_tasks
    (h : Reachable (runSystem.when InterruptsTasks) s) :
    OneAtATime (runSystem.when InterruptsTasks) s := by
  have hindexed := (RunSystem.locked h.of_when).indexed
  refine ⟨?_, ?_⟩
  · intro r₁ hr₁ r₂ hr₂ hb₁ hb₂ hthread hk₁ hk₂
    have hid := exclusive_of_reachable h r₁.runId r₂.runId r₁.control r₂.control
      (congrArg (Option.map RunRecord.control) (hindexed.get_of_mem hr₁))
      (congrArg (Option.map RunRecord.control) (hindexed.get_of_mem hr₂)) hb₁ hb₂ hthread hk₁ hk₂
    have hsame := hindexed.get_of_mem hr₁
    rw [hid, hindexed.get_of_mem hr₂] at hsame
    exact (Option.some.inj hsame).symm
  · intro runId r hr hstatus t hlater r' hr' hbusy
    have hstopped : s.Stopped runId := by
      refine ⟨?_, ?_⟩
      · by_contra hnew
        cases ((RunSystem.locked h.of_when).minted hnew).symm.trans hr
      · intro c hc hb
        obtain rfl := Option.some.inj ((congrArg (Option.map RunRecord.control) hr).symm.trans hc)
        have hstatus' : r.control.status = .interrupted := hstatus
        exact hb.elim (by simp [hstatus']) (by simp [hstatus'])
    have hlast := h.later (K := fun s t => ∀ k, s.Stopped k → t.Stopped k) (fun _ _ => id)
      (fun hst htu k hk => htu k (hst k hk)) (fun hs ht k hk => hk.step hs ht) hlater
    exact (hlast runId hstopped).2 r'.control (congrArg (Option.map RunRecord.control) hr') hbusy

end Exclusion

namespace TwoRequests

/-- The first request has its record and is preparing its task. -/
def admitted : List (RunSystem → RunEvent) :=
  [fun _ => .createOrReject { threadId := "thread-1" } "run-1" "1", fun _ => .written,
   fun _ => .returned 0]

/-- The second one interrupts the first one's run. -/
def interrupting : List (RunSystem → RunEvent) :=
  [fun _ => .createOrReject { threadId := "thread-1", multitaskStrategy := .interrupt } "run-2" "2",
   fun _ => .written]

/-- The task of the first run gets to its first status. -/
def marking : List (RunSystem → RunEvent) :=
  [fun _ => .attach "run-1", fun _ => .task "run-1" .proceed "3",
   fun _ => .task "run-1" .proceed "3", fun _ => .task "run-1" .proceed "4"]

end TwoRequests

theorem one_at_a_time_after_interrupt : ∃ s : RunSystem,
    Reachable (runSystem.when InterruptsTasks) s ∧
      s.registry.manager.runs.values.map RunRecord.status = [.interrupted, .pending] ∧
      OneAtATime (runSystem.when InterruptsTasks) s := by
  have hrun : (runScript (guarded InterruptsTasks RunEvent.step) .empty
      (TwoRequests.admitted ++ TwoRequests.marking ++ TwoRequests.interrupting)).any
      (fun s => decide (s.registry.manager.runs.values.map RunRecord.status =
        [.interrupted, .pending])) = true := by
    decide +kernel
  obtain ⟨s, hs, h⟩ := exists_reachable_of_decide _ hrun
  exact ⟨s, when_of_guarded hs, h,
    one_at_a_time_while_interrupts_reach_tasks (when_of_guarded hs)⟩

/-- The second request interrupts a run that has no task yet. -/
theorem interrupted_run_runs : ¬ ∀ s, Reachable runSystem s → OneAtATime runSystem s := by
  intro hall
  have hrun : (runScript RunEvent.step .empty
      (TwoRequests.admitted ++ TwoRequests.interrupting ++ TwoRequests.marking)).any
      (fun s => decide (s.registry.holder.isNone ∧ ∃ r₁ ∈ s.registry.manager.runs.values,
        ∃ r₂ ∈ s.registry.manager.runs.values,
          r₁.Busy ∧ r₂.Busy ∧ r₁.threadId = r₂.threadId ∧ r₁ ≠ r₂)) = true := by
    decide +kernel
  obtain ⟨s, hs, hfree, r₁, hr₁, r₂, hr₂, hb₁, hb₂, hthread, hne⟩ := exists_reachable_of_decide _ hrun
  have hadmitting := RunSystem.not_admitting_of_free (Option.isNone_iff_eq_none.mp hfree)
  exact hne ((hall s hs).exclusive r₁ hr₁ r₂ hr₂ hb₁ hb₂ hthread (hadmitting _) (hadmitting _))

end DeerFlow.Runtime
