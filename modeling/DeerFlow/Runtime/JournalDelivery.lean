import DeerFlow.Runtime.Journal

/-! Delivery exactly once. As long as no write is cancelled, none fails half way,
no background flush overtakes a `flush()` and no other thread records an event
while the buffer is exchanged, each recorded event is in one place, and a
`flush()` that returns leaves those recorded before it in the store. -/

namespace DeerFlow.Runtime
open Transition

section Disturbances

def LoopPc.isAppended : LoopPc → Bool
  | .appended => true
  | .free | .copied _ | .sliced _ _ | .joined _ _ => false

/-- The next operation keeps an event appended to a buffer of that length. -/
def LoopPc.keeps (flushThreshold length : Nat) : LoopPc → Bool
  | .free | .appended => true
  | .sliced _ _ => decide (flushThreshold ≤ length)
  | .copied _ | .joined _ _ => false

namespace RunJournal

/-- The end of a `_put` on the thread of the event loop is to take the buffer. -/
def StartsFlush (c : JournalConfig) (s : RunJournal) : Prop :=
  s.loop.isAppended = true ∧ s.pendingFlushTask.isNone = true ∧ c.flushThreshold ≤ s.buffer.length

/-- Every event of the list was recorded after the `flush()` that is in progress was called. -/
def Later (s : RunJournal) (events : List JournalEvent) : Prop :=
  ∀ called ∈ s.flush.called?, ∀ e ∈ events, called ≤ e.index

/-- No other thread records an event that the next operation on the buffer removes, or in a list
that is not the buffer any more; no `put_batch` and no task that awaits one is cancelled, one that
raises has stored nothing, and no background flush takes an event that a `flush()` in progress has
to store. -/
def Undisturbed (c : JournalConfig) (s : RunJournal) : JournalAction → Prop
  | .put _ loop => loop = true ∨ s.loop.keeps c.flushThreshold s.buffer.length = true
  | .putStale _ => False
  | .proceed => s.StartsFlush c → s.Later s.buffer
  | .flushSync => s.pendingFlushTask.isNone = true → s.Later s.buffer
  | .task .raise => (s.pendingFlushTask.map FlushTask.written).getD 0 = 0
  | .flush .raise => s.flush.written = 0
  | .task .cancel | .flush .cancel => False
  | .cancelFlush => s.awaited = false
  | .task .start | .task .store | .task .succeed | .flush .start | .flush .store |
    .flush .succeed | .flushDone | .callFlush | .gathered | .drain => True

instance (c : JournalConfig) (s : RunJournal) : Decidable (s.StartsFlush c) :=
  inferInstanceAs (Decidable (_ ∧ _ ∧ _))

instance (s : RunJournal) (events : List JournalEvent) : Decidable (s.Later events) := by
  unfold Later
  infer_instance

instance (c : JournalConfig) (s : RunJournal) (a : JournalAction) :
    Decidable (s.Undisturbed c a) := by
  unfold Undisturbed
  cases a with
  | task a | flush a => cases a <;> infer_instance
  | _ => infer_instance

end RunJournal

end Disturbances

section Conservation

namespace RunJournal

def taskUnwritten (s : RunJournal) : List JournalEvent :=
  (s.pendingFlushTask.map FlushTask.unwritten).getD []

/-- Taken out of the buffer and not stored yet. -/
def inFlight (s : RunJournal) : List JournalEvent :=
  s.taskUnwritten ++ s.flush.unwritten ++ s.loop.unwritten

def all (s : RunJournal) : List JournalEvent := s.stored ++ s.buffer ++ s.inFlight

end RunJournal

variable {c : JournalConfig} {s s' : RunJournal}

theorem BatchWrite.rest_advance (w : BatchWrite) (n : Nat) : (w.advance n).rest = w.rest.drop n := by
  simp [BatchWrite.rest, BatchWrite.advance]

theorem BatchWrite.rest_of_written {w : BatchWrite} (h : w.written = 0) : w.rest = w.batch := by
  simp [BatchWrite.rest, h]

section Counts
open Classical

theorem perm_of_count {xs ys : List JournalEvent} (h : ∀ e, xs.count e = ys.count e) :
    xs.Perm ys := List.perm_iff_count.mpr h

theorem count_take_drop (e : JournalEvent) (n : Nat) (xs : List JournalEvent) :
    (xs.take n).count e + (xs.drop n).count e = xs.count e := by
  rw [← List.count_append, List.take_append_drop]

theorem count_all (e : JournalEvent) (s : RunJournal) :
    s.all.count e = s.stored.count e + s.buffer.count e +
      (s.taskUnwritten.count e + s.flush.unwritten.count e + s.loop.unwritten.count e) := by
  simp only [RunJournal.all, RunJournal.inFlight, List.count_append]

theorem taskUnwritten_of_some {t : FlushTask} (ht : s.pendingFlushTask = some t) :
    s.taskUnwritten = t.unwritten := by
  simp [RunJournal.taskUnwritten, ht]

/-- Moving events between the parts of a state loses none. -/
theorem perm_of_parts {t : RunJournal} (h : ∀ e, t.stored.count e + t.buffer.count e +
    (t.taskUnwritten.count e + t.flush.unwritten.count e + t.loop.unwritten.count e) =
      s.stored.count e + s.buffer.count e +
        (s.taskUnwritten.count e + s.flush.unwritten.count e + s.loop.unwritten.count e)) :
    t.all.Perm (s.all ++ []) := by
  rw [List.append_nil]
  apply perm_of_count
  intro e
  rw [count_all, count_all]
  exact h e

theorem taskUnwritten_setPhase (s : RunJournal) (t : FlushTask) (phase : FlushTaskPhase) :
    (s.setPhase t phase).taskUnwritten = FlushTask.unwritten ⟨phase, t.gathered⟩ := rfl

theorem perm_of_eq {t : RunJournal} (h : t.all = s.all) : t.all.Perm (s.all ++ []) :=
  .of_eq (by rw [h, List.append_nil])

theorem perm_record (c : JournalConfig) (s : RunJournal) (args : JournalPut) :
    (s.record c args).all.Perm (s.all ++ [s.event c args]) := by
  apply perm_of_count
  intro e
  simp only [RunJournal.record, count_all, RunJournal.taskUnwritten, List.count_append]
  omega

/-- What the thread has not begun to put back is not its own. -/
theorem perm_loop {pc : LoopPc} (hold : s.loop.unwritten = []) (hnew : pc.unwritten = []) :
    RunJournal.all { s with loop := pc } = s.all := by
  simp only [RunJournal.all, RunJournal.inFlight, RunJournal.taskUnwritten, hold, hnew]

theorem perm_flushSync (hold : s.loop.unwritten = []) : s.flushSync.all = s.all := by
  rcases flushSync_cases s with h | ⟨-, h⟩ <;> rw [h] <;> exact perm_loop hold rfl

theorem perm_checkLength (hold : s.loop.unwritten = []) : (s.checkLength c).all = s.all := by
  rcases checkLength_cases c s with h | ⟨-, -, h⟩ <;> rw [h] <;> exact perm_loop hold rfl

theorem perm_drain (called : Nat) (hflush : s.flush.unwritten = []) (hloop : s.loop = .free) :
    (s.drain c called).all = s.all := by
  rcases drain_cases c s called with ⟨-, h⟩ | h <;> rw [h]
  · simp only [RunJournal.all, RunJournal.inFlight, RunJournal.taskUnwritten, hflush]
    rfl
  · exact perm_loop (by rw [hloop]; rfl) rfl

/-- The events an action records. -/
def RunJournal.recordedBy (c : JournalConfig) (s : RunJournal) : JournalAction → List JournalEvent
  | .put args _ | .putStale args => [s.event c args]
  | .proceed | .flushSync | .task _ | .flushDone | .callFlush | .gathered | .drain | .flush _ |
    .cancelFlush => []

/-- What the thread has read of the buffer is so until it goes on. -/
def RunJournal.Current (c : JournalConfig) (s : RunJournal) : Prop :=
  match s.loop with
  | .free | .appended => True
  | .copied batch => batch = s.buffer ∧ s.pendingFlushTask = none
  | .sliced called batch => batch = s.buffer.take c.flushThreshold ∧ called ∈ s.flush.called? ∧
      s.flush.gathers = false ∧ s.flush.unwritten = []
  | .joined _ seen => seen = s.buffer

theorem perm_begin {a : JournalAction} (hfree : s.loop = .free) (h : LoopStep c s a s')
    (hu : s.Undisturbed c a) : s'.all.Perm (s.all ++ s.recordedBy c a) := by
  have hloop : s.loop.unwritten = [] := by rw [hfree]; rfl
  cases h with
  | append args loop =>
    have hall : RunJournal.all { s.record c args with loop := .appended } = (s.record c args).all :=
      perm_loop hloop rfl
    rw [hall]
    exact perm_record c s args
  | flushSync => exact perm_of_eq (perm_flushSync hloop)
  | start ht hphase =>
    refine perm_of_parts fun e => ?_
    rw [taskUnwritten_setPhase, taskUnwritten_of_some ht]
    simp only [FlushTask.unwritten, hphase]
    rfl
  | @store t w ht hphase =>
    refine perm_of_parts fun e => ?_
    have hcount := count_take_drop e (c.store.atOnce w) w.rest
    rw [taskUnwritten_of_some ht]
    simp only [RunJournal.setPhase, RunJournal.taskUnwritten, Option.map_some, Option.getD_some,
      FlushTask.unwritten, hphase, BatchWrite.rest_advance, List.count_append]
    omega
  | succeed ht hphase hrest =>
    refine perm_of_parts fun e => ?_
    rw [taskUnwritten_setPhase, taskUnwritten_of_some ht]
    simp only [FlushTask.unwritten, hphase, hrest]
    rfl
  | @raise t w ht hphase _ =>
    -- a batch that goes back whole was not stored in part
    have hwritten : w.written = 0 := by
      simpa [RunJournal.Undisturbed, ht, FlushTask.written, hphase] using hu
    refine perm_of_parts fun e => ?_
    rw [taskUnwritten_of_some ht]
    simp only [RunJournal.setPhase, RunJournal.taskUnwritten, Option.map_some, Option.getD_some,
      FlushTask.unwritten, hphase, BatchWrite.rest_of_written hwritten, hfree, LoopPc.unwritten,
      List.count_nil]
    omega
  | cancel | flushCancel => exact hu.elim
  | flushDone ht hphase =>
    refine perm_of_parts fun e => ?_
    rw [taskUnwritten_of_some ht]
    simp only [RunJournal.taskUnwritten, FlushTask.unwritten, hphase]
    rfl
  | callFlush hidle =>
    refine perm_of_parts fun e => ?_
    unfold RunJournal.callFlush
    split
    · rw [hidle]
      rfl
    · next t ht =>
      rw [hidle, taskUnwritten_of_some ht]
      rfl
  | gathered hgathering _ =>
    refine perm_of_parts fun e => ?_
    rw [hgathering]
    rfl
  | drain hw => exact perm_of_eq (perm_drain _ (by rw [hw]; rfl) hfree)
  | @flushStore called w hw =>
    refine perm_of_parts fun e => ?_
    have hcount := count_take_drop e (c.store.atOnce w) w.rest
    rw [hw]
    simp only [RunJournal.taskUnwritten, FlushPc.unwritten, BatchWrite.rest_advance,
      List.count_append]
    omega
  | flushSucceed hw hrest => exact perm_of_eq (perm_drain _ (by rw [hw]; exact hrest) hfree)
  | @flushRaise called w hw _ =>
    have hwritten : w.written = 0 := by
      simpa [RunJournal.Undisturbed, hw, FlushPc.written] using hu
    refine perm_of_parts fun e => ?_
    rw [hw]
    simp only [RunJournal.taskUnwritten, FlushPc.unwritten, BatchWrite.rest_of_written hwritten,
      hfree, LoopPc.unwritten, List.count_nil]
    omega
  | cancelGather hawaited _ => exact absurd hawaited (by rw [show s.awaited = false from hu]; simp)
  | cancelWait hflush =>
    refine perm_of_parts fun e => ?_
    rw [hflush]
    rfl

/-- Every event stays in exactly one place, and a recorded one comes to be in one. -/
theorem perm_step {a : JournalAction} (h : JournalStep c s a s') (hc : s.Current c)
    (hu : s.Undisturbed c a) : s'.all.Perm (s.all ++ s.recordedBy c a) := by
  unfold RunJournal.Current at hc
  cases h with
  | record args => exact perm_record c s args
  | stale => exact hu.elim
  | check hloop => exact perm_of_eq (perm_checkLength (by rw [hloop]; rfl))
  | clear hloop =>
    rw [hloop] at hc
    obtain ⟨rfl, hnone⟩ := hc
    refine perm_of_parts fun e => ?_
    simp only [RunJournal.taskUnwritten, FlushTask.unwritten, hnone, hloop, LoopPc.unwritten,
      Option.map_some, Option.map_none, Option.getD_some, Option.getD_none, List.count_nil]
    omega
  | delete hloop =>
    rw [hloop] at hc
    obtain ⟨rfl, -, -, hflush⟩ := hc
    refine perm_of_parts fun e => ?_
    have hcount := count_take_drop e c.flushThreshold s.buffer
    rw [hflush]
    simp only [RunJournal.taskUnwritten, FlushPc.unwritten, BatchWrite.rest, hloop,
      LoopPc.unwritten, List.drop_zero, List.count_nil]
    omega
  | rebind hloop =>
    rw [hloop] at hc
    obtain rfl := hc
    refine perm_of_parts fun e => ?_
    simp only [RunJournal.taskUnwritten, hloop, LoopPc.unwritten, List.count_append,
      List.count_nil]
    omega
  | begin hfree h => exact perm_begin hfree h hu

end Counts

end Conservation

section Delivery
variable {c : JournalConfig} {s s' : RunJournal}

/-- Each recorded event is stored, in the buffer or in a batch on its way, in one place and
once; and what was recorded before a `flush()` that returned is stored. -/
structure RunJournal.Delivered (s : RunJournal) : Prop where
  once : s.all.Perm s.recorded
  distinct : s.recorded.map JournalEvent.index = List.range s.recorded.length
  flushed : ∀ called ∈ s.returned, ∀ e ∈ s.recorded, e.index < called → e ∈ s.stored

/-- What a `flush()` in progress has to store is not in a background flush that it does not
wait for. -/
def RunJournal.Covered (s : RunJournal) : Prop :=
  ∀ called ∈ s.flush.called?, called ≤ s.recorded.length ∧
    (∀ e ∈ s.loop.copies, called ≤ e.index) ∧
    ∀ t ∈ s.pendingFlushTask, (s.flush.gathers && t.gathered) = false →
      ∀ e ∈ t.unwritten, called ≤ e.index

/-- The store only grows, and each action records its event. -/
def RunJournal.Extends (c : JournalConfig) (s s' : RunJournal) (a : JournalAction) : Prop :=
  s.stored ⊆ s'.stored ∧ s'.recorded = s.recorded ++ s.recordedBy c a

theorem extends_of_eq {a : JournalAction} (hstored : s'.stored = s.stored)
    (hrecorded : s'.recorded = s.recorded) (hnone : s.recordedBy c a = []) : s.Extends c s' a :=
  ⟨hstored ▸ List.Subset.refl _, by rw [hrecorded, hnone, List.append_nil]⟩

theorem extends_begin {a : JournalAction} (h : LoopStep c s a s') : s.Extends c s' a := by
  cases h with
  | append => exact ⟨List.Subset.refl _, rfl⟩
  | store | flushStore => exact ⟨List.subset_append_left _ _, (List.append_nil _).symm⟩
  | flushSync =>
    rcases flushSync_cases s with h | ⟨-, h⟩ <;> rw [h] <;> exact extends_of_eq rfl rfl rfl
  | callFlush =>
    unfold RunJournal.callFlush
    split <;> exact extends_of_eq rfl rfl rfl
  | @drain called _ | @flushSucceed called _ _ _ =>
    rcases drain_cases c s called with ⟨-, h⟩ | h <;> rw [h] <;> exact extends_of_eq rfl rfl rfl
  | _ => exact extends_of_eq rfl rfl rfl

theorem extends_step {a : JournalAction} (h : JournalStep c s a s') : s.Extends c s' a := by
  cases h with
  | record | stale => exact ⟨List.Subset.refl _, rfl⟩
  | check =>
    rcases checkLength_cases c s with h | ⟨-, -, h⟩ <;> rw [h] <;> exact extends_of_eq rfl rfl rfl
  | begin _ h => exact extends_begin h
  | _ => exact extends_of_eq rfl rfl rfl

theorem current_of_free (h : s.loop = .free) : s.Current c := by
  unfold RunJournal.Current
  rw [h]
  trivial

theorem current_drain {called : Nat} (hfree : s.loop = .free) (hcalled : called ∈ s.flush.called?)
    (hwaits : s.flush.gathers = false) (hrest : s.flush.unwritten = []) :
    (s.drain c called).Current c := by
  rcases drain_cases c s called with ⟨-, h⟩ | h <;> rw [h]
  · exact current_of_free hfree
  · exact ⟨rfl, hcalled, hwaits, hrest⟩

theorem current_begin {a : JournalAction} (hfree : s.loop = .free) (h : LoopStep c s a s') :
    s'.Current c := by
  cases h with
  | append => trivial
  | flushSync =>
    rcases flushSync_cases s with h | ⟨hnone, h⟩ <;> rw [h]
    · trivial
    · exact ⟨rfl, hnone⟩
  | callFlush =>
    unfold RunJournal.callFlush
    split <;> exact current_of_free hfree
  | drain hw => exact current_drain hfree (by rw [hw]; rfl) (by rw [hw]; rfl) (by rw [hw]; rfl)
  | flushSucceed hw hrest =>
    exact current_drain hfree (by rw [hw]; rfl) (by rw [hw]; rfl) (by rw [hw]; exact hrest)
  | raise | flushRaise => rfl
  | _ => exact current_of_free hfree

theorem current_step {a : JournalAction} (h : JournalStep c s a s') (hc : s.Current c)
    (hu : s.Undisturbed c a) : s'.Current c := by
  cases h with
  | record =>
    have hkeeps := hu.resolve_left (by simp)
    unfold RunJournal.Current RunJournal.record at *
    rcases hloop : s.loop with _ | _ | batch | ⟨called, batch⟩ | ⟨batch, seen⟩ <;>
      simp only [hloop, LoopPc.keeps, decide_eq_true_eq, Bool.false_eq_true] at hc hkeeps ⊢
    -- the slice is as long as it can be
    exact ⟨by rw [List.take_append_of_le_length hkeeps]; exact hc.1, hc.2⟩
  | stale => exact hu.elim
  | check =>
    rcases checkLength_cases c s with h | ⟨-, hnone, h⟩ <;> rw [h]
    · trivial
    · exact ⟨rfl, hnone⟩
  | clear | delete | rebind => exact current_of_free rfl
  | begin hfree h => exact current_begin hfree h

theorem covered_copied (hc : s.Covered) (hlater : s.Later s.buffer) :
    RunJournal.Covered { s with loop := .copied s.buffer } := by
  intro called hcalled
  obtain ⟨hle, -, htask⟩ := hc called hcalled
  exact ⟨hle, hlater called hcalled, htask⟩

theorem covered_loop (hc : s.Covered) {pc : LoopPc} (hpc : pc.copies = []) :
    RunJournal.Covered { s with loop := pc } := by
  intro called hcalled
  obtain ⟨hle, -, htask⟩ := hc called hcalled
  exact ⟨hle, by simp [hpc], htask⟩

theorem covered_record (hc : s.Covered) (args : JournalPut) : (s.record c args).Covered := by
  intro called hcalled
  obtain ⟨hle, hrest⟩ := hc called hcalled
  refine ⟨hle.trans ?_, hrest⟩
  simp [RunJournal.record]

theorem mem_unwritten_of_rest {t : FlushTask} {w : BatchWrite} (hphase : t.phase = .writing w)
    {n : Nat} {e : JournalEvent} (he : e ∈ (w.advance n).rest) : e ∈ t.unwritten := by
  rw [BatchWrite.rest_advance] at he
  simp only [FlushTask.unwritten, hphase]
  exact List.mem_of_mem_drop he

theorem covered_setPhase (hc : s.Covered) {t : FlushTask} (ht : s.pendingFlushTask = some t)
    {phase : FlushTaskPhase}
    (hsub : ∀ e ∈ FlushTask.unwritten ⟨phase, t.gathered⟩, e ∈ t.unwritten) :
    (s.setPhase t phase).Covered := by
  intro called hcalled
  obtain ⟨hle, hcopies, htask⟩ := hc called hcalled
  refine ⟨hle, hcopies, fun t' ht' hwait e he => ?_⟩
  cases ht'
  exact htask t ht hwait e (hsub e he)

theorem covered_idle (h : s.flush = .idle) : s.Covered := by
  intro called hcalled
  rw [h] at hcalled
  cases hcalled

theorem covered_drain (hc : s.Covered) (called : Nat) : (s.drain c called).Covered := by
  rcases drain_cases c s called with ⟨-, h⟩ | h <;> rw [h]
  · exact covered_idle rfl
  · exact covered_loop hc rfl

theorem covered_begin {a : JournalAction} (hfree : s.loop = .free) (h : LoopStep c s a s')
    (hc : s.Covered) (hu : s.Undisturbed c a) : s'.Covered := by
  have hcopies : ∀ called : Nat, ∀ e ∈ s.loop.copies, called ≤ e.index := by
    rw [hfree]
    intro called e he
    cases he
  cases h with
  | append args => exact covered_loop (covered_record hc args) rfl
  | flushSync =>
    rcases flushSync_cases s with h | ⟨hnone, h⟩ <;> rw [h]
    · exact covered_loop hc rfl
    · exact covered_copied hc (hu (by simp [hnone]))
  | start ht hphase =>
    apply covered_setPhase hc ht
    intro e he
    simpa [FlushTask.unwritten, hphase, BatchWrite.rest] using he
  | store ht hphase => exact covered_setPhase hc ht fun e he => mem_unwritten_of_rest hphase he
  | succeed ht _ _ => exact covered_setPhase hc ht fun e he => by cases he
  | raise ht _ _ =>
    have hset : (s.setPhase _ .finished).Covered := covered_setPhase hc ht fun e he => by cases he
    exact covered_loop hset rfl
  | cancel => exact hu.elim
  | flushDone =>
    exact fun called hcalled => ⟨(hc called hcalled).1, hcopies called, fun t ht => by cases ht⟩
  | callFlush _ =>
    unfold RunJournal.callFlush
    split
    · next hnone =>
      intro called hcalled
      cases hcalled
      refine ⟨le_rfl, hcopies _, fun t ht => ?_⟩
      rw [hnone] at ht
      cases ht
    · intro called hcalled
      cases hcalled
      refine ⟨le_rfl, hcopies _, fun t ht hwait => ?_⟩
      cases ht
      cases hwait
  | @gathered called hgathering hawaited =>
    intro called' hcalled
    cases hcalled
    obtain ⟨hle, -, htask⟩ := hc called (by rw [hgathering]; rfl)
    refine ⟨hle, hcopies called, fun t ht _ e he => ?_⟩
    have hdone : (t.gathered && !t.isFinished) = false := by
      have hall := hawaited
      unfold RunJournal.awaited at hall
      rw [Option.mem_def.mp ht] at hall
      exact hall
    by_cases hgathered : t.gathered = true
    · -- the task it waited for has ended
      rw [hgathered] at hdone
      have hphase := isFinished_iff.mp (by simpa using hdone)
      simp only [FlushTask.unwritten, hphase] at he
      cases he
    · exact htask t ht (by simp [hgathered]) e he
  | drain | flushSucceed => exact covered_drain hc _
  | flushStore hw =>
    intro called hcalled
    cases hcalled
    have hcovered := hc _ (by rw [hw]; rfl)
    rw [hw] at hcovered
    exact hcovered
  | flushRaise | flushCancel | cancelGather | cancelWait => exact covered_idle rfl

theorem covered_step {a : JournalAction} (h : JournalStep c s a s') (hcurrent : s.Current c)
    (hc : s.Covered) (hu : s.Undisturbed c a) : s'.Covered := by
  unfold RunJournal.Current at hcurrent
  cases h with
  | record args => exact covered_record hc args
  | stale => exact hu.elim
  | check hloop =>
    rcases checkLength_cases c s with h | ⟨hfull, hnone, h⟩ <;> rw [h]
    · exact covered_loop hc rfl
    · exact covered_copied hc (hu ⟨by rw [hloop]; rfl, by simp [hnone], hfull⟩)
  | clear hloop =>
    intro called hcalled
    obtain ⟨hle, hcopies, -⟩ := hc called hcalled
    rw [hloop] at hcopies
    refine ⟨hle, fun e he => (by cases he), fun t ht _ => ?_⟩
    cases ht
    exact hcopies
  | delete hloop =>
    rw [hloop] at hcurrent
    obtain ⟨-, hin, hwaits, -⟩ := hcurrent
    intro called hcalled
    cases hcalled
    obtain ⟨hle, -, htask⟩ := hc _ hin
    exact ⟨hle, fun e he => (by cases he), fun t ht _ => htask t ht (by rw [hwaits]; rfl)⟩
  | rebind => exact covered_loop hc rfl
  | begin hfree h => exact covered_begin hfree h hc hu

/-- A `flush()` that returns finds the buffer empty and waits for no task. -/
theorem returned_step {a : JournalAction} (h : JournalStep c s a s') {called : Nat}
    (hcalled : called ∈ s'.returned) :
    called ∈ s.returned ∨ (called ∈ s.flush.called? ∧ s.flush.gathers = false ∧ s.buffer = [] ∧
      s.flush.unwritten = [] ∧ s.loop = .free) := by
  cases h with
  | check =>
    rcases checkLength_cases c s with h | ⟨-, -, h⟩ <;> rw [h] at hcalled <;> exact .inl hcalled
  | begin hfree h =>
    have hdrain : ∀ called', called' ∈ s.flush.called? → s.flush.gathers = false →
        s.flush.unwritten = [] → called ∈ (s.drain c called').returned →
          called ∈ s.returned ∨ (called ∈ s.flush.called? ∧ s.flush.gathers = false ∧
            s.buffer = [] ∧ s.flush.unwritten = [] ∧ s.loop = .free) := by
      intro called' hin hwaits hrest hcalled
      rcases drain_cases c s called' with ⟨hempty, h⟩ | h <;> rw [h] at hcalled
      · rcases List.mem_append.mp hcalled with hcalled | hcalled
        · exact .inl hcalled
        · rw [List.mem_singleton.mp hcalled]
          exact .inr ⟨hin, hwaits, hempty, hrest, hfree⟩
      · exact .inl hcalled
    cases h with
    | flushSync =>
      rcases flushSync_cases s with h | ⟨-, h⟩ <;> rw [h] at hcalled <;> exact .inl hcalled
    | callFlush =>
      unfold RunJournal.callFlush at hcalled
      split at hcalled <;> exact .inl hcalled
    | drain hw =>
      exact hdrain _ (by rw [hw]; rfl) (by rw [hw]; rfl) (by rw [hw]; rfl) hcalled
    | flushSucceed hw hrest =>
      exact hdrain _ (by rw [hw]; rfl) (by rw [hw]; rfl) (by rw [hw]; exact hrest) hcalled
    | _ => exact .inl hcalled
  | _ => exact .inl hcalled

/-- What carries the delivery through a run. -/
structure RunJournal.Sound (c : JournalConfig) (s : RunJournal) : Prop extends s.Delivered where
  current : s.Current c
  covered : s.Covered
  bounded : ∀ called ∈ s.returned, called ≤ s.recorded.length

theorem recordedBy_cases (c : JournalConfig) (s : RunJournal) (a : JournalAction) :
    s.recordedBy c a = [] ∨
      ∃ e, s.recordedBy c a = [e] ∧ e.index = s.recorded.length := by
  cases a with
  | put | putStale => exact .inr ⟨_, rfl, rfl⟩
  | _ => exact .inl rfl

theorem distinct_step {a : JournalAction} (h : JournalStep c s a s')
    (hs : s.recorded.map JournalEvent.index = List.range s.recorded.length) :
    s'.recorded.map JournalEvent.index = List.range s'.recorded.length := by
  rw [(extends_step h).2]
  rcases recordedBy_cases c s a with hnil | ⟨e, he, hindex⟩
  · rw [hnil, List.append_nil]
    exact hs
  · rw [he, List.map_append, hs, List.length_append, List.length_singleton, List.range_succ]
    simp [hindex]

/-- Without a background flush of earlier events there is nowhere but in the store that they
can be when `flush()` returns. -/
theorem stored_of_returned (hs : s.Sound c) {called : Nat} (hcalled : called ∈ s.flush.called?)
    (hwaits : s.flush.gathers = false) (hbuffer : s.buffer = []) (hrest : s.flush.unwritten = [])
    (hfree : s.loop = .free) {e : JournalEvent} (he : e ∈ s.recorded) (hlt : e.index < called) :
    e ∈ s.stored := by
  have hall : e ∈ s.all := hs.once.mem_iff.mpr he
  have hloop : s.loop.unwritten = [] := by rw [hfree]; rfl
  simp only [RunJournal.all, RunJournal.inFlight, hbuffer, hrest, hloop, List.append_nil,
    List.mem_append] at hall
  rcases hall with hstored | htask
  · exact hstored
  · unfold RunJournal.taskUnwritten at htask
    rcases ht : s.pendingFlushTask with _ | t
    · rw [ht] at htask
      cases htask
    · rw [ht] at htask
      have hle := (hs.covered called hcalled).2.2 t ht (by rw [hwaits]; rfl) e htask
      omega

theorem sound_step {a : JournalAction} (h : JournalStep c s a s') (hs : s.Sound c)
    (hu : s.Undisturbed c a) : s'.Sound c := by
  obtain ⟨hstored, hrecorded⟩ := extends_step h
  have hlength : s.recorded.length ≤ s'.recorded.length := by
    rw [hrecorded, List.length_append]
    omega
  have hold : ∀ called ≤ s.recorded.length, ∀ e ∈ s'.recorded, e.index < called →
      e ∈ s.recorded := by
    intro called hcalled e he hlt
    rw [hrecorded] at he
    rcases List.mem_append.mp he with he | he
    · exact he
    · rcases recordedBy_cases c s a with hnil | ⟨e', he', hindex⟩
      · rw [hnil] at he
        cases he
      · rw [he'] at he
        obtain rfl := List.mem_singleton.mp he
        omega
  refine ⟨⟨?_, distinct_step h hs.distinct, ?_⟩, current_step h hs.current hu,
    covered_step h hs.current hs.covered hu, ?_⟩
  · rw [hrecorded]
    exact (perm_step h hs.current hu).trans (hs.once.append_right _)
  · intro called hcalled e he hlt
    apply hstored
    rcases returned_step h hcalled with hcalled | ⟨hin, hwaits, hbuffer, hrest, hfree⟩
    · exact hs.flushed called hcalled e (hold called (hs.bounded called hcalled) e he hlt) hlt
    · have hmem := hold called (hs.covered called hin).1 e he hlt
      exact stored_of_returned hs hin hwaits hbuffer hrest hfree hmem hlt
  · intro called hcalled
    rcases returned_step h hcalled with hcalled | ⟨hin, -⟩
    · exact (hs.bounded called hcalled).trans hlength
    · exact (hs.covered called hin).1.trans hlength

theorem RunJournal.sound_init (c : JournalConfig) : RunJournal.init.Sound c where
  once := .refl _
  distinct := rfl
  flushed called hcalled := by cases hcalled
  current := trivial
  covered called hcalled := by cases hcalled
  bounded called hcalled := by cases hcalled

theorem delivered_while_undisturbed
    (h : Reachable ((journal c).when (RunJournal.Undisturbed c)) s) : s.Delivered := by
  have hsound : s.Sound c := by
    refine h.invariant (I := RunJournal.Sound c) ?_ fun s a t _ hs ht => ?_
    · rintro s rfl
      exact RunJournal.sound_init c
    · exact sound_step (step_cases ht.2) hs ht.1
  exact hsound.toDelivered

end Delivery

namespace JournalRun

def put (loop : Bool) : RunJournal → JournalAction := fun _ =>
  .put ⟨"llm.end", "message", ⟨.str "", .str _⟩, none, "2026"⟩ loop

def act (a : JournalAction) : RunJournal → JournalAction := fun _ => a

/-- Two calls of `_put` on the event loop start a background flush. -/
def started : List (RunJournal → JournalAction) :=
  [put true, act .proceed, put true, act .proceed, act .proceed, act (.task .start)]

/-- A background flush raises before it stores anything; `flush()` stores its batch. -/
def retried : List (RunJournal → JournalAction) :=
  started ++ [act (.task .raise), act .proceed, act .flushDone, put false, act .callFlush,
    act .drain, act .proceed, act (.flush .store), act (.flush .succeed), act .proceed,
    act (.flush .store), act (.flush .succeed)]

/-- The store raises after it has written the first of two events. -/
def repeated : List (RunJournal → JournalAction) :=
  started ++ [act (.task .store), act (.task .raise), act .proceed, act .flushDone,
    act .callFlush, act .drain, act .proceed, act (.flush .store), act (.flush .store),
    act (.flush .succeed)]

/-- The task that writes a batch is cancelled. -/
def lost : List (RunJournal → JournalAction) := started ++ [act (.task .cancel), act .flushDone]

/-- While `flush()` writes its first batch a callback starts a background flush of the rest. -/
def overtaken : List (RunJournal → JournalAction) :=
  [put false, put false, put false, act .callFlush, act .drain, act .proceed, put true,
   act .proceed, act .proceed, act (.flush .store), act (.flush .succeed)]

/-- Another thread appends to the buffer after it was copied and before it is cleared. -/
def raced : List (RunJournal → JournalAction) :=
  [put true, act .proceed, put true, act .proceed, put false, act .proceed]

end JournalRun

theorem delivered_after_retry :
    ∃ s, Reachable ((journal ⟨.db, "t", "r", 2⟩).when
        (RunJournal.Undisturbed ⟨.db, "t", "r", 2⟩)) s ∧
      (s.stored.map JournalEvent.index = [0, 1, 2] ∧ s.returned = [3]) ∧ s.Delivered := by
  have hrun : (runScript (guarded (RunJournal.Undisturbed ⟨.db, "t", "r", 2⟩)
      (RunJournal.step ⟨.db, "t", "r", 2⟩)) .init JournalRun.retried).any
        (fun s => decide (s.stored.map JournalEvent.index = [0, 1, 2] ∧ s.returned = [3])) =
      true := by
    decide +kernel
  obtain ⟨s, hs, h⟩ := exists_reachable_of_decide _ hrun
  exact ⟨s, when_of_guarded hs, h,
    delivered_while_undisturbed (when_of_guarded hs)⟩

theorem RunJournal.Delivered.indexes {s : RunJournal} (h : s.Delivered) :
    (s.all.map JournalEvent.index).Perm (List.range s.recorded.length) := by
  rw [← h.distinct]
  exact h.once.map _

/-- An event is stored twice, events are lost by a cancellation and by a race, `flush()` returns
before an event is stored. -/
theorem journal_repeats_and_loses :
    (∃ s, Reachable (journal ⟨.jsonl, "t", "r", 2⟩) s ∧
      s.stored.map JournalEvent.index = [0, 0, 1] ∧ ¬ s.Delivered) ∧
    (∃ s, Reachable (journal ⟨.db, "t", "r", 2⟩) s ∧
      (s.all.map JournalEvent.index = [] ∧ s.recorded.length = 2) ∧ ¬ s.Delivered) ∧
    (∃ s, Reachable (journal ⟨.db, "t", "r", 2⟩) s ∧
      (s.all.map JournalEvent.index = [0, 1] ∧ s.recorded.length = 3) ∧ ¬ s.Delivered) ∧
    (∃ s, Reachable (journal ⟨.db, "t", "r", 2⟩) s ∧
      (s.stored.map JournalEvent.index = [0, 1] ∧ s.recorded.length = 4 ∧ s.returned = [3]) ∧
        ¬ s.Delivered) := by
  refine ⟨?_, ?_, ?_, ?_⟩
  · have hrun : (runScript (RunJournal.step ⟨.jsonl, "t", "r", 2⟩) .init JournalRun.repeated).any
        (fun s => decide (s.stored.map JournalEvent.index = [0, 0, 1])) = true := by
      decide +kernel
    obtain ⟨s, hs, hstored⟩ := exists_reachable_of_decide _ hrun
    refine ⟨s, hs, hstored, fun hd => ?_⟩
    have hnodup := hd.indexes.nodup_iff.mpr List.nodup_range
    simp only [RunJournal.all, List.append_assoc, List.map_append, hstored] at hnodup
    exact absurd hnodup.of_append_left (by decide)
  · have hrun : (runScript (RunJournal.step ⟨.db, "t", "r", 2⟩) .init JournalRun.lost).any
        (fun s => decide (s.all.map JournalEvent.index = [] ∧ s.recorded.length = 2)) = true := by
      decide +kernel
    obtain ⟨s, hs, hall⟩ := exists_reachable_of_decide _ hrun
    refine ⟨s, hs, hall, fun hd => ?_⟩
    have hperm := hd.indexes.length_eq
    rw [hall.1, hall.2] at hperm
    exact absurd hperm (by decide)
  · have hrun : (runScript (RunJournal.step ⟨.db, "t", "r", 2⟩) .init JournalRun.raced).any
        (fun s => decide (s.all.map JournalEvent.index = [0, 1] ∧ s.recorded.length = 3)) =
          true := by
      decide +kernel
    obtain ⟨s, hs, hall⟩ := exists_reachable_of_decide _ hrun
    refine ⟨s, hs, hall, fun hd => ?_⟩
    have hperm := hd.indexes.length_eq
    rw [hall.1, hall.2] at hperm
    exact absurd hperm (by decide)
  · have hrun : (runScript (RunJournal.step ⟨.db, "t", "r", 2⟩) .init JournalRun.overtaken).any
        (fun s => decide (s.stored.map JournalEvent.index = [0, 1] ∧ s.recorded.length = 4 ∧
          s.returned = [3])) = true := by
      decide +kernel
    obtain ⟨s, hs, hfacts⟩ := exists_reachable_of_decide _ hrun
    obtain ⟨hstored, hlength, hreturned⟩ := hfacts
    refine ⟨s, hs, ⟨hstored, hlength, hreturned⟩, fun hd => ?_⟩
    have hmem : 2 ∈ s.recorded.map JournalEvent.index := by
      rw [hd.distinct, hlength]
      decide
    obtain ⟨e, he, hindex⟩ := List.mem_map.mp hmem
    have hin := hd.flushed 3 (by rw [hreturned]; decide) e he (by omega)
    have htwo : 2 ∈ s.stored.map JournalEvent.index := hindex ▸ List.mem_map_of_mem hin
    rw [hstored] at htwo
    exact absurd htwo (by decide)

end DeerFlow.Runtime
