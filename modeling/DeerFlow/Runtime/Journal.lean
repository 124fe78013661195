import DeerFlow.Lib.Transition
import DeerFlow.Runtime.EventStore

/-! The delivery of a run's events from `RunJournal` to an event store. Callbacks
record events in a buffer, on the thread of the event loop or on others. A background
task and the final `flush()` take batches from it, in two operations each, between
which other threads may record; both suspend while the store writes. -/

namespace DeerFlow.Runtime
open Transition

inductive StoreKind where
  | memory
  | jsonl
  | db
  deriving DecidableEq

structure JournalConfig where
  store : StoreKind
  threadId : String
  runId : String
  flushThreshold : Nat

/-- An event and its place among those recorded. -/
structure JournalEvent where
  index : Nat
  args : EventArgs

/-- A `put_batch` that is awaited and has stored the first `written` events of its batch. -/
structure BatchWrite where
  batch : List JournalEvent
  written : Nat

namespace BatchWrite

def rest (w : BatchWrite) : List JournalEvent := w.batch.drop w.written

def advance (w : BatchWrite) (n : Nat) : BatchWrite := { w with written := w.written + n }

end BatchWrite

/-- How many events a store writes at once: JSONL each by itself, the others the batch. -/
def StoreKind.atOnce (kind : StoreKind) (w : BatchWrite) : Nat :=
  match kind with
  | .jsonl => 1
  | .memory | .db => w.rest.length

/-- A batch that is written at once is not written when the store raises. -/
def StoreKind.MayRaise (kind : StoreKind) (w : BatchWrite) : Prop := kind = .jsonl ∨ w.written = 0

instance (kind : StoreKind) (w : BatchWrite) : Decidable (kind.MayRaise w) :=
  inferInstanceAs (Decidable (_ ∨ _))

inductive FlushTaskPhase where
  /-- The task exists; the coroutine has not been entered. -/
  | created (batch : List JournalEvent)
  | writing (write : BatchWrite)
  /-- The coroutine has ended; `_on_flush_done` has not run. -/
  | finished

structure FlushTask where
  phase : FlushTaskPhase
  /-- `flush()` awaits it. -/
  gathered : Bool

/-- The events of the task's batch that are neither stored nor back in the buffer. -/
def FlushTask.unwritten (t : FlushTask) : List JournalEvent :=
  match t.phase with
  | .created batch => batch
  | .writing w => w.rest
  | .finished => []

def FlushTask.written (t : FlushTask) : Nat :=
  match t.phase with
  | .writing w => w.written
  | .created _ | .finished => 0

def FlushTask.isFinished (t : FlushTask) : Bool :=
  match t.phase with
  | .finished => true
  | .created _ | .writing _ => false

/-- Where `flush()` is suspended, with the number of events recorded before the call. -/
inductive FlushPc where
  | idle
  | gathering (called : Nat)
  /-- The wait for the progress task, which may be none. -/
  | progress (called : Nat)
  | writing (called : Nat) (write : BatchWrite)

def FlushPc.unwritten : FlushPc → List JournalEvent
  | .writing _ w => w.rest
  | .idle | .gathering _ | .progress _ => []

/-- The number of events recorded before the call in progress. -/
def FlushPc.called? : FlushPc → Option Nat
  | .idle => none
  | .gathering called | .progress called | .writing called _ => some called

def FlushPc.gathers : FlushPc → Bool
  | .gathering _ => true
  | .idle | .progress _ | .writing _ _ => false

def FlushPc.written : FlushPc → Nat
  | .writing _ w => w.written
  | .idle | .gathering _ | .progress _ => 0

/-- Where the thread of the event loop stands between two operations on the buffer. -/
inductive LoopPc where
  | free
  /-- `_put` has appended its event and not asked for the length. -/
  | appended
  /-- `_flush_sync` has copied the buffer and not cleared it. -/
  | copied (batch : List JournalEvent)
  /-- `flush()` has sliced its next batch and not deleted it. -/
  | sliced (called : Nat) (batch : List JournalEvent)
  /-- A batch that failed is joined with the buffer, whose place the two do not take yet. -/
  | joined (batch seen : List JournalEvent)

/-- What the thread holds that is nowhere else. -/
def LoopPc.unwritten : LoopPc → List JournalEvent
  | .joined batch _ => batch
  | .free | .appended | .copied _ | .sliced _ _ => []

def LoopPc.copies : LoopPc → List JournalEvent
  | .copied batch => batch
  | .free | .appended | .sliced _ _ | .joined _ _ => []

structure RunJournal where
  buffer : List JournalEvent
  loop : LoopPc
  /-- A list that was the buffer is not the buffer any more. -/
  rebound : Bool
  pendingFlushTask : Option FlushTask
  flush : FlushPc
  /-- What the store holds. -/
  stored : List JournalEvent
  /-- Every event `_put` was given. -/
  recorded : List JournalEvent
  /-- For each normal return of `flush()` the number of events recorded before the call. -/
  returned : List Nat

/-- What happens to a `put_batch` or to the task that awaits it. -/
inductive WriteAction where
  | start
  | store
  | succeed
  | raise
  | cancel
  deriving DecidableEq

/-- The arguments of `_put` and the time. -/
structure JournalPut where
  eventType : String
  category : String
  content : JsonValue
  metadata : Option JsonDict
  now : String

inductive JournalAction where
  /-- `loop`: the caller runs on the thread of the event loop. -/
  | put (args : JournalPut) (loop : Bool)
  /-- A caller on another thread had read `_buffer` before it was bound again. -/
  | putStale (args : JournalPut)
  /-- The thread of the event loop goes on to its next operation. -/
  | proceed
  /-- `_flush_sync`, as the end of a chain calls it. -/
  | flushSync
  | task (a : WriteAction)
  | flushDone
  | callFlush
  | gathered
  | drain
  | flush (a : WriteAction)
  | cancelFlush

namespace RunJournal

def init : RunJournal := ⟨[], .free, false, none, .idle, [], [], []⟩

def event (c : JournalConfig) (s : RunJournal) (args : JournalPut) : JournalEvent where
  index := s.recorded.length
  args :=
    { threadId := c.threadId, runId := c.runId, eventType := args.eventType,
      category := args.category, content := args.content,
      metadata := some (args.metadata.getD .empty), createdAt := some args.now }

/-- `_put` on another thread: without an event loop `_flush_sync` does nothing. -/
def record (c : JournalConfig) (s : RunJournal) (args : JournalPut) : RunJournal :=
  { s with buffer := s.buffer ++ [s.event c args], recorded := s.recorded ++ [s.event c args] }

/-- `_flush_sync` up to the copy, which it makes unless a task is pending. -/
def flushSync (s : RunJournal) : RunJournal :=
  if s.buffer.isEmpty || s.pendingFlushTask.isSome then { s with loop := .free }
  else { s with loop := .copied s.buffer }

/-- The end of `_put`. -/
def checkLength (c : JournalConfig) (s : RunJournal) : RunJournal :=
  if c.flushThreshold ≤ s.buffer.length then s.flushSync else { s with loop := .free }

def proceed (c : JournalConfig) (s : RunJournal) : Option RunJournal :=
  match s.loop with
  | .free => none
  | .appended => some (s.checkLength c)
  | .copied batch => some { s with
      loop := .free, buffer := [], pendingFlushTask := some ⟨.created batch, false⟩ }
  | .sliced called batch => some { s with
      loop := .free, buffer := s.buffer.drop c.flushThreshold, flush := .writing called ⟨batch, 0⟩ }
  | .joined batch seen => some { s with loop := .free, rebound := true, buffer := batch ++ seen }

def setPhase (s : RunJournal) (t : FlushTask) (phase : FlushTaskPhase) : RunJournal :=
  { s with pendingFlushTask := some { t with phase := phase } }

/-- `_flush_async`: an `Exception` returns the batch to the buffer, `CancelledError` is none. -/
def taskStep (c : JournalConfig) (s : RunJournal) (t : FlushTask) (a : WriteAction) :
    Option RunJournal :=
  match t.phase, a with
  | .created batch, .start => some (s.setPhase t (.writing ⟨batch, 0⟩))
  | .created _, .cancel => some (s.setPhase t .finished)
  | .writing w, .store =>
    if w.rest.isEmpty then none
    else some { s.setPhase t (.writing (w.advance (c.store.atOnce w))) with
      stored := s.stored ++ w.rest.take (c.store.atOnce w) }
  | .writing w, .succeed => if w.rest.isEmpty then some (s.setPhase t .finished) else none
  | .writing w, .raise =>
    if c.store.MayRaise w then
      some { s.setPhase t .finished with loop := .joined w.batch s.buffer }
    else none
  | .writing _, .cancel => some (s.setPhase t .finished)
  | _, _ => none

def callFlush (s : RunJournal) : RunJournal :=
  match s.pendingFlushTask with
  | none => { s with flush := .progress s.recorded.length }
  | some t => { s with
      flush := .gathering s.recorded.length, pendingFlushTask := some { t with gathered := true } }

/-- `while self._buffer`: return, or take the next batch. -/
def drain (c : JournalConfig) (s : RunJournal) (called : Nat) : RunJournal :=
  if s.buffer.isEmpty then { s with flush := .idle, returned := s.returned ++ [called] }
  else { s with loop := .sliced called (s.buffer.take c.flushThreshold) }

def flushStep (c : JournalConfig) (s : RunJournal) (called : Nat) (w : BatchWrite) :
    WriteAction → Option RunJournal
  | .start => none
  | .store =>
    if w.rest.isEmpty then none
    else some { s with
      flush := .writing called (w.advance (c.store.atOnce w))
      stored := s.stored ++ w.rest.take (c.store.atOnce w) }
  | .succeed => if w.rest.isEmpty then some (s.drain c called) else none
  | .raise =>
    if c.store.MayRaise w then
      some { s with flush := .idle, loop := .joined w.batch s.buffer }
    else none
  | .cancel => some { s with flush := .idle }

/-- `flush()` still waits for the task. -/
def awaited (s : RunJournal) : Bool := s.pendingFlushTask.any fun t => t.gathered && !t.isFinished

/-- A `CancelledError` while `flush()` waits; a gather hands it on to the task. -/
def cancelFlush (s : RunJournal) : Option RunJournal :=
  match s.flush with
  | .gathering _ =>
    if s.awaited then
      some { s with
        flush := .idle
        pendingFlushTask := s.pendingFlushTask.map fun t => { t with phase := .finished } }
    else some { s with flush := .idle }
  | .progress _ => some { s with flush := .idle }
  | .idle | .writing _ _ => none

/-- What the thread of the event loop can begin. -/
def loopStep (c : JournalConfig) (s : RunJournal) : JournalAction → Option RunJournal
  | .put args _ => some { s.record c args with loop := .appended }
  | .putStale _ | .proceed => none
  | .flushSync => some s.flushSync
  | .task a => s.pendingFlushTask.bind fun t => s.taskStep c t a
  | .flushDone =>
    if s.pendingFlushTask.any FlushTask.isFinished then some { s with pendingFlushTask := none }
    else none
  | .callFlush =>
    match s.flush with
    | .idle => some s.callFlush
    | _ => none
  | .gathered =>
    match s.flush with
    | .gathering called => if s.awaited then none else some { s with flush := .progress called }
    | _ => none
  | .drain =>
    match s.flush with
    | .progress called => some (s.drain c called)
    | _ => none
  | .flush a =>
    match s.flush with
    | .writing called w => s.flushStep c called w a
    | _ => none
  | .cancelFlush => s.cancelFlush

/-- Between two operations that no `await` parts the thread begins nothing else. -/
def begin (c : JournalConfig) (s : RunJournal) (a : JournalAction) : Option RunJournal :=
  match s.loop with
  | .free => s.loopStep c a
  | _ => none

def step (c : JournalConfig) (s : RunJournal) : JournalAction → Option RunJournal
  | .put args false => some (s.record c args)
  | .putStale args =>
    if s.rebound then some { s with recorded := s.recorded ++ [s.event c args] } else none
  | .proceed => s.proceed c
  | a => s.begin c a

end RunJournal

/-- The journal and its store. -/
def journal (c : JournalConfig) : System RunJournal JournalAction :=
  System.ofFn .init (RunJournal.step c)

section Steps
variable {c : JournalConfig} {s s' : RunJournal}

/-- What each action of the thread of the event loop can do. -/
inductive LoopStep (c : JournalConfig) (s : RunJournal) : JournalAction → RunJournal → Prop
  | append (args : JournalPut) (loop : Bool) :
      LoopStep c s (.put args loop) { s.record c args with loop := .appended }
  | flushSync : LoopStep c s .flushSync s.flushSync
  | start {t : FlushTask} {batch : List JournalEvent} : s.pendingFlushTask = some t →
      t.phase = .created batch → LoopStep c s (.task .start) (s.setPhase t (.writing ⟨batch, 0⟩))
  | store {t : FlushTask} {w : BatchWrite} : s.pendingFlushTask = some t →
      t.phase = .writing w → LoopStep c s (.task .store)
        { s.setPhase t (.writing (w.advance (c.store.atOnce w))) with
          stored := s.stored ++ w.rest.take (c.store.atOnce w) }
  | succeed {t : FlushTask} {w : BatchWrite} : s.pendingFlushTask = some t →
      t.phase = .writing w → w.rest = [] → LoopStep c s (.task .succeed) (s.setPhase t .finished)
  | raise {t : FlushTask} {w : BatchWrite} : s.pendingFlushTask = some t →
      t.phase = .writing w → c.store.MayRaise w → LoopStep c s (.task .raise)
        { s.setPhase t .finished with loop := .joined w.batch s.buffer }
  | cancel {t : FlushTask} : s.pendingFlushTask = some t → t.phase ≠ .finished →
      LoopStep c s (.task .cancel) (s.setPhase t .finished)
  | flushDone {t : FlushTask} : s.pendingFlushTask = some t → t.phase = .finished →
      LoopStep c s .flushDone { s with pendingFlushTask := none }
  | callFlush : s.flush = .idle → LoopStep c s .callFlush s.callFlush
  | gathered {called : Nat} : s.flush = .gathering called → s.awaited = false →
      LoopStep c s .gathered { s with flush := .progress called }
  | drain {called : Nat} : s.flush = .progress called →
      LoopStep c s .drain (s.drain c called)
  | flushStore {called : Nat} {w : BatchWrite} : s.flush = .writing called w →
      LoopStep c s (.flush .store)
        { s with
          flush := .writing called (w.advance (c.store.atOnce w))
          stored := s.stored ++ w.rest.take (c.store.atOnce w) }
  | flushSucceed {called : Nat} {w : BatchWrite} : s.flush = .writing called w → w.rest = [] →
      LoopStep c s (.flush .succeed) (s.drain c called)
  | flushRaise {called : Nat} {w : BatchWrite} : s.flush = .writing called w →
      c.store.MayRaise w →
      LoopStep c s (.flush .raise) { s with flush := .idle, loop := .joined w.batch s.buffer }
  | flushCancel {called : Nat} {w : BatchWrite} : s.flush = .writing called w →
      LoopStep c s (.flush .cancel) { s with flush := .idle }
  | cancelGather : s.awaited = true → s.flush.unwritten = [] →
      LoopStep c s .cancelFlush
        { s with
          flush := .idle
          pendingFlushTask := s.pendingFlushTask.map fun t => { t with phase := .finished } }
  | cancelWait : s.flush.unwritten = [] → LoopStep c s .cancelFlush { s with flush := .idle }

theorem taskStep_cases {t : FlushTask} {a : WriteAction} (ht : s.pendingFlushTask = some t)
    (h : s.taskStep c t a = some s') : LoopStep c s (.task a) s' := by
  unfold RunJournal.taskStep at h
  split at h
  · next hphase =>
    cases h
    exact .start ht hphase
  · next hphase =>
    cases h
    exact .cancel ht (by rw [hphase]; simp)
  · next hphase =>
    split_ifs at h
    cases h
    exact .store ht hphase
  · next hphase =>
    split_ifs at h with hrest
    cases h
    exact .succeed ht hphase (List.isEmpty_iff.mp hrest)
  · next hphase =>
    split_ifs at h with hraise
    cases h
    exact .raise ht hphase hraise
  · next hphase =>
    cases h
    exact .cancel ht (by rw [hphase]; simp)
  · cases h

theorem flushStep_cases {called : Nat} {w : BatchWrite} {a : WriteAction}
    (hw : s.flush = .writing called w) (h : s.flushStep c called w a = some s') :
    LoopStep c s (.flush a) s' := by
  unfold RunJournal.flushStep at h
  split at h
  · cases h
  · split_ifs at h
    cases h
    exact .flushStore hw
  · split_ifs at h with hrest
    cases h
    exact .flushSucceed hw (List.isEmpty_iff.mp hrest)
  · split_ifs at h with hraise
    cases h
    exact .flushRaise hw hraise
  · cases h
    exact .flushCancel hw

theorem flushSync_cases (s : RunJournal) : s.flushSync = { s with loop := .free } ∨
    s.pendingFlushTask = none ∧ s.flushSync = { s with loop := .copied s.buffer } := by
  unfold RunJournal.flushSync
  split_ifs with hskip
  · exact .inl rfl
  · simp only [Bool.or_eq_true, not_or] at hskip
    exact .inr ⟨by simpa using hskip.2, rfl⟩

theorem checkLength_cases (c : JournalConfig) (s : RunJournal) :
    s.checkLength c = { s with loop := .free } ∨ c.flushThreshold ≤ s.buffer.length ∧
      s.pendingFlushTask = none ∧ s.checkLength c = { s with loop := .copied s.buffer } := by
  unfold RunJournal.checkLength
  split_ifs with hfull
  · rcases flushSync_cases s with h | h
    · exact .inl h
    · exact .inr ⟨hfull, h⟩
  · exact .inl rfl

theorem drain_cases (c : JournalConfig) (s : RunJournal) (called : Nat) :
    s.buffer = [] ∧
      s.drain c called = { s with flush := .idle, returned := s.returned ++ [called] } ∨
    s.drain c called = { s with loop := .sliced called (s.buffer.take c.flushThreshold) } := by
  unfold RunJournal.drain
  split_ifs with hempty
  · exact .inl ⟨List.isEmpty_iff.mp hempty, rfl⟩
  · exact .inr rfl

theorem isFinished_iff {t : FlushTask} : t.isFinished = true ↔ t.phase = .finished := by
  unfold FlushTask.isFinished
  cases t.phase <;> simp

theorem flushDone_cases (h : (if s.pendingFlushTask.any FlushTask.isFinished then
    some { s with pendingFlushTask := none } else none) = some s') :
    LoopStep c s .flushDone s' := by
  split_ifs at h with hdone
  cases h
  obtain ⟨t, ht, hfinished⟩ := (Option.any_eq_true _ _).mp hdone
  exact .flushDone ht (isFinished_iff.mp hfinished)

theorem cancelFlush_cases (h : s.cancelFlush = some s') : LoopStep c s .cancelFlush s' := by
  unfold RunJournal.cancelFlush at h
  split at h
  · next hflush =>
    have hnil : s.flush.unwritten = [] := by rw [hflush]; rfl
    split_ifs at h with hawaited
    · cases h
      exact .cancelGather hawaited hnil
    · cases h
      exact .cancelWait hnil
  · next hflush =>
    cases h
    exact .cancelWait (by rw [hflush]; rfl)
  · cases h
  · cases h

theorem loopStep_cases {a : JournalAction} (h : s.loopStep c a = some s') : LoopStep c s a s' := by
  cases a with
  | put args loop =>
    cases h
    exact .append args loop
  | putStale | proceed => cases h
  | flushSync =>
    cases h
    exact .flushSync
  | task a =>
    obtain ⟨t, ht, h⟩ := Option.bind_eq_some_iff.mp h
    exact taskStep_cases ht h
  | flushDone => exact flushDone_cases h
  | cancelFlush => exact cancelFlush_cases h
  | callFlush =>
    simp only [RunJournal.loopStep] at h
    split at h <;> cases h
    exact .callFlush ‹_›
  | gathered =>
    simp only [RunJournal.loopStep] at h
    split at h
    · split_ifs at h with hawaited
      cases h
      exact .gathered ‹_› (by simpa using hawaited)
    · cases h
  | drain =>
    simp only [RunJournal.loopStep] at h
    split at h <;> cases h
    exact .drain ‹_›
  | flush a =>
    simp only [RunJournal.loopStep] at h
    split at h
    · next hw => exact flushStep_cases hw h
    · cases h

/-- What each action can do. -/
inductive JournalStep (c : JournalConfig) (s : RunJournal) : JournalAction → RunJournal → Prop
  | record (args : JournalPut) : JournalStep c s (.put args false) (s.record c args)
  | stale (args : JournalPut) : s.rebound = true →
      JournalStep c s (.putStale args) { s with recorded := s.recorded ++ [s.event c args] }
  | check : s.loop = .appended → JournalStep c s .proceed (s.checkLength c)
  | clear {batch : List JournalEvent} : s.loop = .copied batch → JournalStep c s .proceed
      { s with loop := .free, buffer := [], pendingFlushTask := some ⟨.created batch, false⟩ }
  | delete {called : Nat} {batch : List JournalEvent} : s.loop = .sliced called batch →
      JournalStep c s .proceed { s with
        loop := .free
        buffer := s.buffer.drop c.flushThreshold
        flush := .writing called ⟨batch, 0⟩ }
  | rebind {batch seen : List JournalEvent} : s.loop = .joined batch seen →
      JournalStep c s .proceed { s with loop := .free, rebound := true, buffer := batch ++ seen }
  | begin {a : JournalAction} {t : RunJournal} : s.loop = .free → LoopStep c s a t →
      JournalStep c s a t

theorem proceed_cases (h : s.proceed c = some s') : JournalStep c s .proceed s' := by
  unfold RunJournal.proceed at h
  split at h <;> cases h
  case h_2 hloop => exact .check hloop
  case h_3 hloop => exact .clear hloop
  case h_4 hloop => exact .delete hloop
  case h_5 hloop => exact .rebind hloop

theorem step_cases {a : JournalAction} (h : s.step c a = some s') : JournalStep c s a s' := by
  unfold RunJournal.step at h
  split at h
  · cases h
    exact .record _
  · split_ifs at h with hrebound
    cases h
    exact .stale _ hrebound
  · exact proceed_cases h
  · unfold RunJournal.begin at h
    split at h
    · next hfree => exact .begin hfree (loopStep_cases h)
    · cases h

end Steps

end DeerFlow.Runtime
