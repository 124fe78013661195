import DeerFlow.Lib.Lists
import DeerFlow.Subagents.BackgroundTasks

/-! Background subagents are isolated by invocation as long as no id is used again while an
earlier call with it is unfinished. -/

namespace DeerFlow.Subagents
open Transition

section Isolation
variable {M U : Type}

namespace TaskPc

def isDone : TaskPc → Bool
  | returned | crashed => true
  | _ => false

/-- The record that `run_task` writes to. -/
def holder? : TaskPc → Option Nat
  | started h | waiting h | timedOut h | settling h _ => some h
  | submitted | failing _ | returned | crashed => none

end TaskPc

/-- The record that the execution writes to. -/
def ExecutionPc.holder? : ExecutionPc M → Option Nat
  | building h | streaming h | capturing h _ => some h
  | idle | ended | aborted => none

namespace PollerPc

def isDone : PollerPc → Bool
  | returned _ | raised => true
  | _ => false

/-- The poller has slept for the last time. -/
def runsOut (config : SubagentConfig) : PollerPc → Bool
  | sleep count _ => count + 1 > config.maxPollCount
  | _ => false

end PollerPc

def CleanerPc.isDone : CleanerPc → Bool
  | idle | done => true
  | _ => false

/-- No party of the call will look its id up again. -/
def Invocation.finished (c : Invocation M U) : Bool :=
  c.task.isDone && c.poller.isDone && c.cleaner.isDone

namespace SubagentResult

/-- Once a status is terminal, nothing but a request to cancel is recorded. -/
def Kept (r r' : SubagentResult M U) : Prop :=
  r.status.isTerminal = true → ∃ b, r' = { r with cancelRequested := b }

end SubagentResult

namespace BackgroundState

/-- An id is used again while an earlier call with it is unfinished, step messages are
appended to a terminal record, or a poller runs out of polls. -/
def Disturbs (s : BackgroundState M U) : BackgroundEvent M U → Prop
  | .executeAsync taskId _ => ∃ c ∈ s.calls, c.taskId = taskId ∧ c.finished = false
  | .capture i => ∃ c ∈ s.calls[i]?, ∃ h ∈ c.execution.holder?, ∃ r ∈ s.record? h,
    r.status.isTerminal = true
  | .poll i => ∃ c ∈ s.calls[i]?, c.poller.runsOut c.config = true
  | _ => False

end BackgroundState

/-- The call with this number writes only to the record that it made, the record is terminal
once its `run_task` has returned, and its poller returns what the record says. -/
structure Invocation.Isolated (i : Nat) (c : Invocation M U) : Prop where
  task : ∀ h ∈ c.task.holder?, h = i
  execution : ∀ h ∈ c.execution.holder?, h = i
  settled : c.task.isDone = true → c.record.status.isTerminal = true
  answered : ∀ result, c.poller = .returned result → c.record.outcome? = some result

instance (s : BackgroundState M U) (event : BackgroundEvent M U) :
    Decidable (s.Disturbs event) := by
  unfold BackgroundState.Disturbs
  split <;> infer_instance

end Isolation

section Records
variable {M U : Type} {r r' : SubagentResult M U}

namespace SubagentResult

theorem Kept.refl (r : SubagentResult M U) : r.Kept r := fun _ => ⟨r.cancelRequested, rfl⟩

theorem Kept.terminal (h : r.Kept r') (hr : r.status.isTerminal = true) :
    r'.status.isTerminal = true := by
  obtain ⟨b, rfl⟩ := h hr
  exact hr

theorem Kept.trans {r'' : SubagentResult M U} (h : r.Kept r') (h' : r'.Kept r'') :
    r.Kept r'' := by
  intro hr
  obtain ⟨b, rfl⟩ := h hr
  obtain ⟨b', rfl⟩ := h' hr
  exact ⟨b', rfl⟩

theorem outcome_terminal {result : TaskResult} (h : r.outcome? = some result) :
    r.status.isTerminal = true := by
  unfold outcome? at h
  cases hs : r.status with
  | pending | running =>
    rw [hs] at h
    cases h
  | completed | failed | cancelled | timedOut => rfl

theorem Kept.outcome (h : r.Kept r') {result : TaskResult} (hr : r.outcome? = some result) :
    r'.outcome? = some result := by
  obtain ⟨b, rfl⟩ := h (outcome_terminal hr)
  exact hr

/-- `completed_at` is set by the write that sets a terminal status. -/
def Stamped (r : SubagentResult M U) : Prop := r.completed = r.status.isTerminal

theorem Stamped.safeToCleanUp (h : r.Stamped) : r.safeToCleanUp = r.status.isTerminal := by
  unfold SubagentResult.safeToCleanUp
  rw [h, Bool.or_self]

section Write
variable (w : TerminalWrite U)

theorem kept_trySetTerminal : r.Kept (r.trySetTerminal w) := by
  intro hr
  unfold trySetTerminal
  rw [if_pos hr]
  exact ⟨r.cancelRequested, rfl⟩

theorem terminal_trySetTerminal : (r.trySetTerminal w).status.isTerminal = true := by
  unfold trySetTerminal
  split
  · assumption
  · exact w.terminal

theorem stamped_trySetTerminal (h : r.Stamped) : (r.trySetTerminal w).Stamped := by
  unfold trySetTerminal
  split
  · exact h
  · exact w.terminal.symm

end Write

end SubagentResult

end Records

section Sound
variable {M U : Type} {i : Nat} {c : Invocation M U} {found : Option Nat}
open SubagentResult

/-- What `run_task` is about to do fits the call. -/
def TaskPc.Fits (i : Nat) (e : ExecutionPc M) (r : SubagentResult M U) : TaskPc → Prop
  | submitted => e = .idle ∧ r.status.isTerminal = false
  | started h | waiting h | timedOut h | settling h _ => h = i
  | failing _ => True
  | returned | crashed => r.status.isTerminal = true

def ExecutionPc.Fits (i : Nat) (r : SubagentResult M U) : ExecutionPc M → Prop
  | building h | streaming h | capturing h _ => h = i
  | ended => r.status.isTerminal = true
  | idle | aborted => True

def PollerPc.Fits (i : Nat) (r : SubagentResult M U) : PollerPc → Prop
  | check _ h | sleep _ h | awaitCheck _ h => h = i
  | finish result | returned result => r.outcome? = some result
  | missing | giveUp _ => False
  | final found => ∀ h ∈ found, h = i
  | get _ | interrupted | await _ | dropping | raised => True

def CleanerPc.Fits (i : Nat) : CleanerPc → Prop
  | check _ h => h = i
  | idle | get _ | remove | done => True

/-- A call is sound when its parties know its record only, and find it under the id: until
the poller is done, and then until it is terminal. -/
structure Invocation.Sound (i : Nat) (c : Invocation M U) (found : Option Nat) : Prop where
  stamped : c.record.Stamped
  task : c.task.Fits i c.execution c.record
  execution : c.execution.Fits i c.record
  poller : c.poller.Fits i c.record
  cleaner : c.cleaner.Fits i
  sequel : c.poller.isDone = false → c.cleaner = .idle
  listed : c.poller.isDone = false → found = some i
  known : c.finished = false → found = some i ∨ found = none ∧ c.record.status.isTerminal = true

namespace Invocation

theorem active_of_task (h : c.task.isDone = false) : c.finished = false := by
  unfold finished
  rw [h]
  rfl

theorem active_of_poller (h : c.poller.isDone = false) : c.finished = false := by
  unfold finished
  rw [h, Bool.and_false, Bool.false_and]

theorem active_of_cleaner (h : c.cleaner.isDone = false) : c.finished = false := by
  unfold finished
  rw [h, Bool.and_false]

theorem Sound.of_finished (h : c.Sound i found) (hdone : c.finished = true)
    (found' : Option Nat) : c.Sound i found' where
  stamped := h.stamped
  task := h.task
  execution := h.execution
  poller := h.poller
  cleaner := h.cleaner
  sequel := h.sequel
  listed hp := by
    rw [active_of_poller hp] at hdone
    cases hdone
  known hactive := by
    rw [hactive] at hdone
    cases hdone

theorem Sound.record (h : c.Sound i found) {r : SubagentResult M U} (hkept : c.record.Kept r)
    (hstamped : r.Stamped)
    (hfresh : c.task = .submitted → r.status.isTerminal = c.record.status.isTerminal) :
    Sound i { c with record := r } found where
  stamped := hstamped
  task := by
    have htask := h.task
    show c.task.Fits i c.execution r
    cases hpc : c.task with
    | submitted =>
      rw [hpc] at htask
      exact ⟨htask.1, (hfresh hpc).trans htask.2⟩
    | returned | crashed =>
      rw [hpc] at htask
      exact hkept.terminal htask
    | _ =>
      rw [hpc] at htask
      exact htask
  execution := by
    have hexecution := h.execution
    show c.execution.Fits i r
    cases hpc : c.execution with
    | ended =>
      rw [hpc] at hexecution
      exact hkept.terminal hexecution
    | _ =>
      rw [hpc] at hexecution
      exact hexecution
  poller := by
    have hpoller := h.poller
    show c.poller.Fits i r
    cases hpc : c.poller with
    | finish result | returned result =>
      rw [hpc] at hpoller
      exact hkept.outcome hpoller
    | _ =>
      rw [hpc] at hpoller
      exact hpoller
  cleaner := h.cleaner
  sequel := h.sequel
  listed := h.listed
  known hactive := (h.known hactive).imp_right fun hgone => ⟨hgone.1, hkept.terminal hgone.2⟩

theorem Sound.cancel (h : c.Sound i found) :
    Sound i { c with record := { c.record with cancelRequested := true } } found :=
  h.record (fun _ => ⟨true, rfl⟩) h.stamped fun _ => rfl

theorem Sound.write (h : c.Sound i found) (w : TerminalWrite U) (hstarted : c.task ≠ .submitted) :
    Sound i { c with record := c.record.trySetTerminal w } found :=
  h.record (kept_trySetTerminal w) (stamped_trySetTerminal w h.stamped)
    fun hpc => absurd hpc hstarted

theorem Sound.setTask (h : c.Sound i found) {pc : TaskPc} (hactive : c.task.isDone = false)
    (hfits : pc.Fits i c.execution c.record) : Sound i { c with task := pc } found where
  stamped := h.stamped
  task := hfits
  execution := h.execution
  poller := h.poller
  cleaner := h.cleaner
  sequel := h.sequel
  listed := h.listed
  known _ := h.known (active_of_task hactive)

theorem Sound.setExecution (h : c.Sound i found) {pc : ExecutionPc M}
    (hstarted : c.task ≠ .submitted) (hfits : pc.Fits i c.record) :
    Sound i { c with execution := pc } found where
  stamped := h.stamped
  task := by
    have htask := h.task
    show c.task.Fits i pc c.record
    cases hpc : c.task with
    | submitted => exact absurd hpc hstarted
    | _ =>
      rw [hpc] at htask
      exact htask
  execution := hfits
  poller := h.poller
  cleaner := h.cleaner
  sequel := h.sequel
  listed := h.listed
  known := h.known

theorem Sound.setPoller (h : c.Sound i found) {pc : PollerPc} {found' : Option Nat}
    (hactive : c.poller.isDone = false) (hfits : pc.Fits i c.record)
    (hfound : found' = found ∨
      pc.isDone = true ∧ found' = none ∧ c.record.status.isTerminal = true) :
    Sound i { c with poller := pc } found' where
  stamped := h.stamped
  task := h.task
  execution := h.execution
  poller := hfits
  cleaner := h.cleaner
  sequel _ := h.sequel hactive
  listed hp := by
    rcases hfound with rfl | ⟨hdone, -, -⟩
    · exact h.listed hactive
    · rw [show pc.isDone = false from hp] at hdone
      cases hdone
  known _ := by
    rcases hfound with rfl | ⟨-, hgone⟩
    · exact .inl (h.listed hactive)
    · exact .inr hgone

theorem Sound.setCleaner (h : c.Sound i found) {pc : CleanerPc} {found' : Option Nat}
    (hactive : c.cleaner.isDone = false) (hfits : pc.Fits i)
    (hfound : found' = found ∨ found' = none ∧ c.record.status.isTerminal = true) :
    Sound i { c with cleaner := pc } found' where
  stamped := h.stamped
  task := h.task
  execution := h.execution
  poller := h.poller
  cleaner := hfits
  sequel hp := by
    rw [h.sequel hp] at hactive
    cases hactive
  listed hp := by
    rw [h.sequel hp] at hactive
    cases hactive
  known _ := by
    rcases hfound with rfl | hgone
    · exact h.known (active_of_cleaner hactive)
    · exact .inr hgone

/-- A poller that is interrupted may leave the record to a deferred cleanup. -/
theorem Sound.defer (h : c.Sound i found) (hactive : c.poller.isDone = false) :
    Sound i { c with cleaner := .get 0, poller := .raised } found where
  stamped := h.stamped
  task := h.task
  execution := h.execution
  poller := trivial
  cleaner := trivial
  sequel hp := by cases hp
  listed hp := by cases hp
  known _ := .inl (h.listed hactive)

theorem Sound.isolated (h : c.Sound i found) : c.Isolated i where
  task k hk := by
    have htask := h.task
    cases hpc : c.task with
    | started _ | waiting _ | timedOut _ | settling _ _ =>
      rw [hpc] at hk htask
      cases hk
      exact htask
    | submitted | failing _ | returned | crashed =>
      rw [hpc] at hk
      cases hk
  execution k hk := by
    have hexecution := h.execution
    cases hpc : c.execution with
    | building _ | streaming _ | capturing _ _ =>
      rw [hpc] at hk hexecution
      cases hk
      exact hexecution
    | idle | ended | aborted =>
      rw [hpc] at hk
      cases hk
  settled hdone := by
    have htask := h.task
    cases hpc : c.task with
    | returned | crashed =>
      rw [hpc] at htask
      exact htask
    | submitted | started _ | waiting _ | timedOut _ | failing _ | settling _ _ =>
      rw [hpc] at hdone
      cases hdone
  answered result hpc := by
    have hpoller := h.poller
    rw [hpc] at hpoller
    exact hpoller

end Invocation

end Sound

section Moves
variable {M U : Type} {s t : BackgroundState M U} {i : Nat} {c : Invocation M U}
open SubagentResult Invocation

namespace BackgroundState

/-- `_background_tasks` without an id. -/
def without (s : BackgroundState M U) (taskId : String) : BackgroundState M U :=
  { s with tasks := fun k => if k = taskId then none else s.tasks k }

/-- A party of call `i` takes a step: it changes its own call, and while the call is
unfinished it may remove the record from under the id. -/
inductive Moves (s : BackgroundState M U) (i : Nat) (c : Invocation M U) :
    BackgroundState M U → Prop
  | own (f : Invocation M U → Invocation M U) (hid : (f c).taskId = c.taskId)
    (hfinished : c.finished = true → (f c).finished = true) (hkept : c.record.Kept (f c).record)
    (hsound : (f c).Sound i (s.tasks c.taskId)) : Moves s i c (s.modifyCall i f)
  | removes (f : Invocation M U → Invocation M U) (hid : (f c).taskId = c.taskId)
    (hactive : c.finished = false) (hkept : c.record.Kept (f c).record)
    (hsound : (f c).Sound i none) : Moves s i c ((s.without c.taskId).modifyCall i f)

theorem Moves.active {f : Invocation M U → Invocation M U} (hactive : c.finished = false)
    (hid : (f c).taskId = c.taskId) (hkept : c.record.Kept (f c).record)
    (hsound : (f c).Sound i (s.tasks c.taskId)) : Moves s i c (s.modifyCall i f) :=
  .own f hid (fun hdone => absurd hdone (by rw [hactive]; exact Bool.false_ne_true)) hkept hsound

/-- Two changes of one call are one. -/
theorem Moves.twice {f g : Invocation M U → Invocation M U}
    (h : Moves s i c (s.modifyCall i (g ∘ f))) : Moves s i c ((s.modifyCall i f).modifyCall i g) := by
  unfold modifyCall at h ⊢
  rwa [List.modify_modify_eq]

section Table

theorem record?_self (hcall : s.calls[i]? = some c) : s.record? i = some c.record := by
  unfold record?
  rw [hcall]
  rfl

theorem cleanup_cases (hcall : s.calls[i]? = some c) (hs : c.Sound i (s.tasks c.taskId))
    (hactive : c.finished = false) :
    s.cleanupBackgroundTask c.taskId = s ∨
      c.record.status.isTerminal = true ∧ s.cleanupBackgroundTask c.taskId = s.without c.taskId := by
  unfold cleanupBackgroundTask
  rcases hs.known hactive with hfound | ⟨hfound, -⟩
  · rw [hfound, Option.bind_some, record?_self hcall]
    simp only [hs.stamped.safeToCleanUp]
    split
    · next hterminal => exact .inr ⟨hterminal, rfl⟩
    · exact .inl rfl
  · rw [hfound]
    exact .inl rfl

theorem requestCancel_eq (hs : c.Sound i (s.tasks c.taskId)) (hactive : c.poller.isDone = false) :
    s.requestCancelBackgroundTask c.taskId = s.requestCancel i := by
  unfold requestCancelBackgroundTask
  rw [hs.listed hactive]

end Table

section Task

theorem active_of_taskStep (h : s.taskStep i c = some t) : c.task.isDone = false := by
  unfold taskStep at h
  cases hpc : c.task with
  | returned | crashed =>
    simp only [hpc] at h
    cases h
  | _ => rfl

theorem moves_task (hcall : s.calls[i]? = some c) (hs : c.Sound i (s.tasks c.taskId))
    (h : s.taskStep i c = some t) : Moves s i c t := by
  have hfits := hs.task
  have hactive := active_of_taskStep h
  unfold taskStep at h
  cases hpc : c.task with
  | submitted =>
    rw [hpc] at hfits
    simp only [hpc] at h
    rcases hs.known (active_of_task hactive) with hfound | ⟨-, hterminal⟩
    · rw [hfound] at h
      cases h
      have hkept : c.record.Kept { c.record with status := .running } := fun hterminal => by
        rw [hfits.2] at hterminal
        cases hterminal
      have hstamped : Stamped { c.record with status := .running } := by
        show c.record.completed = false
        rw [hs.stamped, hfits.2]
      have hrecord := hs.record hkept hstamped fun _ => hfits.2.symm
      refine .twice ?_
      exact .active (active_of_task hactive) rfl hkept (hrecord.setTask hactive rfl)
    · rw [hfits.2] at hterminal
      cases hterminal
  | started k =>
    have hstarted : c.task ≠ .submitted := by simp [hpc]
    rw [hpc] at hfits
    simp only [hpc] at h
    cases h
    have hwaiting : Sound i { c with task := .waiting k } (s.tasks c.taskId) :=
      hs.setTask hactive hfits
    refine .twice ?_
    exact .active (active_of_task hactive) rfl (.refl _)
      (hwaiting.setExecution (fun hpending => by cases hpending) hfits)
  | waiting k =>
    simp only [hpc] at h
    have hexecution := hs.execution
    split at h
    · next hended =>
      rw [hended] at hexecution
      cases h
      exact .active (active_of_task hactive) rfl (.refl _) (hs.setTask hactive hexecution)
    · cases h
      exact .active (active_of_task hactive) rfl (.refl _) (hs.setTask hactive trivial)
    · cases h
  | timedOut _ | settling _ _ =>
    have hstarted : c.task ≠ .submitted := by simp [hpc]
    rw [hpc] at hfits
    obtain rfl := hfits
    simp only [hpc] at h
    cases h
    refine .twice ?_
    exact .active (active_of_task hactive) rfl (kept_trySetTerminal _)
      ((hs.write _ hstarted).setTask hactive (terminal_trySetTerminal _))
  | failing error =>
    simp only [hpc] at h
    rcases hs.known (active_of_task hactive) with hfound | ⟨hfound, hterminal⟩
    · rw [hfound] at h
      cases h
      exact .active (active_of_task hactive) rfl (.refl _) (hs.setTask hactive rfl)
    · rw [hfound] at h
      cases h
      exact .active (active_of_task hactive) rfl (.refl _) (hs.setTask hactive hterminal)
  | returned | crashed =>
    rw [hpc] at hactive
    cases hactive

theorem moves_submitRaises (hs : c.Sound i (s.tasks c.taskId)) {error : String}
    (h : s.submitRaises i c error = some t) : Moves s i c t := by
  unfold submitRaises at h
  split at h
  · next hpc =>
    have hactive : c.task.isDone = false := by rw [hpc]; rfl
    cases h
    exact .active (active_of_task hactive) rfl (.refl _) (hs.setTask hactive trivial)
  · cases h

theorem moves_timeOut (hs : c.Sound i (s.tasks c.taskId)) (h : s.timeOut i c = some t) :
    Moves s i c t := by
  have hfits := hs.task
  unfold timeOut at h
  split at h
  · cases h
  · cases h
  · next hpc _ _ =>
    have hactive : c.task.isDone = false := by rw [hpc]; rfl
    rw [hpc] at hfits
    obtain rfl := hfits
    cases h
    refine .twice ?_
    exact .active (active_of_task hactive) rfl (fun _ => ⟨true, rfl⟩)
      (hs.cancel.setTask hactive rfl)
  · cases h

end Task

section Execution

theorem started_of_execution (hs : c.Sound i found) (hne : c.execution ≠ .idle) :
    c.task ≠ .submitted := by
  intro hpc
  have hfits := hs.task
  rw [hpc] at hfits
  exact hne hfits.1

theorem moves_endExecution (hs : c.Sound i (s.tasks c.taskId)) (hne : c.execution ≠ .idle)
    (w : TerminalWrite U) : Moves s i c (s.endExecution i i w) := by
  have hstarted := started_of_execution hs hne
  refine .twice ?_
  exact .own _ rfl id (kept_trySetTerminal w)
    ((hs.write w hstarted).setExecution hstarted (terminal_trySetTerminal w))

theorem moves_setExecution (hs : c.Sound i (s.tasks c.taskId)) (hne : c.execution ≠ .idle)
    {pc : ExecutionPc M} (hfits : pc.Fits i c.record) : Moves s i c (s.setExecution i pc) :=
  .own _ rfl id (.refl _) (hs.setExecution (started_of_execution hs hne) hfits)

theorem moves_unlessCancelled (hs : c.Sound i (s.tasks c.taskId)) (hne : c.execution ≠ .idle)
    {w : TerminalWrite U} {pc : ExecutionPc M} (hfits : pc.Fits i c.record)
    (h : ((s.record? i).map fun r =>
      if r.cancelRequested then s.endExecution i i w else s.setExecution i pc) = some t) :
    Moves s i c t := by
  obtain ⟨r, -, rfl⟩ := Option.map_eq_some_iff.mp h
  split
  · exact moves_endExecution hs hne w
  · exact moves_setExecution hs hne hfits

theorem moves_beginStream (hs : c.Sound i (s.tasks c.taskId)) {records : List U}
    (h : s.beginStream i c records = some t) : Moves s i c t := by
  have hfits := hs.execution
  unfold beginStream at h
  split at h
  · next hpc =>
    rw [hpc] at hfits
    obtain rfl := hfits
    exact moves_unlessCancelled hs (by rw [hpc]; exact nofun) (by exact rfl) h
  · cases h

theorem moves_chunk (hs : c.Sound i (s.tasks c.taskId)) {messages : List M} {records : List U}
    (h : s.chunk i c messages records = some t) : Moves s i c t := by
  have hfits := hs.execution
  unfold chunk at h
  split at h
  · next hpc =>
    rw [hpc] at hfits
    obtain rfl := hfits
    exact moves_unlessCancelled hs (by rw [hpc]; exact nofun) (by exact rfl) h
  · cases h

theorem moves_capture (hcall : s.calls[i]? = some c) (hs : c.Sound i (s.tasks c.taskId))
    (hopen : ¬ s.Disturbs (.capture i)) (h : s.capture i c = some t) : Moves s i c t := by
  have hfits := hs.execution
  unfold capture at h
  split at h
  · next k messages hpc =>
    have hne : c.execution ≠ .idle := by rw [hpc]; exact nofun
    have hstarted := started_of_execution hs hne
    rw [hpc] at hfits
    obtain rfl := hfits
    cases h
    have hkept : c.record.Kept { c.record with aiMessages := c.record.aiMessages ++ messages } := by
      intro hterminal
      refine absurd ⟨c, hcall, k, ?_, c.record, record?_self hcall, hterminal⟩ hopen
      rw [hpc]
      rfl
    have hrecord := hs.record hkept hs.stamped fun _ => rfl
    refine .twice ?_
    exact .own _ rfl id hkept (hrecord.setExecution hstarted rfl)
  · cases h

theorem moves_finish (hs : c.Sound i (s.tasks c.taskId)) {ending : Ending U}
    (h : s.finish i c ending = some t) : Moves s i c t := by
  have hfits := hs.execution
  unfold finish at h
  split at h
  · next hpc =>
    have hne : c.execution ≠ .idle := by rw [hpc]; exact nofun
    rw [hpc] at hfits
    obtain rfl := hfits
    cases h
    exact moves_endExecution hs hne _
  · next hpc =>
    have hne : c.execution ≠ .idle := by rw [hpc]; exact nofun
    rw [hpc] at hfits
    obtain rfl := hfits
    cases h
    exact moves_endExecution hs hne _
  · cases h

theorem moves_abort (hs : c.Sound i (s.tasks c.taskId)) (h : s.abort i c = some t) :
    Moves s i c t := by
  unfold abort at h
  split at h
  · next hpc =>
    cases h
    exact moves_setExecution hs (by rw [hpc]; exact nofun) trivial
  · next hpc =>
    cases h
    exact moves_setExecution hs (by rw [hpc]; exact nofun) trivial
  · cases h

end Execution

section Poller

theorem moves_setPoller (hs : c.Sound i (s.tasks c.taskId)) (hactive : c.poller.isDone = false)
    {pc : PollerPc} (hfits : pc.Fits i c.record) : Moves s i c (s.setPoller i pc) :=
  .active (active_of_poller hactive) rfl (.refl _) (hs.setPoller hactive hfits (.inl rfl))

theorem moves_cleanup (hcall : s.calls[i]? = some c) (hs : c.Sound i (s.tasks c.taskId))
    (hactive : c.poller.isDone = false) {pc : PollerPc} (hdone : pc.isDone = true)
    (hfits : pc.Fits i c.record) :
    Moves s i c ((s.cleanupBackgroundTask c.taskId).setPoller i pc) := by
  rcases cleanup_cases hcall hs (active_of_poller hactive) with heq | ⟨hterminal, heq⟩
  · rw [heq]
    exact moves_setPoller hs hactive hfits
  · rw [heq]
    exact .removes _ rfl (active_of_poller hactive) (.refl _)
      (hs.setPoller hactive hfits (.inr ⟨hdone, rfl, hterminal⟩))

theorem moves_defer (hs : c.Sound i (s.tasks c.taskId)) (hactive : c.poller.isDone = false) :
    Moves s i c (s.defer i .raised) := by
  refine .twice ?_
  exact .active (active_of_poller hactive) rfl (.refl _) (hs.defer hactive)

theorem active_of_pollStep (h : s.pollStep i c = some t) : c.poller.isDone = false := by
  unfold pollStep at h
  cases hpc : c.poller with
  | returned _ | raised =>
    simp only [hpc] at h
    cases h
  | _ => rfl

theorem moves_poll (hcall : s.calls[i]? = some c) (hs : c.Sound i (s.tasks c.taskId))
    (hopen : ¬ s.Disturbs (.poll i)) (h : s.pollStep i c = some t) : Moves s i c t := by
  have hfits := hs.poller
  have hactive := active_of_pollStep h
  unfold pollStep at h
  cases hpc : c.poller with
  | get count =>
    simp only [hpc, hs.listed hactive] at h
    cases h
    exact moves_setPoller hs hactive rfl
  | check count k =>
    rw [hpc] at hfits
    obtain rfl := hfits
    simp only [hpc, record?_self hcall, Option.map_some] at h
    cases h
    split
    · next hresult => exact moves_setPoller hs hactive hresult
    · exact moves_setPoller hs hactive rfl
  | sleep count k =>
    simp only [hpc] at h
    split at h
    · next hout =>
      refine absurd ⟨c, hcall, ?_⟩ hopen
      rw [hpc]
      exact decide_eq_true hout
    · cases h
      exact moves_setPoller hs hactive trivial
  | missing | giveUp k =>
    rw [hpc] at hfits
    exact hfits.elim
  | finish result =>
    rw [hpc] at hfits
    simp only [hpc] at h
    cases h
    exact moves_cleanup hcall hs hactive rfl hfits
  | interrupted =>
    simp only [hpc, requestCancel_eq hs hactive] at h
    cases h
    refine .twice ?_
    exact .active (active_of_poller hactive) rfl (fun _ => ⟨true, rfl⟩)
      (hs.cancel.setPoller hactive trivial (.inl rfl))
  | await count =>
    simp only [hpc, hs.listed hactive] at h
    split at h
    · cases h
      exact moves_setPoller hs hactive rfl
    · cases h
      exact moves_setPoller hs hactive fun k hk => (by cases hk)
  | awaitCheck count k =>
    rw [hpc] at hfits
    obtain rfl := hfits
    simp only [hpc, record?_self hcall, Option.map_some] at h
    cases h
    split
    · exact moves_setPoller hs hactive fun j hj => (Option.some.inj hj).symm
    · exact moves_setPoller hs hactive trivial
  | final found =>
    simp only [hpc] at h
    split at h
    · cases h
      exact moves_defer hs hactive
    · split at h
      · cases h
        exact moves_setPoller hs hactive trivial
      · cases h
        exact moves_defer hs hactive
  | dropping =>
    simp only [hpc] at h
    cases h
    exact moves_cleanup hcall hs hactive rfl trivial
  | returned _ | raised =>
    rw [hpc] at hactive
    cases hactive

theorem moves_interrupt (hs : c.Sound i (s.tasks c.taskId)) (h : s.interruptStep i c = some t) :
    Moves s i c t := by
  have hnone : PollerPc.Fits i c.record (.final none) := fun k hk => (by cases hk)
  unfold interruptStep at h
  split at h
  · next hpc =>
    cases h
    exact moves_setPoller hs (by rw [hpc]; rfl) trivial
  · next hpc =>
    cases h
    exact moves_setPoller hs (by rw [hpc]; rfl) hnone
  · next hpc =>
    cases h
    exact moves_setPoller hs (by rw [hpc]; rfl) hnone
  · cases h

theorem moves_setCleaner (hs : c.Sound i (s.tasks c.taskId)) (hactive : c.cleaner.isDone = false)
    {pc : CleanerPc} (hfits : pc.Fits i) : Moves s i c (s.setCleaner i pc) :=
  .active (active_of_cleaner hactive) rfl (.refl _) (hs.setCleaner hactive hfits (.inl rfl))

theorem moves_clean (hcall : s.calls[i]? = some c) (hs : c.Sound i (s.tasks c.taskId))
    (h : s.cleanStep i c = some t) : Moves s i c t := by
  have hfits := hs.cleaner
  unfold cleanStep at h
  cases hpc : c.cleaner with
  | idle | done =>
    simp only [hpc] at h
    cases h
  | get count =>
    have hactive : c.cleaner.isDone = false := by rw [hpc]; rfl
    simp only [hpc] at h
    rcases hs.known (active_of_cleaner hactive) with hfound | ⟨hfound, -⟩
    · rw [hfound] at h
      cases h
      exact moves_setCleaner hs hactive rfl
    · rw [hfound] at h
      cases h
      exact moves_setCleaner hs hactive trivial
  | check count k =>
    have hactive : c.cleaner.isDone = false := by rw [hpc]; rfl
    rw [hpc] at hfits
    obtain rfl := hfits
    simp only [hpc, record?_self hcall, Option.map_some] at h
    cases h
    split
    · exact moves_setCleaner hs hactive trivial
    · split
      · exact moves_setCleaner hs hactive trivial
      · exact moves_setCleaner hs hactive trivial
  | remove =>
    have hactive : c.cleaner.isDone = false := by rw [hpc]; rfl
    simp only [hpc] at h
    cases h
    rcases cleanup_cases hcall hs (active_of_cleaner hactive) with heq | ⟨hterminal, heq⟩
    · rw [heq]
      exact moves_setCleaner hs hactive trivial
    · rw [heq]
      exact .removes _ rfl (active_of_cleaner hactive) (.refl _)
        (hs.setCleaner hactive trivial (.inr ⟨rfl, hterminal⟩))

end Poller

end BackgroundState

end Moves

section Runs
variable {M U : Type} {s t : BackgroundState M U}
open SubagentResult Invocation BackgroundState

/-- Every call is sound, and of two calls with one id at most one is unfinished. -/
structure BackgroundState.Sound (s : BackgroundState M U) : Prop where
  calls : ∀ (i : Nat) (c : Invocation M U), s.calls[i]? = some c → c.Sound i (s.tasks c.taskId)
  distinct : ∀ (i j : Nat) (c d : Invocation M U), s.calls[i]? = some c → s.calls[j]? = some d →
    i ≠ j → c.taskId = d.taskId → c.finished = false → d.finished = true

theorem distinct_modifyCall {i : Nat} {c : Invocation M U} {f : Invocation M U → Invocation M U}
    (hs : s.Sound) (hcall : s.calls[i]? = some c) (hid : (f c).taskId = c.taskId)
    (hfinished : c.finished = true → (f c).finished = true) :
    ∀ (j k : Nat) (d e : Invocation M U), (s.modifyCall i f).calls[j]? = some d →
      (s.modifyCall i f).calls[k]? = some e → j ≠ k → d.taskId = e.taskId → d.finished = false → e.finished = true := by
  have hactive : (f c).finished = false → c.finished = false := by
    intro hfalse
    cases hc : c.finished with
    | false => rfl
    | true =>
      rw [hfinished hc] at hfalse
      cases hfalse
  intro j k d e hd he hjk hsame hopen
  rcases Slots.modify_cases hcall hd with ⟨rfl, rfl⟩ | ⟨hij, hd₀⟩
  · obtain ⟨e₀, he₀, ⟨rfl, -⟩ | ⟨-, rfl⟩⟩ := Slots.getElem?_modify he
    · exact absurd rfl hjk
    · exact hs.distinct _ _ _ _ hcall he₀ hjk (hid ▸ hsame) (hactive hopen)
  · rcases Slots.modify_cases hcall he with ⟨rfl, rfl⟩ | ⟨-, he₀⟩
    · exact hfinished (hs.distinct _ _ _ _ hd₀ hcall hjk (hid ▸ hsame) hopen)
    · exact hs.distinct _ _ _ _ hd₀ he₀ hjk hsame hopen

theorem sound_moves {i : Nat} {c : Invocation M U} (hs : s.Sound) (hcall : s.calls[i]? = some c)
    (h : Moves s i c t) : t.Sound := by
  cases h with
  | own f hid hfinished hkept hsound =>
    refine ⟨fun j d hd => ?_, distinct_modifyCall hs hcall hid hfinished⟩
    rcases Slots.modify_cases hcall hd with ⟨rfl, rfl⟩ | ⟨-, hd₀⟩
    · show (f c).Sound i (s.tasks (f c).taskId)
      rw [hid]
      exact hsound
    · exact hs.calls j d hd₀
  | removes f hid hactive hkept hsound =>
    have hfinished : c.finished = true → (f c).finished = true := by
      intro hdone
      rw [hactive] at hdone
      cases hdone
    refine ⟨fun j d hd => ?_, distinct_modifyCall (s := s) hs hcall hid hfinished⟩
    rcases Slots.modify_cases hcall hd with ⟨rfl, rfl⟩ | ⟨hij, hd₀⟩
    · show (f c).Sound i (if (f c).taskId = c.taskId then none else s.tasks (f c).taskId)
      rw [if_pos hid]
      exact hsound
    · show d.Sound j (if d.taskId = c.taskId then none else s.tasks d.taskId)
      split
      · next hsame =>
        -- the other calls with this id are finished, and need no record under it
        exact (hs.calls j d hd₀).of_finished
          (hs.distinct i j c d hcall hd₀ hij hsame.symm hactive) none
      · exact hs.calls j d hd₀

theorem sound_executeAsync {taskId : String} {config : SubagentConfig} (hs : s.Sound)
    (hopen : ¬ s.Disturbs (.executeAsync taskId config)) : (s.executeAsync taskId config).Sound := by
  have hfinished : ∀ {j : Nat} {d : Invocation M U}, s.calls[j]? = some d → d.taskId = taskId →
      d.finished = true := by
    intro j d hd hid
    cases hdone : d.finished with
    | true => rfl
    | false => exact absurd ⟨d, List.mem_of_getElem? hd, hid, hdone⟩ hopen
  refine ⟨fun j d hd => ?_, fun j k d e hd he hjk hsame hactive => ?_⟩
  · show d.Sound j (if d.taskId = taskId then some s.calls.length else s.tasks d.taskId)
    rcases Slots.getElem?_concat hd with hd | ⟨rfl, rfl⟩
    · have hsound := hs.calls j d hd
      split
      · next hid => exact hsound.of_finished (hfinished hd hid) _
      · exact hsound
    · rw [if_pos rfl]
      exact {
        stamped := rfl
        task := ⟨rfl, rfl⟩
        execution := trivial
        poller := trivial
        cleaner := trivial
        sequel := fun _ => rfl
        listed := fun _ => rfl
        known := fun _ => .inl rfl }
  · rcases Slots.getElem?_concat hd with hd | ⟨rfl, rfl⟩
    · rcases Slots.getElem?_concat he with he | ⟨rfl, rfl⟩
      · exact hs.distinct j k d e hd he hjk hsame hactive
      · rw [hfinished hd hsame] at hactive
        cases hactive
    · rcases Slots.getElem?_concat he with he | ⟨rfl, rfl⟩
      · exact hfinished he hsame.symm
      · exact absurd rfl hjk

/-- Every step but a new call is a move of one call. -/
theorem moves_of_step {event : BackgroundEvent M U} (hs : s.Sound) (hopen : ¬ s.Disturbs event)
    (h : BackgroundState.step s event = some t) :
    (∃ taskId config, event = .executeAsync taskId config ∧ t = s.executeAsync taskId config) ∨
      ∃ i c, s.calls[i]? = some c ∧ Moves s i c t := by
  cases event with
  | executeAsync taskId config => exact .inl ⟨taskId, config, rfl, (Option.some.inj h).symm⟩
  | task i =>
    obtain ⟨c, hcall, h⟩ := Option.bind_eq_some_iff.mp h
    exact .inr ⟨i, c, hcall, moves_task hcall (hs.calls i c hcall) h⟩
  | submitRaises i error =>
    obtain ⟨c, hcall, h⟩ := Option.bind_eq_some_iff.mp h
    exact .inr ⟨i, c, hcall, moves_submitRaises (hs.calls i c hcall) h⟩
  | timeOut i =>
    obtain ⟨c, hcall, h⟩ := Option.bind_eq_some_iff.mp h
    exact .inr ⟨i, c, hcall, moves_timeOut (hs.calls i c hcall) h⟩
  | beginStream i records =>
    obtain ⟨c, hcall, h⟩ := Option.bind_eq_some_iff.mp h
    exact .inr ⟨i, c, hcall, moves_beginStream (hs.calls i c hcall) h⟩
  | chunk i messages records =>
    obtain ⟨c, hcall, h⟩ := Option.bind_eq_some_iff.mp h
    exact .inr ⟨i, c, hcall, moves_chunk (hs.calls i c hcall) h⟩
  | capture i =>
    obtain ⟨c, hcall, h⟩ := Option.bind_eq_some_iff.mp h
    exact .inr ⟨i, c, hcall, moves_capture hcall (hs.calls i c hcall) hopen h⟩
  | finish i ending =>
    obtain ⟨c, hcall, h⟩ := Option.bind_eq_some_iff.mp h
    exact .inr ⟨i, c, hcall, moves_finish (hs.calls i c hcall) h⟩
  | abort i =>
    obtain ⟨c, hcall, h⟩ := Option.bind_eq_some_iff.mp h
    exact .inr ⟨i, c, hcall, moves_abort (hs.calls i c hcall) h⟩
  | poll i =>
    obtain ⟨c, hcall, h⟩ := Option.bind_eq_some_iff.mp h
    exact .inr ⟨i, c, hcall, moves_poll hcall (hs.calls i c hcall) hopen h⟩
  | interrupt i =>
    obtain ⟨c, hcall, h⟩ := Option.bind_eq_some_iff.mp h
    exact .inr ⟨i, c, hcall, moves_interrupt (hs.calls i c hcall) h⟩
  | clean i =>
    obtain ⟨c, hcall, h⟩ := Option.bind_eq_some_iff.mp h
    exact .inr ⟨i, c, hcall, moves_clean hcall (hs.calls i c hcall) h⟩

/-- The system in which nothing disturbs the isolation of the calls. -/
def undisturbed (M U : Type) : System (BackgroundState M U) (BackgroundEvent M U) :=
  (backgroundTasks M U).when fun s event => ¬ s.Disturbs event

theorem sound_of_reachable (h : Reachable (undisturbed M U) s) : s.Sound := by
  refine h.invariant ?_ fun s event t _ hs hstep => ?_
  · rintro s rfl
    exact ⟨fun i c hc => (by cases hc), fun i j c d hc => (by cases hc)⟩
  · rcases moves_of_step hs hstep.1 hstep.2 with ⟨taskId, config, rfl, rfl⟩ | ⟨i, c, hcall, hmoves⟩
    · exact sound_executeAsync hs hstep.1
    · exact sound_moves hs hcall hmoves

/-- Every record is still there, and what was terminal is what it was. -/
def BackgroundState.KeptIn (s t : BackgroundState M U) : Prop :=
  ∀ i r, s.record? i = some r → ∃ r', t.record? i = some r' ∧ r.Kept r'

theorem keptIn_modifyCall {i : Nat} {c : Invocation M U} {f : Invocation M U → Invocation M U}
    (hcall : s.calls[i]? = some c) (hkept : c.record.Kept (f c).record) :
    s.KeptIn (s.modifyCall i f) := by
  intro j r hr
  obtain ⟨d, hd, rfl⟩ := Option.map_eq_some_iff.mp hr
  obtain ⟨e, he, ⟨rfl, rfl⟩ | ⟨-, rfl⟩⟩ := Slots.modify_of_getElem? (i := i) (f := f) hd
  · obtain rfl := Option.some.inj (hcall.symm.trans hd)
    exact ⟨(f c).record, record?_self he, hkept⟩
  · exact ⟨e.record, record?_self he, .refl _⟩

theorem keptIn_executeAsync (taskId : String) (config : SubagentConfig) :
    s.KeptIn (s.executeAsync taskId config) := by
  intro j r hr
  obtain ⟨d, hd, rfl⟩ := Option.map_eq_some_iff.mp hr
  exact ⟨d.record, record?_self (Slots.concat_of_getElem? hd), .refl _⟩

theorem keptIn_later (h : Reachable (undisturbed M U) s) (hl : Later (undisturbed M U) s t) :
    s.KeptIn t := by
  refine h.later (fun s i r hr => ⟨r, hr, .refl r⟩) ?_ ?_ hl
  · intro s t u hst htu i r hr
    obtain ⟨r', hr', hkept⟩ := hst i r hr
    obtain ⟨r'', hr'', hkept'⟩ := htu i r' hr'
    exact ⟨r'', hr'', hkept.trans hkept'⟩
  · intro s event t hs hstep
    rcases moves_of_step (sound_of_reachable hs) hstep.1 hstep.2 with
      ⟨taskId, config, rfl, rfl⟩ | ⟨i, c, hcall, hmoves⟩
    · exact keptIn_executeAsync taskId config
    · cases hmoves with
      | own f hid hfinished hkept hsound => exact keptIn_modifyCall hcall hkept
      | removes f hid hactive hkept hsound =>
        exact keptIn_modifyCall (s := s.without c.taskId) hcall hkept

/-- While no id is used again before its call is finished, nothing is appended to a terminal
record and no poller runs out of polls, every call is isolated from the others, and a terminal
record stays as it is. -/
theorem invocations_isolated (h : Reachable (undisturbed M U) s) :
    (∀ (i : Nat) (c : Invocation M U), s.calls[i]? = some c → c.Isolated i) ∧
      ∀ t, Later (undisturbed M U) s t → s.KeptIn t :=
  ⟨fun i c hcall => ((sound_of_reachable h).calls i c hcall).isolated,
    fun _ hl => keptIn_later h hl⟩

end Runs

namespace BackgroundRun

def config : SubagentConfig := ⟨5, 900⟩

/-- Two calls have one id, the second after the first has been answered. -/
def answered : List (BackgroundState Nat Nat → BackgroundEvent Nat Nat) :=
  ([.executeAsync "call_1" config, .task 0, .poll 0, .task 0, .beginStream 0 [], .chunk 0 [1] [],
    .capture 0, .finish 0 (.completed "one" none [7]), .poll 0, .poll 0, .task 0,
    .executeAsync "call_1" config, .task 1, .task 1, .beginStream 1 [],
    .finish 1 (.raised "no model" none), .poll 1, .task 1, .poll 1, .poll 1] :
      List (BackgroundEvent Nat Nat)).map fun event _ => event

/-- Two calls have one id, and the `run_task` of the first starts on the record of the second. -/
def mixed : List (BackgroundState Nat Nat → BackgroundEvent Nat Nat) :=
  ([.executeAsync "call_1" config, .executeAsync "call_1" config, .task 0, .task 0,
    .beginStream 0 [], .finish 0 (.completed "one" none []), .task 0] :
      List (BackgroundEvent Nat Nat)).map fun event _ => event

/-- The poller of the second is answered first, and removes the record. -/
def disappeared : List (BackgroundState Nat Nat → BackgroundEvent Nat Nat) :=
  ([.poll 1, .poll 1, .poll 1, .poll 0, .poll 0] : List (BackgroundEvent Nat Nat)).map
    fun event _ => event

/-- The only call runs into its timeout while a chunk is being captured. -/
def timedOut : List (BackgroundState Nat Nat → BackgroundEvent Nat Nat) :=
  ([.executeAsync "call_1" config, .task 0, .task 0, .beginStream 0 [], .chunk 0 [1] [],
    .timeOut 0, .task 0] : List (BackgroundEvent Nat Nat)).map fun event _ => event

end BackgroundRun

open BackgroundRun

theorem invocations_isolated_answered :
    ∃ s, Reachable (undisturbed Nat Nat) s ∧
      s.calls.map (·.poller) = [.returned (.completed (some "one") none),
        .returned (.failed (some "no model") none)] ∧
      ∀ (i : Nat) (c : Invocation Nat Nat), s.calls[i]? = some c → c.Isolated i := by
  have hrun : (runScript (guarded (fun s event => ¬ BackgroundState.Disturbs s event)
      BackgroundState.step) .init answered).any (fun s =>
        decide (s.calls.map (·.poller) = [.returned (.completed (some "one") none),
          .returned (.failed (some "no model") none)])) = true := by
    decide +kernel
  obtain ⟨s, hs, h⟩ := exists_reachable_of_decide _ hrun
  exact ⟨s, when_of_guarded hs, h, (invocations_isolated (when_of_guarded hs)).1⟩

/-- The first of two calls with one id leaves its record pending and is told that it has
disappeared, while the second returns its answer; the `run_task` of the second reopens the
record; and a call alone gets a step message after its timeout. -/
theorem records_mixed_and_reopened :
    (∃ s, Reachable (backgroundTasks Nat Nat) s ∧
      s.calls.map (·.task) = [.returned, .submitted] ∧
      s.calls.map (·.record.status) = [.pending, .completed] ∧
      s.calls.map (·.poller) = [
        .returned (.failed (some "Task call_1 disappeared from background tasks") none),
        .returned (.completed (some "one") none)] ∧
      ∃ c, s.calls[0]? = some c ∧ ¬ c.Isolated 0) ∧
    (∃ s t, Reachable (backgroundTasks Nat Nat) s ∧ Later (backgroundTasks Nat Nat) s t ∧
      (s.record? 1).map (·.status) = some .completed ∧
      (t.record? 1).map (·.status) = some .running) ∧
    ∃ s t, Reachable (backgroundTasks Nat Nat) s ∧ Later (backgroundTasks Nat Nat) s t ∧
      (s.record? 0).map (fun r => (r.status, r.aiMessages)) = some (.timedOut, []) ∧
      (t.record? 0).map (fun r => (r.status, r.aiMessages)) = some (.timedOut, [1]) := by
  have hlater : ∀ {p : BackgroundState Nat Nat → BackgroundState Nat Nat → Bool}
      {as bs : List (BackgroundState Nat Nat → BackgroundEvent Nat Nat)},
      ((runScript BackgroundState.step .init as).any fun s =>
        (runScript BackgroundState.step s bs).any (p s)) = true →
      ∃ s t, Reachable (backgroundTasks Nat Nat) s ∧ Later (backgroundTasks Nat Nat) s t ∧
        p s t = true := by
    intro p as bs hrun
    obtain ⟨s, hs, h⟩ := exists_reachable_of_runScript as hrun
    obtain ⟨t, ht, hp⟩ := Option.any_eq_true _ _ |>.mp h
    exact ⟨s, t, hs, later_of_runScript ht, hp⟩
  refine ⟨?_, ?_, ?_⟩
  · have hrun : (runScript BackgroundState.step .init (mixed ++ disappeared)).any (fun s =>
        decide (s.calls.map (·.task) = [.returned, .submitted] ∧
          s.calls.map (·.record.status) = [.pending, .completed] ∧
          s.calls.map (·.poller) = [
            .returned (.failed (some "Task call_1 disappeared from background tasks") none),
            .returned (.completed (some "one") none)])) = true := by
      decide +kernel
    obtain ⟨s, hs, htask, hstatus, hpoller⟩ := exists_reachable_of_decide _ hrun
    refine ⟨s, hs, htask, hstatus, hpoller, ?_⟩
    obtain ⟨c, rest, hcalls⟩ : ∃ c rest, s.calls = c :: rest := by
      cases hcalls : s.calls with
      | nil =>
        rw [hcalls] at htask
        cases htask
      | cons c rest => exact ⟨c, rest, rfl⟩
    rw [hcalls] at htask hstatus ⊢
    have hdone : c.task = .returned := (List.cons.inj htask).1
    have hpending : c.record.status = .pending := (List.cons.inj hstatus).1
    refine ⟨c, rfl, fun hisolated => ?_⟩
    have hterminal := hisolated.settled (by rw [hdone]; rfl)
    rw [hpending] at hterminal
    cases hterminal
  · have hrun : ((runScript BackgroundState.step .init mixed).any fun s =>
        (runScript BackgroundState.step s [fun _ => .task 1]).any fun t =>
          decide ((s.record? 1).map (·.status) = some .completed ∧
            (t.record? 1).map (·.status) = some .running)) = true := by
      decide +kernel
    obtain ⟨s, t, hs, hl, h⟩ := hlater hrun
    exact ⟨s, t, hs, hl, of_decide_eq_true h⟩
  · have hrun : ((runScript BackgroundState.step .init BackgroundRun.timedOut).any fun s =>
        (runScript BackgroundState.step s [fun _ => .capture 0]).any fun t =>
          decide ((s.record? 0).map (fun r => (r.status, r.aiMessages)) = some (.timedOut, []) ∧
            (t.record? 0).map (fun r => (r.status, r.aiMessages)) = some (.timedOut, [1]))) =
              true := by
      decide +kernel
    obtain ⟨s, t, hs, hl, h⟩ := hlater hrun
    exact ⟨s, t, hs, hl, of_decide_eq_true h⟩

end DeerFlow.Subagents
