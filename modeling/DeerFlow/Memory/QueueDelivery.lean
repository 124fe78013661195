import DeerFlow.Memory.UpdateQueue

/-! What is passed to the queue stays in it until a call of `_process_queue` takes it, as
long as no context is replaced by one that lacks some of its messages; and a queue that is not
empty is always attended. -/

namespace DeerFlow.Memory
open Transition

section Delivery
variable {M : Type} {debounceSeconds : Nat}

def Carries (cs : List (ConversationContext M)) (key : String × Option String × Option String)
    (m : M) : Prop :=
  ∃ c ∈ cs, c.key = key ∧ m ∈ c.messages

namespace UpdateQueue

/-- The message was handed to the updater, or a call in progress still has to hand it over. -/
def Taken (s : UpdateQueue M) (key : String × Option String × Option String) (m : M) : Prop :=
  Carries s.handed key m ∨ ∃ rest, .working rest ∈ s.calls ∧ Carries rest key m

/-- The event replaces a queued context by one that lacks a message of it, which no call has
taken. -/
def Loses (s : UpdateQueue M) : QueueEvent M → Prop
  | .add c | .addNowait c =>
    ∃ c' ∈ s.queue, c'.key = c.key ∧ ∃ m ∈ c'.messages, m ∉ c.messages ∧ ¬ s.Taken c.key m
  | .fire _ | .process _ | .flush | .flushNowait => False

def Delivers (s : UpdateQueue M) : Prop :=
  ∀ c ∈ s.passed, ∀ m ∈ c.messages, Carries s.queue c.key m ∨ s.Taken c.key m

def Pending (s : UpdateQueue M) : Prop := ∃ t ∈ s.timers, t.status = .waiting

/-- The next step of this call takes the whole queue or leaves a pending timer. -/
def Attends (debounceSeconds : Nat) (s : UpdateQueue M) (i : Nat) : Prop :=
  ∃ t, step debounceSeconds s (.process i) = some t ∧
    (t.calls[i]? = some (.working s.queue) ∨ t.Pending)

def Attended (debounceSeconds : Nat) (s : UpdateQueue M) : Prop :=
  s.queue ≠ [] → s.Pending ∨ ∃ i, s.Attends debounceSeconds i

end UpdateQueue

instance [DecidableEq M] (cs : List (ConversationContext M))
    (key : String × Option String × Option String) (m : M) : Decidable (Carries cs key m) := by
  unfold Carries
  infer_instance

def ProcessPc.rest : ProcessPc M → List (ConversationContext M)
  | .working rest => rest
  | .enter | .done => []

theorem UpdateQueue.taken_iff {s : UpdateQueue M} {key : String × Option String × Option String}
    {m : M} : s.Taken key m ↔ Carries s.handed key m ∨ ∃ pc ∈ s.calls, Carries pc.rest key m := by
  refine or_congr Iff.rfl ⟨fun ⟨rest, hrest, hm⟩ => ⟨_, hrest, hm⟩, fun ⟨pc, hpc, hm⟩ => ?_⟩
  cases pc with
  | working rest => exact ⟨rest, hpc, hm⟩
  | enter | done =>
    obtain ⟨c, hc, -⟩ := hm
    cases hc

instance [DecidableEq M] (s : UpdateQueue M) (key : String × Option String × Option String)
    (m : M) : Decidable (s.Taken key m) :=
  decidable_of_iff _ UpdateQueue.taken_iff.symm

instance [DecidableEq M] (s : UpdateQueue M) (event : QueueEvent M) :
    Decidable (s.Loses event) := by
  unfold UpdateQueue.Loses
  split <;> infer_instance

namespace UpdateQueue
variable {s t : UpdateQueue M} {key : String × Option String × Option String} {m : M}

/-- What an event does to the queue. -/
inductive QueueStep (debounceSeconds : Nat) (s : UpdateQueue M) :
    QueueEvent M → UpdateQueue M → Prop
  | add (c : ConversationContext M) :
    QueueStep debounceSeconds s (.add c) ((s.enqueue c).scheduleTimer debounceSeconds)
  | addNowait (c : ConversationContext M) :
    QueueStep debounceSeconds s (.addNowait c) ((s.enqueue c).scheduleTimer 0)
  | fire {i : Nat} {delay : Nat} (htimer : s.timers[i]? = some ⟨delay, .waiting⟩) :
    QueueStep debounceSeconds s (.fire i)
      { s with timers := s.timers.set i ⟨delay, .fired⟩, calls := s.calls ++ [.enter] }
  | deferred {i : Nat} (hcall : s.calls[i]? = some .enter) (hprocessing : s.processing = true) :
    QueueStep debounceSeconds s (.process i)
      { s.scheduleTimer 0 with calls := (s.scheduleTimer 0).calls.set i .done }
  | idle {i : Nat} (hcall : s.calls[i]? = some .enter) (hempty : s.queue = []) :
    QueueStep debounceSeconds s (.process i) { s with calls := s.calls.set i .done }
  | takes {i : Nat} (hcall : s.calls[i]? = some .enter) :
    QueueStep debounceSeconds s (.process i) { s with
      processing := true
      queue := []
      timer := none
      calls := s.calls.set i (.working s.queue) }
  | hands {i : Nat} {c : ConversationContext M} {rest : List (ConversationContext M)}
    (hcall : s.calls[i]? = some (.working (c :: rest))) :
    QueueStep debounceSeconds s (.process i) { s with
      handed := s.handed ++ [c]
      calls := s.calls.set i (.working rest) }
  | ends {i : Nat} (hcall : s.calls[i]? = some (.working [])) :
    QueueStep debounceSeconds s (.process i)
      { s with processing := false, calls := s.calls.set i .done }
  | flush : QueueStep debounceSeconds s .flush
      { s.cancelTimer with timer := none, calls := s.cancelTimer.calls ++ [.enter] }
  | flushNowait : QueueStep debounceSeconds s .flushNowait (s.scheduleTimer 0)

theorem queue_cases {event : QueueEvent M} (h : step debounceSeconds s event = some t) :
    QueueStep debounceSeconds s event t := by
  cases event with
  | add c =>
    cases h
    exact .add c
  | addNowait c =>
    cases h
    exact .addNowait c
  | fire i =>
    unfold step at h
    simp only at h
    split at h
    · next htimer =>
      cases h
      exact .fire htimer
    · cases h
  | process i =>
    obtain ⟨pc, hcall, hpc⟩ := Option.bind_eq_some_iff.mp h
    cases pc with
    | enter =>
      unfold processStep at hpc
      simp only at hpc
      split at hpc
      · next hprocessing =>
        cases hpc
        exact .deferred hcall hprocessing
      · split at hpc
        · next hempty =>
          cases hpc
          exact .idle hcall (List.isEmpty_iff.mp hempty)
        · cases hpc
          exact .takes hcall
    | working rest =>
      cases rest with
      | nil =>
        cases hpc
        exact .ends hcall
      | cons c rest =>
        cases hpc
        exact .hands hcall
    | done => cases hpc
  | flush =>
    cases h
    exact .flush
  | flushNowait =>
    cases h
    exact .flushNowait

section Timers

/-- Timers touch neither the queue nor what was taken from it. -/
theorem cancelTimer_eq (s : UpdateQueue M) :
    ∃ timers, s.cancelTimer = { s with timers := timers } := by
  unfold cancelTimer
  split
  · exact ⟨s.timers, rfl⟩
  · exact ⟨_, rfl⟩

theorem scheduleTimer_eq (s : UpdateQueue M) (delaySeconds : Nat) :
    ∃ timer timers, s.scheduleTimer delaySeconds = { s with timer := timer, timers := timers } := by
  obtain ⟨timers, heq⟩ := cancelTimer_eq s
  unfold scheduleTimer
  rw [heq]
  exact ⟨_, _, rfl⟩

theorem pending_scheduleTimer (s : UpdateQueue M) (delaySeconds : Nat) :
    (s.scheduleTimer delaySeconds).Pending :=
  ⟨⟨delaySeconds, .waiting⟩, List.mem_append_right _ (List.mem_singleton_self _), rfl⟩

end Timers

section Kept

def Held (s : UpdateQueue M) (key : String × Option String × Option String) (m : M) : Prop :=
  Carries s.queue key m ∨ s.Taken key m

theorem Carries.append_left {cs ds : List (ConversationContext M)} (h : Carries cs key m) :
    Carries (cs ++ ds) key m :=
  let ⟨c, hc, hm⟩ := h
  ⟨c, List.mem_append_left _ hc, hm⟩

theorem held_scheduleTimer {delaySeconds : Nat} :
    (s.scheduleTimer delaySeconds).Held key m ↔ s.Held key m := by
  obtain ⟨timer, timers, heq⟩ := scheduleTimer_eq s delaySeconds
  rw [heq]
  exact Iff.rfl

theorem passed_scheduleTimer {delaySeconds : Nat} :
    (s.scheduleTimer delaySeconds).passed = s.passed := by
  obtain ⟨timer, timers, heq⟩ := scheduleTimer_eq s delaySeconds
  rw [heq]

/-- A call that has nothing to hand over may move without losing anything. -/
theorem Taken.set {i : Nat} {pc pc' : ProcessPc M} (hcall : s.calls[i]? = some pc)
    (hrest : Carries pc.rest key m → Carries pc'.rest key m) (h : s.Taken key m) :
    UpdateQueue.Taken { s with calls := s.calls.set i pc' } key m := by
  rw [taken_iff] at h ⊢
  rcases h with hm | ⟨e, he, hm⟩
  · exact .inl hm
  · obtain ⟨j, hj⟩ := List.getElem?_of_mem he
    have hi : i < s.calls.length := (List.getElem?_eq_some_iff.mp hcall).1
    by_cases hij : i = j
    · subst hij
      obtain rfl := Option.some.inj (hj.symm.trans hcall)
      exact .inr ⟨pc', List.mem_set hi pc', hrest hm⟩
    · have hj' : (s.calls.set i pc')[j]? = some e := by
        rw [List.getElem?_set_ne hij]
        exact hj
      exact .inr ⟨e, List.mem_of_getElem? hj', hm⟩

theorem Taken.start (h : s.Taken key m) :
    UpdateQueue.Taken { s with calls := s.calls ++ [.enter] } key m := by
  rcases h with hm | ⟨rest, hrest, hm⟩
  · exact .inl hm
  · exact .inr ⟨rest, List.mem_append_left _ hrest, hm⟩

/-- What was in the queue or taken from it before a context is queued still is, and so are
the messages of the context. -/
theorem held_enqueue {c : ConversationContext M} (hkept : ¬ s.Loses (.add c))
    (h : s.Held key m) : (s.enqueue c).Held key m := by
  rcases h with ⟨c', hc', hkey, hm⟩ | htaken
  · -- a queued context of another key stays; one of the same key is replaced
    by_cases hsame : c'.key = c.key
    · by_cases hmem : m ∈ c.messages
      · exact .inl ⟨_, List.mem_append_right _ (List.mem_singleton_self _),
          hsame.symm.trans hkey, hmem⟩
      · have htaken : s.Taken c.key m :=
          Classical.not_not.mp fun hnot => hkept ⟨c', hc', hsame, m, hm, hmem, hnot⟩
        rw [← hsame, hkey] at htaken
        exact .inr htaken
    · refine .inl ⟨c', List.mem_append_left _ ?_, hkey, hm⟩
      exact List.mem_filter.mpr ⟨hc', decide_eq_true hsame⟩
  · exact .inr htaken

theorem held_of_enqueued {c : ConversationContext M} (hm : m ∈ c.messages) :
    (s.enqueue c).Held c.key m :=
  .inl ⟨_, List.mem_append_right _ (List.mem_singleton_self _), rfl, hm⟩

theorem held_step {event : QueueEvent M} (h : step debounceSeconds s event = some t)
    (hkept : ¬ s.Loses event) (hm : s.Held key m) : t.Held key m := by
  cases queue_cases h with
  | add c | addNowait c => exact held_scheduleTimer.mpr (held_enqueue hkept hm)
  | fire htimer => exact hm.imp_right Taken.start
  | deferred hcall hprocessing =>
    obtain ⟨timer, timers, heq⟩ := scheduleTimer_eq s 0
    rw [heq]
    exact hm.imp_right fun htaken => htaken.set hcall id
  | idle hcall hempty => exact hm.imp_right fun htaken => htaken.set hcall id
  | takes hcall =>
    -- the whole queue moves into the call
    rcases hm with hm | htaken
    · have hi := (List.getElem?_eq_some_iff.mp hcall).1
      exact .inr (.inr ⟨s.queue, List.mem_set hi _, hm⟩)
    · refine .inr (htaken.set hcall fun hm => ?_)
      obtain ⟨c, hc, -⟩ := hm
      cases hc
  | hands hcall =>
    rename_i i c rest
    refine hm.imp_right fun htaken => ?_
    -- the message is in the context that is handed over, or in what the call has left
    by_cases hhead : c.key = key ∧ m ∈ c.messages
    · exact .inl ⟨c, List.mem_append_right _ (List.mem_singleton_self c), hhead⟩
    · have hrest : Carries (ProcessPc.working (c :: rest)).rest key m →
          Carries (ProcessPc.working rest).rest key m := by
        rintro ⟨c', hc', hm'⟩
        rcases List.mem_cons.mp hc' with rfl | hc'
        · exact absurd hm' hhead
        · exact ⟨c', hc', hm'⟩
      exact (htaken.set hcall hrest).imp_left Carries.append_left
  | ends hcall =>
    refine hm.imp_right fun htaken => htaken.set hcall fun hm => ?_
    obtain ⟨c, hc, -⟩ := hm
    cases hc
  | flush =>
    obtain ⟨timers, heq⟩ := cancelTimer_eq s
    rw [heq]
    exact hm.imp_right Taken.start
  | flushNowait => exact held_scheduleTimer.mpr hm

theorem passed_step {event : QueueEvent M} {c : ConversationContext M}
    (h : step debounceSeconds s event = some t) (hc : c ∈ t.passed) :
    c ∈ s.passed ∨ ∀ m ∈ c.messages, t.Held c.key m := by
  have hadd : ∀ {d : ConversationContext M} {delay : Nat},
      c ∈ ((s.enqueue d).scheduleTimer delay).passed → c ∈ s.passed ∨
        ∀ m ∈ c.messages, ((s.enqueue d).scheduleTimer delay).Held c.key m := by
    intro d delay hc
    rw [passed_scheduleTimer] at hc
    rcases List.mem_append.mp hc with hc | hc
    · exact .inl hc
    · rw [List.mem_singleton.mp hc]
      exact .inr fun m hm => held_scheduleTimer.mpr (held_of_enqueued hm)
  cases queue_cases h with
  | add d | addNowait d => exact hadd hc
  | deferred hcall hprocessing =>
    rw [show s.passed = (s.scheduleTimer 0).passed from passed_scheduleTimer.symm]
    exact .inl hc
  | flush =>
    obtain ⟨timers, heq⟩ := cancelTimer_eq s
    rw [heq] at hc
    exact .inl hc
  | flushNowait =>
    rw [passed_scheduleTimer] at hc
    exact .inl hc
  | fire htimer | idle hcall hempty | takes hcall | hands hcall | ends hcall => exact .inl hc

theorem delivers_step {event : QueueEvent M} (h : step debounceSeconds s event = some t)
    (hkept : ¬ s.Loses event) (hs : s.Delivers) : t.Delivers := by
  intro c hc m hm
  rcases passed_step h hc with hc | hnew
  · exact held_step h hkept (hs c hc m hm)
  · exact hnew m hm

end Kept

section Attention

/-- A queue that is not empty has a pending timer or a call that is about to look at it. -/
def Watched (s : UpdateQueue M) : Prop := s.queue ≠ [] → s.Pending ∨ .enter ∈ s.calls

theorem enter_mem_set {i : Nat} {pc pc' : ProcessPc M} (hcall : s.calls[i]? = some pc)
    (hne : pc ≠ .enter) (h : .enter ∈ s.calls) : .enter ∈ s.calls.set i pc' := by
  obtain ⟨j, hj⟩ := List.getElem?_of_mem h
  have hij : i ≠ j := by
    rintro rfl
    exact hne (Option.some.inj (hcall.symm.trans hj))
  refine List.mem_of_getElem? (i := j) ?_
  rw [List.getElem?_set_ne hij]
  exact hj

theorem watched_step {event : QueueEvent M} (h : step debounceSeconds s event = some t)
    (hs : s.Watched) : t.Watched := by
  intro hqueue
  -- every event that leaves contexts in the queue starts a timer or a call, or leaves one as it was
  cases queue_cases h with
  | add c | addNowait c | flushNowait | deferred hcall hprocessing =>
    exact .inl (pending_scheduleTimer _ _)
  | fire htimer | flush => exact .inr (List.mem_append_right _ (List.mem_singleton_self _))
  | idle hcall hempty => exact absurd hempty hqueue
  | takes hcall => exact absurd rfl hqueue
  | hands hcall | ends hcall => exact (hs hqueue).imp_right (enter_mem_set hcall (nofun))

theorem attends_of_enter {i : Nat} (hcall : s.calls[i]? = some .enter) (hqueue : s.queue ≠ []) :
    s.Attends debounceSeconds i := by
  have hi := (List.getElem?_eq_some_iff.mp hcall).1
  have hstep : step debounceSeconds s (.process i) = s.processStep i .enter := by
    show s.calls[i]?.bind (s.processStep i) = _
    rw [hcall]
    rfl
  unfold Attends
  rw [hstep]
  unfold processStep
  cases hprocessing : s.processing with
  | true => exact ⟨_, rfl, .inr (pending_scheduleTimer _ _)⟩
  | false =>
    rw [List.isEmpty_eq_false_iff.mpr hqueue]
    exact ⟨_, rfl, .inl (List.getElem?_set_self hi)⟩

theorem Watched.attended (h : s.Watched) : s.Attended debounceSeconds := by
  intro hqueue
  refine (h hqueue).imp_right fun hcall => ?_
  obtain ⟨i, hi⟩ := List.getElem?_of_mem hcall
  exact ⟨i, attends_of_enter hi hqueue⟩

end Attention

end UpdateQueue

open UpdateQueue

theorem watched_of_reachable {s : UpdateQueue M} (h : Reachable (updateQueue M debounceSeconds) s) :
    s.Watched := by
  refine h.invariant ?_ fun s event t _ hs hstep => ?_
  · rintro s rfl hqueue
    exact absurd rfl hqueue
  · exact watched_step hstep hs

def UpdateQueue.Sourced (s : UpdateQueue M) : Prop :=
  ∀ c ∈ s.queue, ∃ c' ∈ s.passed, c'.key = c.key ∧ c'.messages = c.messages

theorem sourced_enqueue {s : UpdateQueue M} {c : ConversationContext M} (h : s.Sourced)
    (delaySeconds : Nat) : ((s.enqueue c).scheduleTimer delaySeconds).Sourced := by
  obtain ⟨timer, timers, heq⟩ := scheduleTimer_eq (s.enqueue c) delaySeconds
  rw [heq]
  intro e he
  rcases List.mem_append.mp he with he | he
  · obtain ⟨c', hc', hsame⟩ := h e (List.mem_of_mem_filter he)
    exact ⟨c', List.mem_append_left _ hc', hsame⟩
  · rw [List.mem_singleton.mp he]
    exact ⟨c, List.mem_append_right _ (List.mem_singleton_self c), rfl, rfl⟩

theorem sourced_step {s t : UpdateQueue M} {event : QueueEvent M}
    (h : step debounceSeconds s event = some t) (hs : s.Sourced) : t.Sourced := by
  cases queue_cases h with
  | add c => exact sourced_enqueue hs debounceSeconds
  | addNowait c => exact sourced_enqueue hs 0
  | deferred hcall hprocessing | flushNowait =>
    obtain ⟨timer, timers, heq⟩ := scheduleTimer_eq s 0
    rw [heq]
    exact hs
  | flush =>
    obtain ⟨timers, heq⟩ := cancelTimer_eq s
    rw [heq]
    exact hs
  | takes hcall => exact fun c hc => (by cases hc)
  | fire htimer | idle hcall hempty | hands hcall | ends hcall => exact hs

theorem sourced_of_reachable {s : UpdateQueue M}
    (h : Reachable (updateQueue M debounceSeconds) s) : s.Sourced := by
  refine h.invariant ?_ fun s event t _ hs hstep => ?_
  · rintro s rfl c hc
    cases hc
  · exact sourced_step hstep hs

/-- A message of a context that is replaced by one without it is nowhere any more. -/
theorem not_held_enqueue {s : UpdateQueue M} {c : ConversationContext M} {m : M}
    (hmem : m ∉ c.messages) (htaken : ¬ s.Taken c.key m) : ¬ (s.enqueue c).Held c.key m := by
  rintro (⟨e, he, hkey, hm⟩ | hm)
  · rcases List.mem_append.mp he with he | he
    · exact of_decide_eq_true (List.mem_filter.mp he).2 hkey
    · rw [List.mem_singleton.mp he] at hm
      exact hmem hm
  · exact htaken hm

theorem not_delivers_of_loses {s t : UpdateQueue M} {event : QueueEvent M} (hs : s.Sourced)
    (hloses : s.Loses event) (h : step debounceSeconds s event = some t) : ¬ t.Delivers := by
  have hadd : ∀ {c : ConversationContext M} (delaySeconds : Nat), s.Loses (.add c) →
      ¬ ((s.enqueue c).scheduleTimer delaySeconds).Delivers := by
    rintro c delaySeconds ⟨c', hc', hkey, m, hm, hmem, htaken⟩ hdelivers
    -- what was passed with the lost message is still recorded
    obtain ⟨e, he, hekey, hmessages⟩ := hs c' hc'
    have hpassed : e ∈ ((s.enqueue c).scheduleTimer delaySeconds).passed := by
      rw [passed_scheduleTimer]
      exact List.mem_append_left _ he
    have hheld := hdelivers e hpassed m (hmessages ▸ hm)
    rw [hekey, hkey] at hheld
    exact not_held_enqueue hmem htaken (held_scheduleTimer.mp hheld)
  cases event with
  | add c =>
    cases h
    exact hadd debounceSeconds hloses
  | addNowait c =>
    cases h
    exact hadd 0 hloses
  | fire i | process i | flush | flushNowait => exact hloses.elim

/-- While no context is replaced by one that lacks some of its messages, every message is
delivered, and a queue that is not empty is attended; the first context replaced so is the
first loss. -/
theorem queue_delivers {s : UpdateQueue M}
    (h : Reachable ((updateQueue M debounceSeconds).when fun s event => ¬ s.Loses event) s) :
    s.Delivers ∧ s.Attended debounceSeconds ∧
      ∀ event t, step debounceSeconds s event = some t → (t.Delivers ↔ ¬ s.Loses event) := by
  have hdelivers : s.Delivers := by
    refine h.invariant ?_ fun s event t _ hs hstep => ?_
    · rintro s rfl c hc
      cases hc
    · exact delivers_step hstep.2 hstep.1 hs
  refine ⟨hdelivers, (watched_of_reachable h.of_when).attended, fun event t hstep => ⟨?_, ?_⟩⟩
  · exact fun ht hloses => not_delivers_of_loses (sourced_of_reachable h.of_when) hloses hstep ht
  · exact fun hkept => delivers_step hstep hkept hdelivers

/-- Whatever has been replaced, what is in the queue is attended, and was passed as it stands. -/
theorem queue_attended {s : UpdateQueue M} (h : Reachable (updateQueue M debounceSeconds) s) :
    s.Attended debounceSeconds ∧
      ∀ c ∈ s.queue, ∃ c' ∈ s.passed, c'.key = c.key ∧ c'.messages = c.messages :=
  ⟨(watched_of_reachable h).attended, sourced_of_reachable h⟩

end Delivery

namespace QueueRun

/-- A conversation of thread `t`, by the numbers of its messages. -/
def conversation (messages : List Nat) : ConversationContext Nat :=
  ⟨"t", messages, none, some "default", none, false, false⟩

/-- Odd messages are the user's, and nothing is a correction or a reinforcement. -/
def env : MessageEnv Nat where
  filterMessages messages := messages
  isHuman m := m % 2 = 1
  isAi m := m % 2 = 0
  detectCorrection _ := false
  detectReinforcement _ := false

/-- A conversation grows before its update runs, and is handed over whole. -/
def grown : List (UpdateQueue Nat → QueueEvent Nat) :=
  ([.add (conversation [1, 2]), .add (conversation [1, 2, 3]), .fire 1, .process 0, .process 0,
    .process 0] : List (QueueEvent Nat)).map fun event _ => event

/-- Two messages are about to be summarized and are queued for an update at once; the turn
ends first, and passes what is left of the conversation. -/
def summarized : List (UpdateQueue Nat → QueueEvent Nat) :=
  ([.addNowait (conversation [1, 2]), .add (conversation [3, 4]), .fire 1, .process 0, .process 0,
    .process 0] : List (QueueEvent Nat)).map fun event _ => event

end QueueRun

theorem queue_delivers_grown :
    ∃ s, Reachable ((updateQueue Nat 30).when fun s event => ¬ s.Loses event) s ∧
      s.handed.map (·.messages) = [[1, 2, 3]] ∧ s.Delivers ∧ s.Attended 30 := by
  have hrun : (runScript (guarded (fun s event => ¬ UpdateQueue.Loses s event)
      (UpdateQueue.step 30)) .init QueueRun.grown).any (fun s =>
        decide (s.handed.map (·.messages) = [[1, 2, 3]])) = true := by
    decide
  obtain ⟨s, hs, h⟩ := exists_reachable_of_decide _ hrun
  obtain ⟨hdelivers, hattended, -⟩ := queue_delivers (when_of_guarded hs)
  exact ⟨s, when_of_guarded hs, h, hdelivers, hattended⟩

theorem queue_attended_replaced :
    ∃ s, Reachable (updateQueue Nat 30) s ∧ s.queue.map (·.messages) = [[3, 4]] ∧
      s.Attended 30 := by
  have hrun : (runScript (UpdateQueue.step 30) .init (QueueRun.summarized.take 2)).any (fun s =>
      decide (s.queue.map (·.messages) = [[3, 4]])) = true := by
    decide
  obtain ⟨s, hs, h⟩ := exists_reachable_of_decide _ hrun
  exact ⟨s, hs, h, (queue_attended hs).1⟩

/-- The first two messages were flushed by the hook; every call has ended and the queue is
empty, but they were never handed over. -/
theorem queue_loses_summarized :
    memoryFlushHook QueueRun.env ⟨[1, 2], some "t", none, some "default"⟩ =
      some (.addNowait (QueueRun.conversation [1, 2])) ∧
    ∃ s, Reachable (updateQueue Nat 30) s ∧ s.queue = [] ∧ s.calls = [.done] ∧
      s.handed = [QueueRun.conversation [3, 4]] ∧ ¬ s.Delivers := by
  refine ⟨by decide, ?_⟩
  have hrun : (runScript (UpdateQueue.step 30) .init QueueRun.summarized).any (fun s =>
        decide (s.queue = [] ∧ s.calls = [.done] ∧ s.handed = [QueueRun.conversation [3, 4]] ∧
          ∃ c ∈ s.passed, ∃ m ∈ c.messages, ¬ s.Taken c.key m)) = true := by
    decide
  obtain ⟨s, hs, hqueue, hcalls, hhanded, c, hc, m, hm, htaken⟩ := exists_reachable_of_decide _ hrun
  refine ⟨s, hs, hqueue, hcalls, hhanded, fun hdelivers => ?_⟩
  rcases hdelivers c hc m hm with ⟨e, he, -⟩ | hm
  · rw [hqueue] at he
    cases he
  · exact htaken hm

end DeerFlow.Memory
