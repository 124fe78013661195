import DeerFlow.Runtime.EventQueries

/-! The in-memory event store against one append-only log of the surviving
records. Each index is a filter of the log, and a page of an index is a page of
the sorted records that a query asks for. A thread query with both cursors is
the exception: the store reads past the lower one. -/

namespace DeerFlow.Runtime
open Bisect

/-- Events of one thread stand in the order of their numbers, and none is beyond the last. -/
structure EventLog where
  records : List EventRecord
  lastSeq : String → Int
  ascending : records.Pairwise fun a b => a.threadId = b.threadId → a.seq < b.seq
  bounded : ∀ r ∈ records, r.seq ≤ lastSeq r.threadId

namespace EventLog

def init : EventLog where
  records := []
  lastSeq _ := 0
  ascending := .nil
  bounded r h := by cases h

def next (log : EventLog) (args : EventArgs) (now : String) : EventRecord :=
  args.record (log.lastSeq args.threadId + 1) now

def put (log : EventLog) (args : EventArgs) (now : String) : EventLog where
  records := log.records ++ [log.next args now]
  lastSeq t := if t = args.threadId then log.lastSeq t + 1 else log.lastSeq t
  ascending := by
    rw [List.pairwise_append]
    refine ⟨log.ascending, List.pairwise_singleton _ _, ?_⟩
    intro a ha b hb hab
    have hle := log.bounded a ha
    rw [List.mem_singleton.mp hb] at hab ⊢
    rw [hab] at hle
    exact Int.lt_add_one_iff.mpr hle
  bounded := by
    intro r hr
    rcases List.mem_append.mp hr with hr | hr
    · have hle := log.bounded r hr
      split_ifs
      · omega
      · exact hle
    · rw [List.mem_singleton.mp hr]
      have hthread : (log.next args now).threadId = args.threadId := rfl
      rw [hthread, if_pos rfl]
      exact Int.le_refl _

def putBatch (log : EventLog) (events : List (EventArgs × String)) : EventLog :=
  events.foldl (fun log ev => log.put ev.1 ev.2) log

def deleteByRun (log : EventLog) (threadId runId : String) : EventLog where
  records := log.records.filter fun r => ¬ (r.threadId = threadId ∧ r.runId = runId)
  lastSeq := log.lastSeq
  ascending := log.ascending.filter _
  bounded r hr := log.bounded r (List.mem_of_mem_filter hr)

/-- The thread is as if it had never been. -/
def deleteByThread (log : EventLog) (threadId : String) : EventLog where
  records := log.records.filter fun r => r.threadId ≠ threadId
  lastSeq t := if t = threadId then 0 else log.lastSeq t
  ascending := log.ascending.filter _
  bounded := by
    intro r hr
    obtain ⟨hr, hne⟩ := List.mem_filter.mp hr
    rw [if_neg (by simpa using hne)]
    exact log.bounded r hr

def call (log : EventLog) : StoreCall → EventLog
  | .put args now => log.put args now
  | .putBatch events => log.putBatch events
  | .deleteByRun threadId runId => log.deleteByRun threadId runId
  | .deleteByThread threadId => log.deleteByThread threadId

def after (calls : List StoreCall) : EventLog := calls.foldl call init

/-- Between the cursors. -/
def InWindow (beforeSeq afterSeq : Option Int) (r : EventRecord) : Prop :=
  (∀ n ∈ beforeSeq, r.seq < n) ∧ ∀ n ∈ afterSeq, n < r.seq

instance (beforeSeq afterSeq : Option Int) (r : EventRecord) :
    Decidable (InWindow beforeSeq afterSeq r) := inferInstanceAs (Decidable (_ ∧ _))

/-- The records with a property, by their numbers. -/
def sorted (log : EventLog) (p : EventRecord → Bool) : List EventRecord :=
  (log.records.filter p).insertionSort fun a b => a.seq ≤ b.seq

/-- A cursor from below pages forward; otherwise the page is the latest one. -/
def page (limit : Int) (afterSeq : Option Int) (events : List EventRecord) : List EventRecord :=
  if afterSeq.isSome then events.take limit.toNat else events.rtake limit.toNat

def messages (log : EventLog) (threadId : String) (beforeSeq afterSeq : Option Int) :
    List EventRecord :=
  log.sorted fun e => e.threadId = threadId ∧ e.IsMessage ∧ InWindow beforeSeq afterSeq e

def messagesByRun (log : EventLog) (threadId runId : String) (beforeSeq afterSeq : Option Int) :
    List EventRecord :=
  log.sorted fun e =>
    e.threadId = threadId ∧ e.runId = runId ∧ e.IsMessage ∧ InWindow beforeSeq afterSeq e

def events (log : EventLog) (threadId runId : String) (eventTypes : Option (List String))
    (taskId : Option String) (afterSeq : Option Int) : List EventRecord :=
  log.sorted fun e =>
    e.threadId = threadId ∧ e.runId = runId ∧ (∀ types ∈ eventTypes, e.eventType ∈ types) ∧
      (∀ id ∈ taskId, e.hasTask id = true) ∧ InWindow none afterSeq e

def answer (log : EventLog) : EventQuery → EventAnswer
  | .messages threadId limit beforeSeq afterSeq =>
    .records (page limit afterSeq (log.messages threadId beforeSeq afterSeq))
  | .events threadId runId eventTypes taskId limit afterSeq =>
    .records ((log.events threadId runId eventTypes taskId afterSeq).take limit.toNat)
  | .messagesByRun threadId runId limit beforeSeq afterSeq =>
    .records (page limit afterSeq (log.messagesByRun threadId runId beforeSeq afterSeq))
  | .count threadId => .number (log.messages threadId none none).length

end EventLog

/-- The limit of a query is at least `1`. -/
def EventQuery.Limited : EventQuery → Prop
  | .messages _ limit _ _ | .events _ _ _ _ limit _ | .messagesByRun _ _ limit _ _ => 1 ≤ limit
  | .count _ => True

/-- A thread query does not have both cursors, or those of the messages below the upper one that
make a page are just the messages between the two. -/
def EventQuery.OnePage (log : EventLog) : EventQuery → Prop
  | .messages threadId limit (some beforeSeq) (some afterSeq) =>
    (log.messages threadId (some beforeSeq) (some afterSeq)).length =
      min limit.toNat (log.messages threadId (some beforeSeq) none).length
  | _ => True

section Sorted
variable {p : EventRecord → Bool}

theorem EventLog.pairwise_filter (log : EventLog) (threadId : String)
    (hp : ∀ r, p r = true → r.threadId = threadId) :
    (log.records.filter p).Pairwise fun a b => a.seq < b.seq := by
  rw [List.pairwise_filter]
  refine log.ascending.imp ?_
  intro a b hab ha hb
  exact hab ((hp a ha).trans (hp b hb).symm)

theorem EventLog.sorted_eq (log : EventLog) (threadId : String)
    (hp : ∀ r, p r = true → r.threadId = threadId) :
    log.sorted p = log.records.filter p := by
  apply List.Pairwise.insertionSort_eq
  refine (log.pairwise_filter threadId hp).imp ?_
  intro a b hab
  exact Int.le_of_lt hab

theorem EventLog.messages_eq (log : EventLog) (threadId : String)
    (beforeSeq afterSeq : Option Int) :
    log.messages threadId beforeSeq afterSeq = log.records.filter fun e =>
      e.threadId = threadId ∧ e.IsMessage ∧ InWindow beforeSeq afterSeq e :=
  log.sorted_eq threadId (by simp +contextual)

theorem EventLog.messagesByRun_eq (log : EventLog) (threadId runId : String)
    (beforeSeq afterSeq : Option Int) :
    log.messagesByRun threadId runId beforeSeq afterSeq = log.records.filter fun e =>
      e.threadId = threadId ∧ e.runId = runId ∧ e.IsMessage ∧ InWindow beforeSeq afterSeq e :=
  log.sorted_eq threadId (by simp +contextual)

theorem EventLog.events_eq (log : EventLog) (threadId runId : String)
    (eventTypes : Option (List String)) (taskId : Option String) (afterSeq : Option Int) :
    log.events threadId runId eventTypes taskId afterSeq = log.records.filter fun e =>
      e.threadId = threadId ∧ e.runId = runId ∧ (∀ types ∈ eventTypes, e.eventType ∈ types) ∧
        (∀ id ∈ taskId, e.hasTask id = true) ∧ InWindow none afterSeq e :=
  log.sorted_eq threadId (by simp +contextual)

end Sorted

section Cursors
variable {events : List EventRecord} (h : events.Pairwise fun a b => a.seq < b.seq) (seq : Int)
include h

theorem partitioned_left : Partitioned (fun e : EventRecord => decide (e.seq < seq)) events := by
  refine h.imp ?_
  intro a b hab hb
  rw [decide_eq_true_eq] at hb ⊢
  exact Int.lt_trans hab hb

theorem partitioned_right :
    Partitioned (fun e : EventRecord => decide (¬ seq < e.seq)) events := by
  refine h.imp ?_
  intro a b hab hb
  rw [decide_eq_true_eq] at hb ⊢
  omega

theorem bisectLeft_le : bisectLeft events seq ≤ events.length :=
  (bisect_spec (partitioned_left h seq)).1

theorem bisectRight_le : bisectRight events seq ≤ events.length :=
  (bisect_spec (partitioned_right h seq)).1

theorem take_bisectLeft : events.take (bisectLeft events seq) = events.filter (·.seq < seq) :=
  take_bisect (partitioned_left h seq)

theorem drop_take_bisectRight (n : Nat) :
    (events.take n).drop (bisectRight events seq) = (events.take n).filter (seq < ·.seq) := by
  rw [bisectRight, drop_bisect_take (partitioned_right h seq)]
  apply List.filter_congr
  intro e _
  rw [decide_not, Bool.not_not]

theorem drop_bisectRight : events.drop (bisectRight events seq) = events.filter (seq < ·.seq) := by
  have hall := drop_take_bisectRight h seq events.length
  rwa [List.take_length] at hall

theorem slice_window (beforeSeq afterSeq : Option Int) :
    slice (MemoryRunEventStore.windowStart events afterSeq)
        (MemoryRunEventStore.windowStop events beforeSeq) events =
      events.filter fun e => EventLog.InWindow beforeSeq afterSeq e := by
  have hstart : MemoryRunEventStore.windowStart events afterSeq ≤ events.length := by
    cases afterSeq with
    | none => exact Nat.zero_le _
    | some n => exact bisectRight_le h n
  have hstop : MemoryRunEventStore.windowStop events beforeSeq ≤ events.length := by
    cases beforeSeq with
    | none => exact Nat.le_refl _
    | some n => exact bisectLeft_le h n
  have hbelow : events.take (MemoryRunEventStore.windowStop events beforeSeq) =
      events.filter fun e => ∀ n ∈ beforeSeq, e.seq < n := by
    cases beforeSeq with
    | none => simp [MemoryRunEventStore.windowStop]
    | some n => simpa [MemoryRunEventStore.windowStop] using take_bisectLeft h n
  have habove (m : Nat) : (events.take m).drop (MemoryRunEventStore.windowStart events afterSeq) =
      (events.take m).filter fun e => ∀ n ∈ afterSeq, n < e.seq := by
    cases afterSeq with
    | none => simp [MemoryRunEventStore.windowStart]
    | some n => simpa [MemoryRunEventStore.windowStart] using drop_take_bisectRight h n m
  rw [slice_between hstart hstop, habove, hbelow, List.filter_filter]
  apply List.filter_congr
  grind [EventLog.InWindow]

end Cursors

/-- The store has the records of the log, each index those it is for, and the same counters. -/
structure Refines (s : MemoryRunEventStore) (log : EventLog) : Prop where
  events : ∀ t, s.threadEvents t = log.records.filter fun e => e.threadId = t
  messages : ∀ t, s.threadMessages t = log.records.filter fun e => e.threadId = t ∧ e.IsMessage
  eventsByRun : ∀ t r, s.runEvents t r = log.records.filter fun e => e.threadId = t ∧ e.runId = r
  messagesByRun : ∀ t r, s.runMessages t r =
    log.records.filter fun e => e.threadId = t ∧ e.runId = r ∧ e.IsMessage
  counters : ∀ t, counterOf s.seqCounters t = log.lastSeq t

section Steps
variable {s : MemoryRunEventStore} {log : EventLog}

theorem filter_concat (p : EventRecord → Bool) (xs : List EventRecord) (r : EventRecord) :
    (xs ++ [r]).filter p = xs.filter p ++ if p r then [r] else [] := by
  rw [List.filter_append, List.filter_singleton]
  cases p r <;> rfl

theorem filter_kept {p q : EventRecord → Bool} {xs : List EventRecord}
    (h : ∀ r, p r = true → q r = true) : (xs.filter q).filter p = xs.filter p := by
  rw [List.filter_filter]
  apply List.filter_congr
  intro r _
  by_cases hp : p r = true
  · rw [h r hp, Bool.and_true]
  · rw [Bool.not_eq_true] at hp
    rw [hp, Bool.false_and]

theorem filter_gone {p q : EventRecord → Bool} {xs : List EventRecord}
    (h : ∀ r, p r = true → q r = false) : (xs.filter q).filter p = [] := by
  rw [List.filter_filter, List.filter_eq_nil_iff]
  intro r _
  specialize h r
  grind

theorem refines_init : Refines .init .init where
  events _ := rfl
  messages _ := rfl
  eventsByRun _ _ := rfl
  messagesByRun _ _ := rfl
  counters _ := rfl

theorem Refines.record (h : Refines s log) (args : EventArgs) (now : String) :
    (s.putOne args now).1 = log.next args now := by
  have hcounter := h.counters args.threadId
  unfold EventLog.next
  rw [← hcounter]
  rfl

theorem Refines.put (h : Refines s log) (args : EventArgs) (now : String) :
    Refines (s.putOne args now).2 (log.put args now) := by
  have hstep : (s.putOne args now).2 =
      { events := appendAt s.events args.threadId (log.next args now)
        messages := if (log.next args now).IsMessage then
          appendAt s.messages args.threadId (log.next args now) else s.messages
        eventsByRun := MemoryRunEventStore.appendAtRun s.eventsByRun (log.next args now)
        messagesByRun := if (log.next args now).IsMessage then
          MemoryRunEventStore.appendAtRun s.messagesByRun (log.next args now) else s.messagesByRun
        seqCounters := s.seqCounters.set args.threadId (log.lastSeq args.threadId + 1) } := by
    rw [← h.record args now, ← h.counters args.threadId]
    by_cases hm : (s.putOne args now).1.IsMessage
    · rw [if_pos hm, if_pos hm]
      exact if_pos hm
    · rw [if_neg hm, if_neg hm]
      exact if_neg hm
  have hrecords : (log.put args now).records = log.records ++ [log.next args now] := rfl
  have hthread : (log.next args now).threadId = args.threadId := rfl
  rw [hstep]
  refine ⟨?_, ?_, ?_, ?_, ?_⟩
  · intro t
    have hold := h.events t
    unfold MemoryRunEventStore.threadEvents at hold ⊢
    rw [MemoryRunEventStore.getD_appendAt, hold, hrecords, filter_concat]
    apply congrArg
    apply if_congr _ rfl rfl
    grind
  · intro t
    have hold := h.messages t
    unfold MemoryRunEventStore.threadMessages at hold ⊢
    dsimp only
    by_cases hm : (log.next args now).IsMessage
    · rw [if_pos hm, MemoryRunEventStore.getD_appendAt, hold, hrecords, filter_concat]
      apply congrArg
      apply if_congr _ rfl rfl
      grind
    · rw [if_neg hm, hold, hrecords, filter_concat]
      simp [hm]
  · intro t r
    have hold := h.eventsByRun t r
    unfold MemoryRunEventStore.runEvents at hold ⊢
    rw [MemoryRunEventStore.atRun_appendAtRun, hold, hrecords, filter_concat]
    apply congrArg
    apply if_congr _ rfl rfl
    grind
  · intro t r
    have hold := h.messagesByRun t r
    unfold MemoryRunEventStore.runMessages at hold ⊢
    dsimp only
    by_cases hm : (log.next args now).IsMessage
    · rw [if_pos hm, MemoryRunEventStore.atRun_appendAtRun, hold, hrecords, filter_concat]
      apply congrArg
      apply if_congr _ rfl rfl
      grind
    · rw [if_neg hm, hold, hrecords, filter_concat]
      simp [hm]
  · intro t
    have hold := h.counters t
    unfold counterOf at hold ⊢
    unfold EventLog.put
    dsimp only
    rw [Dict.get_set]
    split_ifs with ht
    · rw [ht, Option.getD_some]
    · exact hold

theorem Refines.putBatch (h : Refines s log) (events : List (EventArgs × String)) :
    Refines (s.putBatch events).2 (log.putBatch events) := by
  induction events generalizing s log with
  | nil => exact h
  | cons ev events ih => exact ih (h.put ev.1 ev.2)

theorem Refines.deleteByRun_of_nil (h : Refines s log) {threadId : String}
    (hnil : s.threadEvents threadId = []) (runId : String) :
    (log.deleteByRun threadId runId).records = log.records := by
  rw [h.events, List.filter_eq_nil_iff] at hnil
  apply List.filter_eq_self.mpr
  intro r hr
  have hthread := hnil r hr
  simp only [decide_eq_true_eq] at hthread
  simp [hthread]

theorem Refines.deleteByRun (h : Refines s log) (threadId runId : String) :
    Refines (s.deleteByRun threadId runId).2 (log.deleteByRun threadId runId) := by
  have hrecords : (log.deleteByRun threadId runId).records =
    log.records.filter fun r => ¬ (r.threadId = threadId ∧ r.runId = runId) := rfl
  unfold MemoryRunEventStore.deleteByRun
  by_cases hnil : s.threadEvents threadId = []
  · have hsame := h.deleteByRun_of_nil hnil runId
    unfold MemoryRunEventStore.threadEvents at hnil
    simp only [hnil, if_true]
    refine ⟨?_, ?_, ?_, ?_, h.counters⟩
    · rw [hsame]
      exact h.events
    · rw [hsame]
      exact h.messages
    · rw [hsame]
      exact h.eventsByRun
    · rw [hsame]
      exact h.messagesByRun
  · have hevents := h.events threadId
    unfold MemoryRunEventStore.threadEvents at hnil hevents
    simp only [if_neg hnil]
    refine ⟨?_, ?_, ?_, ?_, h.counters⟩
    · intro t
      have hold := h.events t
      unfold MemoryRunEventStore.threadEvents at hold ⊢
      rw [hrecords, Dict.get_set]
      split_ifs with ht
      · rw [Option.getD_some, hevents, ht, List.filter_filter, List.filter_filter]
        apply List.filter_congr
        grind
      · rw [hold, filter_kept]
        grind
    · intro t
      have hold := h.messages t
      unfold MemoryRunEventStore.threadMessages at hold ⊢
      rw [hrecords, Dict.get_set]
      split_ifs with ht
      · rw [Option.getD_some, hevents, ht, List.filter_filter, List.filter_filter,
          List.filter_filter]
        apply List.filter_congr
        grind [EventRecord.IsMessage]
      · rw [hold, filter_kept]
        grind
    · intro t r
      have hold := h.eventsByRun t r
      unfold MemoryRunEventStore.runEvents at hold ⊢
      rw [hrecords, MemoryRunEventStore.atRun_popRun]
      split_ifs with ht
      · rw [filter_gone]
        grind
      · rw [hold, filter_kept]
        grind
    · intro t r
      have hold := h.messagesByRun t r
      unfold MemoryRunEventStore.runMessages at hold ⊢
      rw [hrecords, MemoryRunEventStore.atRun_popRun]
      split_ifs with ht
      · rw [filter_gone]
        grind
      · rw [hold, filter_kept]
        grind

theorem Refines.deleteByThread (h : Refines s log) (threadId : String) :
    Refines (s.deleteByThread threadId).2 (log.deleteByThread threadId) := by
  have hrecords : (log.deleteByThread threadId).records =
    log.records.filter fun r => r.threadId ≠ threadId := rfl
  refine ⟨?_, ?_, ?_, ?_, ?_⟩
  · intro t
    have hold := h.events t
    unfold MemoryRunEventStore.threadEvents at hold ⊢
    rw [hrecords, MemoryRunEventStore.deleteByThread, MemoryRunEventStore.get_pop]
    split_ifs with ht
    · rw [Option.getD_none, filter_gone]
      grind
    · rw [hold, filter_kept]
      grind
  · intro t
    have hold := h.messages t
    unfold MemoryRunEventStore.threadMessages at hold ⊢
    rw [hrecords, MemoryRunEventStore.deleteByThread, MemoryRunEventStore.get_pop]
    split_ifs with ht
    · rw [Option.getD_none, filter_gone]
      grind
    · rw [hold, filter_kept]
      grind
  · intro t r
    have hold := h.eventsByRun t r
    unfold MemoryRunEventStore.runEvents at hold ⊢
    rw [hrecords, MemoryRunEventStore.deleteByThread, MemoryRunEventStore.atRun_pop]
    split_ifs with ht
    · rw [filter_gone]
      grind
    · rw [hold, filter_kept]
      grind
  · intro t r
    have hold := h.messagesByRun t r
    unfold MemoryRunEventStore.runMessages at hold ⊢
    rw [hrecords, MemoryRunEventStore.deleteByThread, MemoryRunEventStore.atRun_pop]
    split_ifs with ht
    · rw [filter_gone]
      grind
    · rw [hold, filter_kept]
      grind
  · intro t
    have hold := h.counters t
    unfold counterOf at hold ⊢
    rw [MemoryRunEventStore.deleteByThread, EventLog.deleteByThread]
    dsimp only
    rw [MemoryRunEventStore.get_pop]
    split_ifs with ht
    · rfl
    · exact hold

theorem Refines.call (h : Refines s log) (c : StoreCall) : Refines (s.call c) (log.call c) := by
  cases c with
  | put args now => exact h.put args now
  | putBatch events => exact h.putBatch events
  | deleteByRun threadId runId => exact h.deleteByRun threadId runId
  | deleteByThread threadId => exact h.deleteByThread threadId

theorem refines_after (calls : List StoreCall) :
    Refines (MemoryRunEventStore.after calls) (EventLog.after calls) := by
  have hfold : ∀ s log, Refines s log →
      Refines (calls.foldl MemoryRunEventStore.call s) (calls.foldl EventLog.call log) := by
    induction calls with
    | nil => exact fun _ _ h => h
    | cons c calls ih => exact fun s log h => ih _ _ (h.call c)
  exact hfold _ _ refines_init

end Steps

section Answers
variable {s : MemoryRunEventStore} {log : EventLog}

/-- The indexes are filters of `_events`. -/
structure MemoryRunEventStore.Projections (s : MemoryRunEventStore) : Prop where
  messages : ∀ t, s.threadMessages t = (s.threadEvents t).filter fun e => e.IsMessage
  eventsByRun : ∀ t r, s.runEvents t r = (s.threadEvents t).filter fun e => e.runId = r
  messagesByRun : ∀ t r,
    s.runMessages t r = (s.threadEvents t).filter fun e => e.runId = r ∧ e.IsMessage

theorem Refines.projections (h : Refines s log) : s.Projections := by
  refine ⟨?_, ?_, ?_⟩
  · intro t
    rw [h.messages, h.events, List.filter_filter]
    apply List.filter_congr
    grind
  · intro t r
    rw [h.eventsByRun, h.events, List.filter_filter]
    apply List.filter_congr
    grind
  · intro t r
    rw [h.messagesByRun, h.events, List.filter_filter]
    apply List.filter_congr
    grind

theorem Refines.ascending_messages (h : Refines s log) (threadId : String) :
    (s.threadMessages threadId).Pairwise fun a b => a.seq < b.seq := by
  rw [h.messages]
  apply log.pairwise_filter threadId
  simp +contextual

theorem Refines.ascending_runMessages (h : Refines s log) (threadId runId : String) :
    (s.runMessages threadId runId).Pairwise fun a b => a.seq < b.seq := by
  rw [h.messagesByRun]
  apply log.pairwise_filter threadId
  simp +contextual

/-- The messages of a thread up to the upper cursor alone. -/
theorem Refines.listMessages_before (h : Refines s log) (threadId : String) {limit : Int}
    (hlimit : 1 ≤ limit) (beforeSeq : Int) (afterSeq : Option Int) :
    s.listMessages threadId limit (some beforeSeq) afterSeq =
      (log.messages threadId (some beforeSeq) none).rtake limit.toNat := by
  have hasc := h.ascending_messages threadId
  unfold MemoryRunEventStore.listMessages
  dsimp only
  rw [slice_before (bisectLeft_le hasc beforeSeq) hlimit, take_bisectLeft hasc, h.messages,
    log.messages_eq, List.filter_filter]
  apply congrArg (List.rtake · _)
  apply List.filter_congr
  grind [EventLog.InWindow]

theorem Refines.listMessages_after (h : Refines s log) (threadId : String) {limit : Int}
    (hlimit : 1 ≤ limit) (afterSeq : Int) :
    s.listMessages threadId limit none (some afterSeq) =
      (log.messages threadId none (some afterSeq)).take limit.toNat := by
  have hasc := h.ascending_messages threadId
  unfold MemoryRunEventStore.listMessages
  dsimp only
  rw [slice_after (bisectRight_le hasc afterSeq) hlimit, drop_bisectRight hasc, h.messages,
    log.messages_eq, List.filter_filter]
  apply congrArg (List.take _)
  apply List.filter_congr
  grind [EventLog.InWindow]

theorem Refines.listMessages_latest (h : Refines s log) (threadId : String) {limit : Int}
    (hlimit : 1 ≤ limit) :
    s.listMessages threadId limit none none =
      (log.messages threadId none none).rtake limit.toNat := by
  unfold MemoryRunEventStore.listMessages
  dsimp only
  rw [sliceFrom_neg _ hlimit, h.messages, log.messages_eq]
  apply congrArg (List.rtake · _)
  apply List.filter_congr
  grind [EventLog.InWindow]

theorem Refines.countMessages (h : Refines s log) (threadId : String) :
    s.countMessages threadId = (log.messages threadId none none).length := by
  rw [MemoryRunEventStore.countMessages, h.messages, log.messages_eq]
  apply congrArg List.length
  apply List.filter_congr
  grind [EventLog.InWindow]

theorem Refines.listEvents (h : Refines s log) (threadId runId : String)
    (eventTypes : Option (List String)) (taskId : Option String) {limit : Int}
    (hlimit : 1 ≤ limit) (afterSeq : Option Int) :
    s.listEvents threadId runId eventTypes taskId limit afterSeq =
      (log.events threadId runId eventTypes taskId afterSeq).take limit.toNat := by
  unfold MemoryRunEventStore.listEvents
  dsimp only
  rw [upTo_of_pos _ hlimit, h.eventsByRun, log.events_eq]
  simp only [MemoryRunEventStore.filterGiven_eq, List.filter_filter]
  apply congrArg (List.take _)
  apply List.filter_congr
  intro e _
  rw [Bool.eq_iff_iff]
  simp only [EventLog.InWindow, Option.all_eq_true, Bool.and_eq_true, decide_eq_true_eq]
  simp
  tauto

theorem Refines.listMessagesByRun (h : Refines s log) (threadId runId : String) {limit : Int}
    (hlimit : 1 ≤ limit) (beforeSeq afterSeq : Option Int) :
    s.listMessagesByRun threadId runId limit beforeSeq afterSeq =
      EventLog.page limit afterSeq (log.messagesByRun threadId runId beforeSeq afterSeq) := by
  have hwindow : (s.runMessages threadId runId).filter
      (fun e => EventLog.InWindow beforeSeq afterSeq e) =
        log.messagesByRun threadId runId beforeSeq afterSeq := by
    rw [h.messagesByRun, log.messagesByRun_eq, List.filter_filter]
    apply List.filter_congr
    grind
  unfold MemoryRunEventStore.listMessagesByRun EventLog.page
  dsimp only
  rw [slice_window (h.ascending_runMessages threadId runId), hwindow, upTo_of_pos _ hlimit,
    sliceFrom_neg _ hlimit]

/-- The last page of a list is the first page of a part at its end when that part is one page
and is all the list has for it. -/
theorem rtake_eq_take_iff {α : Type*} {xs ys : List α} {n : Nat} (hn : 1 ≤ n) (hnodup : ys.Nodup)
    (hsuffix : xs <:+ ys) : ys.rtake n = xs.take n ↔ xs.length = min n ys.length := by
  obtain ⟨pre, rfl⟩ := hsuffix
  have hlength : (pre ++ xs).length = pre.length + xs.length := List.length_append
  constructor
  · intro heq
    have hpages := congrArg List.length heq
    rw [List.rtake, List.length_drop, List.length_take] at hpages
    by_cases hle : xs.length ≤ n
    · omega
    · exfalso
      have hlast : (pre ++ xs)[pre.length + xs.length - 1]? = (pre ++ xs)[pre.length + (n - 1)]? := by
        calc (pre ++ xs)[pre.length + xs.length - 1]?
            = ((pre ++ xs).rtake n)[n - 1]? := by
              rw [List.rtake, List.getElem?_drop]
              congr 1
              omega
          _ = (xs.take n)[n - 1]? := by rw [heq]
          _ = (pre ++ xs)[pre.length + (n - 1)]? := by
              rw [List.getElem?_take_of_lt (by omega), List.getElem?_append_right (by omega)]
              congr 1
              omega
      rw [List.getElem?_eq_getElem (by omega), List.getElem?_eq_getElem (by omega),
        Option.some_inj, hnodup.getElem_inj_iff] at hlast
      omega
  · intro heq
    have hdrop : (pre ++ xs).length - n = pre.length := by omega
    rw [List.rtake, hdrop, List.drop_left, List.take_of_length_le (by omega)]

theorem EventLog.inWindow_some (beforeSeq : Option Int) (afterSeq : Int) (r : EventRecord) :
    EventLog.InWindow beforeSeq (some afterSeq) r ↔
      EventLog.InWindow beforeSeq none r ∧ afterSeq < r.seq := by
  simp [EventLog.InWindow]

/-- What is above a cursor stands at the end. -/
theorem EventLog.messages_suffix (log : EventLog) (threadId : String) (beforeSeq : Option Int)
    (afterSeq : Int) :
    log.messages threadId beforeSeq (some afterSeq) <:+ log.messages threadId beforeSeq none := by
  have hasc : (log.messages threadId beforeSeq none).Pairwise fun a b => a.seq < b.seq := by
    rw [log.messages_eq]
    apply log.pairwise_filter threadId
    simp +contextual
  have hdrop := drop_bisectRight hasc afterSeq
  have heq : log.messages threadId beforeSeq (some afterSeq) =
      (log.messages threadId beforeSeq none).filter (afterSeq < ·.seq) := by
    rw [log.messages_eq, log.messages_eq, List.filter_filter]
    apply List.filter_congr
    intro e _
    have hwindow := EventLog.inWindow_some beforeSeq afterSeq e
    grind
  rw [heq, ← hdrop]
  exact List.drop_suffix _ _

theorem EventLog.nodup_messages (log : EventLog) (threadId : String)
    (beforeSeq afterSeq : Option Int) : (log.messages threadId beforeSeq afterSeq).Nodup := by
  rw [log.messages_eq]
  refine List.Pairwise.imp ?_ (log.pairwise_filter threadId ?_)
  · rintro a b hab rfl
    exact Int.lt_irrefl _ hab
  · simp +contextual

theorem Refines.answer_messages_iff (h : Refines s log) (threadId : String) {limit : Int}
    (hlimit : 1 ≤ limit) (beforeSeq afterSeq : Option Int) :
    s.answer (.messages threadId limit beforeSeq afterSeq) =
        log.answer (.messages threadId limit beforeSeq afterSeq) ↔
      (EventQuery.messages threadId limit beforeSeq afterSeq).OnePage log := by
  rcases beforeSeq with _ | before <;> rcases afterSeq with _ | after
  · exact iff_of_true (congrArg EventAnswer.records (h.listMessages_latest threadId hlimit)) trivial
  · exact iff_of_true (congrArg EventAnswer.records (h.listMessages_after threadId hlimit after))
      trivial
  · exact iff_of_true
      (congrArg EventAnswer.records (h.listMessages_before threadId hlimit before none)) trivial
  · have hpage := rtake_eq_take_iff (by omega) (log.nodup_messages threadId (some before) none)
      (log.messages_suffix threadId (some before) after) (n := limit.toNat)
    rw [← h.listMessages_before threadId hlimit before (some after)] at hpage
    rw [EventQuery.OnePage, ← hpage]
    exact ⟨EventAnswer.records.inj, congrArg EventAnswer.records⟩

theorem Refines.answer_iff (h : Refines s log) {q : EventQuery} (hq : q.Limited) :
    s.answer q = log.answer q ↔ q.OnePage log := by
  cases q with
  | messages threadId limit beforeSeq afterSeq =>
    exact h.answer_messages_iff threadId hq beforeSeq afterSeq
  | events threadId runId eventTypes taskId limit afterSeq =>
    have heq := h.listEvents threadId runId eventTypes taskId hq afterSeq
    exact iff_of_true (congrArg EventAnswer.records heq) trivial
  | messagesByRun threadId runId limit beforeSeq afterSeq =>
    have heq := h.listMessagesByRun threadId runId hq beforeSeq afterSeq
    exact iff_of_true (congrArg EventAnswer.records heq) trivial
  | count threadId =>
    exact iff_of_true (congrArg EventAnswer.number (h.countMessages threadId)) trivial

theorem answers_agree_iff (calls : List StoreCall) :
    (MemoryRunEventStore.after calls).Projections ∧
      (∀ t, (MemoryRunEventStore.after calls).threadEvents t =
        (EventLog.after calls).records.filter fun e => e.threadId = t) ∧
      ∀ q : EventQuery, q.Limited →
        ((MemoryRunEventStore.after calls).answer q = (EventLog.after calls).answer q ↔
          q.OnePage (EventLog.after calls)) := by
  have h := refines_after calls
  exact ⟨h.projections, h.events, fun q hq => h.answer_iff hq⟩

private def threeMessages : List StoreCall :=
  let message : EventArgs :=
    { threadId := "thread", runId := "run", eventType := "human_message", category := "message",
      content := ⟨.str "hello", .str _⟩, metadata := none, createdAt := none }
  [.put message "10:00", .put message "10:01", .put message "10:02"]

theorem page_before_agrees :
    (MemoryRunEventStore.after threeMessages).answer (.messages "thread" 1 (some 3) none) =
      (EventLog.after threeMessages).answer (.messages "thread" 1 (some 3) none) :=
  ((answers_agree_iff threeMessages).2.2 (.messages "thread" 1 (some 3) none)
    (Int.le_refl 1)).mpr trivial

/-- Asked for what is between `1` and `3`, the store also gives `1`. -/
theorem both_cursors_disagree :
    (EventQuery.messages "thread" 10 (some 3) (some 1)).Limited ∧
      (MemoryRunEventStore.after threeMessages).answer
          (.messages "thread" 10 (some 3) (some 1)) ≠
        (EventLog.after threeMessages).answer (.messages "thread" 10 (some 3) (some 1)) := by
  refine ⟨show (1 : Int) ≤ 10 by decide, ?_⟩
  intro heq
  have hseqs := congrArg (List.map EventRecord.seq) (EventAnswer.records.inj heq)
  revert hseqs
  decide +kernel

end Answers

end DeerFlow.Runtime
