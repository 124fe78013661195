import DeerFlow.Lib.Bisect
import DeerFlow.Runtime.EventNumbers

/-! What the in-memory event store answers. Its four indexes are lists in the
order of the sequence numbers, in which a cursor is found by bisection. -/

namespace DeerFlow.Runtime
open Bisect

section Slices
variable {α : Type*}

/-- The place an index of a slice stands for, from the end where it is negative. -/
def sliceIndex (n : Nat) (i : Int) : Nat := if i < 0 then n - i.natAbs else min i.toNat n

/-- `xs[start:stop]`. -/
def slice (start stop : Int) (xs : List α) : List α :=
  (xs.take (sliceIndex xs.length stop)).drop (sliceIndex xs.length start)

/-- `xs[start:]`. -/
def sliceFrom (start : Int) (xs : List α) : List α := xs.drop (sliceIndex xs.length start)

/-- The slice that ends at `hi` and is `limit` long where it can be. -/
theorem slice_before {xs : List α} {hi : Nat} {limit : Int} (hhi : hi ≤ xs.length)
    (hlimit : 1 ≤ limit) :
    slice (max 0 ((hi : Int) - limit)) hi xs = (xs.take hi).rtake limit.toNat := by
  have hstop : sliceIndex xs.length (hi : Int) = hi := by
    unfold sliceIndex
    rw [if_neg (by omega), Int.toNat_natCast, Nat.min_eq_left hhi]
  have hstart : sliceIndex xs.length (max 0 ((hi : Int) - limit)) = hi - limit.toNat := by
    unfold sliceIndex
    rw [if_neg (by omega)]
    omega
  have hlength : (xs.take hi).length = hi := by
    rw [List.length_take, Nat.min_eq_left hhi]
  rw [slice, hstop, hstart, List.rtake, hlength]

theorem slice_after {xs : List α} {lo : Nat} {limit : Int} (hlo : lo ≤ xs.length)
    (hlimit : 1 ≤ limit) : slice lo ((lo : Int) + limit) xs = (xs.drop lo).take limit.toNat := by
  have hstart : sliceIndex xs.length (lo : Int) = lo := by
    unfold sliceIndex
    rw [if_neg (by omega), Int.toNat_natCast, Nat.min_eq_left hlo]
  have hstop : sliceIndex xs.length ((lo : Int) + limit) = min (lo + limit.toNat) xs.length := by
    unfold sliceIndex
    rw [if_neg (by omega)]
    omega
  rw [slice, hstart, hstop, ← List.take_eq_take_min, List.take_drop]

theorem slice_between {xs : List α} {lo hi : Nat} (hlo : lo ≤ xs.length) (hhi : hi ≤ xs.length) :
    slice lo hi xs = (xs.take hi).drop lo := by
  have hindex (n : Nat) (hn : n ≤ xs.length) : sliceIndex xs.length (n : Int) = n := by
    unfold sliceIndex
    rw [if_neg (by omega), Int.toNat_natCast, Nat.min_eq_left hn]
  rw [slice, hindex lo hlo, hindex hi hhi]

theorem sliceFrom_neg (xs : List α) {limit : Int} (hlimit : 1 ≤ limit) :
    sliceFrom (-limit) xs = xs.rtake limit.toNat := by
  have hstart : sliceIndex xs.length (-limit) = xs.length - limit.toNat := by
    unfold sliceIndex
    rw [if_pos (by omega)]
    omega
  rw [sliceFrom, hstart, List.rtake]

theorem upTo_of_pos (xs : List α) {limit : Int} (hlimit : 1 ≤ limit) :
    upTo limit xs = xs.take limit.toNat := by
  unfold upTo
  rw [if_pos (by omega)]

end Slices

/-- `bisect.bisect_left(events, seq, key=lambda e: e["seq"])`. -/
def bisectLeft (events : List EventRecord) (seq : Int) : Nat := bisect (fun e => e.seq < seq) events

/-- `bisect.bisect_right(events, seq, key=lambda e: e["seq"])`. -/
def bisectRight (events : List EventRecord) (seq : Int) : Nat :=
  bisect (fun e => ¬ seq < e.seq) events

def EventRecord.IsMessage (r : EventRecord) : Prop := r.category = "message"

instance (r : EventRecord) : Decidable r.IsMessage := inferInstanceAs (Decidable (_ = _))

/-- `(e.get("metadata") or {}).get("task_id") == task_id`. -/
def EventRecord.hasTask (r : EventRecord) (taskId : String) : Bool :=
  match (r.metadata.items.find? fun x => x.1 = "task_id").map Prod.snd with
  | some (.str s) => s = taskId
  | _ => false

namespace MemoryRunEventStore

/-- `self._events.get(thread_id, [])`. -/
def threadEvents (s : MemoryRunEventStore) (threadId : String) : List EventRecord :=
  (s.events.get threadId).getD []

/-- `self._messages.get(thread_id, [])`. -/
def threadMessages (s : MemoryRunEventStore) (threadId : String) : List EventRecord :=
  (s.messages.get threadId).getD []

/-- `d.get(thread_id, {}).get(run_id, [])`. -/
def atRun (d : Dict (Dict (List EventRecord))) (threadId runId : String) : List EventRecord :=
  (((d.get threadId).getD []).get runId).getD []

def runEvents (s : MemoryRunEventStore) (threadId runId : String) : List EventRecord :=
  atRun s.eventsByRun threadId runId

def runMessages (s : MemoryRunEventStore) (threadId runId : String) : List EventRecord :=
  atRun s.messagesByRun threadId runId

def listMessages (s : MemoryRunEventStore) (threadId : String) (limit : Int)
    (beforeSeq afterSeq : Option Int) : List EventRecord :=
  let messages := s.threadMessages threadId
  match beforeSeq, afterSeq with
  | some beforeSeq, _ =>
    let hi := bisectLeft messages beforeSeq
    slice (max 0 ((hi : Int) - limit)) hi messages
  | none, some afterSeq =>
    let lo := bisectRight messages afterSeq
    slice lo ((lo : Int) + limit) messages
  | none, none => sliceFrom (-limit) messages

/-- `if value is not None: events = [e for e in events if keep(value, e)]`. -/
def filterGiven {α : Type*} (value : Option α) (keep : α → EventRecord → Bool)
    (events : List EventRecord) : List EventRecord :=
  match value with
  | none => events
  | some value => events.filter (keep value)

def listEvents (s : MemoryRunEventStore) (threadId runId : String)
    (eventTypes : Option (List String)) (taskId : Option String) (limit : Int)
    (afterSeq : Option Int) : List EventRecord :=
  let runEvents := s.runEvents threadId runId
  let runEvents := filterGiven eventTypes (fun types e => e.eventType ∈ types) runEvents
  let runEvents := filterGiven taskId (fun taskId e => e.hasTask taskId) runEvents
  let runEvents := filterGiven afterSeq (fun afterSeq e => afterSeq < e.seq) runEvents
  upTo limit runEvents

/-- `0 if after_seq is None else bisect.bisect_right(messages, after_seq)`. -/
def windowStart (messages : List EventRecord) : Option Int → Nat
  | none => 0
  | some afterSeq => bisectRight messages afterSeq

/-- `len(messages) if before_seq is None else bisect.bisect_left(messages, before_seq)`. -/
def windowStop (messages : List EventRecord) : Option Int → Nat
  | none => messages.length
  | some beforeSeq => bisectLeft messages beforeSeq

def listMessagesByRun (s : MemoryRunEventStore) (threadId runId : String) (limit : Int)
    (beforeSeq afterSeq : Option Int) : List EventRecord :=
  let messages := s.runMessages threadId runId
  let lo := windowStart messages afterSeq
  let hi := windowStop messages beforeSeq
  let window := slice lo hi messages
  if afterSeq.isSome then upTo limit window else sliceFrom (-limit) window

def countMessages (s : MemoryRunEventStore) (threadId : String) : Nat :=
  (s.threadMessages threadId).length

def deleteByThread (s : MemoryRunEventStore) (threadId : String) : Nat × MemoryRunEventStore :=
  ((s.threadEvents threadId).length,
    { events := s.events.pop threadId
      messages := s.messages.pop threadId
      eventsByRun := s.eventsByRun.pop threadId
      messagesByRun := s.messagesByRun.pop threadId
      seqCounters := s.seqCounters.pop threadId })

end MemoryRunEventStore

/-- The calls that change the events, with the time of each new one. -/
inductive StoreCall where
  | put (args : EventArgs) (now : String)
  | putBatch (events : List (EventArgs × String))
  | deleteByRun (threadId runId : String)
  | deleteByThread (threadId : String)

inductive EventQuery where
  | messages (threadId : String) (limit : Int) (beforeSeq afterSeq : Option Int)
  | events (threadId runId : String) (eventTypes : Option (List String)) (taskId : Option String)
      (limit : Int) (afterSeq : Option Int)
  | messagesByRun (threadId runId : String) (limit : Int) (beforeSeq afterSeq : Option Int)
  | count (threadId : String)

inductive EventAnswer where
  | records (events : List EventRecord)
  | number (n : Nat)

namespace MemoryRunEventStore

def call (s : MemoryRunEventStore) : StoreCall → MemoryRunEventStore
  | .put args now => (s.putOne args now).2
  | .putBatch events => (s.putBatch events).2
  | .deleteByRun threadId runId => (s.deleteByRun threadId runId).2
  | .deleteByThread threadId => (s.deleteByThread threadId).2

def after (calls : List StoreCall) : MemoryRunEventStore := calls.foldl call init

def answer (s : MemoryRunEventStore) : EventQuery → EventAnswer
  | .messages threadId limit beforeSeq afterSeq =>
    .records (s.listMessages threadId limit beforeSeq afterSeq)
  | .events threadId runId eventTypes taskId limit afterSeq =>
    .records (s.listEvents threadId runId eventTypes taskId limit afterSeq)
  | .messagesByRun threadId runId limit beforeSeq afterSeq =>
    .records (s.listMessagesByRun threadId runId limit beforeSeq afterSeq)
  | .count threadId => .number (s.countMessages threadId)

section Views

theorem filterGiven_eq {α : Type*} (value : Option α) (keep : α → EventRecord → Bool)
    (events : List EventRecord) :
    filterGiven value keep events = events.filter fun e => value.all fun x => keep x e := by
  cases value <;> simp [filterGiven]

theorem getD_appendAt {β : Type*} (d : Dict (List β)) (k : String) (v : β) (k' : String) :
    ((appendAt d k v).get k').getD [] = (d.get k').getD [] ++ if k' = k then [v] else [] := by
  unfold appendAt
  rw [Dict.get_set]
  split_ifs with h
  · rw [h, Option.getD_some]
  · rw [List.append_nil]

theorem atRun_appendAtRun (d : Dict (Dict (List EventRecord))) (r : EventRecord)
    (threadId runId : String) :
    atRun (appendAtRun d r) threadId runId =
      atRun d threadId runId ++ if threadId = r.threadId ∧ runId = r.runId then [r] else [] := by
  unfold atRun appendAtRun
  rw [Dict.get_set]
  by_cases ht : threadId = r.threadId
  · rw [if_pos ht, Option.getD_some, getD_appendAt, ht]
    simp
  · rw [if_neg ht, if_neg fun h => ht h.1, List.append_nil]

theorem get_pop {β : Type*} (d : Dict β) (k k' : String) :
    (d.pop k).get k' = if k' = k then none else d.get k' := by
  have hfilter := Dict.get_filter d (fun x => decide (x ≠ k)) k'
  rw [Dict.pop, hfilter]
  by_cases h : k' = k
  · simp [h]
  · simp [h]

theorem atRun_popRun (d : Dict (Dict (List EventRecord))) (threadId runId t r : String) :
    atRun (popRun d threadId runId) t r =
      if t = threadId ∧ r = runId then [] else atRun d t r := by
  unfold popRun
  rcases hd : d.get threadId with _ | runs
  · by_cases ht : t = threadId
    · simp [atRun, ht, hd]
    · simp [ht]
  · unfold atRun
    dsimp only
    rw [Dict.get_set]
    by_cases ht : t = threadId
    · rw [if_pos ht, Option.getD_some, get_pop, ht, hd, Option.getD_some]
      by_cases hr : r = runId
      · simp [hr]
      · simp [hr]
    · rw [if_neg ht, if_neg fun h => ht h.1]

theorem atRun_pop (d : Dict (Dict (List EventRecord))) (threadId t r : String) :
    atRun (d.pop threadId) t r = if t = threadId then [] else atRun d t r := by
  unfold atRun
  rw [get_pop]
  by_cases ht : t = threadId
  · simp [ht]
  · simp [ht]

end Views

end MemoryRunEventStore

end DeerFlow.Runtime
