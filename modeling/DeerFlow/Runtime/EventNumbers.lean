import DeerFlow.Lib.Numbering
import DeerFlow.Runtime.EventStore

/-! The sequence numbers the three event stores give out within one process. The
interface promises that they ascend in each thread, so that a reader who has seen
the events up to one number misses none by asking for those after it. -/

namespace DeerFlow.Runtime
open DeerFlow.Numbering

/-- The calls that give out or take away events. `user` is the user of the request. -/
inductive EventOp where
  | put (args : EventArgs) (now : String) (user : Option String)
  | putBatch (events : List (EventArgs × String)) (user : Option String)
  | deleteByRun (threadId runId : String) (user : Option String)

/-- A store, and the numbers each call gives out, in order and with their threads. -/
structure EventBackend (σ : Type) where
  init : σ
  step : σ → EventOp → σ
  given : σ → EventOp → List (String × Int)

namespace EventBackend
variable {σ : Type}

def run (B : EventBackend σ) (ops : List EventOp) : σ × List (String × Int) :=
  ops.foldl (fun s op => (B.step s.1 op, s.2 ++ B.given s.1 op)) (B.init, [])

theorem run_concat (B : EventBackend σ) (ops : List EventOp) (op : EventOp) :
    B.run (ops ++ [op]) =
      (B.step (B.run ops).1 op, (B.run ops).2 ++ B.given (B.run ops).1 op) := by
  unfold run
  rw [List.foldl_concat]

theorem run_invariant {B : EventBackend σ} {I : σ → List (String × Int) → Prop}
    (hinit : I B.init []) (hstep : ∀ s xs op, I s xs → I (B.step s op) (xs ++ B.given s op))
    (ops : List EventOp) : I (B.run ops).1 (B.run ops).2 := by
  induction ops using List.reverseRecOn with
  | nil => exact hinit
  | append_singleton ops op ih =>
    rw [run_concat]
    exact hstep _ _ op ih

end EventBackend

def EventRecord.number (r : EventRecord) : String × Int := (r.threadId, r.seq)

def EventRow.number {τ : Type} (r : EventRow τ) : String × Int := (r.threadId, r.seq)

section Counting

def counterOf (counters : Dict Int) (threadId : String) : Int := (counters.get threadId).getD 0

theorem counts_set {counters : Dict Int} {xs : List (String × Int)}
    (h : Counts (counterOf counters) xs) (threadId : String) :
    Counts (counterOf (counters.set threadId (counterOf counters threadId + 1)))
      (xs ++ [(threadId, counterOf counters threadId + 1)]) := by
  apply h.next
  · simp [counterOf]
  · intro thread hne
    simp only [counterOf, Dict.get_set_ne hne]

theorem counts_append_nil {counter : String → Int} {xs : List (String × Int)}
    (h : Counts counter xs) : Counts counter (xs ++ []) := by
  rwa [List.append_nil]

def memoryBackend : EventBackend MemoryRunEventStore where
  init := .init
  step s
    | .put args now _ => (s.putOne args now).2
    | .putBatch events _ => (s.putBatch events).2
    | .deleteByRun threadId runId _ => (s.deleteByRun threadId runId).2
  given s
    | .put args now _ => [(s.putOne args now).1.number]
    | .putBatch events _ => (s.putBatch events).1.map EventRecord.number
    | .deleteByRun _ _ _ => []

theorem memory_putOne {s : MemoryRunEventStore} {xs : List (String × Int)}
    (h : Counts (counterOf s.seqCounters) xs) (args : EventArgs) (now : String) :
    Counts (counterOf (s.putOne args now).2.seqCounters)
      (xs ++ [(s.putOne args now).1.number]) := by
  have hcounters : (s.putOne args now).2.seqCounters =
      s.seqCounters.set args.threadId (counterOf s.seqCounters args.threadId + 1) := by
    unfold MemoryRunEventStore.putOne
    simp only
    split <;> rfl
  rw [hcounters]
  exact counts_set h args.threadId

theorem memory_putBatch {s : MemoryRunEventStore} {xs : List (String × Int)}
    (events : List (EventArgs × String)) (h : Counts (counterOf s.seqCounters) xs) :
    Counts (counterOf (s.putBatch events).2.seqCounters)
      (xs ++ (s.putBatch events).1.map EventRecord.number) := by
  induction events generalizing s xs with
  | nil => exact counts_append_nil h
  | cons ev events ih =>
    have hone := ih (memory_putOne h ev.1 ev.2)
    rwa [List.append_assoc] at hone

theorem memory_deleteByRun {s : MemoryRunEventStore} (threadId runId : String) :
    (s.deleteByRun threadId runId).2.seqCounters = s.seqCounters := by
  unfold MemoryRunEventStore.deleteByRun
  simp only
  split <;> rfl

theorem memory_counts (ops : List EventOp) :
    Counts (counterOf (memoryBackend.run ops).1.seqCounters) (memoryBackend.run ops).2 := by
  refine EventBackend.run_invariant
    (I := fun (s : MemoryRunEventStore) xs => Counts (counterOf s.seqCounters) xs)
    ⟨.nil, fun x hx => by cases hx⟩ (fun s xs op h => ?_) ops
  cases op with
  | put args now _ => exact memory_putOne h args now
  | putBatch events _ => exact memory_putBatch events h
  | deleteByRun threadId runId _ =>
    have hdelete := counts_append_nil h
    rw [← memory_deleteByRun threadId runId] at hdelete
    exact hdelete

/-- The number a `put` takes, also one whose record is not written. -/
def givenPut (s : JsonlRunEventStore) (args : EventArgs) : List (String × Int) :=
  match s.ensureSeqLoaded args.threadId with
  | .error _ => []
  | .ok s => [(args.threadId, (s.nextSeq args.threadId).1)]

def givenBatch (s : JsonlRunEventStore) : List (EventArgs × String) → List (String × Int)
  | [] => []
  | ev :: events => givenPut s ev.1 ++
    match s.put ev.1 ev.2 with
    | (.error _, _) => []
    | (.ok _, s) => givenBatch s events

def jsonlBackend : EventBackend JsonlRunEventStore where
  init := .init
  step s
    | .put args now _ => (s.put args now).2
    | .putBatch events _ => (s.putBatch events).2
    | .deleteByRun threadId runId _ => (s.deleteByRun threadId runId).2
  given s
    | .put args _ _ => givenPut s args
    | .putBatch events _ => givenBatch s events
    | .deleteByRun _ _ _ => []

/-- Within one process a thread whose counter was not loaded was given no number. -/
structure JsonlCounts (s : JsonlRunEventStore) (xs : List (String × Int)) : Prop where
  counts : Counts (counterOf s.seqCounters) xs
  loaded : ∀ x ∈ xs, (s.seqCounters.get x.1).isSome

theorem jsonlCounts_append_nil {s : JsonlRunEventStore} {xs : List (String × Int)}
    (h : JsonlCounts s xs) : JsonlCounts s (xs ++ []) := by
  rwa [List.append_nil]

theorem jsonl_ensureSeqLoaded {s s' : JsonlRunEventStore} {xs : List (String × Int)}
    (h : JsonlCounts s xs) {threadId : String} (hs : s.ensureSeqLoaded threadId = .ok s') :
    JsonlCounts s' xs := by
  unfold JsonlRunEventStore.ensureSeqLoaded at hs
  split at hs
  · cases hs
    exact h
  · next hnew =>
    obtain ⟨n, -, rfl⟩ := map_eq_ok.mp hs
    have hother : ∀ x ∈ xs, x.1 ≠ threadId := by
      intro x hx hthread
      exact hnew (hthread ▸ h.loaded x hx)
    refine ⟨⟨h.counts.ascending, fun x hx => ?_⟩, fun x hx => ?_⟩
    · have hle := h.counts.le x hx
      unfold counterOf at hle ⊢
      rwa [Dict.get_set_ne (hother x hx)]
    · change ((s.seqCounters.set threadId n).get x.1).isSome
      rw [Dict.get_set_ne (hother x hx)]
      exact h.loaded x hx

theorem jsonl_nextSeq {s : JsonlRunEventStore} {xs : List (String × Int)} (h : JsonlCounts s xs)
    (threadId : String) :
    JsonlCounts (s.nextSeq threadId).2 (xs ++ [(threadId, (s.nextSeq threadId).1)]) := by
  refine ⟨counts_set h.counts threadId, fun x hx => ?_⟩
  change ((s.seqCounters.set threadId (s.nextSeq threadId).1).get x.1).isSome
  rw [Dict.get_set]
  split_ifs with hthread
  · rfl
  · rcases List.mem_append.mp hx with hx | hx
    · exact h.loaded x hx
    · rw [List.mem_singleton.mp hx] at hthread
      exact absurd rfl hthread

theorem jsonl_writeRecord {s s' : JsonlRunEventStore} {record : EventRecord}
    (hs : s.writeRecord record = .ok s') : s'.seqCounters = s.seqCounters := by
  obtain ⟨path, -, hs⟩ := bind_eq_ok.mp hs
  cases hs
  rfl

theorem jsonl_put {s : JsonlRunEventStore} {xs : List (String × Int)} (h : JsonlCounts s xs)
    (args : EventArgs) (now : String) :
    JsonlCounts (s.put args now).2 (xs ++ givenPut s args) := by
  unfold JsonlRunEventStore.put givenPut
  rcases hloaded : s.ensureSeqLoaded args.threadId with e | s₁
  · exact jsonlCounts_append_nil h
  · have hnext := jsonl_nextSeq (jsonl_ensureSeqLoaded h hloaded) args.threadId
    simp only
    rcases hwrite : (s₁.nextSeq args.threadId).2.writeRecord
      (args.record (s₁.nextSeq args.threadId).1 now) with e | s₂
    · exact hnext
    · have hcounters := jsonl_writeRecord hwrite
      refine ⟨?_, ?_⟩
      · rw [hcounters]
        exact hnext.counts
      · rw [hcounters]
        exact hnext.loaded

theorem jsonl_putBatch {s : JsonlRunEventStore} {xs : List (String × Int)}
    (events : List (EventArgs × String)) (h : JsonlCounts s xs) :
    JsonlCounts (s.putBatch events).2 (xs ++ givenBatch s events) := by
  induction events generalizing s xs with
  | nil => exact jsonlCounts_append_nil h
  | cons ev events ih =>
    have hput := jsonl_put h ev.1 ev.2
    unfold JsonlRunEventStore.putBatch givenBatch
    rcases hresult : s.put ev.1 ev.2 with ⟨e | record, s₁⟩
    · rw [hresult] at hput
      have hnil := jsonlCounts_append_nil hput
      rwa [List.append_assoc] at hnil
    · rw [hresult] at hput
      have hbatch := ih hput
      rw [List.append_assoc] at hbatch
      simp only
      rcases hrec : s₁.putBatch events with ⟨e | results, s₂⟩
      · rw [hrec] at hbatch
        exact hbatch
      · rw [hrec] at hbatch
        exact hbatch

theorem jsonl_deleteByRun {s : JsonlRunEventStore} (threadId runId : String) :
    (s.deleteByRun threadId runId).2.seqCounters = s.seqCounters := by
  unfold JsonlRunEventStore.deleteByRun
  split <;> rfl

theorem jsonl_counts (ops : List EventOp) :
    JsonlCounts (jsonlBackend.run ops).1 (jsonlBackend.run ops).2 := by
  refine EventBackend.run_invariant (I := JsonlCounts)
    ⟨⟨.nil, fun x hx => by cases hx⟩, fun x hx => by cases hx⟩ (fun s xs op h => ?_) ops
  cases op with
  | put args now _ => exact jsonl_put h args now
  | putBatch events _ => exact jsonl_putBatch events h
  | deleteByRun threadId runId _ =>
    have hcounters := jsonl_deleteByRun (s := s) threadId runId
    have hdelete : JsonlCounts (s.deleteByRun threadId runId).2 xs :=
      ⟨by rw [hcounters]; exact h.counts, by rw [hcounters]; exact h.loaded⟩
    exact jsonlCounts_append_nil hdelete

end Counting

section Maximum
variable {τ : Type} (config : DbEventConfig τ)

def dbBackend : EventBackend (DbRunEventStore τ) where
  init := .init
  step s
    | .put args now user => (s.put config args now user).2
    | .putBatch events user => (s.putBatch config events user).2
    | .deleteByRun threadId runId user => (s.deleteByRun threadId runId user).2
  given s
    | .put args now user => ((s.put config args now user).1.toOption.map EventRow.number).toList
    | .putBatch events user =>
      (((s.putBatch config events user).1.toOption).getD []).map EventRow.number
    | .deleteByRun _ _ _ => []

/-- The number given last in the thread is that of a row. -/
def LastKept (s : DbRunEventStore τ) (xs : List (String × Int)) (threadId : String) : Prop :=
  ∀ l, last? xs threadId = some l → l ∈ s.rows.map EventRow.number

/-- Whenever a call puts events into a thread, the event put there last has not been deleted. -/
def LastEventsKept (ops : List EventOp) : Prop :=
  ∀ before op, before ++ [op] <+: ops →
    ∀ x ∈ (dbBackend config).given ((dbBackend config).run before).1 op,
      LastKept ((dbBackend config).run before).1 ((dbBackend config).run before).2 x.1

variable {config} {s : DbRunEventStore τ}

theorem le_maxSeqForThread {row : EventRow τ} (h : row ∈ s.rows) :
    row.seq ≤ s.maxSeqForThread row.threadId := by
  have hmem : row.seq ∈ (s.rows.filter fun r => r.threadId = row.threadId).map EventRow.seq :=
    List.mem_map_of_mem (List.mem_filter.mpr ⟨h, by simp⟩)
  unfold DbRunEventStore.maxSeqForThread
  rcases hmax : ((s.rows.filter fun r => r.threadId = row.threadId).map EventRow.seq).max?
    with _ | n
  · rw [List.max?_eq_none_iff.mp hmax] at hmem
    cases hmem
  · rw [hmax]
    exact (List.max?_eq_some_iff.mp hmax).2 row.seq hmem

theorem maxSeqForThread_mem (s : DbRunEventStore τ) (threadId : String) :
    (threadId, s.maxSeqForThread threadId) ∈ s.rows.map EventRow.number ∨
      s.maxSeqForThread threadId = 0 := by
  unfold DbRunEventStore.maxSeqForThread
  rcases hmax : ((s.rows.filter fun r => r.threadId = threadId).map EventRow.seq).max?
    with _ | n
  · exact .inr (by rw [hmax]; rfl)
  · left
    rw [hmax]
    obtain ⟨row, hrow, hseq⟩ := List.mem_map.mp (List.max?_eq_some_iff.mp hmax).1
    obtain ⟨hrow, hthread⟩ := List.mem_filter.mp hrow
    refine List.mem_map.mpr ⟨row, hrow, ?_⟩
    exact Prod.ext (of_decide_eq_true hthread) hseq

theorem eventRow_number {args : EventArgs} {now : String} {user : Option String} {seq : Int}
    {row : EventRow τ} (h : DbRunEventStore.eventRow config args now user seq = .ok row) :
    row.number = (args.threadId, seq) := by
  unfold DbRunEventStore.eventRow at h
  simp only at h
  split at h
  · cases h
  · cases h
    rfl

theorem batchRows_numbers {user : Option String} {threadId : String} {seq : Int}
    {events : List (EventArgs × String)} {rows : List (EventRow τ)}
    (hthread : ∀ ev ∈ events, ev.1.threadId = threadId)
    (h : DbRunEventStore.batchRows config user seq events = .ok rows) :
    rows.map EventRow.number = block threadId seq events.length := by
  induction events generalizing seq rows with
  | nil =>
    cases h
    rfl
  | cons ev events ih =>
    obtain ⟨row, hrow, h⟩ := bind_eq_ok.mp h
    obtain ⟨rest, hrest, h⟩ := bind_eq_ok.mp h
    cases h
    have htail := ih (fun ev' hev => hthread ev' (List.mem_cons_of_mem _ hev)) hrest
    rw [List.map_cons, eventRow_number hrow, htail, hthread ev (List.mem_cons_self ..)]
    rfl

/-- What a call does to the table: it appends rows numbered on from the greatest number of
their thread, or it gives out no number and takes rows away. -/
theorem db_step (config : DbEventConfig τ) (s : DbRunEventStore τ) (op : EventOp) :
    (∃ threadId j, (dbBackend config).given s op =
      block threadId (s.maxSeqForThread threadId) j) ∧
      ∀ row ∈ ((dbBackend config).step s op).rows,
        row ∈ s.rows ∨ row.number ∈ (dbBackend config).given s op := by
  cases op with
  | put args now user =>
    simp only [dbBackend, DbRunEventStore.put]
    rcases hrow : DbRunEventStore.eventRow config args now user
      (s.maxSeqForThread args.threadId + 1) with e | row
    · exact ⟨⟨args.threadId, 0, rfl⟩, fun row h => .inl h⟩
    · have hnumber := eventRow_number hrow
      refine ⟨⟨args.threadId, 1, ?_⟩, fun row' h => ?_⟩
      · exact congrArg (fun x => [x]) hnumber
      · refine (List.mem_append.mp h).imp_right fun h => ?_
        rw [List.mem_singleton.mp h]
        exact List.mem_singleton_self _
  | putBatch events user =>
    simp only [dbBackend]
    cases events with
    | nil => exact ⟨⟨"", 0, rfl⟩, fun row h => .inl h⟩
    | cons ev events =>
      simp only [DbRunEventStore.putBatch]
      split
      · next hall =>
        have hthread : ∀ e ∈ ev :: events, e.1.threadId = ev.1.threadId := by
          simpa using hall
        rcases hrows : DbRunEventStore.batchRows config user
          (s.maxSeqForThread ev.1.threadId) (ev :: events) with e | rows
        · exact ⟨⟨ev.1.threadId, 0, rfl⟩, fun row h => .inl h⟩
        · have hnumbers := batchRows_numbers hthread hrows
          refine ⟨⟨ev.1.threadId, _, hnumbers⟩, fun row h => ?_⟩
          exact (List.mem_append.mp h).imp_right List.mem_map_of_mem
      · exact ⟨⟨"", 0, rfl⟩, fun row h => .inl h⟩
  | deleteByRun threadId runId user =>
    exact ⟨⟨threadId, 0, rfl⟩, fun row h => .inl (List.mem_of_mem_filter h)⟩

/-- Every row has a number that was given out, and numbers are positive. -/
structure DbNumbers (s : DbRunEventStore τ) (xs : List (String × Int)) : Prop where
  given : ∀ row ∈ s.rows, row.number ∈ xs
  pos : ∀ x ∈ xs, 0 < x.2

theorem maxSeqForThread_nonneg {xs : List (String × Int)} (h : DbNumbers s xs)
    (threadId : String) : 0 ≤ s.maxSeqForThread threadId := by
  rcases maxSeqForThread_mem s threadId with hmem | hzero
  · obtain ⟨row, hrow, hnumber⟩ := List.mem_map.mp hmem
    have hpos := h.pos _ (h.given row hrow)
    rw [hnumber] at hpos
    exact le_of_lt hpos
  · omega

theorem db_numbers (config : DbEventConfig τ) (ops : List EventOp) :
    DbNumbers ((dbBackend config).run ops).1 ((dbBackend config).run ops).2 := by
  refine EventBackend.run_invariant (I := DbNumbers)
    ⟨fun _ h => (by cases h), fun _ hx => (by cases hx)⟩ (fun s xs op h => ?_) ops
  obtain ⟨⟨threadId, j, hgiven⟩, hrows⟩ := db_step config s op
  constructor
  · intro row hrow
    exact List.mem_append.mpr ((hrows row hrow).imp_left (h.given row))
  · intro x hx
    rcases List.mem_append.mp hx with hx | hx
    · exact h.pos x hx
    · rw [hgiven] at hx
      have hmax := maxSeqForThread_nonneg h threadId
      have hlt := (mem_block hx).2
      omega

/-- A call continues ascending numbers just when the last number of the thread is kept. -/
theorem db_ascending_step {xs : List (String × Int)} (h : DbNumbers s xs) (op : EventOp) :
    Ascending (xs ++ (dbBackend config).given s op) ↔
      Ascending xs ∧ ∀ x ∈ (dbBackend config).given s op, LastKept s xs x.1 := by
  obtain ⟨⟨threadId, j, hgiven⟩, -⟩ := db_step config s op
  have hkept : ∀ x ∈ s.rows.map EventRow.number, x ∈ xs := by
    intro x hx
    obtain ⟨row, hrow, rfl⟩ := List.mem_map.mp hx
    exact h.given row hrow
  have hmax : ∀ x ∈ s.rows.map EventRow.number, x.1 = threadId →
      x.2 ≤ s.maxSeqForThread threadId := by
    intro x hx hthread
    obtain ⟨row, hrow, rfl⟩ := List.mem_map.mp hx
    exact hthread ▸ le_maxSeqForThread hrow
  have habove : Ascending xs → (Above xs threadId (s.maxSeqForThread threadId + 1) ↔
      LastKept s xs threadId) := fun hxs =>
    hxs.above_iff_last_mem h.pos hkept hmax (maxSeqForThread_mem s threadId)
  rw [hgiven]
  constructor
  · intro hall
    have hxs : Ascending xs := (List.pairwise_append.mp hall).1
    refine ⟨hxs, fun x hx => ?_⟩
    obtain ⟨hthread, -⟩ := mem_block hx
    cases j with
    | zero => cases hx
    | succ j =>
      rw [hthread]
      exact (habove hxs).mp hall.above_of_append
  · rintro ⟨hxs, hlast⟩
    cases j with
    | zero =>
      rw [block, List.append_nil]
      exact hxs
    | succ j =>
      have hkept := hlast _ (List.mem_cons_self ..)
      exact hxs.append_block ((habove hxs).mpr hkept) _

theorem lastEventsKept_concat (config : DbEventConfig τ) (ops : List EventOp) (op : EventOp) :
    LastEventsKept config (ops ++ [op]) ↔ LastEventsKept config ops ∧
      ∀ x ∈ (dbBackend config).given ((dbBackend config).run ops).1 op,
        LastKept ((dbBackend config).run ops).1 ((dbBackend config).run ops).2 x.1 := by
  constructor
  · intro h
    exact ⟨fun before op' hbegins => h before op' (hbegins.trans (List.prefix_append ..)),
      h ops op List.prefix_rfl⟩
  · rintro ⟨hops, hop⟩ before op' hbegins
    rcases List.prefix_concat_iff.mp hbegins with heq | hbegins
    · obtain ⟨rfl, hlast⟩ := List.append_inj' heq rfl
      obtain rfl := List.singleton_inj.mp hlast
      exact hop
    · exact hops before op' hbegins

theorem db_ascending_iff (config : DbEventConfig τ) (ops : List EventOp) :
    Ascending ((dbBackend config).run ops).2 ↔ LastEventsKept config ops := by
  induction ops using List.reverseRecOn with
  | nil =>
    refine iff_of_true .nil fun before op hbegins => ?_
    have hlength := hbegins.length_le
    simp at hlength
  | append_singleton ops op ih =>
    rw [EventBackend.run_concat, db_ascending_step (db_numbers config ops), ih,
      lastEventsKept_concat]

end Maximum

/-- The two counting stores never give a number again; the database does just when the last
event of a thread was deleted before the next is put. -/
theorem numbers_ascend {τ : Type} (config : DbEventConfig τ) (ops : List EventOp) :
    Ascending (memoryBackend.run ops).2 ∧ Ascending (jsonlBackend.run ops).2 ∧
      (Ascending ((dbBackend config).run ops).2 ↔ LastEventsKept config ops) :=
  ⟨(memory_counts ops).ascending, (jsonl_counts ops).counts.ascending, db_ascending_iff config ops⟩

def plainEvent (runId : String) : EventArgs where
  threadId := "t"
  runId := runId
  eventType := "message"
  category := "message"
  content := ⟨.str "", .str _⟩
  metadata := none
  createdAt := some "2026"

/-- A cursor at 2 does not see the event that follows. -/
theorem deleted_last_number_comes_back :
    ((dbBackend (τ := String) ⟨10240, some⟩).run
      [.put (plainEvent "r1") "2026" none, .put (plainEvent "r2") "2026" none,
        .deleteByRun "t" "r2" none, .put (plainEvent "r3") "2026" none]).2 =
          [("t", 1), ("t", 2), ("t", 2)] ∧
      ¬ Ascending [("t", 1), ("t", 2), ("t", 2)] := by
  refine ⟨by decide +kernel, ?_⟩
  unfold Ascending
  decide

end DeerFlow.Runtime
