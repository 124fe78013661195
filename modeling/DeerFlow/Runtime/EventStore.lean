import DeerFlow.Runtime.EventFiles

/-! The in-memory event store and the one over a database. The first counts the
numbers of a thread and keeps four indexes over the same records; the second
counts on from the greatest number in the table, within the transaction that
inserts the row. -/

namespace DeerFlow.Runtime

section Memory

/-- `d.setdefault(k, []).append(v)`. -/
def appendAt {β : Type*} (d : Dict (List β)) (k : String) (v : β) : Dict (List β) :=
  d.set k ((d.get k).getD [] ++ [v])

structure MemoryRunEventStore where
  events : Dict (List EventRecord)
  messages : Dict (List EventRecord)
  eventsByRun : Dict (Dict (List EventRecord))
  messagesByRun : Dict (Dict (List EventRecord))
  seqCounters : Dict Int

namespace MemoryRunEventStore

def init : MemoryRunEventStore := ⟨[], [], [], [], []⟩

def nextSeq (s : MemoryRunEventStore) (threadId : String) : Int × MemoryRunEventStore :=
  let n := (s.seqCounters.get threadId).getD 0 + 1
  (n, { s with seqCounters := s.seqCounters.set threadId n })

def appendAtRun (d : Dict (Dict (List EventRecord))) (r : EventRecord) :
    Dict (Dict (List EventRecord)) :=
  d.set r.threadId (appendAt ((d.get r.threadId).getD []) r.runId r)

def putOne (s : MemoryRunEventStore) (args : EventArgs) (now : String) :
    EventRecord × MemoryRunEventStore :=
  let (seq, s) := s.nextSeq args.threadId
  let record := args.record seq now
  let s := { s with
    events := appendAt s.events record.threadId record
    eventsByRun := appendAtRun s.eventsByRun record }
  (record, if record.category = "message" then
    { s with
      messages := appendAt s.messages record.threadId record
      messagesByRun := appendAtRun s.messagesByRun record }
    else s)

def putBatch (s : MemoryRunEventStore) :
    List (EventArgs × String) → List EventRecord × MemoryRunEventStore
  | [] => ([], s)
  | ev :: events =>
    let (record, s) := s.putOne ev.1 ev.2
    let (results, s) := s.putBatch events
    (record :: results, s)

/-- `d.get(thread_id, {}).pop(run_id, None)`. -/
def popRun (d : Dict (Dict (List EventRecord))) (threadId runId : String) :
    Dict (Dict (List EventRecord)) :=
  match d.get threadId with
  | none => d
  | some runs => d.set threadId (runs.pop runId)

def deleteByRun (s : MemoryRunEventStore) (threadId runId : String) :
    Nat × MemoryRunEventStore :=
  let allEvents := (s.events.get threadId).getD []
  if allEvents = [] then (0, s)
  else
    let remaining := allEvents.filter fun e => e.runId ≠ runId
    (allEvents.length - remaining.length,
      { s with
        events := s.events.set threadId remaining
        messages := s.messages.set threadId (remaining.filter fun e => e.category = "message")
        eventsByRun := popRun s.eventsByRun threadId runId
        messagesByRun := popRun s.messagesByRun threadId runId })

end MemoryRunEventStore

end Memory

section Metadata

/-- `{**d, k: v}`. -/
def JsonDict.set (d : JsonDict) (k : String) (v : JsonValue) : JsonDict where
  items := upsert Prod.fst (k, v.json) d.items
  unique := by
    obtain ⟨items, hunique⟩ := d
    cases hunique with
    | obj hkeys hvalues =>
      refine .obj (nodup_upsert Prod.fst hkeys) fun x hx => ?_
      rcases mem_upsert Prod.fst hx with rfl | hx
      · exact v.unique
      · exact hvalues x hx

end Metadata

section Database

/-- `text.encode("utf-8")[:size].decode("utf-8", errors="ignore")`: a character that is cut is
dropped. -/
def truncateUtf8 : Nat → Text → Text
  | _, [] => []
  | size, c :: text =>
    if c.utf8Size ≤ size then c :: truncateUtf8 (size - c.utf8Size) text else []

def utf8Length (text : Text) : Nat := (text.map Char.utf8Size).sum

structure EventRow (τ : Type) where
  threadId : String
  runId : String
  userId : Option String
  eventType : String
  category : String
  content : String
  eventMetadata : JsonDict
  seq : Int
  createdAt : τ

inductive DbEventFault where
  /-- `put_batch requires all events to belong to the same thread; got {thread_ids!r}`. -/
  | mixedThreads (threadIds : List String)
  /-- From `datetime.fromisoformat`. -/
  | invalidIsoFormat (text : String)

/-- What the store is built with, and `datetime.fromisoformat`. -/
structure DbEventConfig (τ : Type) where
  maxTraceContent : Nat
  fromisoformat : String → Option τ

structure DbRunEventStore (τ : Type) where
  rows : List (EventRow τ)

namespace DbRunEventStore
variable {τ : Type} (config : DbEventConfig τ)

def init : DbRunEventStore τ := ⟨[]⟩

def truncateTrace (category : String) (content : JsonValue) (metadata : Option JsonDict) :
    JsonValue × JsonDict :=
  let text := match content.json with
    | .str s => s.toList
    | j => j.dumps
  if category = "trace" ∧ config.maxTraceContent < utf8Length text then
    (⟨.str (String.ofList (truncateUtf8 config.maxTraceContent text)), .str _⟩,
      ((metadata.getD .empty).set "content_truncated" ⟨.bool true, .bool _⟩).set
        "original_byte_length" ⟨.int (utf8Length text), .int _⟩)
  else (content, metadata.getD .empty)

def contentToDb (content : JsonValue) (metadata : JsonDict) : String × JsonDict :=
  match content.json with
  | .str s => (s, metadata)
  | j =>
    let metadata := metadata.set "content_is_json" ⟨.bool true, .bool _⟩
    (String.ofList j.dumps, match j with
      | .obj _ => metadata.set "content_is_dict" ⟨.bool true, .bool _⟩
      | _ => metadata)

/-- The row of an event, where `fromisoformat` does not raise. -/
def eventRow (args : EventArgs) (now : String) (userId : Option String) (seq : Int) :
    Except DbEventFault (EventRow τ) :=
  let truncated := truncateTrace config args.category args.content args.metadata
  let stored := contentToDb truncated.1 truncated.2
  match config.fromisoformat (createdAtOr args.createdAt now) with
  | none => .error (.invalidIsoFormat (createdAtOr args.createdAt now))
  | some createdAt => .ok
    { threadId := args.threadId, runId := args.runId, userId := userId,
      eventType := args.eventType, category := args.category, content := stored.1,
      eventMetadata := stored.2, seq := seq, createdAt := createdAt }

/-- `max_seq or 0`. -/
def maxSeqForThread (s : DbRunEventStore τ) (threadId : String) : Int :=
  (((s.rows.filter fun r => r.threadId = threadId).map EventRow.seq).max?).getD 0

/-- A transaction that raises leaves the table as it was. -/
def put (s : DbRunEventStore τ) (args : EventArgs) (now : String) (userId : Option String) :
    Except DbEventFault (EventRow τ) × DbRunEventStore τ :=
  match eventRow config args now userId (s.maxSeqForThread args.threadId + 1) with
  | .error e => (.error e, s)
  | .ok row => (.ok row, ⟨s.rows ++ [row]⟩)

/-- The rows of a batch, numbered from `seq + 1` on. -/
def batchRows (userId : Option String) :
    Int → List (EventArgs × String) → Except DbEventFault (List (EventRow τ))
  | _, [] => .ok []
  | seq, ev :: events => do
    let row ← eventRow config ev.1 ev.2 userId (seq + 1)
    let rows ← batchRows userId (seq + 1) events
    return row :: rows

def putBatch (s : DbRunEventStore τ) (events : List (EventArgs × String))
    (userId : Option String) : Except DbEventFault (List (EventRow τ)) × DbRunEventStore τ :=
  match events with
  | [] => (.ok [], s)
  | ev :: rest =>
    if rest.all fun e => e.1.threadId = ev.1.threadId then
      match batchRows config userId (s.maxSeqForThread ev.1.threadId) (ev :: rest) with
      | .error e => (.error e, s)
      | .ok rows => (.ok rows, ⟨s.rows ++ rows⟩)
    else (.error (.mixedThreads ((ev :: rest).map fun e => e.1.threadId).dedup), s)

/-- The rows `delete_by_run` selects, of one user where there is one to filter by. -/
def Selected (threadId runId : String) (userId : Option String) (r : EventRow τ) : Prop :=
  r.threadId = threadId ∧ r.runId = runId ∧ (userId = none ∨ r.userId = userId)

instance (threadId runId : String) (userId : Option String) (r : EventRow τ) :
    Decidable (Selected threadId runId userId r) := inferInstanceAs (Decidable (_ ∧ _ ∧ _))

def deleteByRun (s : DbRunEventStore τ) (threadId runId : String) (userId : Option String) :
    Nat × DbRunEventStore τ :=
  ((s.rows.filter fun r => Selected threadId runId userId r).length,
    ⟨s.rows.filter fun r => ¬ Selected threadId runId userId r⟩)

end DbRunEventStore

end Database

end DeerFlow.Runtime
