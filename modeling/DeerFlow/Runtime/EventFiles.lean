import DeerFlow.Lib.Except
import DeerFlow.Lib.JsonRoundTrip
import DeerFlow.Runtime.AuthorizationContext

/-! The JSONL event store. The events of a run are the lines of one file, each a
JSON object. The sequence counters live in the process and are filled again from
the files when a process first writes to a thread. -/

namespace DeerFlow.Runtime

inductive EventFault where
  /-- `Invalid {label}: must be alphanumeric/dash/underscore, got {value!r}`. -/
  | invalidId (label value : String)
  | attributeError
  | typeError
  deriving DecidableEq

/-- JSON data as Python holds it. -/
structure JsonValue where
  json : Json
  unique : json.Unique

structure JsonDict where
  items : List (String × Json)
  unique : (Json.obj items).Unique

def JsonDict.empty : JsonDict := ⟨[], .obj List.nodup_nil (fun _ h => by cases h)⟩

/-- The keyword arguments of `put`. -/
structure EventArgs where
  threadId : String
  runId : String
  eventType : String
  category : String
  content : JsonValue
  metadata : Option JsonDict
  createdAt : Option String

structure EventRecord where
  threadId : String
  runId : String
  eventType : String
  category : String
  content : JsonValue
  metadata : JsonDict
  seq : Int
  createdAt : String

/-- `created_at or datetime.now(UTC).isoformat()`. -/
def createdAtOr (createdAt : Option String) (now : String) : String :=
  if createdAt.getD "" = "" then now else createdAt.getD ""

def EventArgs.record (args : EventArgs) (seq : Int) (now : String) : EventRecord where
  threadId := args.threadId
  runId := args.runId
  eventType := args.eventType
  category := args.category
  content := args.content
  metadata := args.metadata.getD .empty
  seq := seq
  createdAt := createdAtOr args.createdAt now

def EventRecord.json (r : EventRecord) : Json :=
  .obj [("thread_id", .str r.threadId), ("run_id", .str r.runId), ("event_type", .str r.eventType),
    ("category", .str r.category), ("content", r.content.json), ("metadata", .obj r.metadata.items),
    ("seq", .int r.seq), ("created_at", .str r.createdAt)]

section Ids

def isIdChar (c : Char) : Bool := c.isAlphanum || c = '_' || c = '-'

/-- `^[A-Za-z0-9_\-]+$`, whose `$` also matches before a newline at the end. -/
def safeIdPattern (value : Text) : Bool :=
  let body := if value.getLast? = some '\n' then value.dropLast else value
  body ≠ [] && body.all isIdChar

def ValidId (value : String) : Prop := safeIdPattern value.toList = true

instance (value : String) : Decidable (ValidId value) := inferInstanceAs (Decidable (_ = true))

def validateId (label value : String) : Except EventFault Unit :=
  if ValidId value then .ok () else .error (.invalidId label value)

end Ids

/-- `record.get("seq", 0)`. Only ints stand there. -/
def getSeq : Json → Except EventFault Int
  | .obj items =>
    match (items.find? fun x => x.1 = "seq").map Prod.snd with
    | none => .ok 0
    | some (.int n) => .ok n
    | some _ => .error .typeError
  | _ => .error .attributeError

structure RunFile where
  threadId : String
  runId : String
  text : Text

def RunFile.path (f : RunFile) : String × String := (f.threadId, f.runId)

/-- `f.read_text().strip().splitlines()`. -/
def fileLines (text : Text) : List Text :=
  splitlines (strip (String.ofList (universalNewlines text))).toList

/-- `events.sort(key=lambda e: e.get("seq", 0))`. -/
def sortBySeq (events : List Json) : Except EventFault (List Json) := do
  let keyed ← events.mapM fun e => (getSeq e).map fun n => (n, e)
  return (keyed.insertionSort fun a b => a.1 ≤ b.1).map Prod.snd

/-- `events[:limit]`. -/
def upTo {α : Type*} (limit : Int) (events : List α) : List α :=
  if 0 ≤ limit then events.take limit.toNat else events.take (events.length - limit.natAbs)

structure JsonlRunEventStore where
  files : Table RunFile.path
  seqCounters : Dict Int

namespace JsonlRunEventStore

def init : JsonlRunEventStore := ⟨.empty, []⟩

/-- The counter after one more line, if it parses. -/
def maxSeqLine (maxSeq : Int) (line : Text) : Except EventFault Int :=
  match Json.loads line with
  | none => .ok maxSeq
  | some record => (getSeq record).map (max maxSeq)

def computeMaxSeq (s : JsonlRunEventStore) (threadId : String) : Except EventFault Int := do
  validateId "thread_id" threadId
  ((s.files.rows.filter fun f => f.threadId = threadId).flatMap fun f => fileLines f.text).foldlM
    maxSeqLine 0

def ensureSeqLoaded (s : JsonlRunEventStore) (threadId : String) :
    Except EventFault JsonlRunEventStore :=
  if s.seqCounters.contains threadId then .ok s
  else (s.computeMaxSeq threadId).map fun n =>
    { s with seqCounters := s.seqCounters.set threadId n }

def nextSeq (s : JsonlRunEventStore) (threadId : String) : Int × JsonlRunEventStore :=
  let n := (s.seqCounters.get threadId).getD 0 + 1
  (n, { s with seqCounters := s.seqCounters.set threadId n })

def runFile (threadId runId : String) : Except EventFault (String × String) := do
  validateId "run_id" runId
  validateId "thread_id" threadId
  return (threadId, runId)

def textAt (s : JsonlRunEventStore) (path : String × String) : Text :=
  (s.files.get path).elim [] RunFile.text

def writeRecord (s : JsonlRunEventStore) (record : EventRecord) :
    Except EventFault JsonlRunEventStore := do
  let path ← runFile record.threadId record.runId
  return { s with
    files := s.files.put ⟨path.1, path.2, s.textAt path ++ (record.json.dumps ++ ['\n'])⟩ }

def readRunEvents (s : JsonlRunEventStore) (threadId runId : String) :
    Except EventFault (List Json) := do
  let path ← runFile threadId runId
  match s.files.get path with
  | none => return []
  | some f => sortBySeq ((fileLines f.text).filterMap fun line =>
      if line = [] then none else Json.loads line)

/-- A number is taken before the record is written, and stays taken if that fails. -/
def put (s : JsonlRunEventStore) (args : EventArgs) (now : String) :
    Except EventFault EventRecord × JsonlRunEventStore :=
  match s.ensureSeqLoaded args.threadId with
  | .error e => (.error e, s)
  | .ok s =>
    let (seq, s) := s.nextSeq args.threadId
    let record := args.record seq now
    match s.writeRecord record with
    | .error e => (.error e, s)
    | .ok s => (.ok record, s)

def putBatch (s : JsonlRunEventStore) :
    List (EventArgs × String) → Except EventFault (List EventRecord) × JsonlRunEventStore
  | [] => (.ok [], s)
  | ev :: events =>
    match s.put ev.1 ev.2 with
    | (.error e, s) => (.error e, s)
    | (.ok record, s) =>
      match s.putBatch events with
      | (.error e, s) => (.error e, s)
      | (.ok results, s) => (.ok (record :: results), s)

def listEvents (s : JsonlRunEventStore) (threadId runId : String) (limit : Int) :
    Except EventFault (List Json) :=
  (s.readRunEvents threadId runId).map (upTo limit)

def deleteByRun (s : JsonlRunEventStore) (threadId runId : String) :
    Except EventFault Nat × JsonlRunEventStore :=
  match s.readRunEvents threadId runId with
  | .error e => (.error e, s)
  | .ok events => (.ok events.length, { s with files := s.files.erase (threadId, runId) })

/-- A fresh store over the same directory. -/
def restart (s : JsonlRunEventStore) : JsonlRunEventStore := { s with seqCounters := [] }

end JsonlRunEventStore

end DeerFlow.Runtime
