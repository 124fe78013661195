import DeerFlow.Lib.TextLines
import DeerFlow.Lib.Transition
import DeerFlow.Runtime.Value

/-! The ledger of delegated tasks: how the entries are read off the transcript,
which of them are reported, and the reducer that merges them. -/

namespace DeerFlow.Middlewares
open Transition

inductive DelegationStatus where
  | inProgress
  | completed
  | failed
  | cancelled
  | timedOut
  | pollingTimedOut
  deriving DecidableEq

/-- `SUBAGENT_STATUS_VALUES`. -/
def DelegationStatus.read? : String → Option DelegationStatus
  | "completed" => some .completed
  | "failed" => some .failed
  | "cancelled" => some .cancelled
  | "timed_out" => some .timedOut
  | "polling_timed_out" => some .pollingTimedOut
  | _ => none

def DelegationStatus.isTerminal (s : DelegationStatus) : Bool := s ≠ .inProgress

/-- `_STATUS_ONLY_RESULT_BRIEFS`. -/
def DelegationStatus.onlyBrief? : DelegationStatus → Option Text
  | .failed => some "Task failed.".toList
  | .cancelled => some "Task cancelled by user.".toList
  | .timedOut => some "Task timed out.".toList
  | .pollingTimedOut => some "Task polling timed out.".toList
  | .inProgress | .completed => none

inductive StopReason where
  | tokenCapped
  | turnCapped
  | loopCapped
  deriving DecidableEq

def StopReason.read? : String → Option StopReason
  | "token_capped" => some .tokenCapped
  | "turn_capped" => some .turnCapped
  | "loop_capped" => some .loopCapped
  | _ => none

/-- `_LEGACY_STATUS_NORMALIZATION`. -/
def legacyStopReason? : Value → Option StopReason
  | .str "max_turns_reached" => some .turnCapped
  | _ => none

def omittedMarker : Text := "\n...\n".toList

def boundText (cap : Nat) (text : Text) : Text :=
  let head := cap * 2 / 3
  if text.length ≤ cap then text
  else if cap ≤ omittedMarker.length then text.take cap
  else if cap - head ≤ omittedMarker.length then text.take cap
  else text.take head ++ omittedMarker ++ recent (cap - head - omittedMarker.length) text

def resultBriefCap : Nat := 2000

def descriptionCap : Nat := 200

def metadataTextMaxChars : Nat := 2000

/-- `str.strip()`. -/
def stripText (text : Text) : Text :=
  ((text.dropWhile isSpace).reverse.dropWhile isSpace).reverse

def boundMetadataText (text : Text) : Text := boundText metadataTextMaxChars (stripText text)

/-- `_SHA256_HEX_RE.fullmatch`. -/
def isSha256Hex (text : Text) : Bool :=
  text.length = 64 && text.all fun c => c.isDigit || ('a' ≤ c && c ≤ 'f')

structure SubagentResult where
  status : DelegationStatus
  stopReason : Option StopReason
  resultBrief : Option Text
  resultSha256 : Option Text
  error : Option Text
  deriving DecidableEq

def textIn? (kwargs : Dict Value) (key : String) : Option Text :=
  match kwargs.get key with
  | some (.str s) => if stripText s.toList ≠ [] then some s.toList else none
  | _ => none

def resultStatus? (kwargs : Dict Value) : Option DelegationStatus :=
  let raw := (kwargs.get "subagent_status").getD .none
  if (legacyStopReason? raw).isSome then
    some (if (textIn? kwargs "subagent_result_brief").isSome then .completed else .failed)
  else match raw with
    | .str s => DelegationStatus.read? s
    | _ => none

def resultStopReason? (kwargs : Dict Value) : Option StopReason :=
  let explicit := match kwargs.get "subagent_stop_reason" with
    | some (.str s) => StopReason.read? s
    | _ => none
  explicit.or (legacyStopReason? ((kwargs.get "subagent_status").getD .none))

def readSubagentResultMetadata (kwargs : Dict Value) : Option SubagentResult := do
  let status ← resultStatus? kwargs
  let brief := if status = .completed then textIn? kwargs "subagent_result_brief" else none
  let hash := match kwargs.get "subagent_result_sha256" with
    | some (.str s) => if isSha256Hex s.toList then some s.toList else none
    | _ => none
  some {
    status := status
    stopReason := resultStopReason? kwargs
    resultBrief := brief.map boundMetadataText
    resultSha256 := brief.bind fun _ => hash
    error := if status = .completed then none
      else (textIn? kwargs "subagent_error").map boundMetadataText }

structure DelegationEntry where
  id : Text
  description : Text
  subagentType : Text
  status : DelegationStatus
  resultBrief : Option Text
  resultSha256 : Option Text
  resultRef : Option Text
  stopReason : Option StopReason
  createdAt : String
  deriving DecidableEq

abbrev Delegations := Table DelegationEntry.id

/-- Messages as far as the ledger reads them. Summarization keeps some of the others. -/
inductive LedgerMessage where
  | ai (toolCalls : List (Dict Value))
  | tool (id : Text) (toolCallId : Text) (additionalKwargs : Dict Value)
  | other (rescued : Bool)
  deriving DecidableEq

/-- What the ledger takes from Python. -/
structure LedgerEnv where
  str : Value → Text
  sha256Hex : Text → Text

section Extract
variable (env : LedgerEnv)

def toolCallName (call : Dict Value) : String :=
  match call.get "name", call.get "function" with
  | some (.str name), _ => name
  | _, some (.dict function) => match Dict.get function "name" with
    | some (.str name) => name
    | _ => ""
  | _, _ => ""

def toolCallId? (call : Dict Value) : Option Text :=
  let id := (call.get "id").getD .none
  if id.truthy then some (env.str id) else none

def toolCallArgs (call : Dict Value) : Dict Value :=
  match call.get "args" with
  | some (.dict args) => args
  | _ => []

/-- `args.get(key) or ""`. -/
def argText (args : Dict Value) (key : String) : Option Text :=
  let value := (args.get key).getD .none
  if value.truthy then some (env.str value) else none

def taskDelegation? (now : String) (call : Dict Value) : Option DelegationEntry :=
  if toolCallName call = "task" then
    let args := toolCallArgs call
    (toolCallId? env call).map fun id => {
      id := id
      description := (((argText env args "description").or (argText env args "prompt")).getD []).take
        descriptionCap
      subagentType := (argText env args "subagent_type").getD []
      status := .inProgress
      resultBrief := none
      resultSha256 := none
      resultRef := none
      stopReason := none
      createdAt := now }
  else none

namespace LedgerMessage

def taskDelegations (now : String) : LedgerMessage → List DelegationEntry
  | .ai toolCalls => toolCalls.filterMap (taskDelegation? env now)
  | .tool .. | .other _ => []

def taskIds (m : LedgerMessage) : List Text := (m.taskDelegations env "").map (·.id)

def toolCallId? : LedgerMessage → Option Text
  | .tool _ toolCallId _ => some toolCallId
  | .ai _ | .other _ => none

end LedgerMessage

/-- The update of an entry from the result its tool message carries. -/
def DelegationEntry.resolve (e : DelegationEntry) (messageId : Text) (r : SubagentResult) :
    DelegationEntry :=
  let e := { e with status := r.status, stopReason := r.stopReason.or e.stopReason }
  match (r.resultBrief.or r.error).or r.status.onlyBrief? with
  | none => e
  | some text => { e with
    resultBrief := some (boundText resultBriefCap text)
    resultSha256 := some (r.resultSha256.getD (env.sha256Hex text))
    resultRef := some (if messageId ≠ [] then messageId else e.id) }

@[simp]
theorem DelegationEntry.resolve_id (e : DelegationEntry) (messageId : Text) (r : SubagentResult) :
    (e.resolve env messageId r).id = e.id := by
  unfold resolve
  split <;> rfl

def resolveDelegation (entries : Delegations) : LedgerMessage → Delegations
  | .tool id toolCallId kwargs =>
    match readSubagentResultMetadata kwargs with
    | none => entries
    | some r => entries.update toolCallId fun e => e.resolve env id r
  | .ai _ | .other _ => entries

def extractDelegations (now : String) (messages : List LedgerMessage) : List DelegationEntry :=
  let entries : Delegations := .putAll .empty (messages.flatMap (·.taskDelegations env now))
  (messages.foldl (resolveDelegation env) entries).rows

end Extract

def delegationLedgerMaxEntries : Nat := 50

section Capture

def retainedDelegationWindow (delegations existing : List DelegationEntry) :
    List DelegationEntry :=
  match existing with
  | [] => delegations
  | earliest :: rest =>
    if (earliest :: rest).length < delegationLedgerMaxEntries then delegations
    else match delegations.findIdx? (·.id = earliest.id) with
      | some i => delegations.drop i
      | none => recent delegationLedgerMaxEntries delegations

/-- The fields in which two versions of an entry can differ. -/
def DelegationEntry.stableFields (e : DelegationEntry) :
    Text × Text × DelegationStatus × Option Text × Option Text × Option Text :=
  (e.description, e.subagentType, e.status, e.resultBrief, e.resultSha256, e.resultRef)

def isChangedDelegation (existing : Delegations) (entry : DelegationEntry) : Bool :=
  match existing.get entry.id with
  | none => true
  | some previous =>
    !(previous.status.isTerminal && !entry.status.isTerminal) &&
      previous.stableFields ≠ entry.stableFields

def filterChangedDelegations (delegations : List DelegationEntry) (existing : Delegations) :
    List DelegationEntry :=
  (retainedDelegationWindow delegations existing.rows).filter (isChangedDelegation existing)

def mergeDelegation (merged : Delegations) (entry : DelegationEntry) : Delegations :=
  match merged.get entry.id with
  | none => merged.put entry
  | some previous =>
    if previous.status.isTerminal && !entry.status.isTerminal then merged
    else merged.put
      (if previous.createdAt ≠ "" then { entry with createdAt := previous.createdAt } else entry)

def mergeDelegations (existing : Delegations) (new : List DelegationEntry) : Delegations :=
  if new = [] then existing
  else
    let merged := (existing.rows ++ new).foldl mergeDelegation .empty
    merged.dropOldest (merged.rows.length - delegationLedgerMaxEntries)

def captureDelegations (env : LedgerEnv) (now : String) (messages : List LedgerMessage)
    (ledger : Delegations) : Option (List DelegationEntry) :=
  let delegations := filterChangedDelegations (extractDelegations env now messages) ledger
  if delegations ≠ [] then some delegations else none

end Capture

/-- A run of agent steps over one transcript. `history` is what was ever appended, and `paired`
is `history` without the results whose call was no longer in the transcript. -/
structure LedgerState where
  messages : List LedgerMessage
  ledger : Delegations
  captured : Bool
  history : List LedgerMessage
  paired : List LedgerMessage

inductive LedgerEvent where
  | append (m : LedgerMessage)
  | capture (now : String)
  | compact (n : Nat)

namespace LedgerState

def init : LedgerState := ⟨[], .empty, false, [], []⟩

section Step
variable (env : LedgerEnv)

/-- The task calls of `m` have ids that nothing has mentioned yet. -/
def freshIds (s : LedgerState) (m : LedgerMessage) : Bool :=
  (m.taskIds env).Nodup &&
    (m.taskIds env).all fun id =>
      s.history.all fun h => id ∉ h.taskIds env && h.toolCallId? ≠ some id

/-- A result counts while the call it answers is in the transcript. -/
def answersVisible (s : LedgerState) (m : LedgerMessage) : Bool :=
  m.toolCallId?.all fun id => s.messages.any fun h => id ∈ h.taskIds env

def append (s : LedgerState) (m : LedgerMessage) : LedgerState :=
  { s with
    messages := s.messages ++ [m]
    captured := false
    history := s.history ++ [m]
    paired := if s.answersVisible env m then s.paired ++ [m] else s.paired }

def capture (s : LedgerState) (now : String) : LedgerState :=
  { s with
    ledger := mergeDelegations s.ledger
      ((captureDelegations env now s.messages s.ledger).getD [])
    captured := true }

/-- Summarization: a suffix stays, and the reminders before it. -/
def compact (s : LedgerState) (n : Nat) : LedgerState :=
  { s with messages := (s.messages.take n).filter (· = .other true) ++ s.messages.drop n }

def step (s : LedgerState) : LedgerEvent → Option LedgerState
  | .append m => if s.freshIds env m then some (s.append env m) else none
  | .capture now => some (s.capture env now)
  | .compact n => if s.captured then some (s.compact n) else none

end Step

end LedgerState

def durableContext (env : LedgerEnv) : System LedgerState LedgerEvent :=
  System.ofFn .init (LedgerState.step env)

end DeerFlow.Middlewares
