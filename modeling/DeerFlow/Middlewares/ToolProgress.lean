import DeerFlow.Lib.KeyedTable
import DeerFlow.Lib.Transition

/-! The tool stagnation guard: a phase for each tool of each tracked thread, moved by the results
that come back, and the hints that wait for the next model call. A step is one critical section of
the guard's lock. -/

namespace DeerFlow.Middlewares
open Transition

inductive ToolResultStatus where
  | success
  | error
  | partialSuccess
  deriving DecidableEq

inductive NextAction where
  | continue
  | rewriteQuery
  | tryAlternative
  | summarize
  | stop
  deriving DecidableEq

/-- The fields of `ToolResultMeta` that the guard reads. -/
structure ToolResultMeta where
  status : ToolResultStatus
  errorType : Option String
  recoverableByModel : Bool
  recommendedNextAction : NextAction
  deriving DecidableEq

abbrev WordSet := Finset String

inductive ToolPhase where
  | active
  | warned
  | blocked
  deriving DecidableEq

structure ToolPhaseState where
  phase : ToolPhase
  consecutiveProblems : Nat
  blockReason : Option String
  recentWordSets : List WordSet
  deriving DecidableEq

def ToolPhaseState.init : ToolPhaseState := ⟨.active, 0, none, []⟩

/-- `xs[-3:]`. -/
def lastThree {α : Type} (xs : List α) : List α := xs.drop (xs.length - 3)

def ToolResultStatus.name : ToolResultStatus → String
  | success => "success"
  | error => "error"
  | partialSuccess => "partial_success"

namespace ToolResultMeta

/-- `meta.error_type or ""`. -/
def errorText (m : ToolResultMeta) : String := m.errorType.getD ""

def formatHint (m : ToolResultMeta) : String :=
  let kind := if m.errorText = "" then m.status.name else m.errorText
  let base :=
    if kind = "no_results" then "[PROGRESS HINT] Your search returned no results."
    else if kind = "not_found" then "[PROGRESS HINT] The resource was not found repeatedly."
    else if kind = "rate_limited" then "[PROGRESS HINT] The tool is being rate-limited."
    else if kind = "transient" then
      "[PROGRESS HINT] The tool encountered repeated transient failures."
    else if kind = "partial_success" then
      "[PROGRESS HINT] The tool has returned incomplete results multiple times."
    else if kind = "success" then "[PROGRESS HINT] The tool is returning duplicate results."
    else "[PROGRESS HINT] The tool is not producing new information."
  let suffix := match m.recommendedNextAction with
    | .rewriteQuery =>
      "Try rephrasing your search query with different keywords or approach."
    | .tryAlternative => "Consider using a different tool or strategy."
    | .summarize => "Consider summarizing your current findings and moving forward."
    | .stop => "Do not retry this operation — it is not recoverable."
    | .continue => "Try rephrasing your query or using a different search term."
  base ++ " " ++ suffix

def blockReason (m : ToolResultMeta) : String :=
  if m.errorText = "no_results" then
    "Repeated no-results — rewrite your query or try a different tool."
  else if m.errorText = "not_found" then
    "Repeated not-found — rewrite your query or try a different resource."
  else if m.errorText = "rate_limited" then
    "Repeated rate-limiting — summarize current findings and proceed."
  else if m.errorText = "transient" then
    "Repeated transient failures — try a different approach."
  else if m.errorText = "auth" then "Authentication failure — this tool cannot be used."
  else if m.errorText = "config" then "Tool is not configured — this tool cannot be used."
  else if m.errorText = "internal" then
    "Repeated internal errors — this tool is unavailable."
  else
    "Tool has not produced new information after multiple attempts — summarize and move on."

end ToolResultMeta

/-- The bounds are those that `ToolProgressConfig` validates. -/
structure ToolProgressConfig where
  stagnationThreshold : Nat
  stagnationThreshold_pos : 1 ≤ stagnationThreshold
  warnEscalationCount : Nat
  warnEscalationCount_pos : 1 ≤ warnEscalationCount
  injectAssessment : Bool
  jaccardThreshold : Rat
  minWords : Int
  exemptTools : List String
  maxTrackedThreads : Nat
  maxTrackedThreads_pos : 1 ≤ maxTrackedThreads

/-- A result that the guard reads: its meta and its content, where that is a text. -/
structure ToolOutcome where
  result : ToolResultMeta
  content : String
  deriving DecidableEq

/-- A result without a readable meta, or a command, is passed through. -/
inductive ToolReturn where
  | outcome (o : ToolOutcome)
  | other
  deriving DecidableEq

structure ProgressRuntime where
  threadId? : Option String
  runId? : Option String
  deriving DecidableEq

namespace ProgressRuntime

def threadId (r : ProgressRuntime) : String :=
  (r.threadId?.filter fun id => id ≠ "").getD "default"

def runId (r : ProgressRuntime) : String := (r.runId?.filter fun id => id ≠ "").getD "default"

def pendingKey (r : ProgressRuntime) : String × String := (r.threadId, r.runId)

end ProgressRuntime

structure ToolEntry where
  name : String
  state : ToolPhaseState
  deriving DecidableEq

def ToolEntry.reset (e : ToolEntry) : ToolEntry :=
  { e with state := { e.state with
      phase := .active, consecutiveProblems := 0, blockReason := none, recentWordSets := [] } }

theorem ToolEntry.reset_name (e : ToolEntry) : e.reset.name = e.name := rfl

structure TrackedThread where
  id : String
  tools : Table ToolEntry.name

namespace TrackedThread

def setTool (tool : String) (state : ToolPhaseState) (t : TrackedThread) : TrackedThread :=
  { t with tools := t.tools.put ⟨tool, state⟩ }

def reset (t : TrackedThread) : TrackedThread :=
  { t with tools := t.tools.mapRows ToolEntry.reset ToolEntry.reset_name }

theorem setTool_id (tool : String) (state : ToolPhaseState) (t : TrackedThread) :
    (t.setTool tool state).id = t.id := rfl

theorem reset_id (t : TrackedThread) : t.reset.id = t.id := rfl

end TrackedThread

structure PendingHints where
  key : String × String
  hints : List String
  deriving DecidableEq

def maxPendingPerRun : Nat := 3

def addHint (queue : List String) (text : String) : List String :=
  if queue.length < maxPendingPerRun then queue ++ [text] else queue

inductive ProgressPc where
  | handling
  | queueing (hint : String)
  | returned
  | raised
  | intercepted (reason : String)
  deriving DecidableEq

structure ProgressCall where
  tool : String
  runtime : Option ProgressRuntime
  /-- The phase that the tool had on the call's thread when the call began. -/
  phaseAtStart : ToolPhase
  pc : ProgressPc
  deriving DecidableEq

/-- What has happened to the threads; no step reads it. -/
inductive ProgressRecord where
  | outcome (thread tool : String) (o : ToolOutcome)
  | beforeAgent (thread : String)
  | evicted (thread : String)
  deriving DecidableEq

structure ProgressState where
  /-- In the order of their last use. -/
  threads : Table TrackedThread.id
  pending : Table PendingHints.key
  calls : List ProgressCall
  /-- The newest record stands first. -/
  log : List ProgressRecord

inductive ProgressEvent where
  | start (tool : String) (runtime : Option ProgressRuntime)
  | finish (i : Nat) (result : ToolReturn)
  | fail (i : Nat)
  | queue (i : Nat)
  | drain (runtime : ProgressRuntime)
  | clearStale (runtime : ProgressRuntime)
  | reset (runtime : ProgressRuntime)
  deriving DecidableEq

namespace ToolProgressConfig
variable (config : ToolProgressConfig) (wordSet : String → WordSet)

def isNearDuplicate (current : WordSet) (recent : List WordSet) : Bool :=
  decide (config.minWords ≤ (current.card : Int)) &&
    (lastThree recent).any fun previous =>
      decide (config.minWords ≤ (previous.card : Int)) &&
        decide ((current ∪ previous).card ≠ 0) &&
          decide (config.jaccardThreshold * (current ∪ previous).card ≤ (current ∩ previous).card)

def isProblem (recent : List WordSet) (o : ToolOutcome) : Bool :=
  match o.result.status with
  | .error | .partialSuccess => true
  | .success => config.isNearDuplicate (wordSet o.content) recent

/-- The new state, and the hint that goes with it. -/
def assessAndTransition (state : ToolPhaseState) (o : ToolOutcome) :
    ToolPhaseState × Option String :=
  if state.phase = .blocked then (state, none)
  else
    let newCount := state.consecutiveProblems + 1
    if o.result.recoverableByModel = false ∧ o.result.recommendedNextAction = .stop then
      ({ state with
        phase := .blocked, consecutiveProblems := newCount
        blockReason := some o.result.blockReason }, none)
    else
      let words := if o.result.status = .success then wordSet o.content else ∅
      if config.isProblem wordSet state.recentWordSets o = false then
        ({ state with
          consecutiveProblems := 0, phase := .active
          recentWordSets := lastThree (state.recentWordSets ++ [words]) }, none)
      else if config.stagnationThreshold + config.warnEscalationCount ≤ newCount then
        if o.result.recoverableByModel then
          ({ state with consecutiveProblems := newCount, phase := .warned },
            some o.result.formatHint)
        else
          ({ state with
            consecutiveProblems := newCount, phase := .blocked
            blockReason := some o.result.blockReason }, none)
      else if config.stagnationThreshold ≤ newCount then
        ({ state with consecutiveProblems := newCount, phase := .warned },
          some o.result.formatHint)
      else ({ state with consecutiveProblems := newCount }, none)

end ToolProgressConfig

namespace ProgressState

def init : ProgressState := ⟨.empty, .empty, [], []⟩

def tracked (s : ProgressState) (thread : String) : Bool := (s.threads.get thread).isSome

def toolState? (s : ProgressState) (thread tool : String) : Option ToolPhaseState :=
  (s.threads.get thread).bind fun t => (t.tools.get tool).map (·.state)

/-- The state of a tool, the default one where none is stored. -/
def toolState (s : ProgressState) (thread tool : String) : ToolPhaseState :=
  (s.toolState? thread tool).getD .init

def blockReason? (s : ProgressState) (runtime : ProgressRuntime) (tool : String) : Option String :=
  (s.toolState? runtime.threadId tool).bind fun state =>
    if state.phase = .blocked then state.blockReason else none

section Steps
variable (config : ToolProgressConfig) (wordSet : String → WordSet)

/-- How many threads are too many for the LRU. -/
def excess (threads : Table TrackedThread.id) : Nat :=
  threads.rows.length - config.maxTrackedThreads

def evicted (threads : Table TrackedThread.id) : List String :=
  (threads.rows.take (excess config threads)).map (·.id)

/-- The part of `_get_state` that begins to track a thread: the least recently used ones go, and
with them their hints. -/
def enroll (s : ProgressState) (thread : String) : ProgressState :=
  let threads := s.threads.put ⟨thread, .empty⟩
  { s with
    threads := threads.dropOldest (excess config threads)
    pending := s.pending.keep fun p => p.key.1 ∉ evicted config threads
    log := (evicted config threads).map .evicted ++ s.log }

def touch (s : ProgressState) (thread : String) : ProgressState :=
  let s := if s.tracked thread then s else s.enroll config thread
  { s with threads := s.threads.moveToEnd thread }

def setToolState (s : ProgressState) (thread tool : String) (state : ToolPhaseState) :
    ProgressState :=
  { s with threads := s.threads.update thread (.setTool tool state) }

/-- The critical section of `_update_state_from_result`. -/
def record (s : ProgressState) (thread tool : String) (o : ToolOutcome) :
    ProgressState × Option String :=
  let s := s.touch config thread
  let (state, hint) := config.assessAndTransition wordSet (s.toolState thread tool) o
  (s.setToolState thread tool state, hint)

def setCall (s : ProgressState) (i : Nat) (pc : ProgressPc) : ProgressState :=
  { s with calls := s.calls.modify i fun c => { c with pc := pc } }

/-- Whether the guard watches the tool at all. -/
def watches (tool : String) : Bool := tool ≠ "" ∧ tool ∉ config.exemptTools

def start (s : ProgressState) (tool : String) (runtime : Option ProgressRuntime) : ProgressState :=
  let phase := (runtime.map fun r => (s.toolState r.threadId tool).phase).getD .active
  let reason := if watches config tool then runtime.bind fun r => s.blockReason? r tool else none
  let pc := match reason.filter fun text => text ≠ "" with
    | some text => .intercepted ("[TOOL_BLOCKED] " ++ text)
    | none => .handling
  { s with calls := s.calls ++ [⟨tool, runtime, phase, pc⟩] }

def finish (s : ProgressState) (i : Nat) (c : ProgressCall) : ToolReturn → ProgressState
  | .other => s.setCall i .returned
  | .outcome o =>
    match c.runtime with
    | none => s.setCall i .returned
    | some runtime =>
      if watches config c.tool then
        let (s, hint) := s.record config wordSet runtime.threadId c.tool o
        match hint with
        | some text => s.setCall i (if config.injectAssessment then .queueing text else .returned)
        | none => s.setCall i .returned
      else s.setCall i .returned

def queueAssessment (s : ProgressState) (runtime : ProgressRuntime) (text : String) :
    ProgressState :=
  if s.tracked runtime.threadId then
    let queue := ((s.pending.get runtime.pendingKey).map (·.hints)).getD []
    { s with pending := s.pending.put ⟨runtime.pendingKey, addHint queue text⟩ }
  else s

def clearStalePending (s : ProgressState) (runtime : ProgressRuntime) : ProgressState :=
  { s with pending := s.pending.keep fun p =>
      ¬ (p.key.1 = runtime.threadId ∧ p.key.2 ≠ runtime.runId) }

def resetRunStates (s : ProgressState) (runtime : ProgressRuntime) : ProgressState :=
  { s with threads := s.threads.update runtime.threadId .reset }

def step (s : ProgressState) : ProgressEvent → Option ProgressState
  | .start tool runtime => some (s.start config tool runtime)
  | .finish i result =>
    s.calls[i]?.bind fun c =>
      if c.pc = .handling then some (s.finish config wordSet i c result) else none
  | .fail i =>
    s.calls[i]?.bind fun c => if c.pc = .handling then some (s.setCall i .raised) else none
  | .queue i =>
    s.calls[i]?.bind fun c =>
      match c.pc, c.runtime with
      | .queueing text, some runtime =>
        some ((s.queueAssessment runtime text).setCall i .returned)
      | _, _ => none
  | .drain runtime => some { s with pending := s.pending.erase runtime.pendingKey }
  | .clearStale runtime => some (s.clearStalePending runtime)
  | .reset runtime => some (s.resetRunStates runtime)

end Steps

/-- The result that the end of a call brings for its tool, if the guard watches it. -/
def outcomes (config : ToolProgressConfig) (c : ProgressCall) : ToolReturn → List ProgressRecord
  | .other => []
  | .outcome o =>
    match c.runtime with
    | none => []
    | some runtime =>
      if watches config c.tool then [.outcome runtime.threadId c.tool o] else []

/-- What an event says of the threads. -/
def records (config : ToolProgressConfig) (s : ProgressState) :
    ProgressEvent → List ProgressRecord
  | .finish i result => (s.calls[i]?).toList.flatMap fun c => outcomes config c result
  | .reset runtime => [.beforeAgent runtime.threadId]
  | .start _ _ | .fail _ | .queue _ | .drain _ | .clearStale _ => []

def logged (s : ProgressState) (records : List ProgressRecord) : ProgressState :=
  { s with log := records ++ s.log }

end ProgressState

def toolProgress (config : ToolProgressConfig) (wordSet : String → WordSet) :
    System ProgressState ProgressEvent :=
  System.ofFn .init fun s event =>
    (s.step config wordSet event).map fun t => t.logged (s.records config event)

end DeerFlow.Middlewares
