import DeerFlow.Middlewares.TokenBudget

/-! The loop detection of a model's tool calls: identical sets of calls in a sliding window,
and how often each tool was called. Both are looked at in one pass after each answer of the
model, for each thread on its own. The text of a stop is put into the message as the token
budget does it. -/

namespace DeerFlow.Middlewares
open Transition

structure LoopDetectionConfig where
  warnThreshold : Nat
  hardLimit : Nat
  windowSize : Nat
  maxTrackedThreads : Nat
  toolFreqWarn : Nat
  toolFreqHardLimit : Nat
  /-- For a tool's name, its own warning threshold and hard limit. -/
  toolFreqOverrides : Dict (Nat × Nat)
  warnThreshold_ge : 1 ≤ warnThreshold
  warn_le_hard : warnThreshold ≤ hardLimit
  windowSize_ge : 1 ≤ windowSize
  maxTrackedThreads_ge : 1 ≤ maxTrackedThreads
  toolFreqWarn_ge : 1 ≤ toolFreqWarn
  toolFreqWarn_le_hard : toolFreqWarn ≤ toolFreqHardLimit
  overrides_ge : ∀ o ∈ toolFreqOverrides, 1 ≤ o.2.1 ∧ o.2.1 ≤ o.2.2

/-- `tc.get("name", "")`, where a name that is no text is none. -/
def nameOfCall : Value → String
  | .dict call => match Dict.get call "name" with
    | some (.str name) => name
    | _ => ""
  | _ => ""

/-- What is tracked of one thread. -/
structure Loops where
  history : List String
  warned : List String
  toolFreq : Dict Nat
  toolFreqWarned : List String

/-- The message for the model and whether its calls are taken away. -/
inductive Verdict where
  | fine
  | warning (text : String)
  | hardStop (text : String)

def loopWarningMsg : String :=
  "[LOOP DETECTED] You are repeating the same tool calls. Stop calling tools and produce your " ++
    "final answer now. If you cannot complete the task, summarize what you accomplished so far."

def toolFreqWarningMsg (toolName : String) (count : Nat) : String :=
  "[LOOP DETECTED] You have called " ++ toolName ++ " " ++ toString count ++
    " times without producing a final answer. Stop calling tools and produce your final " ++
    "answer now. If you cannot complete the task, summarize what you accomplished so far."

def loopHardStopMsg : String :=
  "[FORCED STOP] Repeated tool calls exceeded the safety limit. Producing final answer with " ++
    "results collected so far."

def toolFreqHardStopMsg (toolName : String) (count : Nat) : String :=
  "[FORCED STOP] Tool " ++ toolName ++ " called " ++ toString count ++
    " times — exceeded the per-tool safety limit. Producing final answer with results " ++
    "collected so far."

section Hooks
variable (config : LoopDetectionConfig)

/-- The warning threshold and the hard limit of a tool. -/
def LoopDetectionConfig.effective (name : String) : Nat × Nat :=
  (config.toolFreqOverrides.get name).getD (config.toolFreqWarn, config.toolFreqHardLimit)

namespace Loops

def empty : Loops := ⟨[], [], [], []⟩

def calls (s : Loops) (name : String) : Nat := (s.toolFreq.get name).getD 0

def addCall (s : Loops) (name : String) : Loops :=
  { s with toolFreq := s.toolFreq.set name (s.calls name + 1) }

/-- The second layer: the names of the message's calls, one after the other. -/
def countCalls : List String → Loops → Loops × Verdict
  | [], s => (s, .fine)
  | name :: names, s =>
    if name = "" then countCalls names s
    else
      let s := s.addCall name
      let (warn, hard) := config.effective name
      if hard ≤ s.calls name then (s, .hardStop (toolFreqHardStopMsg name (s.calls name)))
      else if warn ≤ s.calls name ∧ name ∉ s.toolFreqWarned then
        ({ s with toolFreqWarned := s.toolFreqWarned ++ [name] },
          .warning (toolFreqWarningMsg name (s.calls name)))
      else countCalls names s

def remember (s : Loops) (callHash : String) : Loops :=
  let history := recent config.windowSize (s.history ++ [callHash])
  { s with history := history, warned := s.warned.filter (· ∈ history) }

/-- How often the window has this set of calls, with the message at hand. -/
def repeats (s : Loops) (callHash : String) : Nat :=
  (recent config.windowSize (s.history ++ [callHash])).count callHash

def track (s : Loops) (callHash : String) (names : List String) : Loops × Verdict :=
  let count := s.repeats config callHash
  let s := s.remember config callHash
  if config.hardLimit ≤ count then (s, .hardStop loopHardStopMsg)
  else if config.warnThreshold ≤ count ∧ callHash ∉ s.warned then
    ({ s with warned := s.warned ++ [callHash] }, .warning loopWarningMsg)
  else s.countCalls config names

end Loops

/-- What becomes of a message: a warning waits for the next model call, or the message is
replaced by one without calls. -/
inductive Applied where
  | nothing
  | queued (warning : String)
  | stopped (m : AiMessage)

def Applied.of (last : AiMessage) : Verdict → Applied
  | .fine => .nothing
  | .warning text => .queued text
  | .hardStop text => .stopped (RunBudget.hardStopMessage last text)

/-- Where nothing is tracked or touched, the last message is no answer with calls. -/
def lastCalls (messages : List BudgetMessage) : Option AiMessage :=
  match messages.getLast? with
  | some (.ai last) => if last.toolCalls = [] then none else some last
  | _ => none

/-- The threads with what is tracked of them, least recently used first. -/
def touch (tracked : Dict Loops) (thread : String) (loops : Loops) : Dict Loops :=
  if tracked.contains thread then tracked.pop thread ++ [(thread, loops)]
  else recent config.maxTrackedThreads (tracked ++ [(thread, loops)])

end Hooks

/-- One answer of the model: the names of its calls and what became of it. -/
structure LoopTurn where
  names : List String
  applied : Applied

/-- The middleware, with the answers of each thread since it is tracked. -/
structure LoopDetection where
  tracked : Dict Loops
  log : String → List LoopTurn

inductive LoopEvent where
  | afterModel (thread : String) (messages : List BudgetMessage)
  /-- Without a thread all are reset. -/
  | reset (thread : String)

namespace LoopDetection
variable (config : LoopDetectionConfig) (hashToolCalls : List Value → String)
  (s : LoopDetection)

def loopsOf (thread : String) : Loops := (s.tracked.get thread).getD .empty

/-- The answers that count for a thread. -/
def turnsOf (thread : String) : List LoopTurn :=
  if s.tracked.contains thread then s.log thread else []

def afterModel (thread : String) (last : AiMessage) : LoopDetection :=
  let names := last.toolCalls.map nameOfCall
  let (loops, verdict) := (s.loopsOf thread).track config (hashToolCalls last.toolCalls) names
  { tracked := touch config s.tracked thread loops
    log := Function.update s.log thread (s.turnsOf thread ++ [⟨names, .of last verdict⟩]) }

def step : LoopEvent → Option LoopDetection
  | .afterModel thread messages => some <| match lastCalls messages with
    | some last => s.afterModel config hashToolCalls thread last
    | none => s
  | .reset thread =>
    some { s with tracked := if thread = "" then [] else s.tracked.pop thread }

end LoopDetection

/-- The threads are interleaved in any way. -/
def loopDetection (config : LoopDetectionConfig) (hashToolCalls : List Value → String) :
    System LoopDetection LoopEvent :=
  .ofFn ⟨[], fun _ => []⟩ (LoopDetection.step config hashToolCalls)

end DeerFlow.Middlewares
