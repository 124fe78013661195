import DeerFlow.Lib.Transition
import DeerFlow.Runtime.Value

/-! The token budget of a run: what the middleware counts at each of its hooks, and the run around
it. A run builds its agent anew, so each of the middleware's dictionaries has at most the entry of
this run. -/

namespace DeerFlow.Middlewares
open Transition

structure TokenBudgetConfig where
  enabled : Bool
  maxTokens : Nat
  maxInputTokens : Option Nat
  maxOutputTokens : Option Nat
  warnThreshold : Rat
  hardStopThreshold : Rat
  maxTokens_ge : 1000 ≤ maxTokens
  maxInputTokens_ge : ∀ n ∈ maxInputTokens, 1 ≤ n
  maxOutputTokens_ge : ∀ n ∈ maxOutputTokens, 1 ≤ n
  warnThreshold_nonneg : 0 ≤ warnThreshold
  warn_le_hardStop : warnThreshold ≤ hardStopThreshold
  hardStopThreshold_le : hardStopThreshold ≤ 1

structure AiMessage where
  id : String
  /-- `input_tokens` and `output_tokens`, each 0 where it is missing. -/
  usage : Nat × Nat
  toolCalls : List Value
  content : Value
  additionalKwargs : Dict Value
  responseMetadata : Dict Value
  deriving DecidableEq

inductive BudgetMessage where
  | ai (m : AiMessage)
  | other (id : String)
  deriving DecidableEq

namespace BudgetMessage

def id : BudgetMessage → String
  | .ai m => m.id
  | .other id => id

def ai? : BudgetMessage → Option AiMessage
  | .ai m => some m
  | .other _ => none

end BudgetMessage

structure TokenUsage where
  input : Nat
  output : Nat
  total : Nat
  deriving DecidableEq

def TokenUsage.zero : TokenUsage := ⟨0, 0, 0⟩

/-- What a warning or a stop message says; its wording is left out of a warning. -/
structure BudgetNotice where
  reason : String
  used : Nat
  budget : Nat
  percent : Rat
  deriving DecidableEq

/-- The entries of the run in the middleware's dictionaries. -/
structure RunBudget where
  seenMessages : Option (Dict (Nat × Nat))
  cumulativeUsage : Option TokenUsage
  warned : Bool
  pendingWarnings : Option (List BudgetNotice)
  stopReason : Option String

namespace RunBudget

def init : RunBudget := ⟨none, none, false, none, none⟩

def seen (b : RunBudget) : Dict (Nat × Nat) := b.seenMessages.getD []

def usage (b : RunBudget) : TokenUsage := b.cumulativeUsage.getD .zero

/-- The usage of a message that is counted already. -/
def counted (b : RunBudget) (id : String) : Nat × Nat := (b.seen.get id).getD (0, 0)

/-- `_clear_run_state`: the stop reason stays. -/
def clearRunState (b : RunBudget) : RunBudget :=
  { b with warned := false, pendingWarnings := none, seenMessages := none, cumulativeUsage := none }

section Hooks
variable (config : TokenBudgetConfig)

def beforeAgent (b : RunBudget) (messages : List BudgetMessage) : RunBudget :=
  if !config.enabled || messages.isEmpty then b
  else
    let seen := (messages.filterMap (·.ai?)).foldl
      (fun seen m => if m.id ≠ "" then Dict.set seen m.id m.usage else seen) b.seen
    { b with seenMessages := some seen, cumulativeUsage := some b.usage }

def afterAgent (b : RunBudget) : RunBudget := if config.enabled then b.clearRunState else b

def drainPendingWarnings (b : RunBudget) : List BudgetNotice × RunBudget :=
  if config.enabled then (b.pendingWarnings.getD [], { b with pendingWarnings := none })
  else ([], b)

def countMessage (acc : Dict (Nat × Nat) × TokenUsage) (m : AiMessage) :
    Dict (Nat × Nat) × TokenUsage :=
  let prev := (acc.1.get m.id).getD (0, 0)
  -- a component that went down is not counted, and is not remembered on its own
  let diffInput := m.usage.1 - prev.1
  let diffOutput := m.usage.2 - prev.2
  if m.id ≠ "" ∧ (0 < diffInput ∨ 0 < diffOutput) then
    (acc.1.set m.id m.usage,
      ⟨acc.2.input + diffInput, acc.2.output + diffOutput,
        acc.2.total + (diffInput + diffOutput)⟩)
  else acc

/-- What is compared with which limit. -/
def fractions (usage : TokenUsage) : List (String × Nat × Nat) :=
  ("total", usage.total, config.maxTokens) ::
    (config.maxInputTokens.toList.map fun limit => ("input", usage.input, limit)) ++
    (config.maxOutputTokens.toList.map fun limit => ("output", usage.output, limit))

def highest (best : Rat × BudgetNotice) (f : String × Nat × Nat) : Rat × BudgetNotice :=
  let frac : Rat := f.2.1 / f.2.2
  if best.1 < frac then (frac, ⟨f.1, f.2.1, f.2.2, frac * 100⟩) else best

def highestFraction (usage : TokenUsage) : Rat × BudgetNotice :=
  (fractions config usage).foldl highest (0, ⟨"", 0, 0, 0⟩)

/-- `f"{n:,}"`, least digit first. -/
def groupDigits : List Char → List Char
  | a :: b :: c :: d :: rest => a :: b :: c :: ',' :: groupDigits (d :: rest)
  | digits => digits

def commas (n : Nat) : String := String.ofList (groupDigits (Nat.toDigits 10 n).reverse).reverse

def budgetExceededMsg (n : BudgetNotice) : String :=
  "[TOKEN BUDGET EXCEEDED] The " ++ n.reason ++ " token usage (" ++ commas n.used ++
    ") has exceeded the safety limit (" ++ commas n.budget ++
    "). Producing final answer with results collected so far."

def appendText (content : Value) (stopMsg : String) : Value :=
  match content with
  | .str text => .str (text ++ "\n\n" ++ stopMsg)
  | .list blocks => .list (blocks ++ [.dict [("type", .str "text"), ("text", .str ("\n\n" ++ stopMsg))]])
  | _ => .str stopMsg

def hardStopMessage (m : AiMessage) (stopMsg : String) : AiMessage :=
  { m with
    content := appendText m.content stopMsg
    toolCalls := []
    additionalKwargs := (m.additionalKwargs.pop "tool_calls").pop "function_call"
    responseMetadata :=
      if m.responseMetadata.get "finish_reason" = some (.str "tool_calls") then
        m.responseMetadata.set "finish_reason" (.str "stop")
      else m.responseMetadata }

/-- `after_model`: the message that replaces the last one, if the run is stopped. -/
def apply (b : RunBudget) (messages : List BudgetMessage) : RunBudget × Option AiMessage :=
  match messages.getLast? with
  | some (.ai last) =>
    if config.enabled then
      let acc := (messages.filterMap (·.ai?)).foldl countMessage (b.seen, b.usage)
      let b := { b with seenMessages := some acc.1, cumulativeUsage := some acc.2 }
      if acc.2.total = 0 then (b, none)
      else
        let best := highestFraction config acc.2
        if config.hardStopThreshold ≤ best.1 then
          ({ b with stopReason := some "token_capped" },
            some (hardStopMessage last (budgetExceededMsg best.2)))
        else if config.warnThreshold ≤ best.1 ∧ b.warned = false then
          ({ b with warned := true, pendingWarnings := some (b.pendingWarnings.getD [] ++ [best.2]) },
            none)
        else (b, none)
    else (b, none)
  | _ => (b, none)

end Hooks

end RunBudget

/-- Where the run is: outside the graph, in it, or between a model call and the hooks after it. -/
inductive BudgetPhase where
  | idle
  | running
  | responded
  deriving DecidableEq

/-- The run. `known` are the ids of all messages there ever were, `produced` those of the model's
messages in this run, and `observed` the usage each of these had when `after_model` last saw it. -/
structure BudgetRun where
  messages : Table BudgetMessage.id
  budget : RunBudget
  phase : BudgetPhase
  started : Bool
  /-- `after_model` has just run. -/
  checked : Bool
  known : List String
  produced : List String
  observed : Dict (Nat × Nat)

inductive BudgetEvent where
  | beforeAgent
  | resume
  | respond (m : AiMessage)
  | raise (id : String) (usage : Nat × Nat)
  | afterModel
  | addOther (id : String)
  | remove (ids : List String)
  | afterAgent

namespace BudgetRun
variable (config : TokenBudgetConfig) (s : BudgetRun)

def addMessage (m : BudgetMessage) : BudgetRun :=
  { s with messages := s.messages.put m, known := s.known ++ [m.id], checked := false }

def begin (budget : RunBudget) : BudgetRun :=
  { s with budget := budget, phase := .running, started := true, checked := false }

/-- The usage of a message goes up in place. -/
def raiseUsage (m : AiMessage) (usage : Nat × Nat) : BudgetRun :=
  { s with messages := s.messages.put (.ai { m with usage := usage }), checked := false }

def observe (observed : Dict (Nat × Nat)) (m : AiMessage) : Dict (Nat × Nat) :=
  if m.id ∈ s.produced then observed.set m.id m.usage else observed

def afterModel : BudgetRun :=
  let result := s.budget.apply config s.messages.rows
  { s with
    messages := match result.2 with
      | none => s.messages
      | some m => s.messages.put (.ai m)
    budget := result.1
    phase := .running
    checked := true
    observed := (s.messages.rows.filterMap (·.ai?)).foldl s.observe s.observed }

def step : BudgetEvent → Option BudgetRun
  | .beforeAgent =>
    if s.phase = .idle then some (s.begin (s.budget.beforeAgent config s.messages.rows)) else none
  -- an interrupted graph goes on at the node it stopped at, with the agent of this run
  | .resume => if s.phase = .idle ∧ s.started = false then some (s.begin s.budget) else none
  | .respond m =>
    if s.phase = .running ∧ m.id ∉ s.known then
      some { s.addMessage (.ai m) with
        budget := (s.budget.drainPendingWarnings config).2
        phase := .responded
        produced := s.produced ++ [m.id] }
    else none
  | .raise id usage =>
    match s.messages.get id with
    | some (.ai m) =>
      if s.phase ≠ .idle ∧ m.usage.1 ≤ usage.1 ∧ m.usage.2 ≤ usage.2 then some (s.raiseUsage m usage)
      else none
    | _ => none
  | .afterModel => if s.phase = .responded then some (s.afterModel config) else none
  | .addOther id =>
    if s.phase ≠ .responded ∧ id ∉ s.known then some (s.addMessage (.other id)) else none
  | .remove ids =>
    if s.phase ≠ .responded then
      some { s with messages := s.messages.keep fun m => m.id ∉ ids, checked := false }
    else none
  | .afterAgent =>
    if s.phase = .running then
      some { s with budget := s.budget.afterAgent config, phase := .idle, checked := false }
    else none

end BudgetRun

/-- A run starts on any transcript. -/
def tokenBudget (config : TokenBudgetConfig) : System BudgetRun BudgetEvent where
  init s := s.budget = .init ∧ s.phase = .idle ∧ s.started = false ∧ s.checked = false ∧
    s.known = s.messages.rows.map (·.id) ∧ s.produced = [] ∧ s.observed = []
  step s event t := s.step config event = some t

end DeerFlow.Middlewares
