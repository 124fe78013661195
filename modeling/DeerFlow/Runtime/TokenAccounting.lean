import DeerFlow.Runtime.Value

/-! The token counters of `RunJournal`: what `on_llm_end` and the records of external usage add
to them. -/

namespace DeerFlow.Runtime

/-- `usage_metadata` of a message; a value may be missing or `None`. -/
structure UsageMetadata where
  inputTokens : Option Nat
  outputTokens : Option Nat
  totalTokens : Option Nat
  cacheRead : Option Int
  deriving DecidableEq

/-- A message of a generation: its usage, and the two names of the model in its response
metadata. -/
structure UsageMessage where
  usage : Option UsageMetadata
  modelName : Option String
  model : Option String
  deriving DecidableEq

structure ExternalUsage where
  sourceRunId : String
  caller : String
  modelName : Option String
  inputTokens : Option Nat
  outputTokens : Option Nat
  totalTokens : Option Nat
  cacheReadTokens : Option Nat
  deriving DecidableEq

structure ModelUsage where
  inputTokens : Nat
  outputTokens : Nat
  totalTokens : Nat
  /-- Only there when a cache was read. -/
  cacheReadTokens : Option Nat
  deriving DecidableEq

def ModelUsage.zero : ModelUsage := ⟨0, 0, 0, none⟩

inductive CallerKind where
  | subagent
  | middleware
  | leadAgent
  deriving DecidableEq

def startsWith (text head : String) : Bool := head.toList.isPrefixOf text.toList

def callerKind (caller : String) : CallerKind :=
  if startsWith caller "subagent:" then .subagent
  else if startsWith caller "middleware:" then .middleware
  else .leadAgent

/-- `_identify_caller`: the first tag that names one. -/
def identifyCaller (tags : List Value) : String :=
  let names := tags.filterMap fun tag => match tag with
    | .str t =>
      if startsWith t "subagent:" || startsWith t "middleware:" || t = "lead_agent" then some t
      else none
    | _ => none
  names.head?.getD "lead_agent"

/-- `first or second`. -/
def orElse (first second : Option String) : Option String :=
  match first with
  | some name => if name = "" then second else some name
  | none => second

structure TokenCounters where
  totalInputTokens : Nat
  totalOutputTokens : Nat
  totalTokens : Nat
  llmCallCount : Nat
  leadAgentTokens : Nat
  subagentTokens : Nat
  middlewareTokens : Nat
  tokensByModel : Dict ModelUsage
  countedLlmRunIds : List String
  countedExternalSourceIds : List String
  deriving DecidableEq

/-- What `get_completion_data` says of tokens. -/
structure CompletionTokens where
  totalInputTokens : Nat
  totalOutputTokens : Nat
  totalTokens : Nat
  llmCallCount : Nat
  leadAgentTokens : Nat
  subagentTokens : Nat
  middlewareTokens : Nat
  tokenUsageByModel : Dict ModelUsage
  deriving DecidableEq

inductive UsageCallback where
  | onLlmEnd (runId : String) (tags : List Value) (messages : List UsageMessage)
  | external (records : List ExternalUsage)
  deriving DecidableEq

namespace TokenCounters

def init : TokenCounters := ⟨0, 0, 0, 0, 0, 0, 0, [], [], []⟩

def recordModelUsage (s : TokenCounters) (modelName : Option String)
    (inputTokens outputTokens totalTokens cacheReadTokens : Nat) : TokenCounters :=
  if totalTokens = 0 then s
  else
    let name := (orElse modelName none).getD "unknown"
    let bucket := (s.tokensByModel.get name).getD .zero
    let bucket : ModelUsage :=
      { inputTokens := bucket.inputTokens + inputTokens
        outputTokens := bucket.outputTokens + outputTokens
        totalTokens := bucket.totalTokens + totalTokens
        cacheReadTokens :=
          if cacheReadTokens = 0 then bucket.cacheReadTokens
          else some (bucket.cacheReadTokens.getD 0 + cacheReadTokens) }
    { s with tokensByModel := s.tokensByModel.set name bucket }

def addTotals (s : TokenCounters) (inputTokens outputTokens totalTokens : Nat) : TokenCounters :=
  { s with
    totalInputTokens := s.totalInputTokens + inputTokens
    totalOutputTokens := s.totalOutputTokens + outputTokens
    totalTokens := s.totalTokens + totalTokens }

def addCaller (s : TokenCounters) (caller : String) (totalTokens : Nat) : TokenCounters :=
  match callerKind caller with
  | .subagent => { s with subagentTokens := s.subagentTokens + totalTokens }
  | .middleware => { s with middlewareTokens := s.middlewareTokens + totalTokens }
  | .leadAgent => { s with leadAgentTokens := s.leadAgentTokens + totalTokens }

/-- The token part of `on_llm_end` for one message. -/
def countMessage (rid caller : String) (s : TokenCounters) (m : UsageMessage) : TokenCounters :=
  let inputTk := (m.usage.bind (·.inputTokens)).getD 0
  let outputTk := (m.usage.bind (·.outputTokens)).getD 0
  let given := (m.usage.bind (·.totalTokens)).getD 0
  let totalTk := if given = 0 then inputTk + outputTk else given
  if 0 < totalTk ∧ rid ∉ s.countedLlmRunIds then
    let s := { s with countedLlmRunIds := s.countedLlmRunIds ++ [rid] }
    let s := s.addTotals inputTk outputTk totalTk
    let s := { s with llmCallCount := s.llmCallCount + 1 }
    (s.addCaller caller totalTk).recordModelUsage (orElse m.modelName m.model) inputTk outputTk
      totalTk ((m.usage.bind (·.cacheRead)).getD 0).toNat
  else s

def onLlmEnd (trackTokens : Bool) (s : TokenCounters) (runId : String) (tags : List Value)
    (messages : List UsageMessage) : TokenCounters :=
  if trackTokens then messages.foldl (countMessage runId (identifyCaller tags)) s else s

def countExternal (s : TokenCounters) (record : ExternalUsage) : TokenCounters :=
  if record.sourceRunId = "" then s
  else if record.sourceRunId ∈ s.countedExternalSourceIds then s
  else
    let inputTk := record.inputTokens.getD 0
    let outputTk := record.outputTokens.getD 0
    let given := record.totalTokens.getD 0
    let totalTk := if given = 0 then inputTk + outputTk else given
    if totalTk = 0 then s
    else
      let s := { s with
        countedExternalSourceIds := s.countedExternalSourceIds ++ [record.sourceRunId] }
      ((s.addTotals inputTk outputTk totalTk).addCaller record.caller totalTk).recordModelUsage
        record.modelName inputTk outputTk totalTk (record.cacheReadTokens.getD 0)

def recordExternal (trackTokens : Bool) (s : TokenCounters) (records : List ExternalUsage) :
    TokenCounters :=
  if trackTokens then records.foldl countExternal s else s

def callback (trackTokens : Bool) (s : TokenCounters) : UsageCallback → TokenCounters
  | .onLlmEnd runId tags messages => s.onLlmEnd trackTokens runId tags messages
  | .external records => s.recordExternal trackTokens records

def completionTokens (s : TokenCounters) : CompletionTokens where
  totalInputTokens := s.totalInputTokens
  totalOutputTokens := s.totalOutputTokens
  totalTokens := s.totalTokens
  llmCallCount := s.llmCallCount
  leadAgentTokens := s.leadAgentTokens
  subagentTokens := s.subagentTokens
  middlewareTokens := s.middlewareTokens
  tokenUsageByModel := s.tokensByModel

/-- The counters after a sequence of callbacks. -/
def after (trackTokens : Bool) (callbacks : List UsageCallback) : TokenCounters :=
  callbacks.foldl (callback trackTokens) init

end TokenCounters

end DeerFlow.Runtime
