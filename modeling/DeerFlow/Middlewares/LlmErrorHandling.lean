import DeerFlow.Lib.Json
import DeerFlow.Lib.Transition

/-! The middleware around the model calls of a process: which errors are retried, how long, and the
circuit breaker that all the calls share. A step is one critical section of the breaker's lock or
one await of a call. -/

namespace DeerFlow.Middlewares
open Transition

/-- `Retry-After` in milliseconds. `int` of a float that is infinite raises `OverflowError`, which
is not caught. -/
inductive RetryAfter where
  | absent
  | ms (delay : Nat)
  | infinite
  deriving DecidableEq

/-- What is read off an exception: its class, `str(exc)` stripped, a stripped `message` that is a
text, `str` of the error code, the status code and the delay that the response asks for. -/
structure LlmError where
  name : String
  text : Text
  message : Option Text
  errorCode : Text
  statusCode : Option Int
  isIndexError : Bool
  retryAfter : RetryAfter
  deriving DecidableEq

inductive ErrorReason where
  | quota
  | auth
  | transient
  | busy
  | generic
  deriving DecidableEq

def retriableStatusCodes : List Int := [408, 409, 425, 429, 500, 502, 503, 504]

def busyPatterns : List Text :=
  ["server busy".toList, "temporarily unavailable".toList, "try again later".toList,
    "please retry".toList, "please try again".toList, "overloaded".toList, "high demand".toList,
    "rate limit".toList, "负载较高".toList, "服务繁忙".toList, "稍后重试".toList, "请稍后重试".toList]

def quotaPatterns : List Text :=
  ["insufficient_quota".toList, "quota".toList, "billing".toList, "credit".toList,
    "payment".toList, "余额不足".toList, "超出限额".toList, "额度不足".toList, "欠费".toList]

def authPatterns : List Text :=
  ["authentication".toList, "unauthorized".toList, "invalid api key".toList,
    "invalid_api_key".toList, "permission".toList, "forbidden".toList, "access denied".toList,
    "无权".toList, "未授权".toList]

def transientErrors : List String :=
  ["APITimeoutError", "APIConnectionError", "InternalServerError", "ReadError",
    "RemoteProtocolError", "StreamChunkTimeoutError"]

def matchesAny (detail : Text) (patterns : List Text) : Bool :=
  patterns.any fun pattern => decide (pattern <:+: detail)

def retryMaxAttempts : Nat := 3

def retryBaseDelayMs : Nat := 1000

def retryCapDelayMs : Nat := 8000

/-- What `time.sleep` can take: 2 ^ 63 - 1 nanoseconds. -/
def sleepLimitMs : Nat := 9223372036854

/-- `_RETRY_BUDGET_OVERRIDES`. -/
def retryBudgetOverride? (name : String) : Option Nat :=
  if name = "StreamChunkTimeoutError" then some 2 else none

namespace LlmError

/-- `_extract_error_detail`. -/
def detail (e : LlmError) : Text :=
  if e.text ≠ [] then e.text else (e.message.filter fun m => m ≠ []).getD e.name.toList

def maxAttempts (e : LlmError) : Nat :=
  match retryBudgetOverride? e.name with
  | none => retryMaxAttempts
  | some budget => min budget retryMaxAttempts

def classify (lower : Text → Text) (e : LlmError) : Bool × ErrorReason :=
  if matchesAny (lower e.detail) quotaPatterns ∨ matchesAny (lower e.errorCode) quotaPatterns then
    (false, .quota)
  else if matchesAny (lower e.detail) authPatterns then (false, .auth)
  else if e.name ∈ transientErrors then (true, .transient)
  else if e.isIndexError then (true, .transient)
  else if e.statusCode.any (· ∈ retriableStatusCodes) then (true, .transient)
  else if matchesAny (lower e.detail) busyPatterns then (true, .busy)
  else (false, .generic)

def retryDelayMs (attempt : Nat) (e : LlmError) : Option Nat :=
  match e.retryAfter with
  | .absent => some (min (retryBaseDelayMs * 2 ^ (attempt - 1)) retryCapDelayMs)
  | .ms delay => some delay
  | .infinite => none

def userMessage (e : LlmError) : ErrorReason → Text
  | .quota => ("The configured LLM provider rejected the request because the account is out of " ++
      "quota, billing is unavailable, or usage is restricted. Please fix the provider account " ++
      "and try again.").toList
  | .auth => ("The configured LLM provider rejected the request because authentication or access " ++
      "is invalid. Please check the provider credentials and try again.").toList
  | .busy | .transient =>
    if e.name = "StreamChunkTimeoutError" then
      ("The model's streaming response was interrupted before it could finish. This usually " ++
        "happens when a single response or tool call is very large — please ask the assistant " ++
        "to split the work into smaller steps, or shorten the requested output, and try " ++
        "again.").toList
    else
      ("The configured LLM provider is temporarily unavailable after multiple retries. Please " ++
        "wait a moment and continue the conversation.").toList
  | .generic => "LLM request failed: ".toList ++ e.detail

end LlmError

def ErrorReason.name : ErrorReason → String
  | quota => "quota"
  | auth => "auth"
  | transient => "transient"
  | busy => "busy"
  | generic => "generic"

/-- The assistant message that stands in for a response: `deerflow_error_fallback` is set. -/
structure FallbackMessage where
  content : Text
  errorType : String
  errorReason : String
  errorDetail : Text
  deriving DecidableEq

def circuitBreakerFallback : FallbackMessage where
  content := ("The configured LLM provider is currently unavailable due to continuous failures. " ++
    "Circuit breaker is engaged to protect the system. Please wait a moment before trying " ++
    "again.").toList
  errorType := "CircuitBreakerOpen"
  errorReason := "circuit_open"
  errorDetail := "LLM circuit breaker is open".toList

def LlmError.fallback (e : LlmError) (reason : ErrorReason) : FallbackMessage where
  content := e.userMessage reason
  errorType := e.name
  errorReason := reason.name
  errorDetail := e.detail

structure CircuitConfig where
  failureThreshold : Int
  recoveryTimeoutSec : Int

inductive CircuitState where
  | closed
  | opened
  | halfOpen
  deriving DecidableEq

structure Circuit where
  state : CircuitState
  failureCount : Nat
  openUntil : Rat
  probeInFlight : Bool
  deriving DecidableEq

namespace Circuit

def init : Circuit := ⟨.closed, 0, 0, false⟩

/-- Whether a call is turned away. -/
def check (c : Circuit) (now : Rat) : Bool × Circuit :=
  if c.state = .opened ∧ now < c.openUntil then (true, c)
  else
    let c := if c.state = .opened then { c with state := .halfOpen, probeInFlight := false } else c
    if c.state = .halfOpen then
      if c.probeInFlight then (true, c) else (false, { c with probeInFlight := true })
    else (false, c)

def recordSuccess (_ : Circuit) : Circuit := ⟨.closed, 0, 0, false⟩

def recordFailure (config : CircuitConfig) (now : Rat) (c : Circuit) : Circuit :=
  let openUntil := now + config.recoveryTimeoutSec
  if c.state = .halfOpen then
    { c with state := .opened, openUntil := openUntil, probeInFlight := false }
  else
    let c := { c with failureCount := c.failureCount + 1 }
    if config.failureThreshold ≤ c.failureCount then
      if c.state ≠ .opened then
        { c with state := .opened, openUntil := openUntil, probeInFlight := false }
      else { c with openUntil := openUntil }
    else c

/-- What `except GraphBubbleUp` does. -/
def releaseProbe (c : Circuit) : Circuit :=
  if c.state = .halfOpen then { c with probeInFlight := false } else c

end Circuit

inductive ModelWrapper where
  | sync
  | async
  deriving DecidableEq

/-- A call that has returned without a fallback has returned its handler's response. -/
inductive ModelCallPc where
  | calling
  | sleeping (waitMs : Nat)
  | returned (fallback : Option FallbackMessage)
  | raised
  | cancelled
  deriving DecidableEq

structure ModelCall where
  wrapper : ModelWrapper
  /-- The call was let through as the probe of a half-open circuit. -/
  probe : Bool
  attempt : Nat
  pc : ModelCallPc
  deriving DecidableEq

inductive ModelCallEvent where
  | respond
  | bubble
  | fail (error : LlmError) (now : Rat)
  | wake
  | cancel
  deriving DecidableEq

inductive BreakerEvent where
  | start (wrapper : ModelWrapper) (now : Rat)
  | call (i : Nat) (event : ModelCallEvent)
  deriving DecidableEq

structure BreakerState where
  circuit : Circuit
  calls : List ModelCall
  deriving DecidableEq

namespace ModelCall

def setPc (c : ModelCall) (pc : ModelCallPc) : ModelCall := { c with pc := pc }

def running (c : ModelCall) : Bool :=
  match c.pc with
  | .calling | .sleeping _ => true
  | .returned _ | .raised | .cancelled => false

/-- The wait before the next attempt, if neither it nor `time.sleep` raises `OverflowError`. -/
def pause (c : ModelCall) (e : LlmError) : Option Nat :=
  (e.retryDelayMs c.attempt).filter fun wait => c.wrapper = .async ∨ wait ≤ sleepLimitMs

section Handler
variable (config : CircuitConfig) (lower : Text → Text)

/-- `except Exception` of the retry loop. What it raises itself leaves the call. -/
def onError (c : ModelCall) (circuit : Circuit) (e : LlmError) (now : Rat) : Circuit × ModelCall :=
  let (retriable, reason) := e.classify lower
  if retriable ∧ c.attempt < e.maxAttempts then
    (circuit, c.setPc (match c.pause e with
      | some wait => .sleeping wait
      | none => .raised))
  else
    (if retriable then circuit.recordFailure config now else circuit,
      c.setPc (.returned (some (e.fallback reason))))

/-- Only an async call can be cancelled, and no `except` of the loop takes that. -/
def move (c : ModelCall) (circuit : Circuit) : ModelCallEvent → Option (Circuit × ModelCall)
  | .respond =>
    if c.pc = .calling then some (circuit.recordSuccess, c.setPc (.returned none)) else none
  | .bubble => if c.pc = .calling then some (circuit.releaseProbe, c.setPc .raised) else none
  | .fail e now =>
    if c.pc = .calling then some (c.onError config lower circuit e now) else none
  | .wake =>
    match c.pc with
    | .sleeping _ => some (circuit, { c with pc := .calling, attempt := c.attempt + 1 })
    | _ => none
  | .cancel =>
    if c.wrapper = .async ∧ c.running then some (circuit, c.setPc .cancelled) else none

end Handler

end ModelCall

namespace BreakerState

def init : BreakerState := ⟨.init, []⟩

def start (s : BreakerState) (wrapper : ModelWrapper) (now : Rat) : BreakerState :=
  let (turnedAway, circuit) := s.circuit.check now
  let call : ModelCall :=
    if turnedAway then ⟨wrapper, false, 1, .returned (some circuitBreakerFallback)⟩
    else ⟨wrapper, circuit.state = .halfOpen, 1, .calling⟩
  ⟨circuit, s.calls ++ [call]⟩

def step (config : CircuitConfig) (lower : Text → Text) (s : BreakerState) :
    BreakerEvent → Option BreakerState
  | .start wrapper now => some (s.start wrapper now)
  | .call i event =>
    s.calls[i]?.bind fun c =>
      (c.move config lower s.circuit event).map fun (circuit, c') =>
        ⟨circuit, s.calls.modify i fun _ => c'⟩

end BreakerState

def llmErrorHandling (config : CircuitConfig) (lower : Text → Text) :
    System BreakerState BreakerEvent :=
  System.ofFn .init (BreakerState.step config lower)

end DeerFlow.Middlewares
