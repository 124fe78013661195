import DeerFlow.Lib.Transition

/-! The queue of memory updates. Its critical sections are single steps; a timer fires at any
time after it was started, unless it was cancelled before. What is handed to the updater is
recorded, and so is what callers have passed. -/

namespace DeerFlow.Memory
open Transition

section Queue
variable {M : Type}

/-- A conversation, without the time at which it was queued. -/
structure ConversationContext (M : Type) where
  threadId : String
  messages : List M
  agentName : Option String
  userId : Option String
  deerflowTraceId : Option String
  correctionDetected : Bool
  reinforcementDetected : Bool
  deriving DecidableEq

/-- `_queue_key`. -/
def ConversationContext.key (c : ConversationContext M) : String × Option String × Option String :=
  (c.threadId, c.userId, c.agentName)

inductive TimerStatus where
  | waiting
  | cancelled
  | fired
  deriving DecidableEq

structure QueueTimer where
  delaySeconds : Nat
  status : TimerStatus

/-- Where a `_process_queue` call is: before its critical section, with the contexts it still
has to hand over, or at its end. -/
inductive ProcessPc (M : Type) where
  | enter
  | working (rest : List (ConversationContext M))
  | done
  deriving DecidableEq

structure UpdateQueue (M : Type) where
  queue : List (ConversationContext M)
  /-- `_timer`, one of the timers that were ever started. -/
  timer : Option Nat
  timers : List QueueTimer
  processing : Bool
  calls : List (ProcessPc M)
  handed : List (ConversationContext M)
  passed : List (ConversationContext M)

/-- What happens to the queue while memory is enabled; a call made while it is not does
nothing. -/
inductive QueueEvent (M : Type) where
  | add (context : ConversationContext M)
  | addNowait (context : ConversationContext M)
  | fire (i : Nat)
  | process (i : Nat)
  | flush
  | flushNowait
  deriving DecidableEq

namespace UpdateQueue

def init : UpdateQueue M := ⟨[], none, [], false, [], [], []⟩

def enqueue (s : UpdateQueue M) (c : ConversationContext M) : UpdateQueue M :=
  let existing := s.queue.find? fun c' => c'.key = c.key
  let merged : ConversationContext M := { c with
    correctionDetected := c.correctionDetected || existing.any (·.correctionDetected)
    reinforcementDetected := c.reinforcementDetected || existing.any (·.reinforcementDetected) }
  { s with
    queue := (s.queue.filter fun c' => c'.key ≠ c.key) ++ [merged]
    passed := s.passed ++ [c] }

/-- `cancel` has no effect on a timer that has fired. -/
def cancelTimer (s : UpdateQueue M) : UpdateQueue M :=
  match s.timer with
  | none => s
  | some i => { s with
      timers := s.timers.modify i fun t =>
        if t.status = .waiting then { t with status := .cancelled } else t }

def scheduleTimer (s : UpdateQueue M) (delaySeconds : Nat) : UpdateQueue M :=
  let s := s.cancelTimer
  { s with timer := some s.timers.length, timers := s.timers ++ [⟨delaySeconds, .waiting⟩] }

/-- One step of a `_process_queue` call. -/
def processStep (s : UpdateQueue M) (i : Nat) : ProcessPc M → Option (UpdateQueue M)
  | .enter =>
    if s.processing then
      let s := s.scheduleTimer 0
      some { s with calls := s.calls.set i .done }
    else if s.queue.isEmpty then some { s with calls := s.calls.set i .done }
    else some { s with
      processing := true
      queue := []
      timer := none
      calls := s.calls.set i (.working s.queue) }
  | .working (c :: rest) => some { s with
      handed := s.handed ++ [c]
      calls := s.calls.set i (.working rest) }
  | .working [] => some { s with processing := false, calls := s.calls.set i .done }
  | .done => none

def step (debounceSeconds : Nat) (s : UpdateQueue M) : QueueEvent M → Option (UpdateQueue M)
  | .add c => some ((s.enqueue c).scheduleTimer debounceSeconds)
  | .addNowait c => some ((s.enqueue c).scheduleTimer 0)
  | .fire i =>
    match s.timers[i]? with
    | some ⟨delay, .waiting⟩ => some { s with
        timers := s.timers.set i ⟨delay, .fired⟩
        calls := s.calls ++ [.enter] }
    | _ => none
  | .process i => s.calls[i]?.bind (s.processStep i)
  | .flush =>
    let s := s.cancelTimer
    some { s with timer := none, calls := s.calls ++ [.enter] }
  | .flushNowait => some (s.scheduleTimer 0)

end UpdateQueue

def updateQueue (M : Type) (debounceSeconds : Nat) : System (UpdateQueue M) (QueueEvent M) :=
  System.ofFn .init (UpdateQueue.step debounceSeconds)

end Queue

section Hook

/-- The messages that a summarization is about to remove. -/
structure SummarizationEvent (M : Type) where
  messagesToSummarize : List M
  threadId : Option String
  agentName : Option String
  userId : Option String

/-- What the hook asks of messages. -/
structure MessageEnv (M : Type) where
  filterMessages : List M → List M
  isHuman : M → Bool
  isAi : M → Bool
  detectCorrection : List M → Bool
  detectReinforcement : List M → Bool

/-- `memory_flush_hook`: the call of `add_nowait` it makes, if any. -/
def memoryFlushHook {M : Type} (env : MessageEnv M) (event : SummarizationEvent M) :
    Option (QueueEvent M) :=
  let messages := env.filterMessages event.messagesToSummarize
  match event.threadId.filter (· ≠ "") with
  | none => none
  | some threadId =>
    if messages.any env.isHuman && messages.any env.isAi then
      some (.addNowait {
        threadId := threadId
        messages := messages
        agentName := event.agentName
        userId := event.userId
        deerflowTraceId := none
        correctionDetected := env.detectCorrection messages
        reinforcementDetected := !env.detectCorrection messages && env.detectReinforcement messages })
    else none

end Hook

end DeerFlow.Memory
