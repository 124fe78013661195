import DeerFlow.Lib.Lists
import DeerFlow.Lib.Transition

/-! The steps of a subagent. They are captured from the snapshots of its history that are streamed,
and the poller of `task_tool` emits an event for each one. -/

namespace DeerFlow.Subagents
open Transition

inductive MessageKind where
  | ai
  | tool
  | other
  deriving DecidableEq

/-- `β` is what `model_dump` has besides the id. -/
structure StreamedMessage (β : Type) where
  kind : MessageKind
  id : Option String
  body : β
  deriving DecidableEq

def StreamedMessage.isStep {β : Type} (m : StreamedMessage β) : Bool :=
  m.kind = .ai || m.kind = .tool

/-- The id of a message, if there is one. -/
def StreamedMessage.id? {β : Type} (m : StreamedMessage β) : Option String :=
  m.id.filter (· ≠ "")

structure Captured (β : Type) where
  messages : List (StreamedMessage β)
  seenIds : Finset String

section Capture
variable {β : Type} [DecidableEq β]

def captureStepMessage (c : Captured β) (message : StreamedMessage β) : Captured β :=
  if !message.isStep then c
  else match message.id? with
    | some id =>
      if id ∈ c.seenIds then c else ⟨c.messages ++ [message], insert id c.seenIds⟩
    | none => if message ∈ c.messages then c else { c with messages := c.messages ++ [message] }

def captureNewStepMessages (messages : List (StreamedMessage β)) (c : Captured β)
    (processedCount : Nat) : Captured β × Nat :=
  let total := messages.length
  if processedCount < total then
    ((messages.drop processedCount).foldl captureStepMessage c, total)
  else match messages.getLast? with
    | some last => (captureStepMessage c last, max processedCount total)
    | none => (c, max processedCount total)

/-- How a snapshot comes from the one before. -/
inductive SnapshotMove (β : Type) where
  | append (new : List (StreamedMessage β))
  | replaceLast (m : StreamedMessage β)
  | compact (dropped : Nat) (new : List (StreamedMessage β))

def SnapshotMove.apply (messages : List (StreamedMessage β)) :
    SnapshotMove β → List (StreamedMessage β)
  | .append new => messages ++ new
  | .replaceLast m => messages.dropLast ++ [m]
  | .compact dropped new => messages.drop dropped ++ new

/-- Every message has an id, and no two have the same. -/
def DistinctIds (messages : List (StreamedMessage β)) : Prop :=
  (∀ m ∈ messages, m.id?.isSome) ∧ (messages.map (·.id?)).Nodup

instance (messages : List (StreamedMessage β)) : Decidable (DistinctIds messages) :=
  inferInstanceAs (Decidable (_ ∧ _))

/-- A `task_running` event. -/
structure RunningEvent (β : Type) where
  message : StreamedMessage β
  messageIndex : Nat
  totalMessages : Nat

/-- Where the polling loop is: before it looks at the messages, between that and its look at the
status, asleep, or left. -/
inductive PollPc where
  | messages
  | status
  | sleep
  | returned
  deriving DecidableEq

/-- A subagent run and its poller. `streamed` are the snapshots so far. -/
structure StepRun (β : Type) where
  messages : List (StreamedMessage β)
  captured : Captured β
  processedCount : Nat
  streaming : Bool
  terminal : Bool
  poller : PollPc
  lastMessageCount : Nat
  events : List (RunningEvent β)
  streamed : List (List (StreamedMessage β))

inductive StepEvent (β : Type) where
  | chunk (move : SnapshotMove β)
  | finish
  | timeOut
  | readMessages
  | readStatus
  | wake
  | leave

namespace StepRun

def init : StepRun β := ⟨[], ⟨[], ∅⟩, 0, true, false, .messages, 0, [], []⟩

def chunk (s : StepRun β) (messages : List (StreamedMessage β)) : StepRun β :=
  let captured := captureNewStepMessages messages s.captured s.processedCount
  { s with
    messages := messages
    captured := captured.1
    processedCount := captured.2
    streamed := s.streamed ++ [messages] }

/-- An event for each message captured since the last look. -/
def emit (s : StepRun β) : StepRun β :=
  let total := s.captured.messages.length
  { s with
    events := s.events ++
      ((s.captured.messages.drop s.lastMessageCount).zipIdx s.lastMessageCount).map
        fun (message, i) => ⟨message, i + 1, total⟩
    lastMessageCount := max s.lastMessageCount total
    poller := .status }

/-- `timeOut` sets the status while the stream is still being read, and `leave` ends the polling
without a look at the status: the polls are used up, the record is gone, or the tool is cancelled. -/
def step (s : StepRun β) : StepEvent β → Option (StepRun β)
  | .chunk move =>
    let messages := move.apply s.messages
    if s.streaming ∧ DistinctIds messages then some (s.chunk messages) else none
  | .finish => if s.streaming then some { s with streaming := false, terminal := true } else none
  | .timeOut => some { s with terminal := true }
  | .readMessages => if s.poller = .messages then some s.emit else none
  | .readStatus =>
    if s.poller = .status then some { s with poller := if s.terminal then .returned else .sleep }
    else none
  | .wake => if s.poller = .sleep then some { s with poller := .messages } else none
  | .leave =>
    if s.poller = .messages ∨ s.poller = .sleep then some { s with poller := .returned } else none

/-- The step where the messages may have no ids, or the same. -/
def anyStep (s : StepRun β) : StepEvent β → Option (StepRun β)
  | .chunk move => if s.streaming then some (s.chunk (move.apply s.messages)) else none
  | event => s.step event

end StepRun

def subagentRun (β : Type) [DecidableEq β] : System (StepRun β) (StepEvent β) :=
  System.ofFn .init StepRun.step

def anySubagentRun (β : Type) [DecidableEq β] : System (StepRun β) (StepEvent β) :=
  System.ofFn .init StepRun.anyStep

end Capture

end DeerFlow.Subagents
