import DeerFlow.Lib.Transition
import DeerFlow.Runtime.Value

/-! The in-memory stream bridge of one run. Publishers take an event id before
they hold the lock of the stream and append once they hold it; subscribers read
at their own pace from a buffer that keeps the newest events only. -/

namespace DeerFlow.Runtime
open Transition

structure StreamEvent where
  id : String
  event : String
  data : Value
  deriving DecidableEq

/-- `int(text)`, `none` where it raises `ValueError`. Of the many texts it accepts the bridge
relies on the decimal ones it writes itself. -/
structure IntText where
  parse : String → Option Int
  parse_toString : ∀ n : Nat, parse (toString n) = some (n : Int)

structure RunStream where
  events : List StreamEvent
  ended : Bool
  startOffset : Nat
  deriving DecidableEq

namespace RunStream

def empty : RunStream := ⟨[], false, 0⟩

/-- The offset the next event gets. -/
def endOffset (s : RunStream) : Nat := s.startOffset + s.events.length

/-- The locked part of `publish`. -/
def append (maxsize : Nat) (s : RunStream) (entry : StreamEvent) : RunStream :=
  let events := s.events ++ [entry]
  if maxsize < events.length then
    let overflow := events.length - maxsize
    { s with events := events.drop overflow, startOffset := s.startOffset + overflow }
  else { s with events := events }

end RunStream

def eventId (ts seq : Nat) : String := toString ts ++ "-" ++ toString seq

/-- The text after the last dash. -/
def afterDash (text : String) : String :=
  String.ofList (text.toList.reverse.takeWhile (· ≠ '-')).reverse

section Ids
variable (int : IntText)

def parseEventSeq (eventId : String) : Option Int :=
  if '-' ∈ eventId.toList then int.parse (afterDash eventId) else none

def resolveStartOffset (s : RunStream) (lastEventId : Option String) : Nat :=
  match lastEventId with
  | none => s.startOffset
  | some id =>
    match parseEventSeq int id with
    | none => s.startOffset
    | some seq =>
      let localIndex := seq - s.startOffset
      if 0 ≤ localIndex ∧ (s.events[localIndex.toNat]?).any (·.id = id) then
        s.startOffset + localIndex.toNat + 1
      else s.startOffset

end Ids

/-- What a subscriber's generator yields. An event carries the offset it was read at, and the
end marker the stream it was read from. -/
inductive Yield where
  | event (offset : Nat) (entry : StreamEvent)
  | heartbeat
  | finish (seen : RunStream)
  deriving DecidableEq

inductive SubscriberPhase where
  | reading
  /-- In `stream.condition.wait()`. -/
  | waiting
  | finished
  deriving DecidableEq

/-- A call of `subscribe`. `opened` is the stream it resolved its first offset in. -/
structure Subscriber where
  lastEventId : Option String
  opened : RunStream
  nextOffset : Nat
  phase : SubscriberPhase
  yields : List Yield

namespace Subscriber

def start (int : IntText) (s : RunStream) (lastEventId : Option String) : Subscriber :=
  ⟨lastEventId, s, resolveStartOffset int s lastEventId, .reading, []⟩

/-- One round of the loop of `subscribe`, up to its yield or its wait. -/
def poll (s : RunStream) (sub : Subscriber) : Subscriber :=
  let nextOffset := if sub.nextOffset < s.startOffset then s.startOffset else sub.nextOffset
  match s.events[nextOffset - s.startOffset]? with
  | some entry =>
    { sub with nextOffset := nextOffset + 1, yields := sub.yields ++ [.event nextOffset entry] }
  | none =>
    if s.ended then
      { sub with
        nextOffset := nextOffset, phase := .finished, yields := sub.yields ++ [.finish s] }
    else { sub with nextOffset := nextOffset, phase := .waiting }

def received (sub : Subscriber) : List (Nat × StreamEvent) :=
  sub.yields.filterMap fun
    | .event offset entry => some (offset, entry)
    | _ => none

end Subscriber

/-- `waiting` are the publishers that have their id and queue for the lock, which is granted in
this order. `appended` is every event the stream was ever given. -/
structure Bridge where
  stream : RunStream
  counter : Nat
  waiting : List StreamEvent
  subscribers : List Subscriber
  appended : List StreamEvent

namespace Bridge

def empty : Bridge := ⟨.empty, 0, [], [], []⟩

/-- The subscriber with index `i` goes on from `phase`. -/
def advance (m : Bridge) (i : Nat) (phase : SubscriberPhase) (f : Subscriber → Subscriber) :
    Option Bridge :=
  match m.subscribers[i]? with
  | none => none
  | some sub =>
    if sub.phase = phase then some { m with subscribers := m.subscribers.set i (f sub) } else none

end Bridge

inductive BridgeEvent where
  | publish (event : String) (data : Value) (ts : Nat)
  | append
  | cancelPublish (i : Nat)
  | publishEnd
  | subscribe (lastEventId : Option String)
  | poll (i : Nat)
  /-- The condition was notified. -/
  | wake (i : Nat)
  /-- The wait took `heartbeat_interval`. -/
  | timeout (i : Nat)
  deriving DecidableEq

section Machine
variable (int : IntText) (maxsize : Nat)

def BridgeEvent.step (m : Bridge) : BridgeEvent → Option Bridge
  | .publish event data ts => some { m with
      counter := m.counter + 1
      waiting := m.waiting ++ [⟨eventId ts m.counter, event, data⟩] }
  | .append =>
    match m.waiting with
    | [] => none
    | entry :: rest => some { m with
        stream := m.stream.append maxsize entry
        waiting := rest
        appended := m.appended ++ [entry] }
  | .cancelPublish i =>
    if i < m.waiting.length then some { m with waiting := m.waiting.eraseIdx i } else none
  | .publishEnd => some { m with stream := { m.stream with ended := true } }
  | .subscribe lastEventId =>
    some { m with subscribers := m.subscribers ++ [.start int m.stream lastEventId] }
  | .poll i => m.advance i .reading fun sub => sub.poll m.stream
  | .wake i => m.advance i .waiting fun sub => { sub with phase := .reading }
  | .timeout i => m.advance i .waiting fun sub =>
      { sub with phase := .reading, yields := sub.yields ++ [.heartbeat] }

def bridge : System Bridge BridgeEvent := .ofFn .empty (BridgeEvent.step int maxsize)

end Machine

end DeerFlow.Runtime
