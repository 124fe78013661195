import DeerFlow.Lib.KeyedTable
import DeerFlow.Lib.Transition

/-! `_get_or_create_thread` of one `ChannelManager`, for the messages of one
conversation, from one await to the next. The lock of the conversation is found
through a registry, from which every call that leaves takes it away. -/

namespace DeerFlow.Channels
open Transition

/-- Only an id that is not empty counts as one. -/
abbrev ThreadId := { text : String // text ≠ "" }

structure Conversation where
  channelName : String
  chatId : String
  topicId : Option String
  connectionId : Option String

def truthy (text : Option String) : Bool := text.any (· ≠ "")

structure StoreEntry where
  key : String
  threadId : ThreadId

structure ConversationRow where
  connectionId : String
  externalConversationId : String
  externalTopicId : String
  threadId : ThreadId

def ConversationRow.key (r : ConversationRow) : String × String × String :=
  (r.connectionId, r.externalConversationId, r.externalTopicId)

namespace Conversation

/-- `ChannelStore._key`. -/
def storeKey (conv : Conversation) : String :=
  if truthy conv.topicId then
    conv.channelName ++ ":" ++ conv.chatId ++ ":" ++ conv.topicId.getD ""
  else conv.channelName ++ ":" ++ conv.chatId

def rowKey (conv : Conversation) : String × String × String :=
  (conv.connectionId.getD "", conv.chatId, conv.topicId.getD "")

end Conversation

/-- The JSON store, and the table of the connection repository. -/
structure ThreadStores where
  store : Table StoreEntry.key
  conversations : Table ConversationRow.key

structure ManagerConfig where
  conversation : Conversation
  hasRepo : Bool

namespace ManagerConfig

def looksInRepo (config : ManagerConfig) : Bool :=
  truthy config.conversation.connectionId && config.hasRepo

def storesInRepo (config : ManagerConfig) (ownerUserId : Option String) : Bool :=
  truthy config.conversation.connectionId && truthy ownerUserId && config.hasRepo

def lookupThreadId (config : ManagerConfig) (stores : ThreadStores) : Option ThreadId :=
  if config.looksInRepo then
    (stores.conversations.get config.conversation.rowKey).map ConversationRow.threadId
  else (stores.store.get config.conversation.storeKey).map StoreEntry.threadId

def storeThreadId (config : ManagerConfig) (stores : ThreadStores) (ownerUserId : Option String)
    (threadId : ThreadId) : ThreadStores :=
  let conv := config.conversation
  if config.storesInRepo ownerUserId then { stores with
    conversations := stores.conversations.put
      ⟨conv.rowKey.1, conv.rowKey.2.1, conv.rowKey.2.2, threadId⟩ }
  else { stores with store := stores.store.put ⟨conv.storeKey, threadId⟩ }

end ManagerConfig

/-- Where a call is. From `waiting` to `storing` it is inside the `try`, with the lock that it found
or made; from `creating` on it is in `_create_thread`. -/
inductive CallPc where
  | start
  | missed
  | waiting (lock : Nat)
  | locked (lock : Nat)
  | creating (lock : Nat)
  | verifying (lock : Nat)
  | storing (lock : Nat) (threadId : ThreadId)
  | done (result : Option (ThreadId × Bool))
  deriving DecidableEq

namespace CallPc

def lock : CallPc → Option Nat
  | .waiting lock | .locked lock | .creating lock | .verifying lock | .storing lock _ => some lock
  | _ => none

def holds : CallPc → Option Nat
  | .locked lock | .creating lock | .verifying lock | .storing lock _ => some lock
  | _ => none

def creates : CallPc → Bool
  | .creating _ | .verifying _ | .storing .. => true
  | _ => false

end CallPc

structure ThreadCall where
  ownerUserId : Option String
  preferred : Option ThreadId
  pc : CallPc

/-- `queue` are the waiting calls in the order they came, `stored` every id ever stored. -/
structure ChannelManager where
  stores : ThreadStores
  registry : Option Nat
  nextLock : Nat
  queue : List Nat
  calls : List ThreadCall
  stored : List ThreadId

/-- What an await answers. A write that raises may have taken effect. -/
inductive Answer where
  | returns
  | created (threadId : ThreadId)
  | conflict
  | raises (tookEffect : Bool)

inductive ManagerEvent where
  | call (ownerUserId : Option String) (preferred : Option ThreadId)
  | step (i : Nat) (answer : Answer)
  | cancel (i : Nat)

namespace ChannelManager

def start (config : ManagerConfig) (stores : ThreadStores) : ChannelManager where
  stores := stores
  registry := none
  nextLock := 0
  queue := []
  calls := []
  stored := (config.lookupThreadId stores).toList

def setPc (s : ChannelManager) (i : Nat) (pc : CallPc) : ChannelManager :=
  { s with calls := s.calls.modify i fun c => { c with pc := pc } }

def free (s : ChannelManager) (lock : Nat) : Bool :=
  s.calls.all fun c => c.pc.holds ≠ some lock

/-- The call that has waited longest for a lock. -/
def firstWaiting (s : ChannelManager) (lock : Nat) : Option Nat :=
  s.queue.find? fun i => s.calls[i]?.any fun c => c.pc = .waiting lock

/-- The lock of the conversation, and an attempt to acquire it. -/
def enter (s : ChannelManager) (i : Nat) : ChannelManager :=
  let lock := s.registry.getD s.nextLock
  let entered := { s with
    registry := some lock
    nextLock := if s.registry.isNone then s.nextLock + 1 else s.nextLock }
  if s.free lock ∧ s.firstWaiting lock = none then entered.setPc i (.locked lock)
  else { entered.setPc i (.waiting lock) with queue := s.queue ++ [i] }

def leave (s : ChannelManager) (i : Nat) (result : Option (ThreadId × Bool)) : ChannelManager :=
  { s.setPc i (.done result) with
    registry := none
    queue := s.queue.filter (· ≠ i) }

def store (config : ManagerConfig) (s : ChannelManager) (c : ThreadCall) (threadId : ThreadId) :
    ChannelManager :=
  { s with
    stores := config.storeThreadId s.stores c.ownerUserId threadId
    stored := s.stored ++ [threadId] }

def callStep (config : ManagerConfig) (s : ChannelManager) (i : Nat) (c : ThreadCall)
    (answer : Answer) : Option ChannelManager :=
  match c.pc, answer with
  | .start, .returns => match config.lookupThreadId s.stores with
    | some threadId => some (s.setPc i (.done (some (threadId, false))))
    | none => some (s.setPc i .missed)
  | .start, .raises _ => some (s.setPc i (.done none))
  | .missed, .returns => some (s.enter i)
  | .waiting lock, .returns =>
    if s.free lock ∧ s.firstWaiting lock = some i then
      some { s.setPc i (.locked lock) with queue := s.queue.filter (· ≠ i) }
    else none
  | .locked lock, .returns => match config.lookupThreadId s.stores with
    | some threadId => some (s.leave i (some (threadId, false)))
    | none => some (s.setPc i (.creating lock))
  | .creating lock, .created threadId =>
    some (s.setPc i (.storing lock (c.preferred.getD threadId)))
  | .creating lock, .conflict => match c.preferred with
    | none => some (s.leave i none)
    | some _ => some (s.setPc i (.verifying lock))
  | .verifying lock, .returns => match c.preferred with
    | none => none
    | some threadId => some (s.setPc i (.storing lock threadId))
  | .storing _ threadId, .returns =>
    some ((store config s c threadId).leave i (some (threadId, true)))
  | .storing _ threadId, .raises true => some ((store config s c threadId).leave i none)
  | .locked _, .raises _ | .creating _, .raises _ | .verifying _, .raises _
  | .storing .., .raises false => some (s.leave i none)
  | _, _ => none

/-- A call that is cancelled inside the `try` drops the entry of the registry too. -/
def cancelCall (s : ChannelManager) (i : Nat) (c : ThreadCall) : Option ChannelManager :=
  match c.pc with
  | .done _ => none
  | .start | .missed => some (s.setPc i (.done none))
  | _ => some (s.leave i none)

def step (config : ManagerConfig) (s : ChannelManager) : ManagerEvent → Option ChannelManager
  | .call ownerUserId preferred =>
    some { s with calls := s.calls ++ [⟨ownerUserId, preferred, .start⟩] }
  | .step i answer => s.calls[i]?.bind fun c => callStep config s i c answer
  | .cancel i => s.calls[i]?.bind fun c => s.cancelCall i c

end ChannelManager

def channelManager (config : ManagerConfig) (stores : ThreadStores) :
    System ChannelManager ManagerEvent :=
  .ofFn (.start config stores) (ChannelManager.step config)

end DeerFlow.Channels
