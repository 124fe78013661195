import DeerFlow.Lib.PosixPath
import DeerFlow.Lib.Transition

/-! The read-before-write gate over the tool calls of one conversation. A call takes the lock of
its scope and path, and a write is checked against the read marks in its messages before its
handler runs. The lock is a thread lock: an async call acquires it in a worker thread, and may be
cancelled at each of its awaits while that thread goes on. -/

namespace DeerFlow.Middlewares
open Transition

/-- `additional_kwargs["deerflow_read_mark"]` where it is a dict. A value that is not a string is
`none`. -/
structure ReadMark where
  path : Option Text
  hash : Option String
  deriving DecidableEq

inductive MessageStatus where
  | success
  | error
  deriving DecidableEq

structure ToolMessage where
  content : String
  toolCallId : String
  name : String
  status : MessageStatus
  readMark : Option ReadMark
  deriving DecidableEq

inductive Message where
  | tool (message : ToolMessage)
  | other
  deriving DecidableEq

/-- A message, or a command with the messages of its update, where that is a dict. -/
inductive ToolResult where
  | message (m : ToolMessage)
  | command (messages : Option (List Message))
  deriving DecidableEq

/-- The strings that the gate reads: the arguments' path, the thread of the context and the
sandbox of the state, each where it is there and is a string. -/
structure ToolCallRequest where
  name : Option String
  id : Option String
  path : Option Text
  threadId : Option String
  sandboxId : Option String
  messages : List Message
  deriving DecidableEq

inductive GatedTool where
  | write
  | read
  deriving DecidableEq

/-- What the content reader comes to: a text, `FileNotFoundError`, or another exception. -/
inductive Reading where
  | content (text : Text)
  | fileNotFound
  | failed
  deriving DecidableEq

namespace ToolCallRequest

/-- `_GATED_WRITE_TOOLS` and `_READ_TOOLS`. -/
def gatedTool? (r : ToolCallRequest) : Option GatedTool :=
  if r.name = some "write_file" ∨ r.name = some "str_replace" then some .write
  else if r.name = some "read_file" then some .read
  else none

def requestedPath (r : ToolCallRequest) : Option Text := r.path.filter fun path => path ≠ []

def lockScope (r : ToolCallRequest) : String :=
  ((r.threadId.filter fun id => id ≠ "").or (r.sandboxId.filter fun id => id ≠ "")).getD "global"

def blockMessage (toolName path : String) : String :=
  "Error: " ++ toolName ++ " blocked — " ++ path ++
    " already exists and you have not read its current version. " ++
    "Any write invalidates earlier reads, so re-read before every modification. " ++
    "Call read_file on it (a ranged read of the relevant section is enough, e.g. the last ~30 " ++
    "lines before an append), check what is already there, then retry."

def blocked (r : ToolCallRequest) (path : Text) : ToolMessage where
  content := blockMessage (r.name.getD "write") (String.ofList path)
  toolCallId := r.id.getD "None"
  name := r.name.getD "write"
  status := .error
  readMark := none

end ToolCallRequest

/-- Some sandboxes report a failed read as a text. -/
def uninspectable (text : Text) : Bool := "Error:".toList.isPrefixOf text

def Message.markFor? (normPath : Text) : Message → Option ReadMark
  | tool m => m.readMark.filter fun mark => mark.path = some normPath
  | other => none

def latestMarkHash (messages : List Message) (normPath : Text) : Option String :=
  (messages.reverse.findSome? fun m => m.markFor? normPath).bind (·.hash)

def Message.toolMessage? : Message → Option ToolMessage
  | tool m => some m
  | other => none

/-- The last tool message gets the mark. -/
def stampLast (mark : ReadMark) : List Message → List Message
  | [] => []
  | .other :: rest => .other :: stampLast mark rest
  | .tool m :: rest =>
    if rest.any fun x => x.toolMessage?.isSome then .tool m :: stampLast mark rest
    else .tool { m with readMark := some mark } :: rest

namespace ToolResult

def extractToolMessage : ToolResult → Option ToolMessage
  | message m => some m
  | command messages => ((messages.getD []).filterMap Message.toolMessage?).getLast?

def stamp (mark : ReadMark) : ToolResult → ToolResult
  | message m => .message { m with readMark := some mark }
  | command messages => .command (messages.map (stampLast mark))

end ToolResult

section Gate
variable (contentHash : Text → String)

/-- The message that blocks a write, or none. -/
def checkWriteGate (r : ToolCallRequest) (current : Reading) : Option ToolMessage :=
  r.requestedPath.bind fun path =>
    match current with
    | .fileNotFound | .failed => none
    | .content text =>
      if uninspectable text then none
      else if latestMarkHash r.messages (Posix.normpath path) = some (contentHash text) then none
      else some (r.blocked path)

def attachReadMark (r : ToolCallRequest) (current : Reading) (result : ToolResult) : ToolResult :=
  match r.requestedPath, result.extractToolMessage, current with
  | some path, some m, .content text =>
    if m.status = .error ∨ uninspectable text then result
    else result.stamp ⟨some (Posix.normpath path), some (contentHash text)⟩
  | _, _, _ => result

end Gate

inductive Wrapper where
  | sync
  | async
  deriving DecidableEq

/-- The thread that runs `lock.acquire`: not yet picked up by the executor, or blocked, or through
while its call has not resumed. -/
inductive Acquire where
  | queued
  | blocked
  | acquired
  deriving DecidableEq

/-- The body of the tool, which an async handler runs in a thread. -/
inductive Body where
  | pending
  | running
  | ended (result : ToolResult)
  deriving DecidableEq

/-- What still runs for a call that was cancelled. -/
inductive Leftover where
  | nothing
  | acquire
  | body
  deriving DecidableEq

inductive GatePc where
  | acquiring (thread : Acquire)
  | checking (verdict : Option (Option ToolMessage))
  | handling (body : Body)
  | attaching (result : ToolResult) (done : Bool)
  | returned (result : ToolResult)
  | raised
  | cancelled (left : Leftover)
  deriving DecidableEq

structure GateCall where
  wrapper : Wrapper
  tool : GatedTool
  request : ToolCallRequest
  path : Text
  /-- The lock object that the call got from `_get_gate_lock`. -/
  lock : Nat
  pc : GatePc
  /-- What the check of a write has found. -/
  found : Option Reading
  deriving DecidableEq

/-- A lock of `_GATE_LOCKS`, which forgets it once nothing refers to it. -/
structure GateLock where
  key : String × Text
  locked : Bool
  registered : Bool
  deriving DecidableEq

structure GateState where
  locks : List GateLock
  calls : List GateCall
  deriving DecidableEq

/-- The thread of a call moves on, its coroutine resumes, an exception leaves the critical
section, or the call is cancelled. -/
inductive CallEvent where
  | pickUp
  | acquire
  | check (current : Reading)
  | launch
  | finish (result : ToolResult)
  | attach (current : Reading)
  | resume
  | fail
  | cancel
  deriving DecidableEq

inductive GateEvent where
  | start (wrapper : Wrapper) (request : ToolCallRequest)
  | call (i : Nat) (event : CallEvent)
  | collect (lock : Nat)
  deriving DecidableEq

/-- What a move does to the lock of its call. -/
inductive LockUse where
  | keep
  | take
  | release
  deriving DecidableEq

namespace GateCall

def normPath (c : GateCall) : Text := Posix.normpath c.path

def key (c : GateCall) : String × Text := (c.request.lockScope, c.normPath)

def setPc (c : GateCall) (pc : GatePc) : GateCall := { c with pc := pc }

/-- Where an async call goes when it is cancelled. Before the `try` nothing is released; a thread
that runs cannot be stopped. -/
def cancel (c : GateCall) : Option (LockUse × GateCall) :=
  match c.pc with
  | .acquiring .queued => some (.keep, c.setPc (.cancelled .nothing))
  | .acquiring .blocked => some (.keep, c.setPc (.cancelled .acquire))
  | .acquiring .acquired => some (.keep, c.setPc (.cancelled .nothing))
  | .handling .running => some (.release, c.setPc (.cancelled .body))
  | .checking _ | .handling _ | .attaching _ _ => some (.release, c.setPc (.cancelled .nothing))
  | .returned _ | .raised | .cancelled _ => none

/-- The call goes on when its thread has done what it waits for. -/
def resume (c : GateCall) : Option (LockUse × GateCall) :=
  match c.pc with
  | .acquiring .acquired =>
    match c.tool with
    | .write => some (.keep, c.setPc (.checking none))
    | .read => some (.keep, c.setPc (.handling .pending))
  | .checking (some none) => some (.keep, c.setPc (.handling .pending))
  | .checking (some (some blocked)) => some (.release, c.setPc (.returned (.message blocked)))
  | .handling (.ended result) =>
    match c.tool with
    | .write => some (.release, c.setPc (.returned result))
    | .read => some (.keep, c.setPc (.attaching result false))
  | .attaching result true => some (.release, c.setPc (.returned result))
  | _ => none

variable (contentHash : Text → String)

def move (c : GateCall) : CallEvent → Option (LockUse × GateCall)
  | .pickUp =>
    match c.pc with
    | .acquiring .queued => some (.keep, c.setPc (.acquiring .blocked))
    | _ => none
  | .acquire =>
    match c.pc with
    | .acquiring .blocked => some (.take, c.setPc (.acquiring .acquired))
    | .cancelled .acquire => some (.take, c.setPc (.cancelled .nothing))
    | _ => none
  | .check current =>
    match c.pc with
    | .checking none =>
      some (.keep, { c with
        pc := .checking (some (checkWriteGate contentHash c.request current))
        found := some current })
    | _ => none
  | .launch =>
    match c.pc with
    | .handling .pending => some (.keep, c.setPc (.handling .running))
    | _ => none
  | .finish result =>
    match c.pc with
    | .handling .running => some (.keep, c.setPc (.handling (.ended result)))
    | .cancelled .body => some (.keep, c.setPc (.cancelled .nothing))
    | _ => none
  | .attach current =>
    match c.pc with
    | .attaching result false =>
      some (.keep, c.setPc (.attaching (attachReadMark contentHash c.request current result) true))
    | _ => none
  | .resume => c.resume
  | .fail =>
    match c.pc with
    | .checking _ | .handling _ | .attaching _ _ => some (.release, c.setPc .raised)
    | _ => none
  | .cancel => if c.wrapper = .async then c.cancel else none

/-- The call has not ended. -/
def inProgress (c : GateCall) : Bool :=
  match c.pc with
  | .acquiring _ | .checking _ | .handling _ | .attaching _ _ => true
  | .returned _ | .raised | .cancelled _ => false

/-- The call, or the thread that still acquires for it, keeps its lock object alive. -/
def refersTo (c : GateCall) (l : Nat) : Bool :=
  c.lock = l ∧ (c.inProgress ∨ c.pc = .cancelled .acquire)

end GateCall

namespace GateState

def init : GateState := ⟨[], []⟩

/-- The lock that `_GATE_LOCKS` has for a key. -/
def lockFor? (s : GateState) (key : String × Text) : Option Nat :=
  s.locks.findIdx? fun lock => lock.registered ∧ lock.key = key

def getGateLock (s : GateState) (key : String × Text) : Nat × List GateLock :=
  match s.lockFor? key with
  | some l => (l, s.locks)
  | none => (s.locks.length, s.locks ++ [⟨key, false, true⟩])

/-- A sync call acquires in its own thread. -/
def start (s : GateState) (wrapper : Wrapper) (r : ToolCallRequest) (tool : GatedTool)
    (path : Text) : GateState :=
  let found := s.getGateLock (r.lockScope, Posix.normpath path)
  let thread := if wrapper = .sync then .blocked else .queued
  { locks := found.2, calls := s.calls ++ [⟨wrapper, tool, r, path, found.1, .acquiring thread, none⟩] }

def setLocked (s : GateState) (l : Nat) (locked : Bool) : GateState :=
  { s with locks := s.locks.modify l fun lock => { lock with locked := locked } }

/-- A lock that is taken was free. -/
def useLock (s : GateState) (l : Nat) : LockUse → Option GateState
  | .keep => some s
  | .take => if s.locks[l]?.any (fun lock => !lock.locked) then some (s.setLocked l true) else none
  | .release => some (s.setLocked l false)

def setCall (s : GateState) (i : Nat) (c : GateCall) : GateState :=
  { s with calls := s.calls.modify i fun _ => c }

def step (contentHash : Text → String) (s : GateState) : GateEvent → Option GateState
  | .start wrapper r =>
    match r.gatedTool?, r.requestedPath with
    | some tool, some path => some (s.start wrapper r tool path)
    -- other calls go to their handler as they are
    | _, _ => some s
  | .call i event =>
    s.calls[i]?.bind fun c =>
      (c.move contentHash event).bind fun (lockUse, c') =>
        (s.useLock c.lock lockUse).map fun t => t.setCall i c'
  | .collect l =>
    if s.calls.any (fun c => c.refersTo l) then none
    else some { s with locks := s.locks.modify l fun lock => { lock with registered := false } }

end GateState

/-- The gate over every order of the calls' steps, their cancellations and the file's contents. -/
def readBeforeWrite (contentHash : Text → String) : System GateState GateEvent :=
  System.ofFn .init (GateState.step contentHash)

end DeerFlow.Middlewares
