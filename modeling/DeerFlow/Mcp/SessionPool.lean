import DeerFlow.Lib.KeyedTable
import DeerFlow.Lib.Transition

/-! The pool of MCP sessions. Each session is owned by a task that enters and exits its context
manager; a call of `get_session` returns a registered session, joins a creation in flight, or
creates an owner. What a call does between two awaits is one step. -/

namespace DeerFlow.Mcp
open Transition

/-- `(server_name, scope_key)`. -/
abbrev SessionKey := String × String

inductive LoopStatus where
  | running
  | idle
  | closed
  deriving DecidableEq

inductive Failure where
  | cancelledError
  | other
  deriving DecidableEq

/-- Where a `_run_session` task is: not yet started, inside `__aenter__` or `initialize`, waiting
for its close event, or inside `__aexit__`. -/
inductive OwnerPc where
  | created
  | connecting
  | initializing
  | waiting
  | exiting
  | ended
  deriving DecidableEq

/-- The future through which an owner publishes its session. -/
inductive Ready where
  | pending
  | result
  | exception (failure : Failure)
  deriving DecidableEq

structure SessionOwner where
  key : SessionKey
  loop : Nat
  /-- The call of `get_session` that created the task. -/
  creator : Nat
  pc : OwnerPc
  ready : Ready
  closeEvt : Bool
  /-- `cancel` was called on the task. -/
  cancelled : Bool
  deriving DecidableEq

/-- What a call does after it has shut down what it took out of the registry. -/
inductive Next where
  | join (owner : Nat)
  | create (owner : Nat)
  | close
  deriving DecidableEq

/-- Where a call is: at the loop over what it took out, of which the owners still to be told
are left, with a flag for creations, which must be cancelled; at an await in that loop, on its own
loop or for another; or at one of its later awaits. A call of `close_*` returns no session. -/
inductive CallPc where
  | shutting (rest : List (Nat × Bool)) (next : Next)
  | awaitOwner (owner : Nat) (rest : List (Nat × Bool)) (next : Next)
  | awaitForeign (owner : Nat) (rest : List (Nat × Bool)) (next : Next)
  | joining (owner : Nat)
  | waiting (owner : Nat)
  | unwinding (owner : Nat) (failure : Failure)
  | dismissed (owner : Nat)
  | returned (owner : Option Nat)
  | raised (failure : Failure)
  deriving DecidableEq

structure PoolCall where
  loop : Nat
  pc : CallPc
  /-- The call was cancelled at an await. -/
  cancelled : Bool
  deriving DecidableEq

/-- `_entries` and `_inflight`, in insertion order, name the owner of each session. -/
structure SessionPool where
  entries : List (SessionKey × Nat)
  inflight : List (SessionKey × Nat)
  owners : List SessionOwner
  calls : List PoolCall
  loops : Nat → LoopStatus

/-- An owner goes on, fails at an await, is interrupted by a loop that shuts down, or takes
notice of a cancellation. -/
inductive OwnerAction where
  | proceed
  | fail
  | interrupt
  | beCancelled
  deriving DecidableEq

inductive PoolEvent where
  | getSession (key : SessionKey) (loop : Nat)
  | closeScope (scope : String) (loop : Nat)
  | closeServer (server : String) (loop : Nat)
  | closeAll (loop : Nat)
  | owner (o : Nat) (action : OwnerAction)
  | resume (i : Nat)
  | cancel (i : Nat)
  | loop (l : Nat) (status : LoopStatus)
  deriving DecidableEq

/-- The owners that a call still has to tell. -/
def CallPc.rest : CallPc → List (Nat × Bool)
  | shutting rest _ | awaitOwner _ rest _ | awaitForeign _ rest _ => rest
  | joining _ | waiting _ | unwinding _ _ | dismissed _ | returned _ | raised _ => []

def CallPc.ended : CallPc → Bool
  | returned _ | raised _ => true
  | _ => false

def SessionOwner.modify (w : SessionOwner) (pc : OwnerPc) (ready : Ready) : SessionOwner :=
  { w with pc := pc, ready := if w.ready = .pending then ready else w.ready }

/-- One step of `_run_session`. -/
def SessionOwner.act (w : SessionOwner) : OwnerAction → Option SessionOwner
  | .proceed =>
    match w.pc with
    | .created => some (w.modify .connecting w.ready)
    | .connecting => some (w.modify .initializing w.ready)
    | .initializing => some (w.modify .waiting .result)
    | .waiting => if w.closeEvt then some (w.modify .exiting w.ready) else none
    | .exiting => some (w.modify .ended w.ready)
    | .ended => none
  | .fail =>
    match w.pc with
    | .connecting => some (w.modify .ended (.exception .other))
    | .initializing => some (w.modify .exiting (.exception .other))
    | .exiting => some (w.modify .ended w.ready)
    | .created | .waiting | .ended => none
  | .interrupt => some { w with cancelled := true }
  | .beCancelled =>
    if w.cancelled then
      match w.pc with
      | .created => some (w.modify .ended w.ready)
      | .connecting => some (w.modify .ended (.exception .cancelledError))
      | .initializing | .waiting => some (w.modify .exiting (.exception .cancelledError))
      | .exiting => some (w.modify .ended w.ready)
      | .ended => none
    else none

namespace SessionPool

def init : SessionPool := ⟨[], [], [], [], fun _ => .running⟩

def entry? (s : SessionPool) (key : SessionKey) : Option Nat :=
  (s.entries.find? fun e => e.1 = key).map (·.2)

def inflight? (s : SessionPool) (key : SessionKey) : Option Nat :=
  (s.inflight.find? fun e => e.1 = key).map (·.2)

def loopOf (s : SessionPool) (o : Nat) : Option Nat := s.owners[o]?.map (·.loop)

def modifyOwner (s : SessionPool) (o : Nat) (f : SessionOwner → SessionOwner) : SessionPool :=
  { s with owners := s.owners.modify o f }

def setCall (s : SessionPool) (i : Nat) (pc : CallPc) : SessionPool :=
  { s with calls := s.calls.modify i fun c => { c with pc := pc } }

def markCancelled (s : SessionPool) (i : Nat) : SessionPool :=
  { s with calls := s.calls.modify i fun c => { c with cancelled := true } }

def addCall (s : SessionPool) (loop : Nat) (pc : CallPc) : SessionPool :=
  { s with calls := s.calls ++ [⟨loop, pc, false⟩] }

/-- A set close event, and a call of `cancel` where the flag says so. On another loop both happen
when that loop gets to it. -/
def tell (s : SessionPool) (o : Nat) (cancel : Bool) : SessionPool :=
  s.modifyOwner o fun w => { w with closeEvt := true, cancelled := w.cancelled || cancel }

def cancelOwner (s : SessionPool) (o : Nat) : SessionPool :=
  s.modifyOwner o fun w => { w with cancelled := true }

section Call
variable (maxSessions : Nat)

/-- A call becomes the creator of a session: it publishes a record in flight. -/
def createOwner (s : SessionPool) (key : SessionKey) (loop : Nat) (evicted : List (Nat × Bool)) :
    SessionPool :=
  { s.addCall loop (.shutting evicted (.create s.owners.length)) with
    inflight := s.inflight ++ [(key, s.owners.length)]
    owners := s.owners ++ [⟨key, loop, s.calls.length, .created, .pending, false, false⟩] }

def others (s : SessionPool) (key : SessionKey) : List (SessionKey × Nat) :=
  s.entries.filter fun e => e.1 ≠ key

def excess (s : SessionPool) (key : SessionKey) : Nat := (s.others key).length + 1 - maxSessions

def moved (s : SessionPool) (key : SessionKey) : List (Nat × Bool) :=
  (s.entry? key).toList.map (·, false)

def oldest (s : SessionPool) (key : SessionKey) : List (Nat × Bool) :=
  ((s.others key).take (s.excess maxSessions key)).map (·.2, false)

/-- The first phase of `get_session`, under the lock. -/
def getSession (s : SessionPool) (key : SessionKey) (loop : Nat) : SessionPool :=
  let registered := s.entry? key
  if registered.bind s.loopOf = some loop then
    { s.addCall loop (.returned registered) with
      entries := s.others key ++ s.entries.filter fun e => e.1 = key }
  else
    -- a session of another loop is evicted, and then the oldest ones while there are too many
    let kept := { s with entries := (s.others key).drop (s.excess maxSessions key) }
    match s.inflight? key with
    | none => kept.createOwner key loop (s.moved key ++ s.oldest maxSessions key)
    | some joined =>
      if s.loopOf joined = some loop then
        kept.addCall loop (.shutting (s.moved key ++ s.oldest maxSessions key) (.join joined))
      else
        { kept with inflight := s.inflight.filter fun e => e.1 ≠ key }.createOwner key loop
          (s.moved key ++ [(joined, true)] ++ s.oldest maxSessions key)

/-- What `close_scope`, `close_server` and `close_all` take out of the registry. -/
def closeWhere (s : SessionPool) (p : SessionKey → Bool) (loop : Nat) : SessionPool :=
  { s.addCall loop (.shutting
      ((s.entries.filter fun e => p e.1).map (·.2, false) ++
        (s.inflight.filter fun e => p e.1).map (·.2, true)) .close) with
    entries := s.entries.filter fun e => !p e.1
    inflight := s.inflight.filter fun e => !p e.1 }

/-- The shutdown of one owner: it is awaited on the loop of the call; a creation, and everything
that `close_*` shuts down, is awaited on another running loop; the others are only told. -/
def shutOne (s : SessionPool) (i loop o : Nat) (cancel : Bool) (rest : List (Nat × Bool))
    (next : Next) : SessionPool :=
  let ownerLoop := s.loopOf o
  if ownerLoop = some loop then (s.tell o cancel).setCall i (.awaitOwner o rest next)
  else
    match ownerLoop.map s.loops with
    | some .running =>
      if cancel || next = .close then (s.tell o cancel).setCall i (.awaitForeign o rest next)
      else (s.tell o cancel).setCall i (.shutting rest next)
    | some .idle => (s.tell o cancel).setCall i (.shutting rest next)
    | some .closed | none => s.setCall i (.shutting rest next)

/-- `_entries[key] = ...`, where the record in flight is still the one of the call. -/
def promote (s : SessionPool) (o : Nat) (key : SessionKey) : SessionPool :=
  { s with
    inflight := s.inflight.filter fun e => e.1 ≠ key
    entries := upsert Prod.fst (key, o) s.entries }

def dropInflight (s : SessionPool) (o : Nat) (key : SessionKey) : SessionPool :=
  if s.inflight? key = some o then { s with inflight := s.inflight.filter fun e => e.1 ≠ key }
  else s

def resume (s : SessionPool) (i : Nat) (c : PoolCall) : Option SessionPool :=
  match c.pc with
  | .shutting [] (.join o) => some (s.setCall i (.joining o))
  | .shutting [] (.create o) => some (s.setCall i (.waiting o))
  | .shutting [] .close => some (s.setCall i (.returned none))
  | .shutting ((o, cancel) :: rest) next => some (s.shutOne i c.loop o cancel rest next)
  | .awaitOwner o rest next | .awaitForeign o rest next => s.owners[o]?.bind fun w =>
    if w.pc = .ended then some (s.setCall i (.shutting rest next)) else none
  | .joining o => s.owners[o]?.bind fun w =>
    match w.ready with
    | .pending => none
    | .result => some (s.setCall i (.returned (some o)))
    | .exception failure => some (s.setCall i (.raised failure))
  | .waiting o => s.owners[o]?.bind fun w =>
    match w.ready with
    | .pending => none
    | .result =>
      if s.inflight? w.key = some o then some ((s.promote o w.key).setCall i (.returned (some o)))
      else some ((s.tell o false).setCall i (.dismissed o))
    | .exception failure => some (s.setCall i (.unwinding o failure))
  | .unwinding o failure => s.owners[o]?.bind fun w =>
    if w.pc = .ended then some ((s.dropInflight o w.key).setCall i (.raised failure)) else none
  | .dismissed o => s.owners[o]?.bind fun w =>
    if w.pc = .ended then some (s.setCall i (.raised .cancelledError)) else none
  | .returned _ | .raised _ => none

/-- A call is cancelled at an await. A plain await of an owner passes the cancellation on to the
owner, and `_shutdown` then takes no notice of it. -/
def cancelCall (s : SessionPool) (i : Nat) (c : PoolCall) : Option SessionPool :=
  let s := s.markCancelled i
  match c.pc with
  | .awaitOwner o _ _ | .dismissed o => some (s.cancelOwner o)
  | .awaitForeign o _ _ => some ((s.cancelOwner o).setCall i (.raised .cancelledError))
  | .joining _ => some (s.setCall i (.raised .cancelledError))
  | .waiting o => s.owners[o]?.map fun w =>
    match w.ready with
    | .exception _ => s.setCall i (.unwinding o .cancelledError)
    | .pending | .result => (s.tell o true).setCall i (.unwinding o .cancelledError)
  | .unwinding o failure => s.owners[o]?.map fun w =>
    (s.dropInflight o w.key).setCall i (.raised failure)
  | .shutting _ _ | .returned _ | .raised _ => none

end Call

/-- A loop is closed after all its tasks have ended. -/
def canClose (s : SessionPool) (l : Nat) : Bool :=
  s.owners.all (fun w => w.loop ≠ l || w.pc = .ended) &&
    s.calls.all fun c => c.loop ≠ l || c.pc.ended

def setLoop (s : SessionPool) (l : Nat) (status : LoopStatus) : SessionPool :=
  { s with loops := fun k => if k = l then status else s.loops k }

def step (maxSessions : Nat) (s : SessionPool) : PoolEvent → Option SessionPool
  | .getSession key l =>
    if s.loops l = .running then some (s.getSession maxSessions key l) else none
  | .closeScope scope l =>
    if s.loops l = .running then some (s.closeWhere (fun key => key.2 = scope) l) else none
  | .closeServer server l =>
    if s.loops l = .running then some (s.closeWhere (fun key => key.1 = server) l) else none
  | .closeAll l => if s.loops l = .running then some (s.closeWhere (fun _ => true) l) else none
  | .owner o action => s.owners[o]?.bind fun w =>
    if s.loops w.loop = .running then (w.act action).map fun w' => s.modifyOwner o fun _ => w'
    else none
  | .resume i => s.calls[i]?.bind fun c =>
    if s.loops c.loop = .running then s.resume i c else none
  | .cancel i => s.calls[i]?.bind fun c =>
    if s.loops c.loop = .running then s.cancelCall i c else none
  | .loop l status =>
    if s.loops l ≠ .closed ∧ (status = .closed → s.canClose l = true) then
      some (s.setLoop l status)
    else none

end SessionPool

def sessionPool (maxSessions : Nat) : System SessionPool PoolEvent :=
  System.ofFn .init (SessionPool.step maxSessions)

end DeerFlow.Mcp
