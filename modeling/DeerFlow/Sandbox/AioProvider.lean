import DeerFlow.Lib.Assoc
import DeerFlow.Lib.Json
import DeerFlow.Lib.Transition

/-! The provider of containers. Its maps change in sections under one lock, and the backend is
called between two sections; an acquire also holds the lock of its user and thread. Every section
and every call of the backend is one step. -/

namespace DeerFlow.Sandbox
open Transition

abbrev SandboxId := Text

/-- `(user_id, thread_id)`. -/
abbrev ThreadKey := Text × Text

/-- The maps. A sandbox info is known by the object it is, which `is` compares. -/
structure Provider where
  sandboxes : Assoc SandboxId Nat
  sandboxInfos : Assoc SandboxId Nat
  lastActivity : Assoc SandboxId Rat
  threadSandboxes : Assoc ThreadKey SandboxId
  /-- The info and the time of the release. -/
  warmPool : Assoc SandboxId (Nat × Rat)
  shutdownCalled : Bool

/-- The two caches: the active sandbox of the thread, and the warm pool. -/
inductive Cache where
  | inProcess
  | warm
  deriving DecidableEq

/-- What follows a call of `backend.destroy` in an acquire. -/
inductive Next where
  | missed (cache : Cache) (postLock : Bool)
  | create
  | raise
  deriving DecidableEq

/-- Where an acquire is. `lookup` and `confirm` are the two sections around the health check of a
cache, and `drop` is the section that takes out what failed it. -/
inductive AcquirePc where
  | waiting
  | lookup (cache : Cache) (postLock : Bool)
  | check (cache : Cache) (postLock : Bool) (id : SandboxId) (info : Option Nat)
  | drop (cache : Cache) (postLock : Bool) (id : SandboxId) (info : Nat)
  | confirm (cache : Cache) (postLock : Bool) (id : SandboxId)
  | discover
  | registerDiscovered
  | replicas
  | evict
  | create
  | ready
  | registerCreated
  | stopping (id : SandboxId) (next : Next)
  | returned (id : SandboxId)
  | ended
  deriving DecidableEq

structure Acquire where
  /-- The user and the thread, if there is a thread. -/
  owner : Option ThreadKey
  sandboxId : SandboxId
  isAsync : Bool
  /-- The coroutine was cancelled; the function it had handed to a thread goes on to its end. -/
  abandoned : Bool
  pc : AcquirePc
  deriving DecidableEq

/-- What the other methods still have to do, one section or backend call at a time. -/
inductive Task where
  | mark (now : Rat)
  | recheck (id : SandboxId)
  | remove (id : SandboxId)
  | stop (id : SandboxId)
  | readTime
  | reap (now : Rat)
  deriving DecidableEq

/-- What the backend, the readiness poll or the file system says. -/
inductive Answer where
  | yes
  | no
  | raises
  deriving DecidableEq

/-- `containers` are those that run, marked once `backend.create` has returned for them. `inUse`
has the ids that an acquire has returned and that were neither given up nor found dead, with the
time of that acquire or of the last `get`. -/
structure Aio where
  provider : Provider
  containers : Assoc SandboxId Bool
  clock : Rat
  nextInfo : Nat
  acquires : List Acquire
  jobs : List (List Task)
  inUse : Assoc SandboxId Rat

inductive AioEvent where
  | acquire (owner : Option ThreadKey) (uuid : SandboxId) (isAsync : Bool)
  | advance (i : Nat) (answer : Answer)
  | cancel (i : Nat)
  | get (id : SandboxId)
  | release (id : SandboxId)
  | destroy (id : SandboxId)
  | cleanupIdle
  | shutdown
  | work (j : Nat) (answer : Answer)
  | tick (d : Rat)
  | start (id : SandboxId)
  | die (id : SandboxId)
  deriving DecidableEq

namespace Provider

def init : Provider := ⟨.empty, .empty, .empty, .empty, .empty, false⟩

/-- The entries that every way to a sandbox makes. -/
def track (p : Provider) (owner : Option ThreadKey) (id : SandboxId) (info : Nat) (now : Rat) :
    Provider :=
  { p with
    sandboxes := p.sandboxes.set id info
    sandboxInfos := p.sandboxInfos.set id info
    lastActivity := p.lastActivity.set id now
    threadSandboxes :=
      match owner with
      | none => p.threadSandboxes
      | some key => p.threadSandboxes.set key id }

/-- What leaves the active maps with a sandbox. -/
def untrack (p : Provider) (id : SandboxId) : Provider :=
  { p with
    sandboxes := p.sandboxes.erase id
    sandboxInfos := p.sandboxInfos.erase id
    lastActivity := p.lastActivity.erase id
    threadSandboxes := p.threadSandboxes.keep fun e => e.2 ≠ id }

/-- `active_info is expected_info or warm_info is expected_info` -/
def tracks (p : Provider) (id : SandboxId) (info : Nat) : Bool :=
  p.sandboxInfos.find id = some info || (p.warmPool.find id).map (·.1) = some info

/-- The info that `_remove_tracked_sandbox` returns. -/
def trackedInfo (p : Provider) (id : SandboxId) : Option Nat :=
  (p.sandboxInfos.find id).or ((p.warmPool.find id).map (·.1))

def removeTrackedSandbox (p : Provider) (id : SandboxId) : Provider :=
  { p.untrack id with warmPool := p.warmPool.erase id }

/-- The first section of `_reuse_in_process_sandbox` or `_reclaim_warm_pool_sandbox`: the id to
check, and its info. -/
def lookup (p : Provider) (owner : Option ThreadKey) (sandboxId : SandboxId) :
    Cache → Provider × Option (SandboxId × Option Nat)
  | .inProcess =>
    match owner with
    | none => (p, none)
    | some key =>
      match p.threadSandboxes.find key with
      | none => (p, none)
      | some existing =>
        if (p.sandboxes.find existing).isSome then
          (p, some (existing, p.sandboxInfos.find existing))
        else ({ p with threadSandboxes := p.threadSandboxes.erase key }, none)
  | .warm =>
    match owner with
    | none => (p, none)
    | some _ => (p, (p.warmPool.find sandboxId).map fun e => (sandboxId, some e.1))

/-- The second section, and whether it has found the sandbox again. -/
def confirm (p : Provider) (owner : Option ThreadKey) (id : SandboxId) (now : Rat) :
    Cache → Provider × Bool
  | .inProcess =>
    match owner with
    | none => (p, false)
    | some key =>
      if p.threadSandboxes.find key = some id then
        if (p.sandboxes.find id).isSome then
          ({ p with lastActivity := p.lastActivity.set id now }, true)
        else ({ p with threadSandboxes := p.threadSandboxes.erase key }, false)
      else (p, false)
  | .warm =>
    match p.warmPool.find id with
    | none => (p, false)
    | some e => ({ p with warmPool := p.warmPool.erase id }.track owner id e.1 now, true)

/-- The warm entry with the smallest timestamp, the first of them. -/
def oldestWarm (p : Provider) : Option SandboxId :=
  (p.warmPool.rows.find? fun e => p.warmPool.rows.all fun e' => e.2.2 ≤ e'.2.2).map (·.1)

/-- The second value of `_replica_count`. -/
def replicaCount (p : Provider) : Nat := p.sandboxes.rows.length + p.warmPool.rows.length

def get (p : Provider) (id : SandboxId) (now : Rat) : Provider :=
  if (p.sandboxes.find id).isSome then { p with lastActivity := p.lastActivity.set id now } else p

def release (p : Provider) (id : SandboxId) (now : Rat) : Provider :=
  { p.untrack id with
    warmPool :=
      match p.sandboxInfos.find id with
      | none => p.warmPool
      | some info =>
        if (p.warmPool.find id).isNone then p.warmPool.set id (info, now) else p.warmPool }

/-- The active sandboxes that `_cleanup_idle_sandboxes` marks. -/
def idle (p : Provider) (timeout now : Rat) : List SandboxId :=
  (p.lastActivity.rows.filter fun e => timeout < now - e.2).map (·.1)

/-- The warm sandboxes that `_reap_expired_warm` takes out. -/
def expired (p : Provider) (timeout now : Rat) : List SandboxId :=
  (p.warmPool.rows.filter fun e => timeout < now - e.2.2).map (·.1)

def reap (p : Provider) (timeout now : Rat) : Provider :=
  { p with warmPool := p.warmPool.keep fun e => !decide (timeout < now - e.2.2) }

end Provider

namespace Acquire

/-- The acquire holds the lock of its thread, if it has one. -/
def inside (c : Acquire) : Bool :=
  !c.abandoned &&
    match c.pc with
    | .waiting | .returned _ | .ended => false
    | _ => true

/-- Where the acquire goes on, at the end of a function that a coroutine hands to a thread. -/
def proceed (c : Acquire) (pc : AcquirePc) : AcquirePc := if c.abandoned then .ended else pc

/-- What follows a cache that does not have the sandbox. Under the file lock both caches are looked
at again, by one function. -/
def missed (c : Acquire) : Cache → Bool → AcquirePc
  | .inProcess, false => c.proceed (.lookup .warm false)
  | .inProcess, true => .lookup .warm true
  | .warm, false => c.proceed (if c.owner.isSome then .lookup .inProcess true else .replicas)
  | .warm, true => c.proceed .discover

def next (c : Acquire) : Next → AcquirePc
  | .missed cache postLock => c.missed cache postLock
  | .create => c.proceed .create
  | .raise => .ended

end Acquire

namespace Aio

def goTo (s : Aio) (i : Nat) (pc : AcquirePc) : Aio :=
  { s with acquires := s.acquires.modify i fun c => { c with pc := pc } }

def abandon (s : Aio) (i : Nat) : Aio :=
  { s with acquires := s.acquires.modify i fun c => { c with abandoned := true } }

def setJob (s : Aio) (j : Nat) (job : List Task) : Aio := { s with jobs := s.jobs.set j job }

def addJob (s : Aio) (job : List Task) : Aio := { s with jobs := s.jobs ++ [job] }

def withProvider (s : Aio) (p : Provider) : Aio := { s with provider := p }

def locked (s : Aio) (owner : Option ThreadKey) : Bool :=
  s.acquires.any fun c => decide (c.owner = owner) && c.inside

/-- The id is in the hands of a caller, or of nobody when the coroutine was cancelled. -/
def obtain (s : Aio) (i : Nat) (c : Acquire) (id : SandboxId) : Aio :=
  if c.abandoned then s.goTo i .ended
  else { s.goTo i (.returned id) with inUse := s.inUse.set id s.clock }

/-- `_register_discovered_sandbox` and `_register_created_sandbox`. -/
def register (s : Aio) (i : Nat) (c : Acquire) : Aio :=
  { s with
    provider := s.provider.track c.owner c.sandboxId s.nextInfo s.clock
    nextInfo := s.nextInfo + 1 }.obtain i c c.sandboxId

/-- `backend.destroy`. Only a yes means that the container has stopped. -/
def backendDestroy (s : Aio) (id : SandboxId) (answer : Answer) : Aio :=
  if answer = .yes then { s with containers := s.containers.erase id } else s

section Step
variable (idOf : ThreadKey → SandboxId) (timeout : Rat) (replicas : Int)

def acquire (s : Aio) (owner : Option ThreadKey) (uuid : SandboxId) (isAsync : Bool) : Aio :=
  let pc := if owner.isSome then .waiting else .lookup .inProcess false
  { s with acquires := s.acquires ++ [⟨owner, (owner.map idOf).getD uuid, isAsync, false, pc⟩] }

def advanceLookup (s : Aio) (i : Nat) (c : Acquire) (cache : Cache) (postLock : Bool) : Aio :=
  let (p, found) := s.provider.lookup c.owner c.sandboxId cache
  match found with
  | none => (s.withProvider p).goTo i (c.missed cache postLock)
  | some (id, info) => (s.withProvider p).goTo i (.check cache postLock id info)

def advanceCheck (s : Aio) (i : Nat) (cache : Cache) (postLock : Bool) (id : SandboxId)
    (info : Option Nat) (answer : Answer) : Aio :=
  match info with
  | none => s.goTo i (.confirm cache postLock id)
  | some object =>
    if answer = .no then
      { s.goTo i (.drop cache postLock id object) with inUse := s.inUse.erase id }
    else s.goTo i (.confirm cache postLock id)

/-- `_drop_unhealthy_sandbox` up to the backend. -/
def advanceDrop (s : Aio) (i : Nat) (c : Acquire) (cache : Cache) (postLock : Bool)
    (id : SandboxId) (info : Nat) : Aio :=
  if s.provider.tracks id info then
    (s.withProvider (s.provider.removeTrackedSandbox id)).goTo i
      (match s.provider.trackedInfo id with
      | none => c.missed cache postLock
      | some _ => .stopping id (.missed cache postLock))
  else s.goTo i (c.missed cache postLock)

def advanceConfirm (s : Aio) (i : Nat) (c : Acquire) (cache : Cache) (postLock : Bool)
    (id : SandboxId) : Aio :=
  let (p, found) := s.provider.confirm c.owner id s.clock cache
  if found then (s.withProvider p).obtain i c id
  else (s.withProvider p).goTo i (c.missed cache postLock)

/-- `_evict_oldest_warm` up to the backend. -/
def advanceEvict (s : Aio) (i : Nat) (c : Acquire) : Aio :=
  match s.provider.oldestWarm with
  | none => s.goTo i (c.proceed .create)
  | some id =>
    (s.withProvider { s.provider with warmPool := s.provider.warmPool.erase id }).goTo i
      (.stopping id .create)

/-- One step of `acquire` or `acquire_async`. -/
def advance (s : Aio) (i : Nat) (c : Acquire) (answer : Answer) : Option Aio :=
  match c.pc with
  | .waiting => if s.locked c.owner then none else some (s.goTo i (.lookup .inProcess false))
  | .lookup cache postLock =>
    -- the directories of the thread and its lock file come before the second look
    if cache = .inProcess ∧ postLock = true ∧ answer = .raises then some (s.goTo i .ended)
    else some (s.advanceLookup i c cache postLock)
  | .check cache postLock id info => some (s.advanceCheck i cache postLock id info answer)
  | .drop cache postLock id info => some (s.advanceDrop i c cache postLock id info)
  | .confirm cache postLock id => some (s.advanceConfirm i c cache postLock id)
  | .discover =>
    match answer with
    | .yes =>
      if (s.containers.find c.sandboxId).isSome then
        some (s.goTo i (c.proceed .registerDiscovered))
      else none
    | .no => some (s.goTo i (c.proceed .replicas))
    | .raises => some (s.goTo i .ended)
  | .registerDiscovered | .registerCreated => some (s.register i c)
  | .replicas =>
    if answer = .raises then some (s.goTo i .ended)
    else some (s.goTo i (if replicas ≤ s.provider.replicaCount then .evict else .create))
  | .evict => some (s.advanceEvict i c)
  | .create =>
    if answer = .yes then
      some ({ s with containers := s.containers.set c.sandboxId true }.goTo i (c.proceed .ready))
    else some (s.goTo i .ended)
  | .ready =>
    match answer with
    | .yes => some (s.goTo i .registerCreated)
    | .no => some (s.goTo i (.stopping c.sandboxId .raise))
    | .raises => some (s.goTo i .ended)
  | .stopping id next => some ((s.backendDestroy id answer).goTo i (c.next next))
  | .returned _ | .ended => none

/-- A cancellation at an await of `acquire_async`. -/
def cancel (s : Aio) (i : Nat) (c : Acquire) : Option Aio :=
  if c.isAsync && !c.abandoned then
    match c.pc with
    | .waiting | .replicas | .ready => some (s.goTo i .ended)
    | .lookup _ _ | .check _ _ _ _ | .drop _ _ _ _ | .confirm _ _ _ | .discover | .evict
    | .create | .stopping _ _ => some (s.abandon i)
    | .registerDiscovered | .registerCreated | .returned _ | .ended => none
  else none

def get (s : Aio) (id : SandboxId) : Aio :=
  { s with
    provider := s.provider.get id s.clock
    inUse := if (s.provider.sandboxes.find id).isSome then s.inUse.alter id s.clock else s.inUse }

def release (s : Aio) (id : SandboxId) : Aio :=
  { s with provider := s.provider.release id s.clock, inUse := s.inUse.erase id }

def destroy (s : Aio) (id : SandboxId) : Aio :=
  { s.addJob [.remove id] with inUse := s.inUse.erase id }

def shutdown (s : Aio) : Aio :=
  if s.provider.shutdownCalled then s
  else
    { s.addJob (s.provider.sandboxes.rows.map (fun e => .remove e.1) ++
        s.provider.warmPool.rows.map fun e => .stop e.1) with
      provider := { s.provider with shutdownCalled := true, warmPool := .empty }
      inUse := .empty }

/-- One step of `_cleanup_idle_sandboxes`, `_reap_expired_warm`, `destroy` or `shutdown`. -/
def work (s : Aio) (j : Nat) (task : Task) (rest : List Task) (answer : Answer) : Aio :=
  match task with
  | .mark now => s.setJob j ((s.provider.idle timeout now).map .recheck ++ (.readTime :: rest))
  | .recheck id =>
    match s.provider.lastActivity.find id with
    | none => s.setJob j rest
    | some lastActivity =>
      if s.clock - lastActivity < timeout then s.setJob j rest
      else s.setJob j (.remove id :: rest)
  | .remove id =>
    (s.withProvider (s.provider.removeTrackedSandbox id)).setJob j
      (match s.provider.trackedInfo id with
      | none => rest
      | some _ => .stop id :: rest)
  | .stop id => (s.backendDestroy id answer).setJob j rest
  | .readTime => s.setJob j (.reap s.clock :: rest)
  | .reap now =>
    (s.withProvider (s.provider.reap timeout now)).setJob j
      ((s.provider.expired timeout now).map .stop ++ rest)

/-- One step. The idle checker runs where there is a timeout; `start` and `die` are what happens to
containers elsewhere. -/
def step (s : Aio) : AioEvent → Option Aio
  | .acquire owner uuid isAsync => some (s.acquire idOf owner uuid isAsync)
  | .advance i answer => s.acquires[i]?.bind fun c => s.advance replicas i c answer
  | .cancel i => s.acquires[i]?.bind fun c => s.cancel i c
  | .get id => some (s.get id)
  | .release id => some (s.release id)
  | .destroy id => some (s.destroy id)
  | .cleanupIdle => if 0 < timeout then some (s.addJob [.mark s.clock]) else none
  | .shutdown => some s.shutdown
  | .work j answer =>
    match s.jobs[j]? with
    | some (task :: rest) => some (s.work timeout j task rest answer)
    | some [] | none => none
  | .tick d => if 0 ≤ d then some { s with clock := s.clock + d } else none
  | .start id =>
    if (s.containers.find id).isSome then some s
    else some { s with containers := s.containers.set id false }
  | .die id => some { s with containers := s.containers.erase id }

/-- A provider after its constructor: it has adopted containers into the warm pool. -/
structure Started (s : Aio) : Prop where
  sandboxes : s.provider.sandboxes = .empty
  sandboxInfos : s.provider.sandboxInfos = .empty
  lastActivity : s.provider.lastActivity = .empty
  threadSandboxes : s.provider.threadSandboxes = .empty
  infos : ∀ e ∈ s.provider.warmPool.rows, e.2.1 < s.nextInfo
  containers : ∀ e ∈ s.containers.rows, e.2 = false
  acquires : s.acquires = []
  jobs : s.jobs = []
  inUse : s.inUse = .empty

def system : System Aio AioEvent where
  init := Started
  step s e t := s.step idOf timeout replicas e = some t

end Step

def start : Aio := ⟨.init, .empty, 0, 0, [], [], .empty⟩

theorem started_start : Started start := by
  constructor <;> simp [start, Provider.init, Table.empty]

theorem reachable_start {idOf : ThreadKey → SandboxId} {timeout : Rat} {replicas : Int} {s : Aio}
    (h : Reachable (System.ofFn start (step idOf timeout replicas)) s) :
    Reachable (system idOf timeout replicas) s := h.of_ofFn started_start fun _ _ _ ht => ht

theorem reachable_guarded {idOf : ThreadKey → SandboxId} {timeout : Rat} {replicas : Int} {s : Aio}
    {C : Aio → AioEvent → Prop} [∀ s event, Decidable (C s event)]
    (h : Reachable (System.ofFn start (guarded C (step idOf timeout replicas))) s) :
    Reachable ((system idOf timeout replicas).when C) s :=
  h.of_ofFn started_start fun _ _ _ ht => of_guarded ht

/-- The steps in which the `i`th acquire, of a thread that has no sandbox, creates one. -/
def creation (i : Nat) : List (Aio → AioEvent) :=
  let answers : List Answer := [.yes, .yes, .yes, .yes, .yes, .no, .yes, .yes, .yes, .yes]
  answers.map fun answer _ => .advance i answer

end Aio

end DeerFlow.Sandbox
