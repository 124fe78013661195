import DeerFlow.Runtime.Checkpoints
import DeerFlow.Runtime.RunLifecycle

/-! Rolling a run back. `run_agent` keeps the latest checkpoint of the thread when
it has marked its run as running, and puts it back when the run is aborted with
`rollback`. What it has not found yet it takes for an empty thread. -/

namespace DeerFlow.Runtime
open Transition

variable {σ : Type*}

/-- The awaits of `run_agent`, with those on which the checkpoints of the thread depend. -/
inductive AgentPc where
  | at_ (pc : RunPc)
  /-- In `capture_workspace_snapshot`. -/
  | workspaceSnapshot
  /-- In `aget_tuple`. -/
  | checkpointSnapshot
  /-- In `adelete_thread` or `aput`. -/
  | rollback (block : Block)
  /-- In `aput_writes`, with the tasks whose writes have still to be put. -/
  | rollbackWrites (block : Block) (checkpointId : String) (writes : Dict Writes)
  deriving DecidableEq

def AgentPc.pc : AgentPc → RunPc
  | .at_ pc => pc
  | .workspaceSnapshot | .checkpointSnapshot => .body
  | .rollback block | .rollbackWrites block _ _ => .rest block

/-- Where a move from `pc` to `pc'` leads. -/
def AgentPc.enter : RunPc → RunPc → AgentPc
  | .markRunning, .body => .workspaceSnapshot
  | .settle block .rolledBack, .rest _ => .rollback block
  | _, pc' => .at_ pc'

structure AgentRun (σ : Type*) where
  store : σ
  control : RunControl
  pc : AgentPc
  cancelling : Bool
  preRunCheckpointId : Option String
  preRunSnapshot : Option CheckpointTuple
  snapshotCaptureFailed : Bool

inductive AgentEvent (σ : Type*) where
  | task (move : TaskMove)
  | workspaceCaptured
  | tupleRead
  | tupleRaised
  /-- The agent, or the title of an interrupted run, has changed the checkpoints. What the agent
has begun to write is through, or older than the restore, when its stream is left. -/
  | wrote (store : σ)
  /-- `_rollback_to_pre_run_checkpoint` is through its first call; `marker` is for `aput`. -/
  | rolledBack (marker : Marker)
  | writesPut
  | cancel (action : AbortAction)
  | cancelTask

namespace AgentRun

def start (store : σ) (control : RunControl) : AgentRun σ where
  store := store
  control := control
  pc := .at_ .created
  cancelling := false
  preRunCheckpointId := none
  preRunSnapshot := none
  snapshotCaptureFailed := false

def task (s : AgentRun σ) : RunTask := ⟨s.pc.pc, s.cancelling⟩

/-- The checkpoint that is put back, if it has an id at all: `marker` takes the place of the
id and the time. -/
def checkpointToRestore (s : AgentRun σ) (snapshot : CheckpointTuple) (marker : Marker) :
    Option Checkpoint :=
  if (snapshot.checkpoint.id.or s.preRunCheckpointId).isNone then none
  else some { snapshot.checkpoint with id := some marker.id, ts := marker.ts }

/-- After the first call of the rollback: the store, and the await that follows. -/
def rollback (ck : Checkpointer σ) (s : AgentRun σ) (marker : Marker) (block : Block) :
    σ × AgentPc :=
  if s.snapshotCaptureFailed then (s.store, .at_ (.rest block))
  else match s.preRunSnapshot with
    | none => (ck.deleteThread s.store, .at_ (.rest block))
    | some snapshot =>
      match s.checkpointToRestore snapshot marker with
      | none => (s.store, .at_ (.rest block))
      | some checkpoint =>
        let put := ck.put s.store snapshot.checkpointNs checkpoint snapshot.metadata
          checkpoint.channelVersions
        match put.2.filter (· ≠ "") with
        | none => (put.1, .at_ (.rest block))
        | some id =>
          match Dict.gather (writesByTask snapshot.pendingWrites) with
          | [] => (put.1, .at_ (.rest block))
          | writes => (put.1, .rollbackWrites block id writes)

def abort (s : AgentRun σ) (action : AbortAction) : AgentRun σ :=
  { s with
    control := s.control.abort action s.task.Active
    cancelling := s.cancelling || s.task.Active }

end AgentRun

def AgentEvent.step (ck : Checkpointer σ) (s : AgentRun σ) : AgentEvent σ → Option (AgentRun σ)
  | .task move =>
    if move = .deliver ∨ s.pc = .at_ s.pc.pc then
      match s.task.next (some s.control) move with
      | none => none
      | some (t, call) => some { s with
          control := call.apply s.control
          pc := .enter s.pc.pc t.pc
          cancelling := t.cancelling }
    else none
  | .workspaceCaptured =>
    if s.pc = .workspaceSnapshot ∧ s.cancelling = false then
      some { s with pc := .checkpointSnapshot }
    else none
  | .tupleRead =>
    if s.pc = .checkpointSnapshot ∧ s.cancelling = false then
      let tuple := ck.getTuple s.store
      some { s with
        pc := .at_ .body
        preRunCheckpointId := tuple.bind CheckpointTuple.checkpointId
        preRunSnapshot := tuple }
    else none
  | .tupleRaised =>
    if s.pc = .checkpointSnapshot ∧ s.cancelling = false then
      some { s with pc := .at_ .body, snapshotCaptureFailed := true }
    else none
  | .wrote store =>
    if s.pc = .at_ .body ∨ s.pc = .at_ .finallyBlock ∧ s.control.status = .interrupted then
      some { s with store := store }
    else none
  | .rolledBack marker =>
    match s.pc with
    | .rollback block =>
      if s.cancelling = false ∧ ck.newest s.store marker then
        let after := s.rollback ck marker block
        some { s with store := after.1, pc := after.2 }
      else none
    | _ => none
  | .writesPut =>
    match s.pc with
    | .rollbackWrites block id ((taskId, writes) :: rest) =>
      if s.cancelling = false then
        some { s with
          store := ck.putWrites s.store (s.preRunSnapshot.elim "" CheckpointTuple.checkpointNs)
            id writes taskId
          pc := if rest.isEmpty then .at_ (.rest block) else .rollbackWrites block id rest }
      else none
    | _ => none
  | .cancel action => if s.control.Busy then some (s.abort action) else none
  | .cancelTask => some { s with cancelling := s.cancelling || s.task.Active }

def agentSystem (ck : Checkpointer σ) (store : σ) (control : RunControl) :
    System (AgentRun σ) (AgentEvent σ) :=
  .ofFn (AgentRun.start store control) (AgentEvent.step ck)

end DeerFlow.Runtime
