import DeerFlow.Lib.Transition
import DeerFlow.Runtime.GoalState

/-! The continuation loop of `run_agent` on one thread, with the goal writes that come between its
reads. Each step is one read or write of the thread's checkpoints; a run follows the one before
it, and what else is written to the thread leaves the goal as it is. -/

namespace DeerFlow.Runtime
open Transition

structure GoalCheckpoint where
  id : Nat
  messages : List GoalMessage
  goal : Option GoalState
  pendingWrites : Bool

/-- What was read of the checkpoint before the evaluation. -/
structure Evidence where
  checkpointId : Nat
  conversationSignature : List (MessageType × Text)
  evidenceSignature : Text

/-- The arguments of `_persist_goal_evaluation`. -/
structure Persisting where
  goal : GoalState
  evaluation : GoalEvaluation
  noProgressCount : Nat
  continuationCount : Option Nat
  standDownReason : Option Text
  evidenceSignature : Text

/-- Where a call of `_prepare_goal_continuation_input` stands, with the goal it read first. After
the persist that grants a turn it verifies; the other ones end it. -/
inductive Call where
  | start
  | readCheckpoint (goal : GoalState)
  | evaluate (goal : GoalState) (before : Evidence)
  | rereadGoal (goal : GoalState) (before : Evidence) (evaluation : GoalEvaluation)
  | rereadCheckpoint (goal : GoalState) (before : Evidence) (evaluation : GoalEvaluation)
    (current : Option GoalState)
  | clear (goal : GoalState)
  | writeCleared (expected : Nat)
  | persist (args : Persisting) (verify : Option (GoalState × Evidence))
  | writePersisted (args : Persisting) (current : GoalState) (expected : Nat)
    (verify : Option (GoalState × Evidence))
  | verifyGoal (goal updated : GoalState) (before : Evidence) (evaluation : GoalEvaluation)
  | verifyCheckpoint (goal updated : GoalState) (before : Evidence) (evaluation : GoalEvaluation)
    (latest : Option GoalState)

/-- A stream starts from the latest checkpoint or from the one the run was asked to branch from. -/
inductive Phase where
  | idle
  | loading (branch : Option Nat)
  | streaming (goal : Option GoalState)
  | preparing (call : Call)
  | finishing

/-- An input that a call returned: the goal it read, the one it persisted, and the content. -/
structure Continuation where
  goal : GoalState
  updated : GoalState
  content : Text

/-- The checkpoints are kept newest first. `made` are the goals that were set, `returned` the
inputs that were returned, newest first. -/
structure GoalThread where
  checkpoints : List GoalCheckpoint
  nextId : Nat
  phase : Phase
  runId : Text
  preRun : Option GoalCheckpoint
  made : List GoalState
  returned : List Continuation

namespace GoalThread

def empty : GoalThread := ⟨[], 0, .idle, [], none, [], []⟩

def latest (s : GoalThread) : Option GoalCheckpoint := s.checkpoints.head?

def latestGoal (s : GoalThread) : Option GoalState := s.latest.bind GoalCheckpoint.goal

/-- A new checkpoint gets a new id. -/
def put (s : GoalThread) (messages : List GoalMessage) (goal : Option GoalState)
    (pendingWrites : Bool) : GoalThread :=
  { s with
    checkpoints := ⟨s.nextId, messages, goal, pendingWrites⟩ :: s.checkpoints
    nextId := s.nextId + 1 }

/-- The locked part of a call is under way. -/
def locked (s : GoalThread) : Bool :=
  match s.phase with
  | .preparing (.writeCleared _) | .preparing (.writePersisted ..) => true
  | _ => false

/-- `write_thread_goal` on the latest checkpoint. -/
def writeGoal (s : GoalThread) (goal : Option GoalState) : GoalThread :=
  match s.latest with
  | none => s
  | some c => s.put c.messages goal c.pendingWrites

/-- `create_if_missing`. -/
def ensureCheckpoint (s : GoalThread) : GoalThread :=
  if s.checkpoints = [] then s.put [] none false else s

def enter (s : GoalThread) (phase : Phase) : GoalThread := { s with phase := phase }

def call (s : GoalThread) (c : Call) : GoalThread := s.enter (.preparing c)

/-- The call returns `None`, and the loop ends. -/
def leave (s : GoalThread) : GoalThread := s.enter .finishing

end GoalThread

section Steps
variable (sha256 : Text → Text)

def hasDurableGoalTurnReceipt (c : GoalCheckpoint) : Bool :=
  !c.pendingWrites && endsWithAssistant c.messages

def evidenceOf (c : GoalCheckpoint) : Evidence where
  checkpointId := c.id
  conversationSignature := visibleConversationSignature c.messages
  evidenceSignature := latestVisibleAssistantSignature sha256 c.messages

/-- What the evaluation of a turn without a receipt is taken to be. -/
def runFailed : GoalEvaluation where
  satisfied := false
  blocker := .runFailed
  reason := "No durable assistant end-of-turn receipt was available.".toList
  evidenceSummary := []

/-- The decision once the goal and the checkpoint were read again. -/
def goalDecision (g : GoalState) (before : Evidence) (e : GoalEvaluation) : Call :=
  let noProgressCount := computeNoProgressCount g e before.evidenceSignature
  let reason := standDownReason g e noProgressCount
  if e.satisfied then .clear g
  else if reason.isSome ∨ ¬ shouldContinueGoal g e noProgressCount then
    .persist ⟨g, e, noProgressCount, none, reason, before.evidenceSignature⟩ none
  else
    .persist ⟨g, e, noProgressCount, some (g.continuationCount + 1), none,
      before.evidenceSignature⟩ (some (g, before))

/-- The next read or write of the call. -/
def advance (s : GoalThread) (evaluation : GoalEvaluation) (now : Text) : Call → GoalThread
  | .start =>
    match s.latestGoal with
    | none => s.leave
    | some g => s.call (.readCheckpoint g)
  | .readCheckpoint g =>
    match s.latest with
    | none => s.leave
    | some c =>
      let before := evidenceOf sha256 c
      if hasDurableGoalTurnReceipt c then s.call (.evaluate g before)
      else
        s.call (.persist ⟨g, runFailed, computeNoProgressCount g runFailed before.evidenceSignature,
          none, some "no_durable_end_of_turn".toList, before.evidenceSignature⟩ none)
  | .evaluate g before => s.call (.rereadGoal g before evaluation)
  | .rereadGoal g before e => s.call (.rereadCheckpoint g before e s.latestGoal)
  | .rereadCheckpoint g before e current =>
    match current, s.latest with
    | some h, some c =>
      if ¬ g.Matches h then s.leave
      else if c.id ≠ before.checkpointId ∨
          visibleConversationSignature c.messages ≠ before.conversationSignature then
        s.call (.persist ⟨h, e, computeNoProgressCount g e before.evidenceSignature, none,
          some "thread_changed_after_evaluation".toList, before.evidenceSignature⟩ none)
      else s.call (goalDecision g before e)
    | _, _ => s.leave
  | .clear g =>
    match s.latest with
    | none => s.leave
    | some c => if c.goal.any (g.Matches ·) then s.call (.writeCleared c.id) else s.leave
  | .writeCleared expected =>
    if s.latest.any (·.id = expected) then (s.writeGoal none).leave else s.leave
  | .persist args verify =>
    match s.latest with
    | none => s.leave
    | some c =>
      match c.goal with
      | none => s.leave
      | some h =>
        if args.goal.Matches h then s.call (.writePersisted args h c.id verify) else s.leave
  | .writePersisted args current expected verify =>
    let updated := attachGoalEvaluation current args.evaluation s.runId now args.continuationCount
      args.noProgressCount args.standDownReason args.evidenceSignature
    if s.latest.any (·.id = expected) then
      match verify with
      | none => (s.writeGoal (some updated)).leave
      | some (g, before) =>
        (s.writeGoal (some updated)).call (.verifyGoal g updated before args.evaluation)
    else s.leave
  | .verifyGoal g updated before e => s.call (.verifyCheckpoint g updated before e s.latestGoal)
  | .verifyCheckpoint g updated before e latest =>
    match latest, s.latest with
    | some h, some c =>
      if ¬ updated.Matches h then s.leave
      else if visibleConversationSignature c.messages ≠ before.conversationSignature then
        s.call (.persist ⟨h, e, computeNoProgressCount g e before.evidenceSignature,
          some (g.continuationCount + 1), some "thread_changed_before_continuation".toList,
          before.evidenceSignature⟩ none)
      else
        { s.enter (.loading none) with
          returned := ⟨g, updated, goalContinuationContent updated e⟩ :: s.returned }
    | _, _ => s.leave

inductive GoalEvent where
  | set (objective : Text) (maxContinuations maxNoProgress : Int) (now : Text)
  | clear
  | write (messages : List GoalMessage) (pendingWrites : Bool)
  | start (runId : Text) (branch : Option Nat)
  | load
  | stream (messages : List GoalMessage) (pendingWrites : Bool)
  | prepare
  | advance (evaluation : GoalEvaluation) (now : Text)
  | stop
  | finish (rollback : Bool)

/-- The goal of the checkpoint that a stream starts from. -/
def branchGoal (s : GoalThread) : Option Nat → Option (Option GoalState)
  | none => some s.latestGoal
  | some id => (s.checkpoints.find? (·.id = id)).map GoalCheckpoint.goal

/-- Back to the checkpoint before the run, or to an empty thread. -/
def rollbackToPreRun (s : GoalThread) : GoalThread :=
  match s.preRun with
  | none => { s with checkpoints := [] }
  | some c => s.put c.messages c.goal c.pendingWrites

def goalStep (s : GoalThread) : GoalEvent → Option GoalThread
  | .set objective maxContinuations maxNoProgress now =>
    match buildGoalState objective maxContinuations maxNoProgress now with
    | .error _ => some s
    | .ok g =>
      if s.locked then none
      else some { s.ensureCheckpoint.writeGoal (some g) with made := g :: s.made }
  | .clear => if s.locked then none else some (s.writeGoal none)
  | .write messages pendingWrites => some (s.put messages s.latestGoal pendingWrites)
  | .start runId branch =>
    match s.phase with
    | .idle => some { s.enter (.loading branch) with runId := runId, preRun := s.latest }
    | _ => none
  | .load =>
    match s.phase with
    | .loading branch => (branchGoal s branch).map fun g => s.enter (.streaming g)
    | _ => none
  | .stream messages pendingWrites =>
    match s.phase with
    | .streaming g => some (s.put messages g pendingWrites)
    | _ => none
  | .prepare =>
    match s.phase with
    | .streaming _ => some (s.call .start)
    | _ => none
  | .advance evaluation now =>
    match s.phase with
    | .preparing c => some (advance sha256 s evaluation now c)
    | _ => none
  | .stop =>
    match s.phase with
    | .idle | .finishing => none
    | _ => some s.leave
  | .finish rollback =>
    match s.phase with
    | .finishing => some ((if rollback then rollbackToPreRun s else s).enter .idle)
    | _ => none

def goalSystem : System GoalThread GoalEvent := System.ofFn .empty (goalStep sha256)

end Steps

end DeerFlow.Runtime
