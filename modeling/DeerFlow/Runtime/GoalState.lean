import DeerFlow.Lib.TextLines

/-! The goal of a thread, what the evaluator says about it, and the gates that decide whether
another hidden turn runs. -/

namespace DeerFlow.Runtime

inductive GoalBlocker where
  | none
  | missingEvidence
  | needsUserInput
  | runFailed
  | externalWait
  | goalNotMetYet
  deriving DecidableEq

def GoalBlocker.text : GoalBlocker → Text
  | none => "none".toList
  | missingEvidence => "missing_evidence".toList
  | needsUserInput => "needs_user_input".toList
  | runFailed => "run_failed".toList
  | externalWait => "external_wait".toList
  | goalNotMetYet => "goal_not_met_yet".toList

structure GoalEvaluation where
  satisfied : Bool
  blocker : GoalBlocker
  reason : Text
  evidenceSummary : Text

/-- The JSON object of `compute_goal_progress_key`. -/
structure ProgressKey where
  satisfied : Bool
  blocker : GoalBlocker
  evidenceSignature : Text
  deriving DecidableEq

structure LastEvaluation where
  satisfied : Bool
  blocker : GoalBlocker
  reason : Text
  evidenceSummary : Text
  runId : Text
  evaluatedAt : Text
  progressKey : ProgressKey
  standDownReason : Option Text

/-- The status of a goal is always `"active"`. -/
structure GoalState where
  objective : Text
  createdAt : Text
  updatedAt : Text
  continuationCount : Nat
  maxContinuations : Nat
  noProgressCount : Nat
  maxNoProgressContinuations : Nat
  lastEvaluation : Option LastEvaluation

def defaultMaxGoalContinuations : Nat := 8

def maxGoalObjectiveChars : Nat := 4000

section Building

def normalizeGoalObjective (objective : Text) : Except String Text :=
  let normalized := [' '].intercalate (splitWords objective)
  if normalized = [] then .error "Goal objective must not be empty."
  else if maxGoalObjectiveChars < normalized.length then
    .error s!"Goal objective must be at most {maxGoalObjectiveChars} characters."
  else .ok normalized

def buildGoalState (objective : Text) (maxContinuations maxNoProgressContinuations : Int)
    (now : Text) : Except String GoalState := do
  let objective ← normalizeGoalObjective objective
  .ok {
    objective := objective
    createdAt := now
    updatedAt := now
    continuationCount := 0
    maxContinuations := (min maxContinuations defaultMaxGoalContinuations).toNat
    noProgressCount := 0
    maxNoProgressContinuations := maxNoProgressContinuations.toNat
    lastEvaluation := none
  }

end Building

inductive MessageType where
  | human
  | ai
  | other
  deriving DecidableEq

/-- `hidden` is the mark `hide_from_ui`. -/
structure GoalMessage where
  type : MessageType
  hidden : Bool
  text : Text

section Evidence
variable (sha256 : Text → Text)

def isVisibleMessage (m : GoalMessage) : Bool := !m.hidden && m.type ≠ .other

def maxGoalConversationMessages : Nat := 30

/-- The entries of the JSON text that `visible_conversation_signature` writes. -/
def visibleConversationSignature (messages : List GoalMessage) : List (MessageType × Text) :=
  recent maxGoalConversationMessages
    ((messages.filter isVisibleMessage).map fun m => (m.type, stripSpace m.text))

def latestVisibleAssistantSignature (messages : List GoalMessage) : Text :=
  let texts := (messages.reverse.filter fun m => isVisibleMessage m && m.type = .ai).map
    fun m => stripSpace m.text
  match texts.find? (· ≠ []) with
  | some text => sha256 text
  | none => []

/-- The last visible message with a text is the assistant's. -/
def endsWithAssistant (messages : List GoalMessage) : Bool :=
  let visible := messages.filter fun m => isVisibleMessage m && stripSpace m.text ≠ []
  visible.getLast?.any (·.type = .ai)

end Evidence

def computeGoalProgressKey (e : GoalEvaluation) (evidenceSignature : Text) : ProgressKey :=
  ⟨e.satisfied, e.blocker, evidenceSignature⟩

def computeNoProgressCount (g : GoalState) (e : GoalEvaluation) (evidenceSignature : Text) : Nat :=
  if e.satisfied then 0
  else if g.lastEvaluation.any (·.progressKey = computeGoalProgressKey e evidenceSignature) then
    g.noProgressCount + 1
  else 0

def shouldContinueGoal (g : GoalState) (e : GoalEvaluation) (noProgressCount : Nat) : Bool :=
  if e.satisfied then false
  else if e.blocker ≠ .goalNotMetYet then false
  else if g.maxContinuations ≤ g.continuationCount then false
  else noProgressCount < g.maxNoProgressContinuations

def standDownReason (g : GoalState) (e : GoalEvaluation) (noProgressCount : Nat) : Option Text :=
  if e.satisfied then none
  else if e.blocker ≠ .goalNotMetYet then some ("blocked:".toList ++ e.blocker.text)
  else if g.maxContinuations ≤ g.continuationCount then some "max_continuations_reached".toList
  else if g.maxNoProgressContinuations ≤ noProgressCount then some "no_progress_detected".toList
  else none

def attachGoalEvaluation (g : GoalState) (e : GoalEvaluation) (runId now : Text)
    (continuationCount : Option Nat) (noProgressCount : Nat) (standDownReason : Option Text)
    (evidenceSignature : Text) : GoalState :=
  { g with
    continuationCount := continuationCount.getD g.continuationCount
    noProgressCount := noProgressCount
    updatedAt := now
    lastEvaluation := some {
      satisfied := e.satisfied
      blocker := e.blocker
      reason := e.reason
      evidenceSummary := e.evidenceSummary
      runId := runId
      evaluatedAt := now
      progressKey := computeGoalProgressKey e evidenceSignature
      standDownReason := standDownReason
    } }

/-- The content of the hidden message that asks the agent to go on. -/
def goalContinuationContent (g : GoalState) (e : GoalEvaluation) : Text :=
  let reason := if e.reason = [] then "No reason provided.".toList else e.reason
  let summary :=
    if e.evidenceSummary = [] then "No evidence summary provided.".toList else e.evidenceSummary
  "<goal_continuation>\nActive goal: ".toList ++ g.objective ++
    "\nEvaluator result: not satisfied. Blocker: ".toList ++ e.blocker.text ++
    ". Reason: ".toList ++ reason ++ "\nVisible evidence: ".toList ++ summary ++ "\n".toList ++
    "Continue working toward the active goal. Use the available tools ".toList ++
    "and conversation context. ".toList ++
    "Do not ask the user to continue unless you are genuinely blocked.\n</goal_continuation>".toList

/-- `_goal_instance_matches`. -/
def GoalState.Matches (g h : GoalState) : Prop :=
  g.objective = h.objective ∧ g.createdAt = h.createdAt

instance (g h : GoalState) : Decidable (g.Matches h) := inferInstanceAs (Decidable (_ ∧ _))

namespace GoalState
variable {g h k : GoalState}

theorem Matches.symm (h' : g.Matches h) : h.Matches g := ⟨h'.1.symm, h'.2.symm⟩

theorem Matches.trans (h₁ : g.Matches h) (h₂ : h.Matches k) : g.Matches k :=
  ⟨h₁.1.trans h₂.1, h₁.2.trans h₂.2⟩

end GoalState

section Gates
variable {g : GoalState} {e : GoalEvaluation} {n : Nat}

/-- A turn is granted only below the limit of the goal. -/
theorem lt_of_shouldContinueGoal (h : shouldContinueGoal g e n = true) :
    g.continuationCount < g.maxContinuations := by
  unfold shouldContinueGoal at h
  split_ifs at h with hsat hblocker hlimit
  exact Nat.lt_of_not_le hlimit

end Gates

end DeerFlow.Runtime
