import DeerFlow.Lib.Except
import DeerFlow.Runtime.GoalLoop

/-! How often a goal keeps its thread going. The counter of a goal instance in the thread is never
behind the inputs that were returned for it, unless an older state of the instance is brought
back. -/

namespace DeerFlow.Runtime
open Transition

namespace GoalThread

/-- The goals with the objective and the time of `g` for which an input was returned. -/
def returnedFor (s : GoalThread) (g : GoalState) : Nat :=
  (s.returned.filter fun r => r.goal.Matches g).length

/-- The counter of the goal has kept up with the inputs that were returned for its instance. -/
def NotBehind (s : GoalThread) (g : GoalState) : Prop := s.returnedFor g ≤ g.continuationCount

instance (s : GoalThread) (g : GoalState) : Decidable (s.NotBehind g) :=
  inferInstanceAs (Decidable (_ ≤ _))

/-- The goal is one that was set. -/
def Known (s : GoalThread) (g : GoalState) : Prop :=
  ∃ m ∈ s.made, m.Matches g ∧ m.maxContinuations = g.maxContinuations

/-- The goal was set, and its counter has kept up if it is one of `P`. -/
def Holds (P : GoalState → Prop) (s : GoalThread) (g : GoalState) : Prop :=
  s.Known g ∧ (P g → s.NotBehind g)

end GoalThread

open GoalThread

/-- The checkpoint that the run was asked to branch from. -/
def Phase.branch : Phase → Option Nat
  | .loading branch => branch
  | _ => none

/-- The step brings back no earlier state of a goal of `P`: such a goal is new when it is set, and a
branch or a rollback puts none in place whose counter is behind. -/
def Onward (P : GoalState → Prop) (s : GoalThread) : GoalEvent → Prop
  | .set objective maxContinuations maxNoProgress now =>
    ∀ g ∈ (buildGoalState objective maxContinuations maxNoProgress now).toOption, P g →
      ∀ m ∈ s.made, ¬ m.Matches g
  | .load =>
    ∀ id ∈ s.phase.branch, ∀ c ∈ s.checkpoints, c.id = id → ∀ g ∈ c.goal, P g → s.NotBehind g
  | .finish rollback => rollback = true → ∀ c ∈ s.preRun, ∀ g ∈ c.goal, P g → s.NotBehind g
  | _ => True

section Instances
variable {P : GoalState → Prop} {s t : GoalThread} {g h : GoalState}

theorem matches_congr (hgh : g.Matches h) (k : GoalState) : k.Matches g ↔ k.Matches h :=
  ⟨fun hk => hk.trans hgh, fun hk => hk.trans hgh.symm⟩

theorem returnedFor_congr (hgh : g.Matches h) : s.returnedFor g = s.returnedFor h := by
  unfold returnedFor
  simp only [matches_congr hgh]

theorem returnedFor_eq (hret : t.returned = s.returned) (g : GoalState) :
    t.returnedFor g = s.returnedFor g := by
  unfold returnedFor
  rw [hret]

theorem Known.congr (hg : s.Known g) (hgh : g.Matches h)
    (hmax : g.maxContinuations = h.maxContinuations) : s.Known h := by
  obtain ⟨m, hm, hmg, hlimit⟩ := hg
  exact ⟨m, hm, hmg.trans hgh, hlimit.trans hmax⟩

/-- No goal and no checkpoint is forgotten, and no input is returned. -/
structure Grows (s t : GoalThread) : Prop where
  made : s.made ⊆ t.made
  checkpoints : s.checkpoints ⊆ t.checkpoints
  returned : t.returned = s.returned

theorem Known.grow (hg : s.Known g) (h : Grows s t) : t.Known g := by
  obtain ⟨m, hm, hsame⟩ := hg
  exact ⟨m, h.made hm, hsame⟩

theorem NotBehind.grow (hg : s.NotBehind g) (h : Grows s t) : t.NotBehind g := by
  unfold NotBehind
  rw [returnedFor_eq h.returned]
  exact hg

theorem Holds.grow (hg : Holds P s g) (h : Grows s t) : Holds P t g :=
  ⟨Known.grow hg.1 h, fun hp => NotBehind.grow (hg.2 hp) h⟩

end Instances

section Invariant
variable (P : GoalState → Prop) (s : GoalThread)

/-- The counter that is to be written has kept up; where a turn is granted it is one above that of
the goal that was read, which is below the limit. -/
structure PersistInv (args : Persisting) (verify : Option (GoalState × Evidence)) : Prop where
  goal : Holds P s args.goal
  count : P args.goal → ∀ n, args.continuationCount = some n → s.returnedFor args.goal ≤ n
  granted : ∀ g before, verify = some (g, before) → args.goal = g ∧
    args.continuationCount = some (g.continuationCount + 1) ∧
      g.continuationCount < g.maxContinuations

/-- The goal was written to the thread for the same instance, with the counter one above. -/
def Persisted (g updated : GoalState) : Prop :=
  g.Matches updated ∧ updated.continuationCount = g.continuationCount + 1 ∧
    ∃ c ∈ s.checkpoints, c.goal = some updated

/-- The counter in the thread is already above that of the goal that was read. -/
structure VerifyInv (g updated : GoalState) : Prop where
  goal : Holds P s g
  limit : g.continuationCount < g.maxContinuations
  updated : Persisted s g updated
  latest : P g → ∀ h, s.latestGoal = some h → g.Matches h →
    g.continuationCount + 1 ≤ h.continuationCount

def CallInv : Call → Prop
  | .start | .clear _ | .writeCleared _ => True
  | .readCheckpoint g | .evaluate g _ | .rereadGoal g _ _ => Holds P s g
  | .rereadCheckpoint g _ _ current => Holds P s g ∧ ∀ h, current = some h → Holds P s h
  | .persist args verify => PersistInv P s args verify
  | .writePersisted args current _ verify =>
    PersistInv P s args verify ∧ Holds P s current ∧ args.goal.Matches current
  | .verifyGoal g updated _ _ => VerifyInv P s g updated
  | .verifyCheckpoint g updated _ _ latest =>
    VerifyInv P s g updated ∧ ∀ h, latest = some h → Holds P s h

def PhaseInv : Phase → Prop
  | .streaming goal => ∀ g, goal = some g → Holds P s g
  | .preparing c => CallInv P s c
  | _ => True

structure GoalInv : Prop where
  distinct : s.made.Pairwise fun g h => P g → ¬ g.Matches h
  stored : ∀ c ∈ s.checkpoints, ∀ g, c.goal = some g → s.Known g
  preRun : ∀ c g, s.preRun = some c → c.goal = some g → s.Known g
  latest : ∀ g, s.latestGoal = some g → P g → s.NotBehind g
  logged : ∀ r ∈ s.returned, s.Known r.goal
  bound : ∀ m ∈ s.made, P m → s.returnedFor m ≤ m.maxContinuations

def RunInv : Prop := GoalInv P s ∧ PhaseInv P s s.phase

end Invariant

section Keeping
variable {P : GoalState → Prop} {s t : GoalThread} {c : Call} {p : Phase}

theorem GoalInv.holds_latest (h : GoalInv P s) {g : GoalState} (hg : s.latestGoal = some g) :
    Holds P s g := by
  refine ⟨?_, h.latest g hg⟩
  obtain ⟨c, hc, hgoal⟩ := Option.bind_eq_some_iff.mp hg
  exact h.stored c (List.mem_of_mem_head? hc) g hgoal

/-- The latest goal of an instance that is known stays, or it goes. -/
def LatestKept (P : GoalState → Prop) (s t : GoalThread) : Prop :=
  ∀ g h, s.Known g → P g → g.Matches h → t.latestGoal = some h → s.latestGoal = some h

theorem PersistInv.grow {args : Persisting} {verify : Option (GoalState × Evidence)}
    (h : PersistInv P s args verify) (hg : Grows s t) : PersistInv P t args verify := by
  refine ⟨Holds.grow h.goal hg, fun hp n hn => ?_, h.granted⟩
  rw [returnedFor_eq hg.returned]
  exact h.count hp n hn

theorem VerifyInv.grow {g updated : GoalState} (h : VerifyInv P s g updated) (hg : Grows s t)
    (hl : LatestKept P s t) : VerifyInv P t g updated := by
  obtain ⟨hmatch, hcount, k, hk, hgoal⟩ := h.updated
  refine ⟨Holds.grow h.goal hg, h.limit, ⟨hmatch, hcount, k, hg.checkpoints hk, hgoal⟩,
    fun hp k hk hm => ?_⟩
  exact h.latest hp k (hl g k h.goal.1 hp hm hk) hm

theorem CallInv.grow (h : CallInv P s c) (hg : Grows s t) (hl : LatestKept P s t) :
    CallInv P t c := by
  cases c with
  | start | clear | writeCleared => trivial
  | readCheckpoint | evaluate | rereadGoal => exact Holds.grow h hg
  | rereadCheckpoint => exact ⟨Holds.grow h.1 hg, fun k hk => Holds.grow (h.2 k hk) hg⟩
  | persist => exact PersistInv.grow h hg
  | writePersisted => exact ⟨PersistInv.grow h.1 hg, Holds.grow h.2.1 hg, h.2.2⟩
  | verifyGoal => exact VerifyInv.grow h hg hl
  | verifyCheckpoint =>
    exact ⟨VerifyInv.grow h.1 hg hl, fun k hk => Holds.grow (h.2 k hk) hg⟩

theorem PhaseInv.grow (h : PhaseInv P s p) (hg : Grows s t) (hl : LatestKept P s t) :
    PhaseInv P t p := by
  cases p with
  | streaming goal => exact fun g hgoal => Holds.grow (h g hgoal) hg
  | preparing c => exact CallInv.grow h hg hl
  | idle | loading | finishing => trivial

theorem GoalInv.enter (h : GoalInv P s) (hp : PhaseInv P s p) : RunInv P (s.enter p) :=
  ⟨⟨h.distinct, h.stored, h.preRun, h.latest, h.logged, h.bound⟩,
    PhaseInv.grow hp ⟨fun _ hm => hm, fun _ hc => hc, rfl⟩ fun _ _ _ _ _ hk => hk⟩

theorem GoalInv.leave (h : GoalInv P s) : RunInv P s.leave := h.enter trivial

theorem GoalInv.call (h : GoalInv P s) (hc : CallInv P s c) : RunInv P (s.call c) := h.enter hc

section Writing
variable {messages : List GoalMessage} {goal : Option GoalState} {pendingWrites : Bool}

theorem grows_put : Grows s (s.put messages goal pendingWrites) :=
  ⟨fun _ hm => hm, fun _ hc => List.mem_cons_of_mem _ hc, rfl⟩

theorem GoalInv.put (h : GoalInv P s) (hgoal : ∀ g, goal = some g → Holds P s g) :
    GoalInv P (s.put messages goal pendingWrites) := by
  refine ⟨h.distinct, fun c hc g hg => ?_, h.preRun, fun g hg hp => ?_, h.logged, h.bound⟩
  · rcases List.mem_cons.mp hc with rfl | hc
    · exact Known.grow (hgoal g hg).1 grows_put
    · exact h.stored c hc g hg
  · exact NotBehind.grow ((hgoal g hg).2 hp) grows_put

/-- Writing the latest goal again, or none, keeps what the run knows. -/
theorem RunInv.put (h : RunInv P s) (hgoal : ∀ g, goal = some g → s.latestGoal = some g) :
    RunInv P (s.put messages goal pendingWrites) := by
  refine ⟨h.1.put fun g hg => h.1.holds_latest (hgoal g hg), ?_⟩
  exact PhaseInv.grow h.2 grows_put fun g k _ _ _ hk => hgoal k hk

end Writing

theorem writeGoal_eq (s : GoalThread) (goal : Option GoalState) :
    s.writeGoal goal = s ∨ ∃ c, s.latest = some c ∧
      s.writeGoal goal = s.put c.messages goal c.pendingWrites := by
  unfold GoalThread.writeGoal
  cases hc : s.latest with
  | none => exact .inl rfl
  | some c => exact .inr ⟨c, rfl, rfl⟩

theorem writeGoal_of_any {expected : Nat} (hid : s.latest.any (·.id = expected) = true)
    (goal : Option GoalState) :
    ∃ c : GoalCheckpoint, s.writeGoal goal = s.put c.messages goal c.pendingWrites := by
  obtain ⟨c, hc, -⟩ := (Option.any_eq_true _ _).mp hid
  refine ⟨c, ?_⟩
  rw [GoalThread.writeGoal, hc]

end Keeping

section Evaluation
variable {P : GoalState → Prop} {s : GoalThread} {g current : GoalState} {e : GoalEvaluation}
  {now : Text} {args : Persisting}

/-- The goal with the evaluation, as the call writes it. -/
def Persisting.attach (args : Persisting) (current : GoalState) (runId now : Text) : GoalState :=
  attachGoalEvaluation current args.evaluation runId now args.continuationCount
    args.noProgressCount args.standDownReason args.evidenceSignature

theorem holds_persisted (hP : ∀ g h, g.Matches h → P g → P h)
    {verify : Option (GoalState × Evidence)} (h : PersistInv P s args verify)
    (hcur : Holds P s current) (hmatch : args.goal.Matches current) (runId now : Text) :
    Holds P s (args.attach current runId now) := by
  refine ⟨Known.congr hcur.1 ⟨rfl, rfl⟩ rfl, fun hp => ?_⟩
  have hp : P current := hP (args.attach current runId now) current ⟨rfl, rfl⟩ hp
  have hsame : s.returnedFor (args.attach current runId now) = s.returnedFor current := rfl
  unfold NotBehind
  rw [hsame]
  show s.returnedFor current ≤ args.continuationCount.getD current.continuationCount
  cases hn : args.continuationCount with
  | none => exact hcur.2 hp
  | some n =>
    rw [← returnedFor_congr hmatch]
    exact h.count (hP _ _ hmatch.symm hp) n hn

/-- Without a new counter nothing is granted. -/
theorem persistInv_kept (hg : Holds P s args.goal) (hn : args.continuationCount = none) :
    PersistInv P s args none := by
  refine ⟨hg, fun _ n hcount => ?_, fun k before hv => by cases hv⟩
  rw [hn] at hcount
  cases hcount

/-- A turn is granted for the goal that was read, below its limit. -/
theorem callInv_goalDecision (hg : Holds P s g) (before : Evidence) (e : GoalEvaluation) :
    CallInv P s (goalDecision g before e) := by
  unfold goalDecision
  extract_lets noProgressCount reason
  split_ifs with hsat hstop
  · trivial
  · exact persistInv_kept hg rfl
  · rw [not_or, not_not] at hstop
    have hlimit := lt_of_shouldContinueGoal hstop.2
    refine ⟨hg, fun hp n hn => ?_, fun k before' hv => ?_⟩
    · cases hn
      exact Nat.le_succ_of_le (hg.2 hp)
    · cases hv
      exact ⟨rfl, rfl, hlimit⟩

theorem verifyInv_written {c : GoalCheckpoint} {before : Evidence}
    (h : PersistInv P s args (some (g, before))) (hmatch : args.goal.Matches current) :
    VerifyInv P (s.put c.messages (some (args.attach current s.runId now)) c.pendingWrites) g
      (args.attach current s.runId now) := by
  obtain ⟨hgoal, hcount, hlimit⟩ := h.granted g before rfl
  rw [hgoal] at hmatch
  have hnext : (args.attach current s.runId now).continuationCount = g.continuationCount + 1 := by
    show args.continuationCount.getD current.continuationCount = _
    rw [hcount]
    rfl
  refine ⟨Holds.grow (hgoal ▸ h.goal) grows_put, hlimit,
    ⟨hmatch, hnext, _, List.mem_cons_self, rfl⟩, fun _ k hk _ => ?_⟩
  cases hk
  exact hnext.ge

end Evaluation

section Returning
variable {P : GoalState → Prop} {s : GoalThread} {g updated : GoalState}

/-- The call returns an input. -/
def GoalThread.giveBack (s : GoalThread) (r : Continuation) : GoalThread :=
  { s.enter (.loading none) with returned := r :: s.returned }

theorem returnedFor_giveBack (r : Continuation) (k : GoalState) :
    (s.giveBack r).returnedFor k = s.returnedFor k + if r.goal.Matches k then 1 else 0 := by
  unfold returnedFor GoalThread.giveBack
  rw [List.filter_cons]
  by_cases hm : r.goal.Matches k
  · simp [hm]
  · simp [hm]

/-- Goals that were set are told apart. -/
theorem GoalInv.unique (h : GoalInv P s) (hP : ∀ g h, g.Matches h → P g → P h) {m m' : GoalState}
    (hm : m ∈ s.made) (hm' : m' ∈ s.made) (hp : P m) (hmatch : m.Matches m') : m = m' := by
  by_contra hne
  have hsymm : Std.Symm fun g h : GoalState => P g → ¬ g.Matches h :=
    ⟨fun g h hgh hp hmatch => hgh (hP h g hmatch hp) hmatch.symm⟩
  exact h.distinct.forall hm hm' hne hp hmatch

theorem GoalInv.giveBack (h : GoalInv P s) (hP : ∀ g h, g.Matches h → P g → P h)
    (hv : VerifyInv P s g updated) (content : Text) :
    RunInv P (s.giveBack ⟨g, updated, content⟩) := by
  refine ⟨⟨h.distinct, h.stored, h.preRun, fun k hk hp => ?_, fun r hr => ?_, fun m hm hp => ?_⟩,
    trivial⟩
  · unfold NotBehind
    rw [returnedFor_giveBack]
    by_cases hmatch : g.Matches k
    · have hg : P g := hP k g hmatch.symm hp
      have hlast := hv.latest hg k hk hmatch
      have hkept : s.returnedFor g ≤ g.continuationCount := hv.goal.2 hg
      rw [if_pos hmatch, ← returnedFor_congr hmatch]
      omega
    · rw [if_neg hmatch]
      exact h.latest k hk hp
  · rcases List.mem_cons.mp hr with rfl | hr
    · exact hv.goal.1
    · exact h.logged r hr
  · rw [returnedFor_giveBack]
    by_cases hmatch : g.Matches m
    · obtain ⟨m', hm', hgm, hmax⟩ := hv.goal.1
      obtain rfl := h.unique hP hm' hm (hP m m' (hgm.trans hmatch).symm hp) (hgm.trans hmatch)
      have hkept : s.returnedFor g ≤ g.continuationCount := hv.goal.2 (hP m' g hmatch.symm hp)
      have hlimit := hv.limit
      rw [if_pos hmatch, ← returnedFor_congr hmatch]
      omega
    · rw [if_neg hmatch]
      exact h.bound m hm hp

end Returning

section Advancing
variable {P : GoalState → Prop} {sha256 : Text → Text} {s : GoalThread} {c : Call}

/-- What the next read or write of a call can do. -/
inductive Advances (s : GoalThread) (evaluation : GoalEvaluation) (now : Text) :
    Call → GoalThread → Prop
  | left {c : Call} : Advances s evaluation now c s.leave
  | readCheckpoint {g : GoalState} : s.latestGoal = some g →
      Advances s evaluation now .start (s.call (.readCheckpoint g))
  | evaluate {g : GoalState} {before : Evidence} :
      Advances s evaluation now (.readCheckpoint g) (s.call (.evaluate g before))
  | noReceipt {g : GoalState} {args : Persisting} : args.goal = g →
      args.continuationCount = none →
      Advances s evaluation now (.readCheckpoint g) (s.call (.persist args none))
  | rereadGoal {g : GoalState} {before : Evidence} :
      Advances s evaluation now (.evaluate g before) (s.call (.rereadGoal g before evaluation))
  | rereadCheckpoint {g : GoalState} {before : Evidence} {e : GoalEvaluation} :
      Advances s evaluation now (.rereadGoal g before e)
        (s.call (.rereadCheckpoint g before e s.latestGoal))
  | changed {g current : GoalState} {before : Evidence} {e : GoalEvaluation} {args : Persisting} :
      args.goal = current → args.continuationCount = none →
      Advances s evaluation now (.rereadCheckpoint g before e (some current))
        (s.call (.persist args none))
  | decided {g : GoalState} {before : Evidence} {e : GoalEvaluation} {current : Option GoalState} :
      Advances s evaluation now (.rereadCheckpoint g before e current)
        (s.call (goalDecision g before e))
  | writeCleared {g : GoalState} {id : Nat} :
      Advances s evaluation now (.clear g) (s.call (.writeCleared id))
  | cleared {id : Nat} {c : GoalCheckpoint} :
      Advances s evaluation now (.writeCleared id) (s.put c.messages none c.pendingWrites).leave
  | writePersisted {args : Persisting} {verify : Option (GoalState × Evidence)}
      {current : GoalState} {id : Nat} : s.latestGoal = some current →
      args.goal.Matches current →
      Advances s evaluation now (.persist args verify)
        (s.call (.writePersisted args current id verify))
  | persisted {args : Persisting} {current : GoalState} {id : Nat} {c : GoalCheckpoint} :
      Advances s evaluation now (.writePersisted args current id none)
        (s.put c.messages (some (args.attach current s.runId now)) c.pendingWrites).leave
  | verifyGoal {args : Persisting} {current g : GoalState} {before : Evidence} {id : Nat}
      {c : GoalCheckpoint} :
      Advances s evaluation now (.writePersisted args current id (some (g, before)))
        ((s.put c.messages (some (args.attach current s.runId now)) c.pendingWrites).call
          (.verifyGoal g (args.attach current s.runId now) before args.evaluation))
  | verifyCheckpoint {g updated : GoalState} {before : Evidence} {e : GoalEvaluation} :
      Advances s evaluation now (.verifyGoal g updated before e)
        (s.call (.verifyCheckpoint g updated before e s.latestGoal))
  | moved {g updated latest : GoalState} {before : Evidence} {e : GoalEvaluation}
      {args : Persisting} : updated.Matches latest → args.goal = latest →
      args.continuationCount = some (g.continuationCount + 1) →
      Advances s evaluation now (.verifyCheckpoint g updated before e (some latest))
        (s.call (.persist args none))
  | returned {g updated : GoalState} {before : Evidence} {e : GoalEvaluation}
      {latest : Option GoalState} :
      Advances s evaluation now (.verifyCheckpoint g updated before e latest)
        (s.giveBack ⟨g, updated, goalContinuationContent updated e⟩)

theorem advances_advance (s : GoalThread) (evaluation : GoalEvaluation) (now : Text) (c : Call) :
    Advances s evaluation now c (Runtime.advance sha256 s evaluation now c) := by
  cases c with
  | start =>
    rw [Runtime.advance]
    split
    · exact .left
    · next g hg => exact .readCheckpoint hg
  | readCheckpoint g =>
    rw [Runtime.advance]
    split
    · exact .left
    · extract_lets before
      split_ifs
      · exact .evaluate
      · exact .noReceipt rfl rfl
  | evaluate g before => exact .rereadGoal
  | rereadGoal g before e => exact .rereadCheckpoint
  | rereadCheckpoint g before e current =>
    simp only [Runtime.advance]
    split
    · split_ifs
      · exact .changed rfl rfl
      · exact .decided
      · exact .left
    · exact .left
  | clear g =>
    rw [Runtime.advance]
    split
    · exact .left
    · split_ifs
      · exact .writeCleared
      · exact .left
  | writeCleared expected =>
    rw [Runtime.advance]
    split_ifs with hid
    · obtain ⟨c, hwrite⟩ := writeGoal_of_any hid none
      rw [hwrite]
      exact .cleared
    · exact .left
  | persist args verify =>
    rw [Runtime.advance]
    split
    · exact .left
    · next c hlatest =>
      split
      · exact .left
      · next current hgoal =>
        split_ifs with hmatch
        · have hcurrent : s.latestGoal = some current := by
            unfold GoalThread.latestGoal
            rw [hlatest]
            exact hgoal
          exact .writePersisted hcurrent hmatch
        · exact .left
  | writePersisted args current expected verify =>
    simp only [Runtime.advance]
    split_ifs with hid
    · obtain ⟨c, hwrite⟩ := writeGoal_of_any hid (some (args.attach current s.runId now))
      cases verify with
      | none =>
        change Advances s evaluation now _
          (s.writeGoal (some (args.attach current s.runId now))).leave
        rw [hwrite]
        exact .persisted
      | some granted =>
        change Advances s evaluation now _ ((s.writeGoal (some (args.attach current s.runId now))).call
          (.verifyGoal granted.1 (args.attach current s.runId now) granted.2 args.evaluation))
        rw [hwrite]
        exact .verifyGoal
    · exact .left
  | verifyGoal g updated before e => exact .verifyCheckpoint
  | verifyCheckpoint g updated before e latest =>
    simp only [Runtime.advance]
    split
    · split_ifs with hmatch
      · exact .moved hmatch rfl rfl
      · exact .returned
      · exact .left
    · exact .left

/-- The next read or write of a call keeps the invariant. -/
theorem GoalInv.advance (h : GoalInv P s) (hP : ∀ g h, g.Matches h → P g → P h)
    (hc : CallInv P s c) (evaluation : GoalEvaluation) (now : Text) :
    RunInv P (Runtime.advance sha256 s evaluation now c) := by
  have hstep : Advances s evaluation now c (Runtime.advance sha256 s evaluation now c) :=
    advances_advance s evaluation now c
  generalize Runtime.advance sha256 s evaluation now c = t at hstep
  cases hstep with
  | left => exact h.leave
  | readCheckpoint hg => exact h.call (h.holds_latest hg)
  | evaluate | rereadGoal => exact h.call hc
  | noReceipt hgoal hcount =>
    rw [← hgoal] at hc
    exact h.call (persistInv_kept hc hcount)
  | rereadCheckpoint | verifyCheckpoint => exact h.call ⟨hc, fun k hk => h.holds_latest hk⟩
  | changed hgoal hcount =>
    rw [← hgoal] at hc
    exact h.call (persistInv_kept (hc.2 _ rfl) hcount)
  | decided => exact h.call (callInv_goalDecision hc.1 _ _)
  | writeCleared => exact h.call trivial
  | cleared => exact (h.put fun g hg => by cases hg).leave
  | writePersisted hcurrent hmatch => exact h.call ⟨hc, h.holds_latest hcurrent, hmatch⟩
  | persisted =>
    refine (h.put fun g hg => ?_).leave
    cases hg
    exact holds_persisted hP hc.1 hc.2.1 hc.2.2 s.runId now
  | verifyGoal =>
    obtain ⟨hargs, hcurrent, hmatch⟩ := hc
    refine (h.put fun g hg => ?_).call (verifyInv_written hargs hmatch)
    cases hg
    exact holds_persisted hP hargs hcurrent hmatch s.runId now
  | @moved g _ _ _ _ args hmatch hgoal hcount =>
    rw [← hgoal] at hc hmatch
    refine h.call ⟨hc.2 _ rfl, fun hp n hn => ?_, fun _ _ hv => by cases hv⟩
    obtain rfl := Option.some.inj (hcount.symm.trans hn)
    have hgoal : g.Matches args.goal := hc.1.updated.1.trans hmatch
    rw [← returnedFor_congr hgoal]
    exact Nat.le_succ_of_le (hc.1.goal.2 (hP _ _ hgoal.symm hp))
  | returned => exact h.giveBack hP hc.1 _

end Advancing

section Events
variable {P : GoalState → Prop} {sha256 : Text → Text} {s t : GoalThread}

theorem RunInv.writeGoal_none (h : RunInv P s) : RunInv P (s.writeGoal none) := by
  rcases writeGoal_eq s none with he | ⟨c, -, he⟩
  · rwa [he]
  · rw [he]
    exact h.put fun g hg => by cases hg

theorem RunInv.ensureCheckpoint (h : RunInv P s) : RunInv P s.ensureCheckpoint := by
  unfold GoalThread.ensureCheckpoint
  split_ifs
  · exact h.put fun g hg => by cases hg
  · exact h

theorem ensureCheckpoint_same (s : GoalThread) :
    s.ensureCheckpoint.made = s.made ∧ s.ensureCheckpoint.returned = s.returned := by
  unfold GoalThread.ensureCheckpoint
  split_ifs <;> exact ⟨rfl, rfl⟩

theorem buildGoalState_count {objective now : Text} {maxContinuations maxNoProgress : Int}
    {g : GoalState} (h : buildGoalState objective maxContinuations maxNoProgress now = .ok g) :
    g.continuationCount = 0 := by
  obtain ⟨normalized, -, hg⟩ := bind_eq_ok.mp h
  cases hg
  rfl

theorem GoalInv.rollback (h : GoalInv P s)
    (ho : ∀ c ∈ s.preRun, ∀ g ∈ c.goal, P g → s.NotBehind g) : GoalInv P (rollbackToPreRun s) := by
  unfold rollbackToPreRun
  split
  · refine ⟨h.distinct, List.forall_mem_nil _, h.preRun, fun g hg => ?_, h.logged, h.bound⟩
    cases hg
  · next c hc => exact h.put fun g hg => ⟨h.preRun c g hc hg, ho c hc g hg⟩

/-- Nothing was returned for a goal that is new. -/
theorem returnedFor_new (h : GoalInv P s) {g : GoalState} (hnew : ∀ m ∈ s.made, ¬ m.Matches g) :
    s.returnedFor g = 0 := by
  refine List.length_eq_zero_iff.mpr (List.filter_eq_nil_iff.mpr fun r hr hmatch => ?_)
  obtain ⟨m, hm, hmr, -⟩ := h.logged r hr
  exact hnew m hm (hmr.trans (of_decide_eq_true hmatch))

theorem RunInv.set (h : RunInv P s) (hP : ∀ g h, g.Matches h → P g → P h) {g : GoalState}
    (hnew : P g → ∀ m ∈ s.made, ¬ m.Matches g) (hcount : g.continuationCount = 0) :
    RunInv P { s.writeGoal (some g) with made := g :: s.made } := by
  have hzero : P g → s.returnedFor g = 0 := fun hp => returnedFor_new h.1 (hnew hp)
  -- the goal is recorded first; what the run knows is not about it
  have hmade : RunInv P { s with made := g :: s.made } := by
    have hgrow : Grows s { s with made := g :: s.made } :=
      ⟨fun m hm => List.mem_cons_of_mem g hm, fun _ hc => hc, rfl⟩
    have hknown : ∀ k, s.Known k → Known { s with made := g :: s.made } k :=
      fun k hk => Known.grow hk hgrow
    refine ⟨⟨?_, fun c hc k hk => hknown k (h.1.stored c hc k hk),
      fun c k hc hk => hknown k (h.1.preRun c k hc hk), h.1.latest,
      fun r hr => hknown r.goal (h.1.logged r hr), fun m hm hp => ?_⟩,
      PhaseInv.grow h.2 hgrow fun _ _ _ _ _ hk => hk⟩
    · exact List.pairwise_cons.mpr ⟨fun m hm hp hgm => hnew hp m hm hgm.symm, h.1.distinct⟩
    · rcases List.mem_cons.mp hm with rfl | hm
      · exact (hzero hp).le.trans (Nat.zero_le _)
      · exact h.1.bound m hm hp
  rcases writeGoal_eq s (some g) with he | ⟨c, -, he⟩
  · rw [he]
    exact hmade
  · rw [he]
    refine ⟨hmade.1.put fun k hk => ?_, PhaseInv.grow h.2 ⟨?_, ?_, rfl⟩ fun k m hk hp hkm hm => ?_⟩
    · cases hk
      exact ⟨⟨g, List.mem_cons_self, ⟨rfl, rfl⟩, rfl⟩,
        fun hp => (hzero hp).le.trans (Nat.zero_le _)⟩
    · exact fun m hm => List.mem_cons_of_mem g hm
    · exact fun _ hc => List.mem_cons_of_mem _ hc
    · cases hm
      obtain ⟨m, hm, hmk, -⟩ := hk
      exact absurd (hmk.trans hkm) (hnew (hP _ _ hkm hp) m hm)

/-- What an event that is possible does. -/
inductive GoalStepped (sha256 : Text → Text) (s : GoalThread) : GoalEvent → GoalThread → Prop
  | refused {objective now : Text} {maxContinuations maxNoProgress : Int} :
      GoalStepped sha256 s (.set objective maxContinuations maxNoProgress now) s
  | set {objective now : Text} {maxContinuations maxNoProgress : Int} {g : GoalState} :
      buildGoalState objective maxContinuations maxNoProgress now = .ok g →
      GoalStepped sha256 s (.set objective maxContinuations maxNoProgress now)
        { s.ensureCheckpoint.writeGoal (some g) with made := g :: s.made }
  | cleared : GoalStepped sha256 s .clear (s.writeGoal none)
  | wrote {messages : List GoalMessage} {pendingWrites : Bool} :
      GoalStepped sha256 s (.write messages pendingWrites)
        (s.put messages s.latestGoal pendingWrites)
  | started {runId : Text} {branch : Option Nat} : s.phase = .idle →
      GoalStepped sha256 s (.start runId branch)
        { s.enter (.loading branch) with runId := runId, preRun := s.latest }
  | loaded {branch : Option Nat} {goal : Option GoalState} : s.phase = .loading branch →
      branchGoal s branch = some goal → GoalStepped sha256 s .load (s.enter (.streaming goal))
  | streamed {messages : List GoalMessage} {pendingWrites : Bool} {goal : Option GoalState} :
      s.phase = .streaming goal →
      GoalStepped sha256 s (.stream messages pendingWrites) (s.put messages goal pendingWrites)
  | prepared {goal : Option GoalState} : s.phase = .streaming goal →
      GoalStepped sha256 s .prepare (s.call .start)
  | advanced {evaluation : GoalEvaluation} {now : Text} {c : Call} : s.phase = .preparing c →
      GoalStepped sha256 s (.advance evaluation now) (Runtime.advance sha256 s evaluation now c)
  | stopped : GoalStepped sha256 s .stop s.leave
  | finished : GoalStepped sha256 s (.finish false) (s.enter .idle)
  | rolledBack : GoalStepped sha256 s (.finish true) ((rollbackToPreRun s).enter .idle)

theorem goalStepped_of_step {e : GoalEvent} (h : goalStep sha256 s e = some t) :
    GoalStepped sha256 s e t := by
  cases e with
  | set objective maxContinuations maxNoProgress now =>
    rw [goalStep] at h
    split at h
    · cases h
      exact .refused
    · next g hg =>
      obtain ⟨-, ht⟩ := Option.ite_none_left_eq_some.mp h
      cases ht
      exact .set hg
  | clear =>
    obtain ⟨-, ht⟩ := Option.ite_none_left_eq_some.mp h
    cases ht
    exact .cleared
  | write messages pendingWrites =>
    cases h
    exact .wrote
  | start runId branch =>
    rw [goalStep] at h
    split at h
    · next hphase =>
      cases h
      exact .started hphase
    · cases h
  | load =>
    rw [goalStep] at h
    split at h
    · next branch hphase =>
      obtain ⟨goal, hgoal, rfl⟩ := Option.map_eq_some_iff.mp h
      exact .loaded hphase hgoal
    · cases h
  | stream messages pendingWrites =>
    rw [goalStep] at h
    split at h
    · next goal hphase =>
      cases h
      exact .streamed hphase
    · cases h
  | prepare =>
    rw [goalStep] at h
    split at h
    · next goal hphase =>
      cases h
      exact .prepared hphase
    · cases h
  | advance evaluation now =>
    rw [goalStep] at h
    split at h
    · next c hphase =>
      cases h
      exact .advanced hphase
    · cases h
  | stop =>
    rw [goalStep] at h
    split at h
    · cases h
    · cases h
    · cases h
      exact .stopped
  | finish rollback =>
    rw [goalStep] at h
    split at h
    · cases h
      cases rollback with
      | false => exact .finished
      | true => exact .rolledBack
    · cases h

/-- Every step that brings back no earlier state keeps the invariant. -/
theorem RunInv.step (h : RunInv P s) (hP : ∀ g h, g.Matches h → P g → P h) {e : GoalEvent}
    (ho : Onward P s e) (hstep : goalStep sha256 s e = some t) : RunInv P t := by
  cases goalStepped_of_step hstep with
  | refused => exact h
  | @set objective now maxContinuations maxNoProgress g hg =>
    have hnew : P g → ∀ m ∈ s.made, ¬ m.Matches g := by
      refine ho g ?_
      rw [hg]
      rfl
    obtain ⟨hmade, -⟩ := ensureCheckpoint_same s
    rw [← hmade]
    rw [← hmade] at hnew
    exact h.ensureCheckpoint.set hP hnew (buildGoalState_count hg)
  | cleared => exact h.writeGoal_none
  | wrote => exact h.put fun g hg => hg
  | started =>
    refine ⟨⟨h.1.distinct, h.1.stored, fun c g hc hg => ?_, h.1.latest, h.1.logged, h.1.bound⟩,
      trivial⟩
    exact h.1.stored c (List.mem_of_mem_head? hc) g hg
  | @loaded branch goal hphase hgoal =>
    refine h.1.enter fun g hg => ?_
    subst hg
    cases branch with
    | none => exact h.1.holds_latest (Option.some.inj hgoal)
    | some id =>
      obtain ⟨c, hfind, hg⟩ := Option.map_eq_some_iff.mp hgoal
      have hc := List.mem_of_find?_eq_some hfind
      have hid : c.id = id := by simpa using List.find?_some hfind
      have hbranch : id ∈ s.phase.branch := by
        rw [hphase]
        rfl
      exact ⟨h.1.stored c hc g hg, ho id hbranch c hc hid g hg⟩
  | @streamed messages pendingWrites goal hphase =>
    have hgoal := h.2
    rw [hphase] at hgoal
    refine ⟨h.1.put hgoal, ?_⟩
    have hsame : (s.put messages goal pendingWrites).phase = .streaming goal := hphase
    rw [hsame]
    exact fun k hk => Holds.grow (hgoal k hk) grows_put
  | prepared => exact h.1.call trivial
  | advanced hphase =>
    have hcall := h.2
    rw [hphase] at hcall
    exact h.1.advance hP hcall _ _
  | stopped => exact h.1.leave
  | finished => exact h.1.enter trivial
  | rolledBack => exact (h.1.rollback (ho rfl)).enter trivial

end Events

end DeerFlow.Runtime
