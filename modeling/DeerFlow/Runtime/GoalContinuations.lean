import DeerFlow.Runtime.GoalBound

/-! The inputs that keep a goal going. Each was granted by a counter that the call had just written
one higher, so there are no more of them than the limit of the goal, and the loop of a run
ends. -/

namespace DeerFlow.Runtime
open Transition GoalThread

/-- How many reads and writes of the call may still follow. -/
def Call.rank : Call → Nat
  | .start => 10
  | .readCheckpoint _ => 9
  | .evaluate .. => 8
  | .rereadGoal .. => 7
  | .rereadCheckpoint .. => 6
  | .persist _ (some _) => 5
  | .writePersisted _ _ _ (some _) => 4
  | .verifyGoal .. => 3
  | .verifyCheckpoint .. => 2
  | .clear _ | .persist _ none => 1
  | .writeCleared _ | .writePersisted _ _ _ none => 0

/-- The call goes on nearer to its end, and the verification may return an input. -/
structure Moves (s t : GoalThread) (c : Call) : Prop where
  made : t.made = s.made
  rank : ∀ c', t.phase = .preparing c' → c'.rank < c.rank
  returned : t.returned = s.returned ∨
    ∃ g updated before e latest, c = .verifyCheckpoint g updated before e latest ∧
      t.returned = ⟨g, updated, goalContinuationContent updated e⟩ :: s.returned

section Moving
variable {sha256 : Text → Text} {s t : GoalThread} {c c' : Call}

theorem writeGoal_same (s : GoalThread) (goal : Option GoalState) :
    (s.writeGoal goal).made = s.made ∧ (s.writeGoal goal).returned = s.returned := by
  rcases writeGoal_eq s goal with he | ⟨c, -, he⟩
  · rw [he]
    exact ⟨rfl, rfl⟩
  · rw [he]
    exact ⟨rfl, rfl⟩

theorem moves_leave (hm : t.made = s.made) (hr : t.returned = s.returned) : Moves s t.leave c := by
  refine ⟨hm, fun k hk => ?_, .inl hr⟩
  have hphase : Phase.finishing = .preparing k := hk
  cases hphase

theorem moves_call (hm : t.made = s.made) (hr : t.returned = s.returned) (h : c'.rank < c.rank) :
    Moves s (t.call c') c := by
  refine ⟨hm, fun k hk => ?_, .inl hr⟩
  obtain rfl := Phase.preparing.inj hk
  exact h

theorem rank_goalDecision (g : GoalState) (before : Evidence) (e : GoalEvaluation) :
    (goalDecision g before e).rank ≤ 5 := by
  unfold goalDecision
  extract_lets noProgressCount reason
  split_ifs <;> simp [Call.rank]

theorem moves_advance (s : GoalThread) (evaluation : GoalEvaluation) (now : Text) (c : Call) :
    Moves s (Runtime.advance sha256 s evaluation now c) c := by
  have hcall : ∀ {c' : Call}, c'.rank < c.rank → Moves s (s.call c') c := moves_call rfl rfl
  have hstep : Advances s evaluation now c (Runtime.advance sha256 s evaluation now c) :=
    advances_advance s evaluation now c
  generalize Runtime.advance sha256 s evaluation now c = t at hstep
  cases hstep with
  | left | cleared | persisted => exact moves_leave rfl rfl
  | decided => exact hcall (Nat.lt_succ_of_le (rank_goalDecision _ _ _))
  | @writePersisted _ verify => cases verify <;> exact hcall (by simp [Call.rank])
  | verifyGoal => exact moves_call rfl rfl (by simp [Call.rank])
  | @returned g updated before e latest =>
    refine ⟨rfl, fun k hk => ?_, .inr ⟨g, updated, before, e, latest, rfl, rfl⟩⟩
    have hphase : Phase.loading none = .preparing k := hk
    cases hphase
  | _ => exact hcall (by simp [Call.rank])

end Moving

/-- The event is one of the same run, and no goal is set by it. -/
def InRun (_ : GoalThread) : GoalEvent → Prop
  | .set objective maxContinuations maxNoProgress now =>
    ∀ g, buildGoalState objective maxContinuations maxNoProgress now ≠ .ok g
  | .finish _ => False
  | _ => True

section Events
variable {sha256 : Text → Text} {s t : GoalThread} {e : GoalEvent}

theorem ensureCheckpoint_writeGoal (s : GoalThread) (goal : Option GoalState) :
    (s.ensureCheckpoint.writeGoal goal).returned = s.returned := by
  rw [(writeGoal_same _ _).2, (ensureCheckpoint_same s).2]

/-- What an event does to the goals that were set and to the inputs that were returned. -/
theorem goalStep_frame (h : goalStep sha256 s e = some t) :
    (InRun s e → t.made = s.made) ∧
      (t.returned = s.returned ∨ ∃ evaluation now c, e = .advance evaluation now ∧
        s.phase = .preparing c ∧ t = Runtime.advance sha256 s evaluation now c) := by
  cases goalStepped_of_step h with
  | refused | wrote | started | loaded | streamed | prepared | stopped | finished =>
    exact ⟨fun _ => rfl, .inl rfl⟩
  | @set _ _ _ _ g hg =>
    exact ⟨fun hn => absurd hg (hn g), .inl (ensureCheckpoint_writeGoal s (some g))⟩
  | cleared => exact ⟨fun _ => (writeGoal_same s none).1, .inl (writeGoal_same s none).2⟩
  | @advanced evaluation now c hphase =>
    exact ⟨fun _ => (moves_advance s evaluation now c).made,
      .inr ⟨evaluation, now, c, rfl, hphase, rfl⟩⟩
  | rolledBack =>
    have hsame : (rollbackToPreRun s).made = s.made ∧
        (rollbackToPreRun s).returned = s.returned := by
      unfold rollbackToPreRun
      split <;> exact ⟨rfl, rfl⟩
    exact ⟨fun _ => hsame.1, .inl hsame.2⟩

theorem writeGoal_phase (goal : Option GoalState) : (s.writeGoal goal).phase = s.phase := by
  rcases writeGoal_eq s goal with he | ⟨c, -, he⟩
  · rw [he]
  · rw [he]
    rfl

end Events

section Reached
variable {sha256 : Text → Text} {s t : GoalThread}

theorem goalInv_empty (P : GoalState → Prop) : GoalInv P .empty := by
  refine ⟨.nil, List.forall_mem_nil _, fun c g hc => ?_, fun g hg => ?_, List.forall_mem_nil _,
    List.forall_mem_nil _⟩
  · have hnone : none = some c := hc
    cases hnone
  · have hnone : none = some g := hg
    cases hnone

theorem runInv_of_reachable {P : GoalState → Prop} (hP : ∀ g h, g.Matches h → P g → P h)
    (h : Reachable ((goalSystem sha256).when (Onward P)) s) : RunInv P s := by
  refine h.invariant ?_ fun s a t _ hs ht => hs.step hP ht.1 ht.2
  rintro s rfl
  exact ⟨goalInv_empty P, trivial⟩

theorem onward_false (s : GoalThread) (e : GoalEvent) : Onward (fun _ => False) s e := by
  cases e with
  | set => exact fun _ _ hp => hp.elim
  | load => exact fun _ _ _ _ _ _ _ hp => hp.elim
  | finish => exact fun _ _ _ _ _ hp => hp.elim
  | _ => trivial

/-- What does not speak of the counters of earlier states holds in every state. -/
theorem runInv_false (h : Reachable (goalSystem sha256) s) : RunInv (fun _ => False) s := by
  refine h.invariant ?_ fun s a t _ hs ht => hs.step (fun _ _ _ hp => hp) (onward_false s a) ht
  rintro s rfl
  exact ⟨goalInv_empty _, trivial⟩

/-- An input that is returned was persisted with the next counter. -/
theorem persisted_of_returned {e : GoalEvent} {r : Continuation}
    (h : Reachable (goalSystem sha256) s) (hstep : goalStep sha256 s e = some t)
    (hr : t.returned = r :: s.returned) : Persisted s r.goal r.updated := by
  have hne : t.returned ≠ s.returned := by
    intro he
    rw [he] at hr
    exact List.cons_ne_self r s.returned hr.symm
  obtain ⟨evaluation, now, c, -, hphase, rfl⟩ := (goalStep_frame hstep).2.resolve_left hne
  obtain ⟨g, updated, before, ev, latest, rfl, hret⟩ :=
    (moves_advance s evaluation now c).returned.resolve_left hne
  have hcall := (runInv_false h).2
  rw [hphase] at hcall
  obtain ⟨rfl, -⟩ := List.cons.inj (hr.symm.trans hret)
  exact hcall.1.updated

end Reached

/-- How many more turns the counter of the goal leaves. -/
def GoalState.turnsLeft (g : GoalState) : Nat := g.maxContinuations - g.continuationCount

section Spending
variable (limit : Nat) (s : GoalThread)

/-- The thread has no other goal, and with the turns that it has left, `n` inputs stay within the
limit. -/
structure Spends (n : Nat) (g : GoalState) : Prop where
  latest : ∀ h, s.latestGoal = some h → h = g
  left : n + g.turnsLeft ≤ limit

def LatestSpends : Prop :=
  s.returned.length ≤ limit ∧
    ∀ g, s.latestGoal = some g → s.returned.length + g.turnsLeft ≤ limit

/-- After a granted turn was written, its input is counted already. -/
def CallSpends : Call → Prop
  | .start | .clear _ | .writeCleared _ => LatestSpends limit s
  | .readCheckpoint g | .evaluate g _ | .rereadGoal g _ _ | .rereadCheckpoint g _ _ _
  | .persist _ (some (g, _)) => Spends limit s s.returned.length g
  | .writePersisted _ current _ (some (g, _)) =>
    Spends limit s s.returned.length g ∧ current = g
  | .verifyGoal _ updated _ _ | .verifyCheckpoint _ updated _ _ _ =>
    Spends limit s (s.returned.length + 1) updated
  | .persist _ none | .writePersisted _ _ _ none => s.returned.length ≤ limit

/-- What a run that has got an input back may still get. -/
def PhaseSpends : Phase → Prop
  | .idle => False
  | .loading branch => branch = none ∧ LatestSpends limit s
  | .streaming none => s.latestGoal = none ∧ s.returned.length ≤ limit
  | .streaming (some g) => Spends limit s s.returned.length g
  | .preparing c => CallSpends limit s c
  | .finishing => s.returned.length ≤ limit

end Spending

section Spent
variable {sha256 : Text → Text} {limit : Nat} {s t : GoalThread} {c : Call} {p : Phase}
  {g : GoalState} {n : Nat}

theorem Spends.le (h : Spends limit s n g) : n ≤ limit := (Nat.le_add_right n _).trans h.left

theorem Spends.latestSpends (h : Spends limit s s.returned.length g) : LatestSpends limit s := by
  refine ⟨h.le, fun k hk => ?_⟩
  rw [h.latest k hk]
  exact h.left

theorem CallSpends.le (h : CallSpends limit s c) : s.returned.length ≤ limit := by
  cases c with
  | start | clear | writeCleared => exact h.1
  | readCheckpoint | evaluate | rereadGoal | rereadCheckpoint => exact Spends.le h
  | persist args verify =>
    cases verify with
    | none => exact h
    | some granted => exact Spends.le h
  | writePersisted args current expected verify =>
    cases verify with
    | none => exact h
    | some granted => exact Spends.le h.1
  | verifyGoal | verifyCheckpoint => exact (Nat.le_succ _).trans (Spends.le h)

theorem PhaseSpends.le (h : PhaseSpends limit s p) : s.returned.length ≤ limit := by
  cases p with
  | idle => exact h.elim
  | loading => exact h.2.1
  | streaming goal =>
    cases goal with
    | none => exact h.2
    | some g => exact Spends.le h
  | preparing => exact CallSpends.le h
  | finishing => exact h

/-- Nothing is returned, and the latest goal stays or it goes. -/
structure Quiet (s t : GoalThread) : Prop where
  returned : t.returned = s.returned
  latest : ∀ g, t.latestGoal = some g → s.latestGoal = some g

theorem Spends.quiet (h : Spends limit s n g) (hq : Quiet s t) : Spends limit t n g :=
  ⟨fun k hk => h.latest k (hq.latest k hk), h.left⟩

theorem LatestSpends.quiet (h : LatestSpends limit s) (hq : Quiet s t) : LatestSpends limit t := by
  unfold LatestSpends
  rw [hq.returned]
  exact ⟨h.1, fun k hk => h.2 k (hq.latest k hk)⟩

theorem CallSpends.quiet (h : CallSpends limit s c) (hq : Quiet s t) : CallSpends limit t c := by
  have hret : t.returned.length = s.returned.length := congrArg List.length hq.returned
  cases c with
  | start | clear | writeCleared => exact LatestSpends.quiet h hq
  | readCheckpoint | evaluate | rereadGoal | rereadCheckpoint | verifyGoal | verifyCheckpoint =>
    unfold CallSpends
    rw [hret]
    exact Spends.quiet h hq
  | persist args verify =>
    cases verify with
    | none => exact hret.le.trans h
    | some granted =>
      unfold CallSpends
      rw [hret]
      exact Spends.quiet h hq
  | writePersisted args current expected verify =>
    cases verify with
    | none => exact hret.le.trans h
    | some granted =>
      unfold CallSpends
      rw [hret]
      exact ⟨Spends.quiet h.1 hq, h.2⟩

theorem PhaseSpends.quiet (h : PhaseSpends limit s p) (hq : Quiet s t) :
    PhaseSpends limit t p := by
  have hret : t.returned.length = s.returned.length := congrArg List.length hq.returned
  cases p with
  | idle => exact h
  | loading => exact ⟨h.1, LatestSpends.quiet h.2 hq⟩
  | streaming goal =>
    cases goal with
    | none =>
      refine ⟨?_, hret.le.trans h.2⟩
      cases hl : t.latestGoal with
      | none => rfl
      | some g => exact (hq.latest g hl).symm.trans h.1
    | some g =>
      unfold PhaseSpends
      rw [hret]
      exact Spends.quiet h hq
  | preparing => exact CallSpends.quiet h hq
  | finishing => exact hret.le.trans h

theorem quiet_enter (s : GoalThread) (p : Phase) : Quiet s (s.enter p) := ⟨rfl, fun _ hg => hg⟩

theorem quiet_writeGoal_none (s : GoalThread) : Quiet s (s.writeGoal none) := by
  refine ⟨(writeGoal_same s none).2, fun g hg => ?_⟩
  rcases writeGoal_eq s none with he | ⟨c, -, he⟩
  · rwa [he] at hg
  · rw [he] at hg
    cases hg

/-- A decision is taken on the goal that was read. -/
theorem callSpends_goalDecision (h : Spends limit s s.returned.length g) (before : Evidence)
    (e : GoalEvaluation) : CallSpends limit s (goalDecision g before e) := by
  unfold goalDecision
  extract_lets noProgressCount reason
  split_ifs
  · exact h.latestSpends
  · exact h.le
  · exact h

/-- The counter of a granted turn is written, and the goal has one turn less. -/
theorem Spends.granted {args : Persisting} {current : GoalState} {before : Evidence}
    (h : Spends limit s s.returned.length g) (hcur : current = g)
    (hargs : PersistInv (fun _ => False) s args (some (g, before))) (c : GoalCheckpoint)
    (now : Text) :
    Spends limit (s.put c.messages (some (args.attach current s.runId now)) c.pendingWrites)
      (s.returned.length + 1) (args.attach current s.runId now) := by
  obtain ⟨-, hcount, hlimit⟩ := hargs.granted g before rfl
  refine ⟨fun k hk => (Option.some.inj hk).symm, ?_⟩
  have hleft := h.left
  have hturns : (args.attach current s.runId now).turnsLeft =
      current.maxContinuations - args.continuationCount.getD current.continuationCount := rfl
  rw [hturns, hcount, hcur, Option.getD_some]
  unfold GoalState.turnsLeft at hleft
  omega

/-- The next read or write of a call keeps within the limit. -/
theorem CallSpends.advance (h : CallSpends limit s c) (hc : CallInv (fun _ => False) s c)
    (evaluation : GoalEvaluation) (now : Text) :
    PhaseSpends limit (Runtime.advance sha256 s evaluation now c)
      (Runtime.advance sha256 s evaluation now c).phase := by
  have hle := h.le
  have hstep : Advances s evaluation now c (Runtime.advance sha256 s evaluation now c) :=
    advances_advance s evaluation now c
  generalize Runtime.advance sha256 s evaluation now c = t at hstep
  cases hstep with
  | left | noReceipt | changed | cleared | persisted | moved => exact hle
  | readCheckpoint hg =>
    exact ⟨fun k hk => Option.some.inj (hk.symm.trans hg), h.2 _ hg⟩
  | evaluate | rereadGoal | rereadCheckpoint | verifyCheckpoint =>
    exact Spends.quiet h (quiet_enter s _)
  | decided => exact CallSpends.quiet (callSpends_goalDecision h _ _) (quiet_enter s _)
  | writeCleared => exact LatestSpends.quiet h (quiet_enter s _)
  | @writePersisted args verify current id hcurrent hmatch =>
    cases verify with
    | none => exact hle
    | some granted => exact ⟨Spends.quiet h (quiet_enter s _), h.latest _ hcurrent⟩
  | verifyGoal => exact Spends.quiet (h.1.granted h.2 hc.1 _ now) (quiet_enter _ _)
  | @returned g updated _ e =>
    have hnext : (s.giveBack ⟨g, updated, goalContinuationContent updated e⟩).returned.length =
        s.returned.length + 1 := List.length_cons
    refine ⟨rfl, ?_⟩
    unfold LatestSpends
    rw [hnext]
    refine ⟨Spends.le h, fun k hk => ?_⟩
    rw [h.latest k hk]
    exact h.left

theorem PhaseSpends.step {e : GoalEvent} (h : PhaseSpends limit s s.phase)
    (hinv : RunInv (fun _ => False) s) (he : InRun s e) (hstep : goalStep sha256 s e = some t) :
    PhaseSpends limit t t.phase := by
  cases goalStepped_of_step hstep with
  | refused => exact h
  | set hg => exact absurd hg (he _)
  | cleared =>
    rw [writeGoal_phase]
    exact h.quiet (quiet_writeGoal_none s)
  | wrote => exact h.quiet ⟨rfl, fun _ hg => hg⟩
  | started hphase =>
    rw [hphase] at h
    exact h.elim
  | @loaded branch goal hphase hgoal =>
    rw [hphase] at h
    obtain ⟨rfl, hle, hleft⟩ := h
    obtain rfl := Option.some.inj hgoal
    show PhaseSpends limit _ (.streaming s.latestGoal)
    cases hl : s.latestGoal with
    | none => exact ⟨hl, hle⟩
    | some g => exact ⟨fun k hk => Option.some.inj (hk.symm.trans hl), hleft g hl⟩
  | @streamed messages pendingWrites goal hphase =>
    have hsame : (s.put messages goal pendingWrites).phase = .streaming goal := hphase
    rw [hsame]
    rw [hphase] at h
    cases goal with
    | none => exact ⟨rfl, h.2⟩
    | some g => exact ⟨fun k hk => (Option.some.inj hk).symm, h.left⟩
  | @prepared goal hphase =>
    rw [hphase] at h
    cases goal with
    | none => exact ⟨h.2, fun g hg => absurd (hg.symm.trans h.1) (Option.some_ne_none g)⟩
    | some g => exact LatestSpends.quiet h.latestSpends (quiet_enter s _)
  | advanced hphase =>
    have hcall := hinv.2
    rw [hphase] at h hcall
    exact CallSpends.advance h hcall _ _
  | stopped => exact h.le
  | finished | rolledBack => exact he.elim

end Spent

section Bounds
variable {sha256 : Text → Text} {limit : Nat} {s t : GoalThread}

/-- The first input of the run leaves a goal that was set, with no more turns than its limit. -/
theorem spends_of_returned (h : Reachable (goalSystem sha256) s)
    (hlimit : ∀ m ∈ s.made, m.maxContinuations ≤ limit) {e : GoalEvent}
    (hstep : goalStep sha256 s e = some t) (hne : t.returned ≠ s.returned) :
    PhaseSpends (s.returned.length + limit + 1) t t.phase := by
  obtain ⟨evaluation, now, c, -, -, rfl⟩ := (goalStep_frame hstep).2.resolve_left hne
  have hadvances : Advances s evaluation now c (Runtime.advance sha256 s evaluation now c) :=
    advances_advance s evaluation now c
  generalize Runtime.advance sha256 s evaluation now c = t at hadvances hne
  cases hadvances with
  | @returned g updated _ e =>
    have hnext : (s.giveBack ⟨g, updated, goalContinuationContent updated e⟩).returned.length =
        s.returned.length + 1 := List.length_cons
    refine ⟨rfl, ?_⟩
    unfold LatestSpends
    rw [hnext]
    refine ⟨by omega, fun k hk => ?_⟩
    obtain ⟨m, hm, -, hmax⟩ := ((runInv_false h).1.holds_latest hk).1
    have hturns : k.turnsLeft ≤ k.maxContinuations := Nat.sub_le _ _
    have := hlimit m hm
    omega
  | _ => exact absurd rfl hne

/-- A run in which no goal is set goes on at most as often as the limits of the goals allow. -/
theorem returned_le_of_inRun (h : Reachable (goalSystem sha256) s)
    (hlimit : ∀ m ∈ s.made, m.maxContinuations ≤ limit)
    (hl : Later ((goalSystem sha256).when InRun) s t) :
    t.returned.length ≤ s.returned.length + limit + 1 := by
  have hspends : t.made = s.made ∧ (t.returned = s.returned ∨
      PhaseSpends (s.returned.length + limit + 1) t t.phase) := by
    refine Later.invariant (I := fun t => t.made = s.made ∧ (t.returned = s.returned ∨
      PhaseSpends (s.returned.length + limit + 1) t t.phase)) ?_ h ⟨rfl, .inl rfl⟩ hl
    rintro u e v hu he ⟨hmade, hspent⟩ hstep
    have hstep : goalStep sha256 u e = some v := hstep
    refine ⟨((goalStep_frame hstep).1 he).trans hmade, ?_⟩
    rcases hspent with hsame | hspent
    · by_cases hne : v.returned = u.returned
      · exact .inl (hne.trans hsame)
      · rw [← hmade] at hlimit
        rw [← hsame]
        exact .inr (spends_of_returned hu hlimit hstep hne)
    · exact .inr (hspent.step (runInv_false hu) he hstep)
  rcases hspends.2 with hsame | hspent
  · rw [hsame]
    omega
  · exact hspent.le

theorem matches_closed (m g h : GoalState) (hgh : g.Matches h) (hm : m.Matches g) : m.Matches h :=
  hm.trans hgh

/-- A call that returns an input has written the counter one higher. As long as no earlier state of
a goal instance is brought back, the instance gets no more inputs than its limit. Every call ends,
and while no goal is set a run gets no more inputs than the largest limit and the one that it may
be about to get. -/
theorem goal_continuations_bounded (sha256 : Text → Text) :
    (∀ s t e r, Reachable (goalSystem sha256) s → goalStep sha256 s e = some t →
      t.returned = r :: s.returned → Persisted s r.goal r.updated) ∧
    (∀ m s, Reachable ((goalSystem sha256).when (Onward m.Matches)) s →
      m ∈ s.made → s.returnedFor m ≤ m.maxContinuations) ∧
    (∀ limit s t, Reachable (goalSystem sha256) s → (∀ m ∈ s.made, m.maxContinuations ≤ limit) →
      Later ((goalSystem sha256).when InRun) s t →
        t.returned.length ≤ s.returned.length + limit + 1) ∧
    (∀ s evaluation now c c', (Runtime.advance sha256 s evaluation now c).phase = .preparing c' →
      c'.rank < c.rank) := by
  refine ⟨fun s t e r h => persisted_of_returned h, fun m s h hm => ?_,
    fun limit s t => returned_le_of_inRun,
    fun s evaluation now c => (moves_advance s evaluation now c).rank⟩
  exact (runInv_of_reachable (matches_closed m) h).1.bound m hm ⟨rfl, rfl⟩

end Bounds

section Restored

/-- The evaluator finds that useful work can go on. -/
def unmet : GoalEvaluation := ⟨false, .goalNotMetYet, [], []⟩

def setGoal : GoalThread → GoalEvent := fun _ => .set "Ship".toList 1 2 "t0".toList

/-- A run that streams one answer and is granted one more turn. -/
def oneTurn (branch : Option Nat) : List (GoalThread → GoalEvent) :=
  [fun _ => .start "run".toList branch, fun _ => .load,
    fun _ => .stream [⟨.ai, false, "Done so far".toList⟩] false, fun _ => .prepare] ++
  List.replicate 9 fun _ => .advance unmet "t1".toList

def finishRun (rollback : Bool) : List (GoalThread → GoalEvent) :=
  [fun _ => .stop, fun _ => .finish rollback]

/-- More inputs were returned for a goal than its limit allows. -/
def Exceeded (s : GoalThread) : Prop := ∃ m ∈ s.made, m.maxContinuations < s.returnedFor m

instance (s : GoalThread) : Decidable (Exceeded s) :=
  inferInstanceAs (Decidable (∃ m ∈ s.made, m.maxContinuations < s.returnedFor m))

/-- The run is rolled back while the turn it was granted has not streamed yet. -/
def rolledBack : List (GoalThread → GoalEvent) :=
  [setGoal] ++ oneTurn none ++ finishRun true ++ oneTurn none

/-- The second run branches from the checkpoint in which the goal was set. -/
def branched : List (GoalThread → GoalEvent) :=
  [setGoal] ++ oneTurn none ++ finishRun false ++ oneTurn (some 1)

/-- The goal is set twice with one time stamp. -/
def setAgain : List (GoalThread → GoalEvent) :=
  [setGoal] ++ oneTurn none ++ finishRun false ++ [setGoal] ++ oneTurn none

/-- The script runs to a state in which the limit is exceeded. -/
def Exceeds (script : List (GoalThread → GoalEvent)) : Prop :=
  ∃ s, runScript (goalStep fun _ => []) .empty script = some s ∧
    Reachable (goalSystem fun _ => []) s ∧ Exceeded s

theorem exceeds_of_runScript {script : List (GoalThread → GoalEvent)}
    (hrun : (runScript (goalStep fun _ => []) .empty script).any (fun s => Exceeded s) = true) :
    Exceeds script := by
  obtain ⟨s, hs, hexceeded⟩ := (Option.any_eq_true _ _).mp hrun
  exact ⟨s, hs, (Reachable.init (S := goalSystem fun _ => []) rfl).runScript hs,
    of_decide_eq_true hexceeded⟩

/-- Each of the three brings back an old counter, and one more turn is granted than the limit
allows. -/
theorem old_counter_grants_again : Exceeds rolledBack ∧ Exceeds branched ∧ Exceeds setAgain := by
  refine ⟨exceeds_of_runScript ?_, exceeds_of_runScript ?_, exceeds_of_runScript ?_⟩
  · decide +kernel
  · decide +kernel
  · decide +kernel

end Restored

end DeerFlow.Runtime
