import Mathlib

/-! Labelled transition systems, their runs, and the two rules every safety
proof here goes through: an invariant kept by one step holds in every reachable
state, and a map that sends steps to steps or to no move sends reachable states
to reachable states. -/

namespace DeerFlow.Transition

structure System (σ α : Type*) where
  init : σ → Prop
  step : σ → α → σ → Prop

variable {σ τ α β : Type*}

/-- The labels of a run from an initial state, in order, and the state it ends in. -/
inductive Run (S : System σ α) : List α → σ → Prop
  | nil {s : σ} : S.init s → Run S [] s
  | snoc {as : List α} {s t : σ} {a : α} : Run S as s → S.step s a t → Run S (as ++ [a]) t

def Reachable (S : System σ α) (s : σ) : Prop := ∃ as, Run S as s

theorem Reachable.init {S : System σ α} {s : σ} (h : S.init s) : Reachable S s :=
  ⟨[], .nil h⟩

theorem Reachable.step {S : System σ α} {s t : σ} {a : α} (h : Reachable S s)
    (ht : S.step s a t) : Reachable S t := by
  obtain ⟨as, hr⟩ := h
  exact ⟨as ++ [a], .snoc hr ht⟩

/-- The invariant rule. The step premise may use that the state is reachable. -/
theorem Reachable.invariant {S : System σ α} {I : σ → Prop}
    (h0 : ∀ s, S.init s → I s)
    (hstep : ∀ s a t, Reachable S s → I s → S.step s a t → I t)
    {s : σ} (h : Reachable S s) : I s := by
  obtain ⟨as, hr⟩ := h
  induction hr with
  | nil hi => exact h0 _ hi
  | snoc hr ht ih => exact hstep _ _ _ ⟨_, hr⟩ ih ht

/-- `t` can be reached from `s`. -/
def Later (S : System σ α) : σ → σ → Prop := Relation.ReflTransGen fun s t => ∃ a, S.step s a t

theorem Reachable.later {S : System σ α} {K : σ → σ → Prop} (hrefl : ∀ s, K s s)
    (htrans : ∀ {s t u}, K s t → K t u → K s u)
    (hstep : ∀ {s a t}, Reachable S s → S.step s a t → K s t) {s t : σ} (h : Reachable S s)
    (hl : Later S s t) : K s t := by
  have hboth : Reachable S t ∧ K s t := by
    induction hl with
    | refl => exact ⟨h, hrefl s⟩
    | tail _ ht ih =>
      obtain ⟨a, ht⟩ := ht
      exact ⟨ih.1.step ht, htrans ih.2 (hstep ih.1 ht)⟩
  exact hboth.2

/-- The system whose steps are those of `S` taken in a state where `C` allows them. -/
def System.when (S : System σ α) (C : σ → α → Prop) : System σ α where
  init := S.init
  step s a t := C s a ∧ S.step s a t

theorem Reachable.of_when {S : System σ α} {C : σ → α → Prop} {s : σ}
    (h : Reachable (S.when C) s) : Reachable S s :=
  h.invariant (fun _ hi => .init hi) (fun _ _ _ _ hs ht => hs.step ht.2)

theorem Later.invariant {S : System σ α} {C : σ → α → Prop} {I : σ → Prop}
    (hstep : ∀ s a t, Reachable S s → C s a → I s → S.step s a t → I t) {s t : σ}
    (hs : Reachable S s) (hi : I s) (hl : Later (S.when C) s t) : I t := by
  have hboth : Reachable S t ∧ I t := by
    induction hl with
    | refl => exact ⟨hs, hi⟩
    | tail _ ht ih =>
      obtain ⟨a, hc, ht⟩ := ht
      exact ⟨ih.1.step ht, hstep _ _ _ ih.1 hc ih.2 ht⟩
  exact hboth.2

/-- Forward simulation along a map of states: each step is matched by one step or by none. -/
theorem Reachable.simulate {S : System σ α} {T : System τ β} (f : σ → τ)
    (h0 : ∀ s, S.init s → T.init (f s))
    (hstep : ∀ s a t, Reachable S s → S.step s a t →
      f t = f s ∨ ∃ b, T.step (f s) b (f t))
    {s : σ} (h : Reachable S s) : Reachable T (f s) := by
  refine h.invariant (I := fun s => Reachable T (f s)) (fun s hi => .init (h0 s hi)) ?_
  intro s a t hs ih ht
  rcases hstep s a t hs ht with he | ⟨b, hb⟩
  · rwa [he]
  · exact ih.step hb

/-- A system whose step is a partial function of the label. -/
def System.ofFn (init : σ) (step : σ → α → Option σ) : System σ α where
  init s := s = init
  step s a t := step s a = some t

/-- What is reached from one initial state by a step function is reached. -/
theorem Reachable.of_ofFn {S : System σ α} {init : σ} {step : σ → α → Option σ} (h0 : S.init init)
    (hstep : ∀ s a t, step s a = some t → S.step s a t) {s : σ}
    (h : Reachable (System.ofFn init step) s) : Reachable S s := by
  refine h.invariant ?_ ?_
  · rintro s rfl
    exact .init h0
  · intro s a t _ hs ht
    exact hs.step (hstep s a t ht)

/-- Run a script: each label is read off the state it is taken in. -/
def runScript (step : σ → α → Option σ) : σ → List (σ → α) → Option σ
  | s, [] => some s
  | s, a :: as => (step s (a s)).bind fun t => runScript step t as

theorem Reachable.runScript {init : σ} {step : σ → α → Option σ} {as : List (σ → α)} {s t : σ}
    (hs : Reachable (System.ofFn init step) s) (h : Transition.runScript step s as = some t) :
    Reachable (System.ofFn init step) t := by
  induction as generalizing s with
  | nil =>
    cases h
    exact hs
  | cons a as ih =>
    obtain ⟨u, hu, hr⟩ := Option.bind_eq_some_iff.mp h
    exact ih (hs.step (a := a s) hu) hr

theorem later_of_runScript {init : σ} {step : σ → α → Option σ} {as : List (σ → α)} {s t : σ}
    (h : Transition.runScript step s as = some t) : Later (System.ofFn init step) s t := by
  induction as generalizing s with
  | nil =>
    cases h
    exact .refl
  | cons a as ih =>
    obtain ⟨u, hu, hr⟩ := Option.bind_eq_some_iff.mp h
    exact .head ⟨a s, hu⟩ (ih hr)

/-- A script that ends in a state with a decidable property shows that such a state is
reachable. -/
theorem exists_reachable_of_runScript {init : σ} {step : σ → α → Option σ} {p : σ → Bool}
    (as : List (σ → α)) (h : (Transition.runScript step init as).any p = true) :
    ∃ s, Reachable (System.ofFn init step) s ∧ p s = true := by
  obtain ⟨s, hs, hp⟩ := Option.any_eq_true _ _ |>.mp h
  exact ⟨s, (Reachable.init (S := System.ofFn init step) rfl).runScript hs, hp⟩

theorem exists_reachable_of_decide {init : σ} {step : σ → α → Option σ} {P : σ → Prop}
    [DecidablePred P] (as : List (σ → α))
    (h : (Transition.runScript step init as).any (fun s => decide (P s)) = true) :
    ∃ s, Reachable (System.ofFn init step) s ∧ P s := by
  obtain ⟨s, hs, hp⟩ := exists_reachable_of_runScript as h
  exact ⟨s, hs, of_decide_eq_true hp⟩

section Guarded
variable {C : σ → α → Prop} [∀ s a, Decidable (C s a)] {init : σ} {step : σ → α → Option σ}

/-- The step function of `System.when`. -/
def guarded (C : σ → α → Prop) [∀ s a, Decidable (C s a)] (step : σ → α → Option σ) (s : σ)
    (a : α) : Option σ := if C s a then step s a else none

theorem of_guarded {s t : σ} {a : α} (h : guarded C step s a = some t) :
    C s a ∧ step s a = some t := by
  unfold guarded at h
  split_ifs at h with hc
  exact ⟨hc, h⟩

theorem when_of_guarded {s : σ} (h : Reachable (System.ofFn init (guarded C step)) s) :
    Reachable ((System.ofFn init step).when C) s := by
  refine h.invariant (fun _ hi => .init hi) fun s a t _ hs ht => ?_
  change guarded C step s a = some t at ht
  unfold guarded at ht
  split_ifs at ht with hc
  exact hs.step (a := a) ⟨hc, ht⟩

theorem later_when_of_guarded {s t : σ} (h : Later (System.ofFn init (guarded C step)) s t) :
    Later ((System.ofFn init step).when C) s t := by
  induction h with
  | refl => exact .refl
  | tail _ ht ih =>
    obtain ⟨a, ht⟩ := ht
    change guarded C step _ a = some _ at ht
    unfold guarded at ht
    split_ifs at ht with hc
    exact ih.tail ⟨a, hc, ht⟩

end Guarded

end DeerFlow.Transition
