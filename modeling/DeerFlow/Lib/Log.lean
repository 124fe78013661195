import Mathlib

/-! Two readings of an append-only log: as one path of a state, and as a record
of whether one kind of entry has been written since another. -/

namespace DeerFlow.Log
variable {α σ : Type*}

section Path
variable (src : α → Option σ) (dst : α → σ)

/-- The entries lead from `a` to `b`: each starts where the one before it ended. -/
def Path : Option σ → List α → Option σ → Prop
  | a, [], b => a = b
  | a, r :: rs, b => src r = a ∧ Path (some (dst r)) rs b

instance Path.decidable [DecidableEq σ] (src : α → Option σ) (dst : α → σ) :
    (a : Option σ) → (xs : List α) → (b : Option σ) → Decidable (Path src dst a xs b)
  | a, [], b => inferInstanceAs (Decidable (a = b))
  | _, r :: rs, b =>
    have := Path.decidable src dst (some (dst r)) rs b
    inferInstanceAs (Decidable (_ ∧ _))

variable {src dst}

theorem path_append {a c : Option σ} {xs ys : List α} :
    Path src dst a (xs ++ ys) c ↔ ∃ b, Path src dst a xs b ∧ Path src dst b ys c := by
  induction xs generalizing a with
  | nil => simp [Path]
  | cons x xs ih => simp only [List.cons_append, Path, ih, and_assoc, exists_and_left]

theorem Path.append {a b c : Option σ} {xs ys : List α} (h : Path src dst a xs b)
    (h' : Path src dst b ys c) : Path src dst a (xs ++ ys) c := path_append.mpr ⟨b, h, h'⟩

theorem Path.eq_nil {a : Option σ} {xs : List α} (h : Path src dst a xs none) : xs = [] := by
  induction xs generalizing a with
  | nil => rfl
  | cons x xs ih =>
    obtain rfl := ih h.2
    exact absurd h.2 (by simp [Path])

end Path

section Since
variable {p q : α → Prop}

/-- Some entry satisfies `p`, and none after it satisfies `q`. -/
def Since (p q : α → Prop) (xs : List α) : Prop :=
  ∃ before r after, xs = before ++ r :: after ∧ p r ∧ ∀ x ∈ after, ¬ q x

theorem Since.append {xs ys : List α} (h : Since p q xs) (hys : ∀ y ∈ ys, ¬ q y) :
    Since p q (xs ++ ys) := by
  obtain ⟨before, r, after, rfl, hr, hafter⟩ := h
  refine ⟨before, r, after ++ ys, by simp, hr, fun x hx => ?_⟩
  rcases List.mem_append.mp hx with hx | hx
  · exact hafter x hx
  · exact hys x hx

theorem since_snoc {xs : List α} {r : α} (hr : p r) : Since p q (xs ++ [r]) :=
  ⟨xs, r, [], rfl, hr, nofun⟩

end Since

end DeerFlow.Log
