import Mathlib

/-! Two lists side by side: every item of the one has for its partner the item of the same rank in
the other, if there is one. Pairs that agree are counted from either side. -/

namespace DeerFlow.Ranks
variable {α β : Type} {xs : List α} {ys zs : List β}

def partners : List α → List β → List (α × Option β)
  | [], _ => []
  | x :: xs, ys => (x, ys.head?) :: partners xs ys.tail

theorem partners_append_singleton (xs : List α) (x : α) (ys : List β) :
    partners (xs ++ [x]) ys = partners xs ys ++ [(x, ys[xs.length]?)] := by
  induction xs generalizing ys with
  | nil =>
    rw [List.nil_append, List.length_nil, ← List.head?_eq_getElem?]
    rfl
  | cons y xs ih =>
    have hrest := ih ys.tail
    rw [List.getElem?_tail] at hrest
    exact congrArg ((y, ys.head?) :: ·) hrest

theorem partners_congr (h : ys.take xs.length = zs.take xs.length) :
    partners xs ys = partners xs zs := by
  induction xs generalizing ys zs with
  | nil => rfl
  | cons x xs ih =>
    cases ys with
    | nil =>
      cases zs with
      | nil => rfl
      | cons z zs => cases h
    | cons y ys =>
      cases zs with
      | nil => cases h
      | cons z zs =>
        obtain ⟨rfl, hrest⟩ := List.cons.inj h
        exact congrArg ((x, some y) :: ·) (ih hrest)

theorem mem_of_mem_partners {p : α × Option β} {y : β} (hp : p ∈ partners xs ys)
    (hy : p.2 = some y) : y ∈ ys := by
  induction xs generalizing ys with
  | nil => cases hp
  | cons x xs ih =>
    rcases List.mem_cons.mp hp with rfl | hrest
    · exact List.mem_of_mem_head? hy
    · exact List.mem_of_mem_tail (ih hrest)

/-- Pairs that agree are seen from both sides. -/
theorem countP_partners_comm (P : α → Bool) (Q : β → Bool) (xs : List α) (ys : List β) :
    (partners xs ys).countP (fun p => P p.1 && p.2.any Q) =
      (partners ys xs).countP (fun p => Q p.1 && p.2.any P) := by
  have hnone {γ δ : Type} (P : γ → Bool) (Q : δ → Bool) (xs : List γ) :
      (partners xs ([] : List δ)).countP (fun p => P p.1 && p.2.any Q) = 0 := by
    induction xs with
    | nil => rfl
    | cons x xs ih =>
      rw [partners, List.countP_cons_of_neg (by simp)]
      exact ih
  induction xs generalizing ys with
  | nil => exact (hnone Q P ys).symm
  | cons x xs ih =>
    cases ys with
    | nil => exact hnone P Q (x :: xs)
    | cons y ys =>
      rw [partners, partners, List.countP_cons, List.countP_cons, List.head?_cons, List.head?_cons,
        List.tail_cons, List.tail_cons, ih ys]
      cases hP : P x <;> cases hQ : Q y <;> simp [hP, hQ]

/-- The items for which something holds, as those whose partner agrees and those whose partner
does not. -/
theorem countP_partners_add (P : α → Bool) (Q : β → Bool) (xs : List α) (ys : List β) :
    (partners xs ys).countP (fun p => P p.1 && p.2.any Q) +
      (partners xs ys).countP (fun p => P p.1 && !p.2.any Q) = xs.countP P := by
  induction xs generalizing ys with
  | nil => rfl
  | cons x xs ih =>
    have hrest := ih ys.tail
    rw [partners, List.countP_cons, List.countP_cons, List.countP_cons, ← hrest]
    cases hP : P x <;> cases hQ : ys.head?.any Q <;> simp <;> omega

theorem filter_of_take {l : List α} {P : α → Bool} {n : Nat} (h : ∀ x ∈ l.take n, P x = true) :
    (l.filter P).take n = l.take n ∧ (l.filter P).drop n = (l.drop n).filter P := by
  have hsplit : l.filter P = l.take n ++ (l.drop n).filter P := by
    conv_lhs => rw [← List.take_append_drop n l]
    rw [List.filter_append, List.filter_eq_self.mpr h]
  by_cases hn : n ≤ l.length
  · have hlength : (l.take n).length = n := List.length_take_of_le hn
    rw [hsplit, List.take_left' hlength, List.drop_left' hlength]
    exact ⟨rfl, rfl⟩
  · have hlong : l.length ≤ n := by omega
    have hfilter : (l.filter P).length ≤ n := Nat.le_trans (List.length_filter_le P l) hlong
    rw [List.drop_of_length_le hlong, List.filter_nil, List.append_nil] at hsplit
    rw [List.drop_of_length_le hlong, List.drop_of_length_le hfilter,
      List.take_of_length_le hfilter]
    exact ⟨hsplit, rfl⟩

end DeerFlow.Ranks
