import Mathlib

/-! Binary search in a list in which the members with a property come first. -/

namespace DeerFlow.Bisect
variable {α : Type*}

/-- Halve `[lo, hi)` until it is empty. -/
def search (p : α → Bool) (xs : List α) : Nat → Nat → Nat → Nat
  | 0, lo, _ => lo
  | fuel + 1, lo, hi =>
    if lo < hi then
      match xs[(lo + hi) / 2]? with
      | some x =>
        if p x then search p xs fuel ((lo + hi) / 2 + 1) hi else search p xs fuel lo ((lo + hi) / 2)
      | none => lo
    else lo

/-- `bisect`: the number of members with the property. -/
def bisect (p : α → Bool) (xs : List α) : Nat := search p xs xs.length 0 xs.length

/-- Members with the property come before those without. -/
def Partitioned (p : α → Bool) (xs : List α) : Prop := xs.Pairwise fun a b => p b = true → p a = true

variable {p : α → Bool} {xs : List α}

theorem Partitioned.getElem (h : Partitioned p xs) {i j : Nat} (hij : i ≤ j) (hj : j < xs.length)
    (hp : p xs[j] = true) : p xs[i] = true := by
  rcases Nat.eq_or_lt_of_le hij with rfl | hlt
  · exact hp
  · exact List.pairwise_iff_getElem.mp h i j _ hj hlt hp

theorem search_spec (h : Partitioned p xs) {fuel lo hi : Nat} (hfuel : hi - lo ≤ fuel)
    (hle : lo ≤ hi) (hhi : hi ≤ xs.length)
    (hbelow : ∀ i (hi : i < xs.length), i < lo → p xs[i] = true)
    (habove : ∀ i (hj : i < xs.length), hi ≤ i → p xs[i] = false) :
    search p xs fuel lo hi ≤ xs.length ∧
      (∀ i (hi' : i < xs.length), i < search p xs fuel lo hi → p xs[i] = true) ∧
      ∀ i (hj : i < xs.length), search p xs fuel lo hi ≤ i → p xs[i] = false := by
  induction fuel generalizing lo hi with
  | zero =>
    have hlo : lo = hi := by omega
    subst hlo
    exact ⟨hhi, hbelow, habove⟩
  | succ fuel ih =>
    unfold search
    by_cases hlt : lo < hi
    · have hmid : (lo + hi) / 2 < xs.length := by omega
      rw [if_pos hlt, List.getElem?_eq_getElem hmid]
      dsimp only
      by_cases hp : p xs[(lo + hi) / 2] = true
      · rw [if_pos hp]
        refine ih (by omega) (by omega) hhi ?_ habove
        intro i hi hlti
        exact h.getElem (by omega) hmid hp
      · rw [if_neg hp]
        refine ih (by omega) (by omega) (Nat.le_of_lt hmid) hbelow ?_
        intro i hi hge
        by_contra hpi
        exact hp (h.getElem hge hi (by simpa using hpi))
    · have hlo : lo = hi := by omega
      subst hlo
      rw [if_neg hlt]
      exact ⟨hhi, hbelow, habove⟩

theorem bisect_spec (h : Partitioned p xs) :
    bisect p xs ≤ xs.length ∧
      (∀ i (hi : i < xs.length), i < bisect p xs → p xs[i] = true) ∧
      ∀ i (hi : i < xs.length), bisect p xs ≤ i → p xs[i] = false := by
  refine search_spec h (by omega) (Nat.zero_le _) (Nat.le_refl _) ?_ ?_
  · intro i _ hlt
    omega
  · intro i hi hge
    omega

theorem take_bisect (h : Partitioned p xs) : xs.take (bisect p xs) = xs.filter p := by
  obtain ⟨hle, htrue, hfalse⟩ := bisect_spec h
  have htake : (xs.take (bisect p xs)).filter p = xs.take (bisect p xs) := by
    rw [List.filter_eq_self]
    intro x hx
    obtain ⟨i, hi, rfl⟩ := List.mem_take_iff_getElem.mp hx
    exact htrue i (by omega) (by omega)
  have hdrop : (xs.drop (bisect p xs)).filter p = [] := by
    rw [List.filter_eq_nil_iff]
    intro x hx
    obtain ⟨i, hi, rfl⟩ := List.mem_drop_iff_getElem.mp hx
    rw [hfalse _ (by omega) (by omega)]
    exact Bool.false_ne_true
  calc xs.take (bisect p xs)
      = (xs.take (bisect p xs) ++ xs.drop (bisect p xs)).filter p := by
        rw [List.filter_append, htake, hdrop, List.append_nil]
    _ = xs.filter p := by rw [List.take_append_drop]

theorem drop_bisect_take (h : Partitioned p xs) (n : Nat) :
    (xs.take n).drop (bisect p xs) = (xs.take n).filter fun x => !p x := by
  obtain ⟨hle, htrue, hfalse⟩ := bisect_spec h
  have htake : ((xs.take n).take (bisect p xs)).filter (fun x => !p x) = [] := by
    rw [List.filter_eq_nil_iff, List.take_take]
    intro x hx
    obtain ⟨i, hi, rfl⟩ := List.mem_take_iff_getElem.mp hx
    rw [htrue i (by omega) (by omega)]
    exact Bool.false_ne_true
  have hdrop : ((xs.take n).drop (bisect p xs)).filter (fun x => !p x) =
      (xs.take n).drop (bisect p xs) := by
    rw [List.filter_eq_self]
    intro x hx
    obtain ⟨i, hi, rfl⟩ := List.mem_drop_iff_getElem.mp hx
    rw [List.length_take] at hi
    rw [List.getElem_take, hfalse _ (by omega) (by omega)]
    rfl
  calc (xs.take n).drop (bisect p xs)
      = ((xs.take n).take (bisect p xs) ++ (xs.take n).drop (bisect p xs)).filter
          fun x => !p x := by
        rw [List.filter_append, htake, hdrop, List.nil_append]
    _ = (xs.take n).filter fun x => !p x := by rw [List.take_append_drop]

end DeerFlow.Bisect
