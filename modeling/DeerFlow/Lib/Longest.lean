import Mathlib

/-! The first of the longest members of a list that have a property. A loop that keeps the best one
so far finds it, and so does a search in the list sorted by length. -/

namespace DeerFlow.Longest
variable {α : Type*} (key : α → Nat) (p : α → Bool)

def longest : List α → Option α
  | [] => none
  | x :: xs =>
    match longest xs with
    | some y => if p x ∧ key y ≤ key x then some x else some y
    | none => if p x then some x else none

def better (best : Option α) (x : α) : Option α :=
  if p x ∧ best.all (fun y => key y < key x) then some x else best

def IsLongest (xs : List α) (y : α) : Prop :=
  ∃ before after, xs = before ++ y :: after ∧ p y = true ∧
    (∀ x ∈ before, p x = true → key x < key y) ∧ ∀ x ∈ after, p x = true → key x ≤ key y

variable {key p} {xs : List α} {x y : α}

theorem IsLongest.mem (h : IsLongest key p xs y) : y ∈ xs ∧ p y = true := by
  obtain ⟨before, after, rfl, hp, -, -⟩ := h
  exact ⟨List.mem_append_right before List.mem_cons_self, hp⟩

theorem IsLongest.le (h : IsLongest key p xs y) (hx : x ∈ xs) (hp : p x = true) :
    key x ≤ key y := by
  obtain ⟨before, after, rfl, -, hbefore, hafter⟩ := h
  rcases List.mem_append.mp hx with hx | hx
  · exact Nat.le_of_lt (hbefore x hx hp)
  · rcases List.mem_cons.mp hx with rfl | hx
    · exact Nat.le_refl _
    · exact hafter x hx hp

theorem longest_eq_none : longest key p xs = none ↔ ∀ x ∈ xs, p x = false := by
  induction xs with
  | nil => exact ⟨fun _ => List.forall_mem_nil _, fun _ => rfl⟩
  | cons x xs ih =>
    rw [longest, List.forall_mem_cons]
    cases hrest : longest key p xs with
    | none =>
      have hnone := ih.mp hrest
      cases hx : p x with
      | false => exact ⟨fun _ => ⟨rfl, hnone⟩, fun _ => rfl⟩
      | true => exact ⟨nofun, fun h => (by cases h.1)⟩
    | some y =>
      refine ⟨fun h => ?_, fun h => ?_⟩
      · simp only at h
        split_ifs at h
      · rw [ih.mpr h.2] at hrest
        cases hrest

theorem longest_eq_some : longest key p xs = some y ↔ IsLongest key p xs y := by
  induction xs generalizing y with
  | nil => exact ⟨nofun, fun h => (by cases h.mem.1)⟩
  | cons x xs ih =>
    rw [longest]
    constructor
    · intro h
      cases hrest : longest key p xs with
      | none =>
        rw [hrest] at h
        obtain ⟨hx, hxy⟩ := Option.ite_none_right_eq_some.mp h
        cases hxy
        refine ⟨[], xs, rfl, hx, List.forall_mem_nil _, fun z hz hp => ?_⟩
        rw [longest_eq_none.mp hrest z hz] at hp
        cases hp
      | some z =>
        have hz := ih.mp hrest
        rw [hrest] at h
        simp only at h
        split_ifs at h with hx
        · cases h
          exact ⟨[], xs, rfl, hx.1, List.forall_mem_nil _,
            fun w hw hp => (hz.le hw hp).trans hx.2⟩
        · cases h
          obtain ⟨before, after, rfl, hp, hbefore, hafter⟩ := hz
          refine ⟨x :: before, after, rfl, hp, ?_, hafter⟩
          rw [List.forall_mem_cons]
          exact ⟨fun hpx => Nat.lt_of_not_le fun hle => hx ⟨hpx, hle⟩, hbefore⟩
    · rintro ⟨before, after, hsplit, hp, hbefore, hafter⟩
      cases before with
      | nil =>
        obtain ⟨rfl, rfl⟩ := List.cons.inj hsplit
        cases hrest : longest key p xs with
        | none => exact if_pos hp
        | some z =>
          have hz := (ih.mp hrest).mem
          exact if_pos ⟨hp, hafter z hz.1 hz.2⟩
      | cons w before =>
        obtain ⟨rfl, rfl⟩ := List.cons.inj hsplit
        rw [List.forall_mem_cons] at hbefore
        rw [ih.mpr ⟨before, after, rfl, hp, hbefore.2, hafter⟩]
        exact if_neg fun hx => absurd (hbefore.1 hx.1) (Nat.not_lt_of_le hx.2)

theorem foldl_better (best : Option α) (xs : List α) : xs.foldl (better key p) best =
    match longest key p xs with
    | none => best
    | some y => if best.all (fun b => key b < key y) then some y else best := by
  induction xs generalizing best with
  | nil => rfl
  | cons x xs ih =>
    rw [List.foldl_cons, ih, longest]
    cases longest key p xs with
    | none =>
      by_cases hx : p x = true
      · simp [better, hx]
      · simp [better, hx]
    | some y =>
      cases best with
      | none =>
        by_cases hx : p x = true
        · by_cases hle : key y ≤ key x
          · simp [better, hx, hle]
          · simp [better, hx, hle, Nat.lt_of_not_le hle]
        · simp [better, hx]
      | some b =>
        by_cases hx : p x = true
        · simp only [better, hx, Option.all_some, decide_eq_true_eq, true_and]
          split_ifs <;> simp_all <;> omega
        · simp [better, hx]

theorem foldl_better_none (xs : List α) : xs.foldl (better key p) none = longest key p xs := by
  rw [foldl_better]
  cases longest key p xs with
  | none | some y => rfl

section Sorted

theorem find?_orderedInsert (h : xs.Pairwise fun a b => key b ≤ key a) (x : α) :
    (xs.orderedInsert (fun a b => key b ≤ key a) x).find? p =
      match xs.find? p with
      | some y => if p x ∧ key y ≤ key x then some x else some y
      | none => if p x then some x else none := by
  induction xs with
  | nil => rw [List.orderedInsert, List.find?_singleton, List.find?_nil]
  | cons y ys ih =>
    rw [List.pairwise_cons] at h
    by_cases hle : key y ≤ key x
    · rw [List.orderedInsert, if_pos hle]
      by_cases hx : p x = true
      · rw [List.find?_cons_of_pos hx]
        cases hfound : (y :: ys).find? p with
        | none => rw [if_pos hx]
        | some z =>
          have hz : key z ≤ key y := by
            rcases List.mem_cons.mp (List.mem_of_find?_eq_some hfound) with rfl | hz
            · exact Nat.le_refl _
            · exact h.1 z hz
          exact (if_pos ⟨hx, hz.trans hle⟩).symm
      · rw [List.find?_cons_of_neg hx]
        cases (y :: ys).find? p with
        | none => rw [if_neg hx]
        | some z => exact (if_neg fun hxz => hx hxz.1).symm
    · rw [List.orderedInsert, if_neg hle]
      by_cases hy : p y = true
      · rw [List.find?_cons_of_pos hy, List.find?_cons_of_pos hy]
        exact (if_neg fun hxy => hle hxy.2).symm
      · rw [List.find?_cons_of_neg hy, List.find?_cons_of_neg hy]
        exact ih h.2

theorem find?_insertionSort (xs : List α) :
    (xs.insertionSort fun a b => key b ≤ key a).find? p = longest key p xs := by
  have htotal : Std.Total fun a b : α => key b ≤ key a := ⟨fun a b => le_total (key b) (key a)⟩
  have htrans : IsTrans α fun a b => key b ≤ key a := ⟨fun _ _ _ hab hbc => hbc.trans hab⟩
  induction xs with
  | nil => rfl
  | cons x xs ih =>
    rw [List.insertionSort_cons, find?_orderedInsert (List.pairwise_insertionSort _ xs), ih]
    rfl

end Sorted

end DeerFlow.Longest
