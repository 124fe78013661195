import Mathlib

/-! The `k` newest members of a list, by a key that no two of them share. A member is among them
when fewer than `k` are newer than it. -/

namespace DeerFlow.Newest
variable {α κ : Type*} [LinearOrder κ] (key : α → κ)

/-- Newest first; members with one key keep their order. -/
def newestFirst (xs : List α) : List α := xs.insertionSort fun a b => key b ≤ key a

def newest (k : Nat) (xs : List α) : List α := (newestFirst key xs).take k

def newer (xs : List α) (x : α) : List α := xs.filter fun y => key x < key y

variable {key} {xs ys : List α} {x : α} {k : Nat}

theorem newestFirst_perm (xs : List α) : (newestFirst key xs).Perm xs :=
  List.perm_insertionSort _ _

theorem newest_subset (h : x ∈ newest key k xs) : x ∈ xs :=
  (newestFirst_perm xs).mem_iff.mp (List.mem_of_mem_take h)

theorem newest_subperm (k : Nat) (xs : List α) : (newest key k xs).Subperm xs :=
  (List.take_sublist k _).subperm.trans (newestFirst_perm xs).subperm

theorem length_newest : (newest key k xs).length = min k xs.length := by
  unfold newest
  rw [List.length_take, (newestFirst_perm xs).length_eq]

theorem newestFirst_sorted (xs : List α) :
    (newestFirst key xs).Pairwise fun a b => key b ≤ key a := by
  have htotal : Std.Total fun a b : α => key b ≤ key a := ⟨fun a b => le_total (key b) (key a)⟩
  have htrans : IsTrans α fun a b => key b ≤ key a := ⟨fun _ _ _ hab hbc => hbc.trans hab⟩
  exact List.pairwise_insertionSort _ xs

theorem le_of_mem_cut {a b : α} (ha : a ∈ (newestFirst key xs).drop k) (hb : b ∈ newest key k xs) :
    key a ≤ key b := by
  have hsorted : (newestFirst key xs).Pairwise fun a b => key b ≤ key a := newestFirst_sorted xs
  rw [← List.take_append_drop k (newestFirst key xs), List.pairwise_append] at hsorted
  exact hsorted.2.2 b hb a ha

theorem newest_append_cut (k : Nat) (xs : List α) :
    (newest key k xs ++ (newestFirst key xs).drop k).Perm xs := by
  unfold newest
  rw [List.take_append_drop]
  exact newestFirst_perm xs

variable (key) in
theorem newest_map {β : Type*} (g : β → α) (k : Nat) (xs : List β) :
    (newest (fun x => key (g x)) k xs).map g = newest key k (xs.map g) := by
  unfold newest newestFirst
  rw [List.map_take]
  exact congrArg (List.take k) (List.map_insertionSort _ _ g xs fun _ _ _ _ => Iff.rfl)

section Bounds
variable (c : κ)

/-- Of a list from newest to oldest the members newer than `c` come first. -/
theorem filter_take (h : ys.Pairwise fun a b => key b ≤ key a) (k : Nat) :
    (ys.take k).filter (fun x => c < key x) = (ys.filter fun x => c < key x).take k := by
  induction ys generalizing k with
  | nil => simp
  | cons y ys ih =>
    rw [List.pairwise_cons] at h
    cases k with
    | zero => rfl
    | succ k =>
      rw [List.take_succ_cons]
      by_cases hy : c < key y
      · rw [List.filter_cons_of_pos (by simpa using hy),
          List.filter_cons_of_pos (by simpa using hy), List.take_succ_cons, ih h.2]
      · have hnone : (ys.filter fun x => c < key x) = [] := by
          refine List.filter_eq_nil_iff.mpr fun x hx => ?_
          simpa using (h.1 x hx).trans (not_lt.mp hy)
        rw [List.filter_cons_of_neg (by simpa using hy),
          List.filter_cons_of_neg (by simpa using hy), ih h.2, hnone, List.take_nil, List.take_nil]

theorem filter_orderedInsert (h : ys.Pairwise fun a b => key b ≤ key a) (hx : c < key x) :
    (ys.orderedInsert (fun a b => key b ≤ key a) x).filter (fun x => c < key x) =
      (ys.filter fun x => c < key x).orderedInsert (fun a b => key b ≤ key a) x := by
  induction ys with
  | nil => simp [hx]
  | cons y ys ih =>
    rw [List.pairwise_cons] at h
    by_cases hy : c < key y
    · by_cases hxy : key y ≤ key x
      · simp [hxy, hx, hy]
      · simp [hxy, hy, ih h.2]
    · have hxy : key y ≤ key x := (not_lt.mp hy).trans hx.le
      have hnone : (ys.filter fun x => c < key x) = [] := by
        refine List.filter_eq_nil_iff.mpr fun z hz => ?_
        simpa using (h.1 z hz).trans (not_lt.mp hy)
      simp [hxy, hx, hy, hnone]

theorem newestFirst_filter (xs : List α) :
    (newestFirst key xs).filter (fun x => c < key x) =
      newestFirst key (xs.filter fun x => c < key x) := by
  induction xs with
  | nil => rfl
  | cons x xs ih =>
    have hcons : newestFirst key (x :: xs) =
        (newestFirst key xs).orderedInsert (fun a b => key b ≤ key a) x := rfl
    by_cases hx : c < key x
    · rw [hcons, filter_orderedInsert c (newestFirst_sorted xs) hx, ih,
        List.filter_cons_of_pos (by simpa using hx)]
      rfl
    · rw [hcons, List.orderedInsert_eq_take_drop, List.filter_append,
        List.filter_cons_of_neg (by simpa using hx), ← List.filter_append,
        List.takeWhile_append_dropWhile, ih, List.filter_cons_of_neg (by simpa using hx)]

theorem newest_filter (k : Nat) (xs : List α) :
    (newest key k xs).filter (fun x => c < key x) =
      newest key k (xs.filter fun x => c < key x) := by
  unfold newest
  rw [filter_take c (newestFirst_sorted xs), newestFirst_filter]

end Bounds

theorem pairwise_newestFirst (h : (xs.map key).Nodup) :
    (newestFirst key xs).Pairwise fun a b => key b < key a := by
  have hdistinct : (newestFirst key xs).Pairwise fun a b => key a ≠ key b := by
    have hperm : List.Perm (newestFirst key xs) xs := newestFirst_perm xs
    have hmap := (hperm.map key).nodup_iff.mpr h
    exact List.pairwise_map.mp hmap
  refine (newestFirst_sorted xs).imp₂ ?_ hdistinct
  intro a b hle hne
  exact lt_of_le_of_ne hle (Ne.symm hne)

/-- In a list from newest to oldest the place of a member is the number of newer ones. -/
theorem mem_take_iff (h : ys.Pairwise fun a b => key b < key a) (k : Nat) :
    x ∈ ys.take k ↔ x ∈ ys ∧ (newer key ys x).length < k := by
  induction ys generalizing k with
  | nil => simp
  | cons y ys ih =>
    rw [List.pairwise_cons] at h
    cases k with
    | zero => simp
    | succ k =>
      rw [List.take_succ_cons, List.mem_cons, List.mem_cons, ih h.2]
      by_cases hx : x ∈ ys
      · have hlt := h.1 x hx
        have hcount : newer key (y :: ys) x = y :: newer key ys x := by
          unfold newer
          rw [List.filter_cons_of_pos (by simpa using hlt)]
        have hne : x ≠ y := by
          rintro rfl
          exact lt_irrefl _ hlt
        simp [hx, hne, hcount]
      · have hnone : x = y → newer key (y :: ys) x = [] := by
          rintro rfl
          unfold newer
          rw [List.filter_eq_nil_iff]
          intro z hz
          rcases List.mem_cons.mp hz with rfl | hz
          · simp
          · simpa using (h.1 z hz).le
        constructor
        · rintro (hxy | hmem)
          · exact ⟨.inl hxy, by simp [hnone hxy]⟩
          · exact absurd hmem.1 hx
        · rintro ⟨hxy | hmem, -⟩
          · exact .inl hxy
          · exact absurd hmem hx

theorem mem_newest (h : (xs.map key).Nodup) :
    x ∈ newest key k xs ↔ x ∈ xs ∧ (newer key xs x).length < k := by
  have hperm : List.Perm (newestFirst key xs) xs := newestFirst_perm xs
  have hlength : (newer key (newestFirst key xs) x).length = (newer key xs x).length :=
    (hperm.filter _).length_eq
  unfold newest
  rw [mem_take_iff (pairwise_newestFirst h), hperm.mem_iff, hlength]

theorem eq_of_mem_iff (hxs : xs.Pairwise fun a b => key b < key a)
    (hys : ys.Pairwise fun a b => key b < key a) (h : ∀ x, x ∈ xs ↔ x ∈ ys) : xs = ys := by
  have hnodup {zs : List α} (hzs : zs.Pairwise fun a b => key b < key a) : zs.Nodup := by
    refine List.Pairwise.imp ?_ hzs
    rintro a b hlt rfl
    exact lt_irrefl _ hlt
  have hperm : xs.Perm ys := (List.perm_ext_iff_of_nodup (hnodup hxs) (hnodup hys)).mpr h
  refine hperm.eq_of_pairwise ?_ hxs hys
  intro a b _ _ hab hba
  exact absurd hab (not_lt_of_gt hba)

theorem newer_mono (hsub : ys.Subperm xs) (x : α) :
    (newer key ys x).length ≤ (newer key xs x).length := (hsub.filter _).length_le

/-- The newest members of a part are the newest of all exactly when the part has them. -/
theorem newest_eq_iff (hxs : (xs.map key).Nodup) (hsub : ys.Subperm xs) :
    newest key k ys = newest key k xs ↔ ∀ x ∈ xs, (newer key xs x).length < k → x ∈ ys := by
  have hys : (ys.map key).Nodup := by
    obtain ⟨zs, hperm, hsub⟩ := hsub
    exact (hperm.map key).nodup_iff.mp ((hsub.map key).nodup hxs)
  constructor
  · intro heq x hx hlt
    have hmem : x ∈ newest key k xs := (mem_newest hxs).mpr ⟨hx, hlt⟩
    rw [← heq] at hmem
    exact newest_subset hmem
  · intro hall
    refine eq_of_mem_iff ((pairwise_newestFirst hys).sublist (List.take_sublist ..))
      ((pairwise_newestFirst hxs).sublist (List.take_sublist ..)) fun x => ?_
    rw [mem_newest hys, mem_newest hxs]
    constructor
    · rintro ⟨hx, hlt⟩
      have hxx : x ∈ xs := hsub.subset hx
      refine ⟨hxx, ?_⟩
      by_contra hle
      -- then `k` members are newer than `x`, and all of them are in the part
      have htop : (newest key k xs).Subperm (newer key ys x) := by
        refine List.subperm_of_subset ?_ ?_
        · exact (((newestFirst_perm xs).nodup_iff.mpr hxs.of_map).sublist (List.take_sublist ..))
        · intro y hy
          obtain ⟨hyx, hylt⟩ := (mem_newest hxs).mp hy
          refine List.mem_filter.mpr ⟨hall y hyx hylt, decide_eq_true ?_⟩
          by_contra hge
          have hmono : (newer key xs x).length ≤ (newer key xs y).length := by
            refine (List.monotone_filter_right xs fun z hz => ?_).length_le
            simp only [decide_eq_true_eq] at hz ⊢
            exact lt_of_le_of_lt (not_lt.mp hge) hz
          omega
      have hfull := htop.length_le
      have hmany : (newer key xs x).length ≤ xs.length := List.length_filter_le _ _
      rw [length_newest] at hfull
      omega
    · rintro ⟨hx, hlt⟩
      exact ⟨hall x hx hlt, (newer_mono hsub x).trans_lt hlt⟩

end DeerFlow.Newest
