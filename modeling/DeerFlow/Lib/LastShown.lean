import Mathlib

/-! Lists whose members have a key or none, and are shown or hidden. Under each
key one member is kept: the last that is shown, or the last where none is. The
keys that are shown are those of the list without its duplicates. -/

namespace DeerFlow.LastShown
variable {α κ : Type*}

/-- The index of the last member with a property. -/
@[grind =]
def lastIndex (p : α → Bool) : List α → Option Nat
  | [] => none
  | x :: xs => match lastIndex p xs with
    | some i => some (i + 1)
    | none => if p x then some 0 else none

section LastIndex
variable {p : α → Bool} {x : α} {xs ys : List α}

theorem lastIndex_eq_none : lastIndex p xs = none ↔ ∀ x ∈ xs, p x = false := by
  induction xs with
  | nil => simp [lastIndex]
  | cons x xs ih =>
    unfold lastIndex
    rcases hlast : lastIndex p xs with _ | i
    · have hxs := ih.mp hlast
      simpa using fun _ : p x = false => hxs
    · have hxs : ¬ ∀ x ∈ xs, p x = false := by
        rw [← ih, hlast]
        simp
      simpa using fun _ => by simpa using hxs

theorem lastIndex_append (xs ys : List α) :
    lastIndex p (xs ++ ys) =
      ((lastIndex p ys).map fun i => xs.length + i).or (lastIndex p xs) := by
  induction xs with
  | nil => simp [lastIndex]
  | cons x xs ih =>
    rw [List.cons_append, lastIndex, ih, lastIndex]
    rcases lastIndex p ys with _ | i
    · simp
    · simp
      omega

theorem lastIndex_lt {i : Nat} (h : lastIndex p xs = some i) : i < xs.length := by
  induction xs generalizing i with
  | nil => cases h
  | cons x xs ih =>
    unfold lastIndex at h
    rcases hlast : lastIndex p xs with _ | j
    · rw [hlast] at h
      dsimp only at h
      split_ifs at h
      cases h
      simp
    · rw [hlast] at h
      cases h
      simpa using ih hlast

theorem lastIndex_eq_length : lastIndex p (xs ++ x :: ys) = some xs.length ↔
    p x = true ∧ ∀ y ∈ ys, p y = false := by
  rw [← lastIndex_eq_none, lastIndex_append, lastIndex]
  rcases hys : lastIndex p ys with _ | j
  · by_cases hx : p x = true
    · simp [hx]
    · have hne : lastIndex p xs ≠ some xs.length := fun h => lt_irrefl _ (lastIndex_lt h)
      simp [hx, hne]
  · simp

end LastIndex

variable (key : α → Option κ) (shown : α → Bool)

@[grind =]
def shownKeys (xs : List α) : List κ := (xs.filter shown).filterMap key

section ShownKeys
variable {key shown} {k : κ} {x : α} {xs ys : List α}

theorem mem_shownKeys : k ∈ shownKeys key shown xs ↔ ∃ x ∈ xs, shown x = true ∧ key x = some k := by
  simp [shownKeys, and_assoc]

theorem shownKeys_append (xs ys : List α) :
    shownKeys key shown (xs ++ ys) = shownKeys key shown xs ++ shownKeys key shown ys := by
  simp [shownKeys]

theorem shownKeys_cons_of_key (hx : shown x = true) (hk : key x = some k) :
    shownKeys key shown (x :: xs) = k :: shownKeys key shown xs := by
  simp [shownKeys, hx, hk]

theorem shownKeys_cons_of_none (h : shown x = true → key x = none) :
    shownKeys key shown (x :: xs) = shownKeys key shown xs := by
  by_cases hx : shown x = true
  · simp [shownKeys, hx, h hx]
  · simp [shownKeys, hx]

theorem shownKeys_map {f : α → α} (hkey : ∀ x, key (f x) = key x)
    (hshown : ∀ x, shown (f x) = shown x) (xs : List α) :
    shownKeys key shown (xs.map f) = shownKeys key shown xs := by
  induction xs with
  | nil => rfl
  | cons x xs ih =>
    unfold shownKeys at ih ⊢
    rw [List.map_cons, List.filter_cons, List.filter_cons, hshown]
    split_ifs
    · rw [List.filterMap_cons, List.filterMap_cons, hkey, ih]
    · exact ih

/-- What fails a test first is shown: so the test may be made before or after hiding. -/
theorem filter_takeWhile {p : α → Bool} (h : ∀ x ∈ xs, p x = false → shown x = true) :
    (xs.takeWhile p).filter shown = (xs.filter shown).takeWhile p := by
  induction xs with
  | nil => rfl
  | cons x xs ih =>
    have htail := ih fun y hy => h y (List.mem_cons_of_mem x hy)
    by_cases hx : shown x = true
    · rw [List.filter_cons_of_pos hx]
      by_cases hp : p x = true
      · rw [List.takeWhile_cons_of_pos hp, List.takeWhile_cons_of_pos hp,
          List.filter_cons_of_pos hx, htail]
      · rw [List.takeWhile_cons_of_neg hp, List.takeWhile_cons_of_neg hp, List.filter_nil]
    · have hp : p x = true := by
        by_contra hne
        exact hx (h x List.mem_cons_self (by simpa using hne))
      rw [List.takeWhile_cons_of_pos hp, List.filter_cons_of_neg hx,
        List.filter_cons_of_neg hx, htail]

/-- Where a property stays once it holds, its members stand behind the others. -/
theorem filter_append_filter {q : α → Bool} (h : xs.Pairwise fun x y => q x = true → q y = true) :
    (xs.filter fun x => !q x) ++ xs.filter q = xs := by
  induction xs with
  | nil => rfl
  | cons x xs ih =>
    obtain ⟨hx, hxs⟩ := List.pairwise_cons.mp h
    by_cases hq : q x = true
    · have hall : ∀ y ∈ xs, q y = true := fun y hy => hx y hy hq
      have hnone : (xs.filter fun y => !q y) = [] := by
        rw [List.filter_eq_nil_iff]
        intro y hy
        simp [hall y hy]
      rw [List.filter_cons_of_neg (by simpa using hq), List.filter_cons_of_pos hq, hnone,
        List.nil_append, List.filter_eq_self.mpr hall]
    · rw [List.filter_cons_of_pos (by simpa using hq), List.filter_cons_of_neg hq,
        List.cons_append, ih hxs]

theorem takeWhile_congr {p q : α → Bool} (h : ∀ x ∈ xs, p x = q x) :
    xs.takeWhile p = xs.takeWhile q := by
  induction xs with
  | nil => rfl
  | cons x xs ih =>
    have hx := h x List.mem_cons_self
    have htail := ih fun y hy => h y (List.mem_cons_of_mem x hy)
    rw [List.takeWhile_cons, List.takeWhile_cons, hx, htail]

theorem takeWhile_ne_head [DecidableEq α] (hys : ys.Nodup) (h : (x :: xs).Sublist ys) :
    (ys.takeWhile fun y => y ≠ x) = ys.takeWhile fun y => y ∉ x :: xs := by
  induction ys with
  | nil => rfl
  | cons y ys ih =>
    obtain ⟨hy, hnodup⟩ := List.nodup_cons.mp hys
    by_cases hyx : y = x
    · rw [List.takeWhile_cons_of_neg (by simpa using hyx),
        List.takeWhile_cons_of_neg (by simp [hyx])]
    · have htail : (x :: xs).Sublist ys := by
        rcases List.sublist_cons_iff.mp h with htail | ⟨zs, heq, -⟩
        · exact htail
        · exact absurd (List.cons.inj heq).1.symm hyx
      have hout : y ∉ x :: xs := fun hmem => hy (htail.subset hmem)
      rw [List.takeWhile_cons_of_pos (by simpa using hyx),
        List.takeWhile_cons_of_pos (by simpa using hout), ih hnodup htail]

/-- Before the first member that fails a test stand no more than the members in front of one
that fails it. -/
theorem takeWhile_append_subset {p : α → Bool} (hx : p x = false) :
    (xs ++ x :: ys).takeWhile p ⊆ xs := by
  induction xs with
  | nil => simp [hx]
  | cons y xs ih =>
    rw [List.cons_append]
    by_cases hy : p y = true
    · rw [List.takeWhile_cons_of_pos hy]
      exact List.cons_subset_cons y ih
    · rw [List.takeWhile_cons_of_neg hy]
      exact List.nil_subset _

end ShownKeys

variable [DecidableEq κ]

def isShownAs (k : κ) (x : α) : Bool := key x = some k && shown x

/-- Whether the member at an index is the one that is kept under its key. -/
def isKept (xs : List α) (x : α × Nat) : Bool :=
  match key x.1 with
  | none => true
  | some k => match lastIndex (isShownAs key shown k) xs with
    | some i => i = x.2
    | none => lastIndex (fun y => key y = some k) xs = some x.2

def keepLast (xs : List α) : List α := (xs.zipIdx.filter (isKept key shown xs)).map Prod.fst

section Keys
variable {key shown} {k : κ} {x : α} {xs ys : List α}

theorem notMem_shownKeys : k ∉ shownKeys key shown xs ↔
    ∀ x ∈ xs, isShownAs key shown k x = false := by
  rw [mem_shownKeys]
  unfold isShownAs
  constructor
  · intro h x hx
    by_contra hne
    rw [Bool.not_eq_false, Bool.and_eq_true, decide_eq_true_eq] at hne
    exact h ⟨x, hx, hne.2, hne.1⟩
  · rintro h ⟨x, hx, hshown, hk⟩
    have hfalse := h x hx
    simp [hshown, hk] at hfalse

theorem isKept_of_shown (hx : shown x = true) (hk : key x = some k) :
    isKept key shown (xs ++ x :: ys) (x, xs.length) = true ↔ k ∉ shownKeys key shown ys := by
  have hlast : lastIndex (isShownAs key shown k) (xs ++ x :: ys) = some xs.length ↔
      k ∉ shownKeys key shown ys := by
    rw [lastIndex_eq_length, notMem_shownKeys]
    simp [isShownAs, hx, hk]
  have hsome : lastIndex (isShownAs key shown k) (xs ++ x :: ys) ≠ none := by
    intro hnone
    have hfalse := lastIndex_eq_none.mp hnone x (by simp)
    simp [isShownAs, hx, hk] at hfalse
  rw [← hlast]
  unfold isKept
  dsimp only
  rw [hk]
  dsimp only
  obtain ⟨i, hi⟩ := Option.ne_none_iff_exists'.mp hsome
  rw [hi]
  simp

theorem isKept_of_hidden (hx : shown x = false) (hk : key x = some k)
    (hshown : k ∈ shownKeys key shown (xs ++ x :: ys)) :
    ¬ isKept key shown (xs ++ x :: ys) (x, xs.length) = true := by
  have hne : lastIndex (isShownAs key shown k) (xs ++ x :: ys) ≠ some xs.length := by
    rw [Ne, lastIndex_eq_length]
    simp [isShownAs, hx]
  have hsome : lastIndex (isShownAs key shown k) (xs ++ x :: ys) ≠ none := by
    rw [Ne, lastIndex_eq_none, ← notMem_shownKeys, not_not]
    exact hshown
  unfold isKept
  dsimp only
  rw [hk]
  dsimp only
  obtain ⟨i, hi⟩ := Option.ne_none_iff_exists'.mp hsome
  rw [hi] at hne ⊢
  simpa using hne

/-- What is kept of a tail of the list. -/
def keptTail (key : α → Option κ) (shown : α → Bool) (xs ys : List α) : List α :=
  ((ys.zipIdx xs.length).filter (isKept key shown (xs ++ ys))).map Prod.fst

theorem keptTail_cons (xs : List α) (x : α) (ys : List α) :
    keptTail key shown xs (x :: ys) =
      if isKept key shown (xs ++ x :: ys) (x, xs.length) = true then
        x :: keptTail key shown (xs ++ [x]) ys
      else keptTail key shown (xs ++ [x]) ys := by
  unfold keptTail
  have hlist : xs ++ x :: ys = xs ++ [x] ++ ys := by simp
  have hlength : (xs ++ [x]).length = xs.length + 1 := by simp
  rw [List.zipIdx_cons, List.filter_cons, hlength, ← hlist]
  split_ifs
  · rfl
  · rfl

theorem shownKeys_keptTail (xs ys : List α) :
    shownKeys key shown (keptTail key shown xs ys) = (shownKeys key shown ys).dedup := by
  induction ys generalizing xs with
  | nil => rfl
  | cons x ys ih =>
    have htail := ih (xs ++ [x])
    rw [keptTail_cons]
    by_cases hx : shown x = true
    · rcases hk : key x with _ | k
      · rw [shownKeys_cons_of_none fun _ => hk]
        split_ifs
        · rw [shownKeys_cons_of_none fun _ => hk, htail]
        · exact htail
      · have hkept : isKept key shown (xs ++ x :: ys) (x, xs.length) = true ↔
            k ∉ shownKeys key shown ys := isKept_of_shown hx hk
        rw [shownKeys_cons_of_key hx hk, List.dedup_cons]
        by_cases hlater : k ∈ shownKeys key shown ys
        · rw [if_neg fun h => hkept.mp h hlater, if_pos hlater, htail]
        · rw [if_pos (hkept.mpr hlater), if_neg hlater, shownKeys_cons_of_key hx hk, htail]
    · have hnone : shown x = true → key x = none := fun h => absurd h hx
      rw [shownKeys_cons_of_none hnone]
      split_ifs
      · rw [shownKeys_cons_of_none hnone, htail]
      · exact htail

theorem shownKeys_keepLast (xs : List α) :
    shownKeys key shown (keepLast key shown xs) = (shownKeys key shown xs).dedup :=
  shownKeys_keptTail [] xs

theorem filter_keptTail_of_shown (h : k ∈ shownKeys key shown (xs ++ ys)) :
    (k ∈ shownKeys key shown ys → ∃ x ∈ ys, shown x = true ∧ key x = some k ∧
      (keptTail key shown xs ys).filter (fun x => key x = some k) = [x]) ∧
    (k ∉ shownKeys key shown ys →
      (keptTail key shown xs ys).filter (fun x => key x = some k) = []) := by
  induction ys generalizing xs with
  | nil => exact ⟨fun hmem => absurd hmem (by simp [shownKeys]), fun _ => rfl⟩
  | cons x ys ih =>
    have hlist : xs ++ x :: ys = xs ++ [x] ++ ys := by simp
    have htail := ih (hlist ▸ h)
    rw [keptTail_cons]
    by_cases hk : key x = some k
    · by_cases hx : shown x = true
      · have hkept : isKept key shown (xs ++ x :: ys) (x, xs.length) = true ↔
            k ∉ shownKeys key shown ys := isKept_of_shown hx hk
        rw [shownKeys_cons_of_key hx hk]
        refine ⟨fun _ => ?_, fun hne => absurd List.mem_cons_self hne⟩
        by_cases hlater : k ∈ shownKeys key shown ys
        · rw [if_neg fun h => hkept.mp h hlater]
          obtain ⟨y, hy, hyk⟩ := htail.1 hlater
          exact ⟨y, List.mem_cons_of_mem x hy, hyk⟩
        · refine ⟨x, List.mem_cons_self, hx, hk, ?_⟩
          rw [if_pos (hkept.mpr hlater), List.filter_cons_of_pos (by simpa using hk),
            htail.2 hlater]
      · have hhidden : shown x = false := by simpa using hx
        rw [if_neg (isKept_of_hidden hhidden hk h),
          shownKeys_cons_of_none fun hs => absurd hs hx]
        refine ⟨fun hmem => ?_, htail.2⟩
        obtain ⟨y, hy, hyk⟩ := htail.1 hmem
        exact ⟨y, List.mem_cons_of_mem x hy, hyk⟩
    · have hmem : k ∈ shownKeys key shown (x :: ys) ↔ k ∈ shownKeys key shown ys := by
        rw [mem_shownKeys, mem_shownKeys]
        simp [hk]
      have hskip : (if isKept key shown (xs ++ x :: ys) (x, xs.length) = true then
          x :: keptTail key shown (xs ++ [x]) ys else keptTail key shown (xs ++ [x]) ys).filter
            (fun x => key x = some k) =
          (keptTail key shown (xs ++ [x]) ys).filter fun x => key x = some k := by
        split_ifs
        · rw [List.filter_cons_of_neg (by simpa using hk)]
        · rfl
      rw [hmem, hskip]
      refine ⟨fun hlater => ?_, htail.2⟩
      obtain ⟨y, hy, hyk⟩ := htail.1 hlater
      exact ⟨y, List.mem_cons_of_mem x hy, hyk⟩

theorem filter_keepLast_of_shown (h : k ∈ shownKeys key shown xs) :
    ∃ x ∈ xs, shown x = true ∧ key x = some k ∧
      (keepLast key shown xs).filter (fun x => key x = some k) = [x] :=
  (@filter_keptTail_of_shown _ _ key shown _ k [] xs h).1 h

theorem filter_keepLast_of_none (xs : List α) :
    (keepLast key shown xs).filter (fun x => key x = none) = xs.filter fun x => key x = none := by
  have htail : ∀ xs ys : List α, (keptTail key shown xs ys).filter (fun x => key x = none) =
      ys.filter fun x => key x = none := by
    intro xs ys
    induction ys generalizing xs with
    | nil => rfl
    | cons x ys ih =>
      have hrest := ih (xs ++ [x])
      rw [keptTail_cons]
      by_cases hk : key x = none
      · have hkept : isKept key shown (xs ++ x :: ys) (x, xs.length) = true := by
          simp [isKept, hk]
        rw [if_pos hkept, List.filter_cons_of_pos (by simpa using hk),
          List.filter_cons_of_pos (by simpa using hk), hrest]
      · rw [List.filter_cons_of_neg (by simpa using hk)]
        split_ifs
        · rw [List.filter_cons_of_neg (by simpa using hk), hrest]
        · exact hrest
  exact htail [] xs

theorem filter_map_of_key {f : α → α} (hkey : ∀ x, key (f x) = key x) (k : Option κ)
    (xs : List α) :
    (xs.map f).filter (fun x => key x = k) = (xs.filter fun x => key x = k).map f := by
  rw [List.filter_map]
  congr 1
  apply List.filter_congr
  intro x _
  simp [hkey]

end Keys

section Order
variable {h d r : List κ}

theorem filter_dedup (p : κ → Bool) (xs : List κ) : xs.dedup.filter p = (xs.filter p).dedup := by
  induction xs with
  | nil => rfl
  | cons x xs ih =>
    rw [List.dedup_cons]
    by_cases hp : p x = true
    · rw [List.filter_cons_of_pos hp, List.dedup_cons]
      have hmem : x ∈ xs.filter p ↔ x ∈ xs := by simp [hp]
      by_cases hx : x ∈ xs
      · rw [if_pos hx, if_pos (hmem.mpr hx), ih]
      · rw [if_neg hx, if_neg fun h => hx (hmem.mp h), List.filter_cons_of_pos hp, ih]
    · rw [List.filter_cons_of_neg hp, ← ih]
      split_ifs
      · rfl
      · rw [List.filter_cons_of_neg hp]

/-- Of the members of the first list those stay that the second one does not have. -/
theorem dedup_append_eq (xs ys : List κ) :
    (xs ++ ys).dedup = (xs.filter fun x => x ∉ ys).dedup ++ ys.dedup := by
  induction xs with
  | nil => simp
  | cons x xs ih =>
    rw [List.cons_append, List.dedup_cons]
    by_cases hy : x ∈ ys
    · rw [if_pos (List.mem_append_right xs hy), List.filter_cons_of_neg (by simpa using hy), ih]
    · rw [List.filter_cons_of_pos (by simpa using hy), List.dedup_cons]
      have hmem : (x ∈ xs ++ ys) ↔ x ∈ xs.filter fun x => x ∉ ys := by simp [hy]
      by_cases hx : x ∈ xs ++ ys
      · rw [if_pos hx, if_pos (hmem.mp hx), ih]
      · rw [if_neg hx, if_neg fun h => hx (hmem.mpr h), ih, List.cons_append]

theorem dedup_append_subset {xs ys zs : List κ} (h : ys ⊆ zs) :
    (xs ++ ys ++ zs).dedup = (xs ++ zs).dedup := by
  rw [List.append_assoc, List.dedup_append, List.Subset.dedup_append_right h, ← List.dedup_append]

theorem sublist_iff_filter_eq {xs ys : List κ} (hys : ys.Nodup) :
    xs.Sublist ys ↔ ys.filter (fun y => y ∈ xs) = xs := by
  constructor
  · intro hsub
    have hfilter : (xs.filter fun y => y ∈ xs).Sublist (ys.filter fun y => y ∈ xs) :=
      hsub.filter _
    have hself : xs.filter (fun y => y ∈ xs) = xs := by
      rw [List.filter_eq_self]
      simp
    rw [hself] at hfilter
    have hsubset : ys.filter (fun y => y ∈ xs) ⊆ xs := by
      intro y hy
      simpa using (List.mem_filter.mp hy).2
    have hle : (ys.filter fun y => y ∈ xs).length ≤ xs.length :=
      ((hys.filter _).subperm hsubset).length_le
    exact (hfilter.eq_of_length_le hle).symm
  · intro heq
    have hsub : (ys.filter fun y => y ∈ xs).Sublist ys := List.filter_sublist
    rw [heq] at hsub
    exact hsub

/-- The members of `d` that are not known are put behind `h`, and `r` behind them all. The order
of `d` and `r` is kept exactly when `h` shows members of `d` from its head on, in their order. -/
theorem sublist_dedup_iff {known : κ → Bool} (hnodup : (d ++ r).Nodup)
    (hknown : ∀ k ∈ h, known k = true) :
    (d ++ r).Sublist (h ++ d.filter (fun k => !known k) ++ r).dedup ↔
      (h.filter fun k => k ∈ d).dedup ++ d.filter (fun k => !known k) = d := by
  obtain ⟨hd, hr, hdisjoint⟩ := List.nodup_append'.mp hnodup
  have hrest : (d.filter (fun k => !known k) ++ r).Nodup :=
    hnodup.sublist (List.filter_sublist.append_right r)
  have hmiss : (d.filter fun k => !known k).filter (fun k => k ∈ d ++ r) =
      d.filter fun k => !known k := by
    rw [List.filter_eq_self]
    intro k hk
    simpa using Or.inl (List.mem_of_mem_filter hk)
  have hlast : r.filter (fun k => k ∈ d ++ r) = r := by
    rw [List.filter_eq_self]
    intro k hk
    simpa using Or.inr hk
  have hfirst : (h.filter fun k => k ∈ d ++ r).filter
      (fun k => k ∉ d.filter (fun k => !known k) ++ r) = h.filter fun k => k ∈ d := by
    rw [List.filter_filter]
    apply List.filter_congr
    intro k hk
    have hin := hknown k hk
    have hoff : k ∈ d → k ∉ r := fun hkd hkr => hdisjoint hkd hkr
    by_cases hkd : k ∈ d
    · simp [hkd, hin, hoff hkd]
    · simp [hkd]
  rw [sublist_iff_filter_eq (List.nodup_dedup _), filter_dedup, List.append_assoc,
    List.filter_append, List.filter_append, hmiss, hlast, dedup_append_eq, hfirst,
    hrest.dedup, ← List.append_assoc]
  exact List.append_left_inj r

end Order

end DeerFlow.LastShown
