import DeerFlow.Lib.LastShown

/-! Two lists, each with a key once, of which the second is put behind the first and one member is
kept under each key. The order of a list is kept where the members that the other one takes over
stand at the end that they are put at. -/

namespace DeerFlow.LastShown
variable {α κ : Type*} {key : α → Option κ} {shown : α → Bool} {x y : α} {xs ys zs : List α} {k : κ}

section Keys

theorem filterMap_filter_key {p : α → Bool} {q : κ → Bool}
    (h : ∀ x ∈ xs, ∀ k, key x = some k → p x = q k) :
    (xs.filter p).filterMap key = (xs.filterMap key).filter q := by
  induction xs with
  | nil => rfl
  | cons x xs ih =>
    have htail := ih fun y hy => h y (List.mem_cons_of_mem x hy)
    cases hk : key x with
    | none =>
      rw [List.filterMap_cons_none hk, ← htail, List.filter_cons]
      split_ifs
      · rw [List.filterMap_cons_none hk]
      · rfl
    | some k =>
      have hx := h x List.mem_cons_self k hk
      rw [List.filterMap_cons_some hk, List.filter_cons, List.filter_cons, hx, ← htail]
      split_ifs
      · rw [List.filterMap_cons_some hk]
      · rfl

theorem shownKeys_subset (xs : List α) : shownKeys key shown xs ⊆ xs.filterMap key := by
  intro k hk
  obtain ⟨x, hx, -, hxk⟩ := mem_shownKeys.mp hk
  exact List.mem_filterMap.mpr ⟨x, hx, hxk⟩

theorem notMem_around (h : (xs ++ x :: ys).filterMap key |>.Nodup) (hk : key x = some k) :
    k ∉ xs.filterMap key ∧ k ∉ ys.filterMap key := by
  rw [List.filterMap_append, List.filterMap_cons_some hk] at h
  refine ⟨fun hmem => ?_, (List.nodup_cons.mp h.of_append_right).1⟩
  exact List.disjoint_of_nodup_append h hmem List.mem_cons_self

variable [DecidableEq κ]

theorem filter_key_of_mem (hnodup : (xs.filterMap key).Nodup) (hx : x ∈ xs)
    (hk : key x = some k) : xs.filter (fun y => key y = some k) = [x] := by
  induction xs with
  | nil => cases hx
  | cons y xs ih =>
    rcases List.mem_cons.mp hx with rfl | hx
    · rw [List.filterMap_cons_some hk, List.nodup_cons] at hnodup
      have hnone : xs.filter (fun y => key y = some k) = [] := by
        rw [List.filter_eq_nil_iff]
        intro y hy hyk
        rw [decide_eq_true_eq] at hyk
        exact hnodup.1 (List.mem_filterMap.mpr ⟨y, hy, hyk⟩)
      rw [List.filter_cons_of_pos (by simpa using hk), hnone]
    · have htail : (xs.filterMap key).Nodup :=
        hnodup.sublist ((List.sublist_cons_self y xs).filterMap key)
      have hy : ¬key y = some k := by
        intro hy
        rw [List.filterMap_cons_some hy, List.nodup_cons] at hnodup
        exact hnodup.1 (List.mem_filterMap.mpr ⟨x, hx, hk⟩)
      rw [List.filter_cons_of_neg (by simpa using hy)]
      exact ih htail hx

theorem filter_key_of_notMem (h : k ∉ xs.filterMap key) :
    xs.filter (fun y => key y = some k) = [] := by
  rw [List.filter_eq_nil_iff]
  intro y hy hyk
  rw [decide_eq_true_eq] at hyk
  exact h (List.mem_filterMap.mpr ⟨y, hy, hyk⟩)

theorem eq_of_key (hnodup : (xs.filterMap key).Nodup) (hx : x ∈ xs) (hy : y ∈ xs)
    (hxk : key x = some k) (hyk : key y = some k) : x = y := by
  have hsame := filter_key_of_mem hnodup hx hxk
  rw [filter_key_of_mem hnodup hy hyk] at hsame
  exact (List.singleton_inj.mp hsame).symm

theorem mem_shownKeys_of_mem (hnodup : (xs.filterMap key).Nodup) (hx : x ∈ xs)
    (hk : key x = some k) : k ∈ shownKeys key shown xs ↔ shown x = true := by
  rw [mem_shownKeys]
  constructor
  · rintro ⟨y, hy, hshown, hyk⟩
    rwa [eq_of_key hnodup hx hy hk hyk]
  · exact fun hshown => ⟨x, hx, hshown, hk⟩

end Keys

section Kept
variable [DecidableEq κ]

/-- A member of which no other is shown is kept when none with its key stands behind it. -/
theorem isKept_of_unshown (hk : key x = some k)
    (hshown : k ∉ shownKeys key shown (xs ++ x :: ys)) :
    isKept key shown (xs ++ x :: ys) (x, xs.length) = true ↔ k ∉ ys.filterMap key := by
  have hnone : lastIndex (isShownAs key shown k) (xs ++ x :: ys) = none :=
    lastIndex_eq_none.mpr (notMem_shownKeys.mp hshown)
  unfold isKept
  dsimp only
  rw [hk]
  dsimp only
  rw [hnone, decide_eq_true_eq, lastIndex_eq_length]
  simp [hk]

/-- A shown member is kept where none is shown behind it, a hidden one where none is shown at all
and none stands behind it. -/
theorem isKept_iff (hk : key x = some k) :
    isKept key shown (xs ++ x :: ys) (x, xs.length) = true ↔
      if shown x then k ∉ shownKeys key shown ys
      else k ∉ shownKeys key shown xs ∧ k ∉ ys.filterMap key := by
  by_cases hx : shown x = true
  · rw [if_pos hx]
    exact isKept_of_shown hx hk
  · have hsplit : shownKeys key shown (xs ++ x :: ys) =
        shownKeys key shown xs ++ shownKeys key shown ys := by
      rw [shownKeys_append, shownKeys_cons_of_none fun h => absurd h hx]
    rw [if_neg hx]
    by_cases hshown : k ∈ shownKeys key shown (xs ++ x :: ys)
    · have hnot := isKept_of_hidden (Bool.not_eq_true _ ▸ hx) hk hshown
      rw [hsplit, List.mem_append] at hshown
      refine ⟨fun h => absurd h hnot, fun h => ?_⟩
      rcases hshown with hshown | hshown
      · exact absurd hshown h.1
      · exact absurd (shownKeys_subset _ hshown) h.2
    · rw [isKept_of_unshown hk hshown]
      rw [hsplit, List.mem_append, not_or] at hshown
      exact ⟨fun h => ⟨hshown.1, h⟩, fun h => h.2⟩

theorem map_filter_zipIdx {q : α × Nat → Bool} {p : α → Bool} (n : Nat)
    (h : ∀ front x back, xs = front ++ x :: back → q (x, n + front.length) = p x) :
    ((xs.zipIdx n).filter q).map Prod.fst = xs.filter p := by
  induction xs generalizing n with
  | nil => rfl
  | cons x xs ih =>
    have hx := h [] x xs rfl
    have htail := ih (n + 1) fun front y back hsplit => by
      have hy := h (x :: front) y back (by rw [hsplit, List.cons_append])
      rwa [List.length_cons, Nat.add_comm front.length, ← Nat.add_assoc] at hy
    rw [List.zipIdx_cons, List.filter_cons, List.filter_cons]
    rw [List.length_nil, Nat.add_zero] at hx
    rw [hx]
    split_ifs
    · rw [List.map_cons, htail]
    · exact htail

/-- A member of the first list stays when the second one does not have its key, or only hidden
where the member is shown. -/
def stays (key : α → Option κ) (shown : α → Bool) (ys : List α) (x : α) : Bool :=
  (key x).all fun k => k ∉ ys.filterMap key ∨ (k ∉ shownKeys key shown ys ∧ shown x = true)

/-- A member of the second list is displaced when it is hidden and the first one shows its key. -/
def displaced (key : α → Option κ) (shown : α → Bool) (xs : List α) (y : α) : Bool :=
  (key y).any fun k => k ∈ shownKeys key shown xs ∧ shown y = false

theorem stays_of_key (hk : key x = some k) : stays key shown ys x = true ↔
    k ∉ ys.filterMap key ∨ (k ∉ shownKeys key shown ys ∧ shown x = true) := by
  simp [stays, hk]

theorem displaced_of_key (hk : key y = some k) : displaced key shown xs y = true ↔
    k ∈ shownKeys key shown xs ∧ shown y = false := by
  simp [displaced, hk]

theorem not_displaced_of_none (hk : key y = none) : displaced key shown xs y = false := by
  simp [displaced, hk]

theorem keepLast_append (hxs : (xs.filterMap key).Nodup) (hys : (ys.filterMap key).Nodup) :
    keepLast key shown (xs ++ ys) =
      xs.filter (stays key shown ys) ++ ys.filter fun y => !displaced key shown xs y := by
  have hsub {zs : List α} {k : κ} (h : k ∉ zs.filterMap key) : k ∉ shownKeys key shown zs :=
    fun hmem => h (shownKeys_subset _ hmem)
  unfold keepLast
  rw [List.zipIdx_append, List.filter_append, List.map_append]
  congr 1
  · refine map_filter_zipIdx 0 fun front x back hsplit => ?_
    have hlist : xs ++ ys = front ++ x :: (back ++ ys) := by
      rw [hsplit, List.append_assoc, List.cons_append]
    rw [Nat.zero_add, hlist, Bool.eq_iff_iff]
    cases hk : key x with
    | none => simp [isKept, stays, hk]
    | some k =>
      obtain ⟨hfront, hback⟩ := notMem_around (hsplit ▸ hxs) hk
      rw [isKept_iff hk, shownKeys_append, List.filterMap_append]
      by_cases hx : shown x = true
      · have hboth : k ∉ ys.filterMap key ∨ k ∉ shownKeys key shown ys ↔
            k ∉ shownKeys key shown ys := or_iff_right_of_imp hsub
        simpa [stays, hk, hx, hsub hback] using hboth.symm
      · simp [stays, hk, hx, hsub hfront, hback]
  · refine map_filter_zipIdx _ fun front y back hsplit => ?_
    have hlist : xs ++ ys = (xs ++ front) ++ y :: back := by
      rw [hsplit, List.append_assoc]
    rw [Nat.zero_add, ← List.length_append, hlist, Bool.eq_iff_iff]
    cases hk : key y with
    | none => simp [isKept, displaced, hk]
    | some k =>
      obtain ⟨hfront, hback⟩ := notMem_around (hsplit ▸ hys) hk
      rw [isKept_iff hk, shownKeys_append]
      by_cases hy : shown y = true
      · simp [displaced, hk, hy, hsub hback]
      · simp [displaced, hk, hy, hsub hfront, hback]

end Kept

section Order
variable {h' d t o : List κ} {p q : κ → Bool}

theorem filter_append_filter_iff {xs : List κ} : (xs.filter fun x => !q x) ++ xs.filter q = xs ↔
    xs.Pairwise fun x y => q x = true → q y = true := by
  refine ⟨fun heq => ?_, filter_append_filter⟩
  rw [← heq, List.pairwise_append]
  refine ⟨?_, ?_, ?_⟩
  · refine List.pairwise_of_forall_mem_list fun x hx y _ hq => ?_
    simp [hq] at hx
  · refine List.pairwise_of_forall_mem_list fun x _ y hy _ => ?_
    exact (List.mem_filter.mp hy).2
  · intro x _ y hy _
    exact (List.mem_filter.mp hy).2

variable [DecidableEq κ]

/-- Of two lists with their common members in one order: the first one leaves out those that the
second one takes over, and what it ends with is taken over. -/
structure Joined (h' d t o : List κ) (p : κ → Bool) : Prop where
  first : (h' ++ d).Nodup
  second : t.Nodup
  third : o.Nodup
  fresh : ∀ k ∈ o, k ∉ h' ++ d ∧ k ∉ t
  common : (h' ++ d).filter (fun k => k ∈ t) = t.filter fun k => k ∈ h' ++ d
  kept : ∀ k ∈ t, p k = true → k ∈ h'
  ending : ∀ k ∈ d, k ∈ t

/-- What the two lists make: of the common members the first one keeps those with `p`. -/
def joined (h' t o : List κ) (p : κ → Bool) : List κ :=
  h'.filter (fun k => k ∉ t ∨ p k = true) ++ t.filter (fun k => !p k) ++ o

theorem Joined.nodup (hj : Joined h' d t o p) : (joined h' t o p).Nodup := by
  have hfirst : h'.Nodup := hj.first.of_append_left
  refine List.Nodup.append (List.Nodup.append (hfirst.filter _) (hj.second.filter _) ?_) hj.third ?_
  · intro k hk hkt
    simp only [List.mem_filter, decide_eq_true_eq, Bool.not_eq_true'] at hk hkt
    rcases hk.2 with hnot | hp
    · exact hnot hkt.1
    · simp [hp] at hkt
  · intro k hk hko
    obtain ⟨hh, ht⟩ := hj.fresh k hko
    rcases List.mem_append.mp hk with hk | hk
    · exact hh (List.mem_append_left _ (List.mem_of_mem_filter hk))
    · exact ht (List.mem_of_mem_filter hk)

theorem Joined.not_kept (hj : Joined h' d t o p) : ∀ k ∈ d, p k = false := by
  intro k hk
  by_contra hp
  rw [Bool.not_eq_false] at hp
  exact List.disjoint_of_nodup_append hj.first (hj.kept k (hj.ending k hk) hp) hk

/-- The first list is in order exactly when what the second one takes over stands behind. -/
theorem Joined.sublist_first_iff (hj : Joined h' d t o p) : (h' ++ d).Sublist (joined h' t o p) ↔
    (h' ++ d).Pairwise fun x y => (x ∈ t ∧ p x = false) → (y ∈ t ∧ p y = false) := by
  have htaken : ∀ k ∈ d, k ∈ t ∧ p k = false := fun k hk => ⟨hj.ending k hk, hj.not_kept k hk⟩
  have hmoved : (h' ++ d).filter (fun k => k ∈ t ∧ p k = false) =
      h'.filter (fun k => k ∈ t ∧ p k = false) ++ d := by
    have hself : d.filter (fun k => k ∈ t ∧ p k = false) = d :=
      List.filter_eq_self.mpr fun k hk => decide_eq_true (htaken k hk)
    rw [List.filter_append, hself]
  have hthird : o.filter (fun k => k ∈ h' ++ d) = [] := by
    rw [List.filter_eq_nil_iff]
    intro k hk
    simpa using (hj.fresh k hk).1
  have hsecond : (t.filter fun k => !p k).filter (fun k => k ∈ h' ++ d) =
      (h' ++ d).filter (fun k => k ∈ t ∧ p k = false) := by
    rw [List.filter_filter, List.filter_congr fun k _ => Bool.and_comm .., ← List.filter_filter,
      ← hj.common, List.filter_filter]
    refine List.filter_congr fun k _ => ?_
    rw [Bool.eq_iff_iff]
    simp [and_comm]
  have hfirst : (h'.filter fun k => k ∉ t ∨ p k = true).filter (fun k => k ∈ h' ++ d) =
      h'.filter fun k => !decide (k ∈ t ∧ p k = false) := by
    rw [List.filter_filter]
    refine List.filter_congr fun k hk => ?_
    rw [Bool.eq_iff_iff]
    simp [hk]
  have hpairwise : (h' ++ d).Pairwise (fun x y => (x ∈ t ∧ p x = false) → (y ∈ t ∧ p y = false)) ↔
      h'.Pairwise fun x y => (x ∈ t ∧ p x = false) → (y ∈ t ∧ p y = false) := by
    rw [List.pairwise_append]
    refine ⟨fun hall => hall.1, fun hall => ⟨hall, ?_, fun _ _ y hy _ => htaken y hy⟩⟩
    exact List.pairwise_of_forall_mem_list fun _ _ y hy _ => htaken y hy
  have hiff := @filter_append_filter_iff κ (fun k => decide (k ∈ t ∧ p k = false)) h'
  simp only [decide_eq_true_eq] at hiff
  rw [sublist_iff_filter_eq hj.nodup, joined, List.filter_append, List.filter_append, hfirst,
    hsecond, hthird, List.append_nil, hmoved, ← List.append_assoc, List.append_left_inj, hpairwise]
  exact hiff

/-- The second list is in order exactly when what the first one keeps stands in front. -/
theorem Joined.sublist_second_iff (hj : Joined h' d t o p) : t.Sublist (joined h' t o p) ↔
    t.Pairwise fun x y => p y = true → p x = true := by
  have hthird : o.filter (fun k => k ∈ t) = [] := by
    rw [List.filter_eq_nil_iff]
    intro k hk
    simpa using (hj.fresh k hk).2
  have hsecond : (t.filter fun k => !p k).filter (fun k => k ∈ t) = t.filter fun k => !p k := by
    rw [List.filter_eq_self]
    intro k hk
    simpa using List.mem_of_mem_filter hk
  have hdrop : d.filter (fun k => k ∈ t ∧ p k = true) = [] := by
    rw [List.filter_eq_nil_iff]
    intro k hk
    simp [hj.not_kept k hk]
  have hfirst : (h'.filter fun k => k ∉ t ∨ p k = true).filter (fun k => k ∈ t) =
      t.filter p := by
    calc (h'.filter fun k => k ∉ t ∨ p k = true).filter (fun k => k ∈ t)
        = h'.filter fun k => k ∈ t ∧ p k = true := by
          rw [List.filter_filter]
          refine List.filter_congr fun k _ => ?_
          rw [Bool.eq_iff_iff]
          simp
          tauto
      _ = (h' ++ d).filter fun k => k ∈ t ∧ p k = true := by
          rw [List.filter_append, hdrop, List.append_nil]
      _ = ((h' ++ d).filter fun k => k ∈ t).filter p := by
          rw [List.filter_filter]
          refine List.filter_congr fun k _ => ?_
          rw [Bool.eq_iff_iff]
          simp [and_comm]
      _ = t.filter p := by
          rw [hj.common, List.filter_filter]
          refine List.filter_congr fun k hk => ?_
          rw [Bool.eq_iff_iff]
          simp only [Bool.and_eq_true, decide_eq_true_eq, List.mem_append, and_iff_left_iff_imp]
          exact fun hp => .inl (hj.kept k hk hp)
  have hiff := @filter_append_filter_iff κ (fun k => !p k) t
  simp only [Bool.not_not, Bool.not_eq_true'] at hiff
  have hcontra : (t.Pairwise fun x y => p y = true → p x = true) ↔
      t.Pairwise fun x y => p x = false → p y = false := by
    refine List.Pairwise.iff fun x y => ?_
    rw [← Bool.not_eq_true, ← Bool.not_eq_true, not_imp_not]
  rw [sublist_iff_filter_eq hj.nodup, joined, List.filter_append, List.filter_append, hfirst,
    hsecond, hthird, List.append_nil, hcontra]
  exact hiff

end Order

end DeerFlow.LastShown
