import Mathlib

/-! Lists without their repetitions, the most recent entries of a list, lists whose members
correspond one to one, and lists whose positions are names. -/

namespace DeerFlow

section FirstSeen
variable {α : Type*} [BEq α] [LawfulBEq α] {xs ys zs : List α} {x : α}

theorem eraseDups_of_nodup (h : xs.Nodup) : xs.eraseDups = xs := by
  induction xs with
  | nil => rfl
  | cons x xs ih =>
    obtain ⟨hx, hxs⟩ := List.nodup_cons.mp h
    have hkeep : (xs.filter fun y => !y == x) = xs := by
      rw [List.filter_eq_self]
      intro y hy
      have hne : y ≠ x := fun he => hx (he ▸ hy)
      simpa using hne
    rw [List.eraseDups_cons, hkeep, ih hxs]

theorem eraseDups_append_of_subset (h : ys ⊆ xs) : (xs ++ ys).eraseDups = xs.eraseDups := by
  have hnone : ys.removeAll xs = [] := by
    rw [List.removeAll, List.filter_eq_nil_iff]
    intro y hy
    simp [h hy]
  rw [List.eraseDups_append, hnone, List.eraseDups_nil, List.append_nil]

theorem eraseDups_append_singleton (h : x ∉ xs) : (xs ++ [x]).eraseDups = xs.eraseDups ++ [x] := by
  have hnew : [x].removeAll xs = [x] := by simp [List.removeAll, h]
  rw [List.eraseDups_append, hnew, List.eraseDups_cons]
  rfl

theorem nodup_eraseDups (xs : List α) : xs.eraseDups.Nodup := by
  induction xs using List.reverseRecOn with
  | nil => exact List.nodup_nil
  | append_singleton xs x ih =>
    by_cases hx : x ∈ xs
    · rw [eraseDups_append_of_subset (by simpa using hx)]
      exact ih
    · rw [eraseDups_append_singleton hx]
      refine List.nodup_append.mpr ⟨ih, List.nodup_singleton x, ?_⟩
      rintro a ha b hb rfl
      rw [List.mem_singleton] at hb
      rw [hb] at ha
      exact hx (List.mem_eraseDups.mp ha)

theorem eraseDups_eraseDups_append (xs ys : List α) :
    (xs.eraseDups ++ ys).eraseDups = (xs ++ ys).eraseDups := by
  have hsame : ys.removeAll xs.eraseDups = ys.removeAll xs := by
    apply List.filter_congr
    intro y _
    rw [Bool.eq_iff_iff]
    simp
  rw [List.eraseDups_append, List.eraseDups_append, eraseDups_of_nodup (nodup_eraseDups xs), hsame]

theorem eraseDups_append_append_of_subset (h : ys ⊆ xs) :
    (xs ++ (ys ++ zs)).eraseDups = (xs ++ zs).eraseDups := by
  rw [← List.append_assoc, ← eraseDups_eraseDups_append, eraseDups_append_of_subset h,
    eraseDups_eraseDups_append]

end FirstSeen

section Recent
variable {α β : Type*} {n k : Nat} {xs ys : List α}

/-- The last `n` entries. -/
@[grind =]
def recent (n : Nat) (xs : List α) : List α := xs.drop (xs.length - n)

theorem mem_of_mem_recent {x : α} (h : x ∈ recent n xs) : x ∈ xs := List.mem_of_mem_drop h

theorem map_recent (f : α → β) (n : Nat) (xs : List α) :
    (recent n xs).map f = recent n (xs.map f) := by
  rw [recent, recent, List.map_drop, List.length_map]

theorem length_recent (n : Nat) (xs : List α) : (recent n xs).length = min n xs.length := by
  rw [recent, List.length_drop]
  omega

theorem recent_of_length_le (h : xs.length ≤ n) : recent n xs = xs := by
  rw [recent, Nat.sub_eq_zero_of_le h, List.drop_zero]

theorem recent_drop (h : k ≤ xs.length - n) : recent n (xs.drop k) = recent n xs := by
  have hsum : k + (xs.length - k - n) = xs.length - n := by omega
  rw [recent, recent, List.drop_drop, List.length_drop, hsum]

theorem recent_append_of_length_le (h : n ≤ ys.length) : recent n (xs ++ ys) = recent n ys := by
  have hlength : xs.length ≤ (xs ++ ys).length - n := by
    rw [List.length_append]
    omega
  rw [← recent_drop hlength, List.drop_left]

theorem recent_recent_append (n : Nat) (xs ys : List α) :
    recent n (recent n xs ++ ys) = recent n (xs ++ ys) := by
  have hle : xs.length - n ≤ xs.length := Nat.sub_le _ _
  have hdrop : recent n xs ++ ys = (xs ++ ys).drop (xs.length - n) := by
    rw [recent, List.drop_append_of_le_length hle]
  rw [hdrop]
  apply recent_drop
  rw [List.length_append]
  omega

theorem mem_drop_of_mem_recent {x : α} (h : x ∈ recent n xs) (hk : k ≤ xs.length - n) :
    x ∈ xs.drop k := by
  rw [← recent_drop hk] at h
  exact mem_of_mem_recent h

/-- A window of a grown log, added to the recent entries of the old one, shows the recent
entries of the grown log, unless the window begins so late that it leaves some of them out. -/
theorem recent_window {p : α → Bool} (hk : xs.length - n ≤ k)
    (hlate : k ≤ xs.length ∨ k ≤ (xs ++ ys).length - n) (hxs : ∀ x ∈ recent n xs, p x = false)
    (hys : ∀ y ∈ ys, p y = true) :
    recent n (recent n xs ++ ((xs ++ ys).drop k).filter p) = recent n (xs ++ ys) := by
  have hold : (xs.drop k).filter p = [] := by
    rw [List.filter_eq_nil_iff]
    intro x hx
    have hsplit : xs.length - n + (k - (xs.length - n)) = k := by omega
    rw [← hsplit, ← List.drop_drop] at hx
    simp [hxs x (List.mem_of_mem_drop hx)]
  have hnew : (ys.drop (k - xs.length)).filter p = ys.drop (k - xs.length) := by
    rw [List.filter_eq_self]
    intro y hy
    exact hys y (List.mem_of_mem_drop hy)
  rw [List.drop_append, List.filter_append, hold, hnew, List.nil_append]
  by_cases hle : k ≤ xs.length
  · rw [Nat.sub_eq_zero_of_le hle, List.drop_zero, recent_recent_append]
  · have hlast := hlate.resolve_left hle
    have hall : (xs ++ ys).drop k = ys.drop (k - xs.length) := by
      rw [List.drop_append, List.drop_of_length_le (by omega), List.nil_append]
    have hlength : n ≤ (ys.drop (k - xs.length)).length := by
      rw [List.length_append] at hlast
      rw [List.length_drop]
      omega
    rw [recent_append_of_length_le hlength, ← hall, recent_drop hlast]

end Recent

section Matched

theorem exists_of_forall₂_left {γ δ : Type*} {r : γ → δ → Prop} {as : List γ} {bs : List δ} {a : γ}
    (h : List.Forall₂ r as bs) (ha : a ∈ as) : ∃ b ∈ bs, r a b := by
  induction h with
  | nil => cases ha
  | cons hab _ ih =>
    rcases List.mem_cons.mp ha with rfl | ha
    · exact ⟨_, List.mem_cons_self .., hab⟩
    · obtain ⟨b, hmem, hr⟩ := ih ha
      exact ⟨b, List.mem_cons_of_mem _ hmem, hr⟩

theorem exists_of_forall₂_right {γ δ : Type*} {r : γ → δ → Prop} {as : List γ} {bs : List δ} {b : δ}
    (h : List.Forall₂ r as bs) (hb : b ∈ bs) : ∃ a ∈ as, r a b :=
  exists_of_forall₂_left h.flip hb

theorem flatMap_eq_of_forall₂ {α β γ : Type} {f : α → List γ} {g : β → List γ} {xs : List α}
    {ys : List β} (h : List.Forall₂ (fun x y => f x = g y) xs ys) : xs.flatMap f = ys.flatMap g := by
  induction h with
  | nil => rfl
  | cons hxy _ ih => rw [List.flatMap_cons, List.flatMap_cons, hxy, ih]

section Measures
variable {α β γ : Type} {xs : List α} {ys : List β}

theorem sum_le_of_forall₂ {f : α → Nat} {g : β → Nat}
    (h : List.Forall₂ (fun x y => g y ≤ f x) xs ys) : (ys.map g).sum ≤ (xs.map f).sum := by
  induction h with
  | nil => exact Nat.le_refl 0
  | cons hxy _ ih =>
    rw [List.map_cons, List.map_cons, List.sum_cons, List.sum_cons]
    exact Nat.add_le_add hxy ih

theorem eq_of_sum_eq {f : α → Nat} {g : β → Nat}
    (h : List.Forall₂ (fun x y => g y ≤ f x) xs ys) (hsum : (xs.map f).sum = (ys.map g).sum) :
    List.Forall₂ (fun x y => f x = g y) xs ys := by
  induction h with
  | nil => exact .nil
  | cons hxy hrest ih =>
    have hle := sum_le_of_forall₂ hrest
    rw [List.map_cons, List.map_cons, List.sum_cons, List.sum_cons] at hsum
    exact .cons (by omega) (ih (by omega))

theorem eq_of_flatMap_eq {f : α → List γ} {g : β → List γ}
    (h : List.Forall₂ (fun x y => (f x).length = (g y).length) xs ys)
    (heq : xs.flatMap f = ys.flatMap g) : List.Forall₂ (fun x y => f x = g y) xs ys := by
  induction h with
  | nil => exact .nil
  | cons hxy _ ih =>
    rw [List.flatMap_cons, List.flatMap_cons] at heq
    obtain ⟨hhead, hrest⟩ := List.append_inj heq hxy
    exact .cons hhead (ih hrest)

end Measures

end Matched

namespace Slots
variable {α : Type*} {l : List α} {a b : α} {i j : Nat} {f : α → α}

theorem concat_of_getElem? (h : l[j]? = some b) : (l ++ [a])[j]? = some b :=
  (List.getElem?_append_left (List.getElem?_eq_some_iff.mp h).1).trans h

theorem getElem?_concat (h : (l ++ [a])[j]? = some b) : l[j]? = some b ∨ j = l.length ∧ b = a := by
  by_cases hj : j < l.length
  · rw [List.getElem?_append_left hj] at h
    exact .inl h
  · have hlast : j = l.length := by
      have hlt := (List.getElem?_eq_some_iff.mp h).1
      rw [List.length_append, List.length_singleton] at hlt
      omega
    subst hlast
    rw [List.getElem?_concat_length] at h
    exact .inr ⟨rfl, (Option.some.inj h).symm⟩

theorem getElem?_modify (h : (l.modify i f)[j]? = some b) :
    ∃ a, l[j]? = some a ∧ (i = j ∧ b = f a ∨ i ≠ j ∧ b = a) := by
  by_cases hij : i = j
  · subst hij
    rw [List.getElem?_modify_eq] at h
    obtain ⟨a, ha, rfl⟩ := Option.map_eq_some_iff.mp h
    exact ⟨a, ha, .inl ⟨rfl, rfl⟩⟩
  · rw [List.getElem?_modify_ne f l hij] at h
    exact ⟨b, h, .inr ⟨hij, rfl⟩⟩

theorem modify_cases (h : l[i]? = some a) (hj : (l.modify i f)[j]? = some b) :
    i = j ∧ b = f a ∨ i ≠ j ∧ l[j]? = some b := by
  obtain ⟨a', ha', ⟨rfl, rfl⟩ | ⟨hij, rfl⟩⟩ := getElem?_modify hj
  · obtain rfl := Option.some.inj (h.symm.trans ha')
    exact .inl ⟨rfl, rfl⟩
  · exact .inr ⟨hij, ha'⟩

theorem modify_self (h : l[i]? = some a) : (l.modify i f)[i]? = some (f a) := by
  rw [List.getElem?_modify_eq, h]
  rfl

theorem modify_ne (hij : i ≠ j) (h : l[j]? = some a) : (l.modify i f)[j]? = some a :=
  (List.getElem?_modify_ne f l hij).trans h

theorem modify_of_getElem? (h : l[j]? = some a) :
    ∃ b, (l.modify i f)[j]? = some b ∧ (i = j ∧ b = f a ∨ i ≠ j ∧ b = a) := by
  by_cases hij : i = j
  · subst hij
    exact ⟨f a, modify_self h, .inl ⟨rfl, rfl⟩⟩
  · exact ⟨a, modify_ne hij h, .inr ⟨hij, rfl⟩⟩

theorem exists_modify {p : α → Prop} (h : l[i]? = some a) (hkeeps : p a → p (f a))
    (hex : ∃ b ∈ l, p b) : ∃ b ∈ l.modify i f, p b := by
  obtain ⟨b, hb, hp⟩ := hex
  obtain ⟨k, hk⟩ := List.mem_iff_getElem?.mp hb
  obtain ⟨c, hc, ⟨rfl, rfl⟩ | ⟨-, rfl⟩⟩ := modify_of_getElem? (i := i) (f := f) hk
  · obtain rfl := Option.some.inj (h.symm.trans hk)
    exact ⟨f a, List.mem_of_getElem? hc, hkeeps hp⟩
  · exact ⟨c, List.mem_of_getElem? hc, hp⟩

theorem modify_concat (l : List α) (a : α) (f : α → α) :
    (l ++ [a]).modify l.length f = l ++ [f a] := by
  induction l with
  | nil => rfl
  | cons b l ih => rw [List.cons_append, List.length_cons, List.modify_succ_cons, ih]; rfl

end Slots

end DeerFlow
