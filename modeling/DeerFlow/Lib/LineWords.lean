import DeerFlow.Lib.TextLines

/-! Where a word occurs in a text that is put together from parts. A word without
the character between two parts is in one of them, so a word without a newline is
in one of the lines that were written. -/

namespace DeerFlow

section Parts
variable {α : Type*} {a b w : List α} {c : α}

theorem mem_of_append_cons {s t : List α} (h : s ++ w ++ t = a ++ c :: b)
    (hs : s.length ≤ a.length) (hw : a.length < (s ++ w).length) : c ∈ w := by
  have hread : (s ++ w ++ t)[a.length]? = some c := by
    rw [h]
    simp
  rw [List.getElem?_append_left hw, List.getElem?_append_right hs] at hread
  exact List.mem_of_getElem? hread

theorem prefix_append_cons (hc : c ∉ w) (h : w <+: a ++ c :: b) : w <+: a := by
  rcases Nat.lt_or_ge a.length w.length with hlong | hshort
  · obtain ⟨t, ht⟩ := h
    exact absurd (mem_of_append_cons (s := []) ht (Nat.zero_le _) hlong) hc
  · exact List.prefix_of_prefix_length_le h ⟨_, rfl⟩ hshort

theorem infix_append_cons (hc : c ∉ w) : w <:+: a ++ c :: b ↔ w <:+: a ∨ w <:+: b := by
  constructor
  · rintro ⟨s, t, h⟩
    rcases Nat.lt_or_ge a.length (s ++ w).length with hend | hend
    · rcases Nat.lt_or_ge a.length s.length with hstart | hstart
      · right
        have hread : a ++ [c] <+: s ++ w ++ t := by
          rw [h]
          exact ⟨b, by simp⟩
        have hlength : (a ++ [c]).length ≤ s.length := by
          rw [List.length_append]
          exact hstart
        obtain ⟨s', rfl⟩ := List.prefix_of_prefix_length_le hread ⟨w ++ t, by simp⟩ hlength
        refine ⟨s', t, ?_⟩
        have hrest : (a ++ [c]) ++ (s' ++ w ++ t) = (a ++ [c]) ++ b := by
          simpa using h
        exact List.append_cancel_left hrest
      · exact absurd (mem_of_append_cons h hstart hend) hc
    · left
      have hread : a <+: s ++ w ++ t := by
        rw [h]
        exact ⟨c :: b, rfl⟩
      obtain ⟨t', ht⟩ := List.prefix_of_prefix_length_le ⟨t, rfl⟩ hread hend
      exact ⟨s, t', ht⟩
  · rintro (⟨s, t, rfl⟩ | ⟨s, t, rfl⟩)
    · exact ⟨s, t ++ c :: b, by simp⟩
    · exact ⟨a ++ c :: s, t, by simp⟩

/-- A word does not begin in a part that its first character is not in. -/
theorem infix_append_of_head (hw : w.head? = some c) (hc : c ∉ a) : w <:+: a ++ b ↔ w <:+: b := by
  induction a with
  | nil => rfl
  | cons d a ih =>
    obtain ⟨hd, ha⟩ := not_or.mp fun h => hc (List.mem_cons.mpr h)
    rw [List.cons_append, List.infix_cons_iff, ih ha]
    constructor
    · rintro (hhere | hlater)
      · obtain ⟨t, ht⟩ := hhere
        have hhead := congrArg List.head? ht
        rw [List.head?_append, hw, List.head?_cons] at hhead
        exact absurd (Option.some.inj hhead) hd
      · exact hlater
    · exact .inr

theorem not_infix_of_mem (hw : c ∈ w) (hc : c ∉ a) : ¬ w <:+: a := fun h => hc (h.subset hw)

end Parts

section Lines
variable {ls : List Text} {w p q : Text}

theorem writeLines_cons (l : Text) (ls : List Text) :
    writeLines (l :: ls) = l ++ '\n' :: writeLines ls := by
  simp [writeLines]

theorem writeLines_append (ls ms : List Text) :
    writeLines (ls ++ ms) = writeLines ls ++ writeLines ms := List.flatMap_append

theorem intercalate_newline (ls : List Text) (l : Text) :
    ['\n'].intercalate (ls ++ [l]) = writeLines ls ++ l := by
  induction ls with
  | nil => exact List.intercalate_singleton
  | cons m ls ih =>
    rw [List.cons_append, List.intercalate_cons_of_ne_nil (by simp), ih, writeLines_cons]
    simp

theorem infix_writeLines (hne : w ≠ []) (hw : '\n' ∉ w) :
    w <:+: writeLines ls ↔ ∃ l ∈ ls, w <:+: l := by
  induction ls with
  | nil => simpa [writeLines] using hne
  | cons l ls ih =>
    rw [writeLines_cons, infix_append_cons hw, ih, List.exists_mem_cons_iff]

theorem prefix_writeLines (hne : w ≠ []) (hw : '\n' ∉ w) (h : w <+: writeLines ls) :
    ∃ l ms, ls = l :: ms ∧ w <+: l := by
  cases ls with
  | nil => exact absurd (List.prefix_nil.mp h) hne
  | cons l ls =>
    refine ⟨l, ls, rfl, ?_⟩
    rw [writeLines_cons] at h
    exact prefix_append_cons hw h

theorem writeLines_split (hls : ∀ l ∈ ls, '\n' ∉ l) (h : writeLines ls = p ++ '\n' :: q) :
    ∃ before l after, ls = before ++ l :: after ∧ p = writeLines before ++ l ∧
      q = writeLines after := by
  induction ls generalizing p with
  | nil => simp [writeLines] at h
  | cons l ls ih =>
    have hl := hls l (List.mem_cons_self ..)
    rw [writeLines_cons] at h
    rcases List.append_eq_append_iff.mp h with ⟨u, hp, hu⟩ | ⟨u, hlast, hu⟩
    · cases u with
      | nil =>
        refine ⟨[], l, ls, rfl, ?_, ?_⟩
        · simpa [writeLines] using hp
        · exact (List.cons.inj hu).2.symm
      | cons c u =>
        obtain ⟨rfl, hrest⟩ := List.cons.inj hu
        have htail := fun m hm => hls m (List.mem_cons_of_mem _ hm)
        obtain ⟨before, k, after, rfl, rfl, hq⟩ := ih htail hrest
        refine ⟨l :: before, k, after, rfl, ?_, hq⟩
        rw [hp, writeLines_cons]
        simp
    · cases u with
      | nil =>
        refine ⟨[], l, ls, rfl, ?_, ?_⟩
        · simpa [writeLines] using hlast.symm
        · exact (List.cons.inj hu).2
      | cons c u =>
        obtain ⟨rfl, -⟩ := List.cons.inj hu
        exact absurd (by simp [hlast]) hl

end Lines

end DeerFlow
