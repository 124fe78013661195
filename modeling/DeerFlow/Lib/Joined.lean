import Mathlib

/-! Texts that are joined with a separator, and a text between two marks. The marks begin with a
character that is found nowhere else, so they are read only where they stand. -/

namespace DeerFlow

section Joined
variable {α : Type} {sep l : List α} {ls : List (List α)} {c : α}

theorem mem_of_mem_intercalate (h : c ∈ sep.intercalate ls) : c ∈ sep ∨ ∃ l ∈ ls, c ∈ l := by
  induction ls with
  | nil => cases h
  | cons l ls ih =>
    cases ls with
    | nil =>
      rw [List.intercalate_singleton] at h
      exact .inr ⟨l, List.mem_cons_self .., h⟩
    | cons m ls =>
      rw [List.intercalate_cons_cons, List.mem_append, List.mem_append] at h
      rcases h with (hl | hsep) | hrest
      · exact .inr ⟨l, List.mem_cons_self .., hl⟩
      · exact .inl hsep
      · rcases ih hrest with hsep | ⟨k, hk, hc⟩
        · exact .inl hsep
        · exact .inr ⟨k, List.mem_cons_of_mem _ hk, hc⟩

theorem not_mem_intercalate (hsep : c ∉ sep) (h : ∀ l ∈ ls, c ∉ l) : c ∉ sep.intercalate ls := by
  intro hc
  rcases mem_of_mem_intercalate hc with hmem | ⟨l, hl, hmem⟩
  · exact hsep hmem
  · exact h l hl hmem

theorem intercalate_append_singleton (h : ls ≠ []) :
    sep.intercalate (ls ++ [l]) = sep.intercalate ls ++ sep ++ l := by
  induction ls with
  | nil => exact absurd rfl h
  | cons m ls ih =>
    cases ls with
    | nil => simp [List.intercalate_cons_cons]
    | cons k ls =>
      have hrest := ih (List.cons_ne_nil k ls)
      simp only [List.cons_append, List.intercalate_cons_cons] at hrest ⊢
      rw [hrest]
      simp

theorem intercalate_cons_ne_nil (h : l ≠ []) : sep.intercalate (l :: ls) ≠ [] := by
  cases ls with
  | nil =>
    rw [List.intercalate_singleton]
    exact h
  | cons m ls =>
    rw [List.intercalate_cons_cons]
    simp [h]

theorem neg_of_mem_splitOnP {p : α → Bool} {text word : List α} (hword : word ∈ text.splitOnP p)
    (hc : c ∈ word) : p c = false := by
  induction text generalizing word with
  | nil =>
    rw [List.splitOnP_nil] at hword
    rw [List.mem_singleton.mp hword] at hc
    cases hc
  | cons d text ih =>
    rw [List.splitOnP_cons_eq_if_modifyHead] at hword
    split_ifs at hword with hd
    · rcases List.mem_cons.mp hword with rfl | hrest
      · cases hc
      · exact ih hrest hc
    · obtain ⟨front, rest, hsplit⟩ := List.exists_cons_of_ne_nil (List.splitOnP_ne_nil p text)
      rw [hsplit, List.modifyHead_cons] at hword
      rw [hsplit] at ih
      rcases List.mem_cons.mp hword with rfl | hrest
      · rcases List.mem_cons.mp hc with rfl | hfront
        · exact eq_false_of_ne_true hd
        · exact ih (List.mem_cons_self ..) hfront
      · exact ih (List.mem_cons_of_mem _ hrest) hc

end Joined

section Marks
variable {α : Type} {first last body word : List α} {m : α} {p : Nat}

/-- What begins with the character of the marks is read at one of them. -/
theorem marked_positions (hfirst : m ∉ first) (hbody : m ∉ body) (hlast : m ∉ last)
    (h : m :: word <+: ((m :: first) ++ body ++ (m :: last)).drop p) :
    p = 0 ∨ p = (m :: first).length + body.length := by
  have hread : ((m :: first) ++ body ++ (m :: last))[p]? = some m := by
    obtain ⟨rest, hrest⟩ := h
    have hhead := congrArg List.head? hrest
    rw [List.head?_drop, List.cons_append] at hhead
    exact hhead.symm
  rcases p with _ | q
  · exact .inl rfl
  · right
    rw [List.cons_append, List.cons_append, List.getElem?_cons_succ] at hread
    rw [List.length_cons]
    rcases Nat.lt_trichotomy q (first ++ body).length with hlt | heq | hgt
    · rw [List.getElem?_append_left hlt] at hread
      rcases List.mem_append.mp (List.mem_of_getElem? hread) with hmem | hmem
      · exact absurd hmem hfirst
      · exact absurd hmem hbody
    · rw [List.length_append] at heq
      omega
    · rw [List.getElem?_append_right (Nat.le_of_lt hgt)] at hread
      obtain ⟨k, hk⟩ : ∃ k, q - (first ++ body).length = k + 1 :=
        ⟨q - (first ++ body).length - 1, by omega⟩
      rw [hk, List.getElem?_cons_succ] at hread
      exact absurd (List.mem_of_getElem? hread) hlast

end Marks

end DeerFlow
