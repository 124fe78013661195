import DeerFlow.Lib.Joined
import DeerFlow.Lib.TextLines

/-! The words of a text with one space between any two, and how they come out of two texts that
are put together. -/

namespace DeerFlow

/-- `" ".join(text.split())`. -/
def joinWords (text : Text) : Text := [' '].intercalate (splitWords text)

section Recursion
variable {c : Char} {a b s : Text}

@[simp] theorem joinWords_nil : joinWords [] = [] := rfl

theorem joinWords_cons_of_space (hc : isSpace c = true) : joinWords (c :: s) = joinWords s := by
  unfold joinWords splitWords
  rw [List.splitOnP_cons_eq_if_modifyHead, if_pos hc, List.filter_cons_of_neg (by simp)]

theorem joinWords_cons (hc : isSpace c = false) : joinWords (c :: s) =
    c :: ((if s.head?.any isSpace && joinWords s ≠ [] then [' '] else []) ++ joinWords s) := by
  have hne : ¬isSpace c = true := by simp [hc]
  unfold joinWords splitWords
  rw [List.splitOnP_cons_eq_if_modifyHead, if_neg hne]
  cases s with
  | nil => rfl
  | cons d s =>
    rw [List.splitOnP_cons_eq_if_modifyHead]
    by_cases hd : isSpace d = true
    · rw [if_pos hd, List.modifyHead_cons, List.filter_cons_of_pos (by simp),
        List.filter_cons_of_neg (by simp)]
      cases hwords : (s.splitOnP isSpace).filter (· ≠ []) with
      | nil => simp
      | cons w ws =>
        have hw : w ≠ [] := by
          have hmem : w ∈ (s.splitOnP isSpace).filter (· ≠ []) := by
            rw [hwords]
            exact List.mem_cons_self ..
          simpa using List.of_mem_filter hmem
        have hjoined : [' '].intercalate (w :: ws) ≠ [] := intercalate_cons_ne_nil hw
        rw [List.intercalate_cons_cons]
        simp [hd, hjoined]
    · obtain ⟨w, ws, hsplit⟩ := List.exists_cons_of_ne_nil (List.splitOnP_ne_nil isSpace s)
      rw [if_neg hd, hsplit, List.modifyHead_cons, List.modifyHead_cons,
        List.filter_cons_of_pos (by simp), List.filter_cons_of_pos (by simp)]
      cases ws.filter (· ≠ []) with
      | nil => simp [hd]
      | cons v vs => simp [hd, List.intercalate_cons_cons]

theorem mem_joinWords {d : Char} (h : d ∈ joinWords s) : d ∈ s ∨ d = ' ' := by
  induction s with
  | nil => cases h
  | cons c s ih =>
    cases hc : isSpace c with
    | true =>
      rw [joinWords_cons_of_space hc] at h
      exact (ih h).imp_left (List.mem_cons_of_mem c)
    | false =>
      rw [joinWords_cons hc, List.mem_cons, List.mem_append] at h
      rcases h with rfl | hgap | hrest
      · exact .inl (List.mem_cons_self ..)
      · split_ifs at hgap
        · exact .inr (List.mem_singleton.mp hgap)
        · cases hgap
      · exact (ih hrest).imp_left (List.mem_cons_of_mem c)

theorem joinWords_eq_nil : joinWords s = [] ↔ ∀ c ∈ s, isSpace c = true := by
  induction s with
  | nil => simp
  | cons c s ih =>
    rw [List.forall_mem_cons, ← ih]
    cases hc : isSpace c with
    | true => simp [joinWords_cons_of_space hc]
    | false => simp [joinWords_cons hc]

theorem joinWords_of_spaces (h : ∀ c ∈ s, isSpace c = true) : joinWords s = [] :=
  joinWords_eq_nil.mpr h

/-- What stands between the words of two texts that are put together. -/
def wordGap (a b : Text) : Text :=
  if (a.getLast?.any isSpace || b.head?.any isSpace) && joinWords a ≠ [] && joinWords b ≠ [] then
    [' ']
  else []

theorem wordGap_eq (a b : Text) : wordGap a b = [] ∨ wordGap a b = [' '] := by
  unfold wordGap
  split_ifs
  · exact .inr rfl
  · exact .inl rfl

theorem getLast?_any_of_spaces (h : ∀ c ∈ s, isSpace c = true) (hs : s ≠ []) :
    s.getLast?.any isSpace = true := by
  rw [List.getLast?_eq_some_getLast hs, Option.any_some]
  exact h _ (List.getLast_mem hs)

theorem joinWords_append (a b : Text) :
    joinWords (a ++ b) = joinWords a ++ wordGap a b ++ joinWords b := by
  induction a with
  | nil => simp [wordGap]
  | cons c a ih =>
    rw [List.cons_append]
    cases hc : isSpace c with
    | true =>
      have hgap : wordGap (c :: a) b = wordGap a b := by
        unfold wordGap
        rw [joinWords_cons_of_space hc]
        cases a with
        | nil => simp
        | cons d a => rw [List.getLast?_cons_cons]
      rw [joinWords_cons_of_space hc, joinWords_cons_of_space hc, hgap, ih]
    | false =>
      rw [joinWords_cons hc, joinWords_cons hc, ih]
      cases a with
      | nil =>
        unfold wordGap
        rw [joinWords_cons hc]
        simp [hc]
      | cons d a =>
        have hlast : (c :: d :: a).getLast? = (d :: a).getLast? := List.getLast?_cons_cons
        by_cases hblank : joinWords (d :: a) = []
        · have hspaces := joinWords_eq_nil.mp hblank
          have hd : isSpace d = true := hspaces d (List.mem_cons_self ..)
          have hany := getLast?_any_of_spaces hspaces (List.cons_ne_nil d a)
          unfold wordGap
          rw [hlast, joinWords_cons hc, hblank, hany]
          simp [hd]
        · unfold wordGap
          rw [hlast, joinWords_cons hc]
          simp [hblank]

end Recursion

section Edges
variable {a b sp s : Text}

theorem joinWords_spaces_append (h : ∀ c ∈ sp, isSpace c = true) :
    joinWords (sp ++ s) = joinWords s := by
  rw [joinWords_append, joinWords_of_spaces h]
  simp [wordGap, joinWords_of_spaces h]

theorem joinWords_append_spaces (h : ∀ c ∈ sp, isSpace c = true) :
    joinWords (s ++ sp) = joinWords s := by
  rw [joinWords_append, joinWords_of_spaces h]
  simp [wordGap, joinWords_of_spaces h]

theorem wordGap_of_space (hspace : a.getLast?.any isSpace = true ∨ b.head?.any isSpace = true)
    (ha : joinWords a ≠ []) (hb : joinWords b ≠ []) : wordGap a b = [' '] := by
  unfold wordGap
  rw [if_pos]
  simpa [ha, hb] using hspace

end Edges

section Strip
variable {a b s t : Text} {c : Char}

theorem strip_split (s : Text) : ∃ a b, s = a ++ stripSpace s ++ b ∧
    (∀ c ∈ a, isSpace c = true) ∧ ∀ c ∈ b, isSpace c = true := by
  refine ⟨s.takeWhile isSpace, (s.dropWhile isSpace).rtakeWhile isSpace, ?_, ?_, ?_⟩
  · unfold stripSpace
    rw [List.append_assoc, List.rdropWhile_append_rtakeWhile, List.takeWhile_append_dropWhile]
  · exact fun c hc => List.mem_takeWhile_imp hc
  · exact fun c hc => List.mem_rtakeWhile_imp hc

theorem stripSpace_eq_nil : stripSpace s = [] ↔ ∀ c ∈ s, isSpace c = true := by
  constructor
  · intro h
    obtain ⟨a, b, heq, ha, hb⟩ := strip_split s
    rw [heq, h, List.append_nil, List.forall_mem_append]
    exact ⟨ha, hb⟩
  · intro h
    unfold stripSpace
    rw [List.dropWhile_eq_nil_iff.mpr h, List.rdropWhile_nil]

theorem joinWords_stripSpace (s : Text) : joinWords (stripSpace s) = joinWords s := by
  obtain ⟨a, b, heq, ha, hb⟩ := strip_split s
  conv_rhs => rw [heq]
  rw [joinWords_append_spaces hb, joinWords_spaces_append ha]

theorem stripSpace_head (h : stripSpace s = c :: t) : isSpace c = false := by
  have hsuffix : stripSpace s <+: s.dropWhile isSpace := List.rdropWhile_prefix _ _
  rw [h] at hsuffix
  obtain ⟨u, hu⟩ := hsuffix
  have hhead := List.head?_dropWhile_not isSpace s
  rw [← hu] at hhead
  simpa using hhead

theorem rdropWhile_append (p : Char → Bool) (s t : Text) : (s ++ t).rdropWhile p =
    if t.rdropWhile p = [] then s.rdropWhile p else s ++ t.rdropWhile p := by
  induction t using List.reverseRecOn with
  | nil => simp
  | append_singleton t c ih =>
    rw [← List.append_assoc, List.rdropWhile_concat, List.rdropWhile_concat]
    by_cases hc : p c = true
    · rw [if_pos hc, if_pos hc, ih]
    · rw [if_neg hc, if_neg hc, if_neg (by simp), List.append_assoc]

theorem rdropWhile_stripSpace (s : Text) :
    (stripSpace s).rdropWhile isSpace = stripSpace s := List.rdropWhile_idempotent _ _

theorem stripSpace_append_cons (hs : stripSpace s ≠ []) (c : Char) (t : Text) :
    stripSpace (s ++ c :: t) = stripSpace s ∨ ∃ sp u, (∀ d ∈ sp, isSpace d = true) ∧ u <+: t ∧
      stripSpace (s ++ c :: t) = stripSpace s ++ (sp ++ c :: u) := by
  obtain ⟨a, b, heq, ha, hb⟩ := strip_split s
  obtain ⟨d, w, hd⟩ := List.exists_cons_of_ne_nil hs
  have hdrop : stripSpace (s ++ c :: t) =
      (stripSpace s ++ (b ++ c :: t)).rdropWhile isSpace := by
    conv_lhs => rw [heq]
    unfold stripSpace at hd ⊢
    rw [hd, List.append_assoc, List.append_assoc, List.dropWhile_append_of_pos ha,
      List.cons_append, List.dropWhile_cons_of_neg (by simp [stripSpace_head hd])]
  rw [hdrop, rdropWhile_append, rdropWhile_append]
  by_cases hrest : (c :: t).rdropWhile isSpace = []
  · left
    rw [if_pos hrest, if_pos (List.rdropWhile_eq_nil_iff.mpr hb), rdropWhile_stripSpace]
  · right
    have hsuffix : (c :: t).rdropWhile isSpace <+: c :: t := List.rdropWhile_prefix _ _
    obtain ⟨e, u, hu⟩ := List.exists_cons_of_ne_nil hrest
    obtain ⟨v, hv⟩ := hsuffix
    rw [hu] at hv
    obtain ⟨rfl, hfront⟩ := List.cons.inj hv
    refine ⟨b, u, hb, ⟨v, hfront⟩, ?_⟩
    rw [if_neg hrest, hu, if_neg (by simp)]

theorem stripSpace_append (s : Text) (ht : stripSpace t ≠ []) :
    ∃ sp, (∀ d ∈ sp, isSpace d = true) ∧
      stripSpace (s ++ t) = (s ++ sp).dropWhile isSpace ++ stripSpace t := by
  obtain ⟨a, b, heq, ha, hb⟩ := strip_split t
  obtain ⟨d, w, hd⟩ := List.exists_cons_of_ne_nil ht
  have hcons : (stripSpace t ++ b).dropWhile isSpace = stripSpace t ++ b := by
    rw [hd, List.cons_append, List.dropWhile_cons_of_neg (by simp [stripSpace_head hd])]
  have hdrop : (s ++ t).dropWhile isSpace =
      (s ++ a).dropWhile isSpace ++ (stripSpace t ++ b) := by
    conv_lhs => rw [heq, ← List.append_assoc, ← List.append_assoc, List.append_assoc (s ++ a)]
    rw [List.dropWhile_append, hcons]
    split_ifs with hempty
    · rw [List.isEmpty_iff.mp hempty, List.nil_append]
    · rfl
  refine ⟨a, ha, ?_⟩
  rw [stripSpace, hdrop, ← List.append_assoc, rdropWhile_append _ _ b,
    if_pos (List.rdropWhile_eq_nil_iff.mpr hb), rdropWhile_append, rdropWhile_stripSpace, if_neg ht]

end Strip

end DeerFlow
