import DeerFlow.Middlewares.ShellSegments

/-! What is found in a segment of a command is found in the command, and what is of medium risk in
a command is found in one of its segments. Neither holds of a pattern that is anchored. -/

namespace DeerFlow.Middlewares.ShellAudit
open Regex

section Patterns

/-- Of a word: no space, no operator, no backslash. -/
def Sound (c : Char) : Prop := isSpace c = false ∧ c ≠ ';' ∧ c ≠ '&' ∧ c ≠ '|' ∧ c ≠ '\\'

instance : DecidablePred Sound := fun _ => inferInstanceAs (Decidable (_ ∧ _))

def NoOperator (c : Char) : Prop := c ≠ ';' ∧ c ≠ '&' ∧ c ≠ '|'

instance : DecidablePred NoOperator := fun _ => inferInstanceAs (Decidable (_ ∧ _))

theorem not_sound_of_isSpace {c : Char} (hc : isSpace c = true) : ¬Sound c := by
  rintro ⟨hsound, -⟩
  rw [hc] at hsound
  cases hsound

theorem noOperator_of_isSpace {c : Char} (hc : isSpace c = true) : NoOperator c := by
  refine ⟨?_, ?_, ?_⟩ <;>
  · rintro rfl
    revert hc
    decide

theorem needs_of_highRisk : ∀ r ∈ highRiskPatterns, r.Needs Sound := by
  have hspace : (∀ c, isSpace c = true → Sound c) = False :=
    eq_false fun h => not_sound_of_isSpace rfl (h ' ' rfl)
  have hslash : (∀ c : Char, ¬c = '/' → Sound c) = False :=
    eq_false fun h => absurd (h ' ' (by decide)) (by decide)
  have hword : (∀ c, nonSpace c = true → Sound c) = False :=
    eq_false fun h => absurd (h ';' rfl) (by decide)
  simp [highRiskPatterns, removesRoot, otherHighRiskPatterns, Needs, seqs, alts, opt, plus,
    lit, Regex.lit, hspace, hslash, hword]
  simp +decide

theorem needs_of_mediumRisk : ∀ r ∈ mediumRiskPatterns, r.Needs Sound := by
  simp [mediumRiskPatterns, Needs, seqs, alts, opt, plus, lit, Regex.lit]
  simp +decide

theorem unanchored_of_highRisk : ∀ r ∈ otherHighRiskPatterns, r.Unanchored := by
  simp [otherHighRiskPatterns, Unanchored, seqs, alts, opt, plus, lit, Regex.lit]

theorem unanchored_of_mediumRisk : ∀ r ∈ mediumRiskPatterns, r.Unanchored := by
  simp [mediumRiskPatterns, Unanchored, seqs, alts, opt, plus, lit, Regex.lit]

theorem starts_of_mediumRisk : ∀ r ∈ mediumRiskPatterns, r.Starts Sound := by
  simp [mediumRiskPatterns, Starts, Silent, seqs, alts, opt, plus, lit, Regex.lit]
  decide

theorem ends_of_mediumRisk : ∀ r ∈ mediumRiskPatterns, r.Ends Sound := by
  simp [mediumRiskPatterns, Ends, Silent, seqs, alts, opt, plus, lit, Regex.lit]
  decide

theorem over_of_mediumRisk : ∀ r ∈ mediumRiskPatterns, r.Over NoOperator := by
  have hspace : (∀ c, isSpace c = true → NoOperator c) = True :=
    eq_true fun _ => noOperator_of_isSpace
  simp [mediumRiskPatterns, Over, seqs, alts, opt, plus, lit, Regex.lit, hspace]
  decide

end Patterns

section Operators
variable (W : WordClass) {op a b : Text}

/-- An operator that is no white space. -/
def IsOperator (op : Text) : Prop := IsSplit op ∨ op = ['|'] ∨ op = ['&']

theorem isWord_space : W.isWord ' ' = false := W.ascii ' ' (by decide)

/-- An operator ends what is before it, and nothing in it belongs to a word. -/
theorem IsOperator.eq_cons (hop : IsOperator op) : ∃ d u, op = d :: u ∧ ¬NoOperator d ∧
    W.isWord d = false ∧ (∀ c ∈ u, ¬Sound c ∧ W.isWord c = false) := by
  have hsemicolon : W.isWord ';' = false := W.ascii ';' (by decide)
  have hand : W.isWord '&' = false := W.ascii '&' (by decide)
  have hbar : W.isWord '|' = false := W.ascii '|' (by decide)
  rcases hop with (rfl | rfl | rfl) | rfl | rfl
  · exact ⟨';', [], rfl, by decide, hsemicolon, nofun⟩
  · exact ⟨'&', ['&'], rfl, by decide, hand, List.forall_mem_singleton.mpr ⟨by decide, hand⟩⟩
  · exact ⟨'|', ['|'], rfl, by decide, hbar, List.forall_mem_singleton.mpr ⟨by decide, hbar⟩⟩
  · exact ⟨'|', [], rfl, by decide, hbar, nofun⟩
  · exact ⟨'&', [], rfl, by decide, hand, nofun⟩

theorem IsOperator.joinWords (hop : IsOperator op) : joinWords op = op := by
  rcases hop with (rfl | rfl | rfl) | rfl | rfl <;> decide

/-- What stands between the words of two texts that an operator separates. -/
theorem joinWords_around (hop : IsOperator op) (a b : Text) : ∃ g d u,
    DeerFlow.joinWords (a ++ op ++ b) =
      (DeerFlow.joinWords a ++ g) ++ d :: (u ++ DeerFlow.joinWords b) ∧
    ¬NoOperator d ∧ (∀ c ∈ g, ¬Sound c) ∧ (∀ c ∈ u, ¬Sound c) ∧
    Breaks W.isWord (g ++ [d]).head? ∧ Breaks W.isWord (d :: u).getLast? := by
  obtain ⟨d, u, rfl, hd, hword, hu⟩ := hop.eq_cons W
  have hgap {x y : Text} : ∀ c ∈ wordGap x y, ¬Sound c ∧ W.isWord c = false := by
    rcases wordGap_eq x y with hgap | hgap
    · simp [hgap]
    · rw [hgap]
      exact List.forall_mem_singleton.mpr ⟨by decide, isWord_space W⟩
  refine ⟨wordGap a (d :: u), d, u ++ wordGap (a ++ d :: u) b, ?_, hd, fun c hc => (hgap c hc).1,
    ?_, ?_, ?_⟩
  · rw [joinWords_append, joinWords_append, hop.joinWords]
    simp
  · rw [List.forall_mem_append]
    exact ⟨fun c hc => (hu c hc).1, fun c hc => (hgap c hc).1⟩
  · rcases wordGap_eq a (d :: u) with hempty | hspace
    · rw [hempty]
      exact hword
    · rw [hspace]
      exact isWord_space W
  · have hall : ∀ c ∈ d :: (u ++ wordGap (a ++ d :: u) b), W.isWord c = false := by
      rw [List.forall_mem_cons, List.forall_mem_append]
      exact ⟨hword, fun c hc => (hu c hc).2, fun c hc => (hgap c hc).2⟩
    rw [List.getLast?_eq_some_getLast (List.cons_ne_nil _ _)]
    exact hall _ (List.getLast_mem _)

end Operators

section Woven
variable {W : WordClass} {r : Regex} {segments : List Text} {s t : Text}

/-- `x` ends `y`, and no word goes on before it. -/
def Trails (word : Char → Bool) (x y : Text) : Prop := ∃ l, y = l ++ x ∧ Breaks word l.getLast?

theorem Trails.inside {word : Char → Bool} {x y : Text} (h : Trails word x y) : Inside word x y := by
  obtain ⟨l, rfl, hl⟩ := h
  exact ⟨l, [], (List.append_nil _).symm, hl, rfl⟩

theorem Trails.found {word : Char → Bool} {x y : Text} (h : Trails word x y)
    (hx : r.Found word x) : r.Found word y := by
  obtain ⟨l, rfl, hl⟩ := h
  exact hx.append_left hl

theorem inside_before {op : Text} (hop : IsOperator op) (a b : Text) :
    Inside W.isWord (joinWords a) (joinWords (a ++ op ++ b)) := by
  obtain ⟨g, d, u, heq, -, -, -, hleft, -⟩ := joinWords_around W hop a b
  refine ⟨[], g ++ d :: (u ++ joinWords b), by rw [heq]; simp, rfl, ?_⟩
  cases g with
  | nil | cons c g => exact hleft

theorem trails_after {op : Text} (hop : IsOperator op) (a b : Text) :
    Trails W.isWord (joinWords b) (joinWords (a ++ op ++ b)) := by
  obtain ⟨g, d, u, heq, -, -, -, -, hright⟩ := joinWords_around W hop a b
  refine ⟨(joinWords a ++ g) ++ d :: u, by rw [heq]; simp, ?_⟩
  rwa [List.getLast?_append_of_ne_nil _ (List.cons_ne_nil d u)]

theorem Woven.inside (h : Woven segments t) (hs : s ∈ segments) :
    Inside W.isWord (joinWords s) (joinWords t) := by
  induction h with
  | last s' =>
    obtain rfl := List.mem_singleton.mp hs
    exact .refl _
  | cons s' hop _ ih =>
    rcases List.mem_cons.mp hs with rfl | hs
    · exact inside_before (.inl hop) _ _
    · exact (ih hs).trans (trails_after (.inl hop) _ _).inside

/-- What is of medium risk does not reach over an operator. -/
theorem Woven.exists_found (hr : r ∈ mediumRiskPatterns) (h : Woven segments t)
    (ht : r.Found W.isWord (joinWords t)) : ∃ s ∈ segments, r.Found W.isWord (joinWords s) := by
  induction h with
  | last s => exact ⟨s, List.mem_singleton_self s, ht⟩
  | cons s hop _ ih =>
    obtain ⟨g, d, u, heq, hd, hg, hu, hleft, hright⟩ := joinWords_around W (.inl hop) s _
    rw [heq] at ht
    rcases ht.of_between (unanchored_of_mediumRisk r hr) (over_of_mediumRisk r hr) hd
      (starts_of_mediumRisk r hr) hu (ends_of_mediumRisk r hr) hg hleft hright with hs | hrest
    · exact ⟨s, List.mem_cons_self .., hs⟩
    · obtain ⟨s', hs', hfound⟩ := ih hrest
      exact ⟨s', List.mem_cons_of_mem _ hs', hfound⟩

/-- A text whose segments are blank has operators and spaces only. -/
theorem Woven.blank (h : Woven segments t) (hblank : ∀ s ∈ segments, ∀ c ∈ s, isSpace c = true) :
    ∀ c ∈ t, ¬Sound c := by
  induction h with
  | last s => exact fun c hc => not_sound_of_isSpace (hblank s (List.mem_singleton_self s) c hc)
  | cons s hop _ ih =>
    rw [List.forall_mem_cons] at hblank
    rw [List.forall_mem_append, List.forall_mem_append]
    refine ⟨⟨fun c hc => not_sound_of_isSpace (hblank.1 c hc), ?_⟩, ih hblank.2⟩
    rcases hop with rfl | rfl | rfl <;> simp [Sound]

end Woven

end DeerFlow.Middlewares.ShellAudit
