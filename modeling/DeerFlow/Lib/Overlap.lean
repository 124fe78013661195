import DeerFlow.Lib.Scan

/-! What replacing a word by a marker can leave of another word. A word that cannot be laid over
the marker is found only in characters that were kept, so it was in the text before. -/

namespace DeerFlow.Scan

/-- From some point on one of the words is read where the other one starts. -/
def Meets {α : Type*} (u v : List α) : Prop := ∃ w ≠ [], w <:+ u ∧ (w <+: v ∨ v <+: w)

/-- Two words can share a place in a text. -/
def Overlaps {α : Type*} (u v : List α) : Prop := Meets u v ∨ Meets v u

section Stretches
variable {α : Type*}

def Covered (words : List (List α)) (text : List α) (k : Nat) : Prop :=
  ∃ v ∈ words, ∃ p ≤ k, k < p + v.length ∧ v <+: text.drop p

/-- From `i` to `j` the text is covered, and no place next to it is. -/
structure Stretch (words : List (List α)) (text : List α) (i j : Nat) : Prop where
  lt : i < j
  covered : ∀ k, i ≤ k → k < j → Covered words text k
  starts : ∀ k, k + 1 = i → ¬ Covered words text k
  ends : ¬ Covered words text j

def slice (text : List α) (i j : Nat) : List α := (text.drop i).take (j - i)

theorem Stretch.occurrence {words : List (List α)} {text : List α} {i j : Nat}
    (h : Stretch words text i j) : ∃ v ∈ words, v <:+: slice text i j := by
  obtain ⟨v, hv, p, hp, hlt, hat⟩ := h.covered i (Nat.le_refl i) h.lt
  have hstart : p = i := by
    by_contra hne
    exact h.starts (i - 1) (by omega) ⟨v, hv, p, by omega, by omega, hat⟩
  subst hstart
  have hend : v.length ≤ j - p := by
    have hle : p + v.length ≤ j := by
      by_contra hlong
      exact h.ends ⟨v, hv, p, Nat.le_of_lt h.lt, by omega, hat⟩
    omega
  exact ⟨v, hv, (List.prefix_take_iff.mpr ⟨hat, hend⟩).isInfix⟩

end Stretches

def word (old : Text) : Pattern := fun s => if old.isPrefixOf s then some old else none

/-- The text of a piece when matches are replaced by the marker. -/
def Piece.marked (marker : Text) : Piece → Text
  | char c => [c]
  | hit _ => marker

/-- `text.replace(old, marker)` for a word that is not empty. -/
def mark (old marker text : Text) : Text := (scan (word old) text).flatMap (Piece.marked marker)

theorem overlaps_of_occurs {α : Type*} {u v : List α} (hu : u ≠ []) (h : u <:+: v) :
    Overlaps u v := by
  obtain ⟨s, t, rfl⟩ := h
  refine .inr ⟨u ++ t, ?_, ?_, .inr (List.prefix_append u t)⟩
  · simp [hu]
  · rw [List.append_assoc]
    exact List.suffix_append s (u ++ t)

section Kept
variable {u marker : Text} {ps : List Piece}

/-- What is read from a point in the word on reaches no marker. -/
theorem kept_ahead (hu : ¬ Overlaps u marker) {w : Text} (hw : w <:+ u)
    (h : w <+: ps.flatMap (Piece.marked marker)) : ∃ rest, ps = w.map .char ++ rest := by
  induction ps generalizing w with
  | nil =>
    have hnil : w = [] := List.prefix_nil.mp h
    exact ⟨[], by rw [hnil]; rfl⟩
  | cons p ps ih =>
    by_cases hne : w = []
    · exact ⟨p :: ps, by rw [hne]; rfl⟩
    cases p with
    | hit t =>
      have hmarker : marker <+: marker ++ ps.flatMap (Piece.marked marker) :=
        List.prefix_append _ _
      exact absurd (.inl ⟨w, hne, hw, List.prefix_or_prefix_of_prefix h hmarker⟩) hu
    | char c =>
      obtain ⟨d, w, rfl⟩ := List.exists_cons_of_ne_nil hne
      have hcons : d :: w <+: c :: ps.flatMap (Piece.marked marker) := h
      obtain ⟨rfl, hrest⟩ := List.cons_prefix_cons.mp hcons
      have hw' : w <:+ u := (List.suffix_cons d w).trans hw
      obtain ⟨rest, rfl⟩ := ih hw' hrest
      exact ⟨rest, rfl⟩

/-- The word occurs only where its characters were kept. -/
theorem kept_where_occurs (hu : ¬ Overlaps u marker) (hne : u ≠ [])
    (h : u <:+: ps.flatMap (Piece.marked marker)) :
    ∃ before after, ps = before ++ (u.map .char ++ after) := by
  induction ps with
  | nil => exact absurd (List.infix_nil.mp h) hne
  | cons p ps ih =>
    have hlater : u <:+: ps.flatMap (Piece.marked marker) →
        ∃ before after, p :: ps = before ++ (u.map .char ++ after) := by
      intro h
      obtain ⟨before, after, rfl⟩ := ih h
      exact ⟨p :: before, after, rfl⟩
    cases p with
    | char c =>
      rcases List.infix_cons_iff.mp h with hhere | hrest
      · have hhere : u <+: (.char c :: ps).flatMap (Piece.marked marker) := hhere
        obtain ⟨after, hkept⟩ := kept_ahead hu (List.suffix_refl u) hhere
        exact ⟨[], after, hkept⟩
      · exact hlater hrest
    | hit t =>
      rcases List.infix_append_iff.mp h with hin | hrest | ⟨l, r, rfl, hl, hr⟩
      · exact absurd (overlaps_of_occurs hne hin) hu
      · exact hlater hrest
      · by_cases hnil : l = []
        · subst hnil
          exact hlater hr.isInfix
        · -- the word starts inside the marker
          have hmeets : Meets marker (l ++ r) := ⟨l, hnil, hl, .inl (List.prefix_append l r)⟩
          exact absurd (.inr hmeets) hu

end Kept

section Marking
variable {old marker text : Text}

theorem lawful_word (old : Text) : (word old).Lawful := by
  intro s t h
  obtain ⟨hstart, he⟩ := Option.ite_none_right_eq_some.mp h
  cases he
  exact List.isPrefixOf_iff_prefix.mp hstart

theorem word_append (old rest : Text) : word old (old ++ rest) = some old := by
  rw [word, if_pos]
  exact List.isPrefixOf_iff_prefix.mpr (List.prefix_append old rest)

theorem reads_scanFrom {find : Pattern} (hfind : find.Lawful) (hne : ∀ s, find s ≠ some [])
    (skip : Nat) (s : Text) : Reads find (scanFrom find skip s) := by
  induction s generalizing skip with
  | nil => exact trivial
  | cons c s ih =>
    cases skip with
    | succ skip => exact ih skip
    | zero =>
      rw [scanFrom]
      split
      · next d t hhit =>
        obtain ⟨rest, hrest⟩ := hfind _ _ hhit
        obtain ⟨rfl, hs⟩ := List.cons.inj hrest
        have htail : render (scanFrom find t.length s) = rest := by
          rw [render_scanFrom hfind, ← hs]
          exact List.drop_left
        refine ⟨List.cons_ne_nil _ _, ?_, ih t.length⟩
        rw [htail, hrest]
        exact hhit
      · next hempty => exact absurd hempty (hne _)
      · next hnone =>
        refine ⟨?_, ih 0⟩
        have htail : render (scanFrom find 0 s) = s := render_scan hfind s
        rw [htail]
        exact hnone

theorem reads_word (hold : old ≠ []) (text : Text) : Reads (word old) (scan (word old) text) := by
  refine reads_scanFrom (lawful_word old) (fun s h => ?_) 0 text
  obtain ⟨-, hnil⟩ := Option.ite_none_right_eq_some.mp h
  exact hold (Option.some.inj hnil)

theorem render_append (ps qs : List Piece) : render (ps ++ qs) = render ps ++ render qs :=
  List.flatMap_append

theorem render_char (t : Text) : render (t.map .char) = t := by
  induction t with
  | nil => rfl
  | cons c t ih => exact congrArg (c :: ·) ih

/-- No occurrence of the word is kept. -/
theorem not_reads_kept (hold : old ≠ []) (before after : List Piece) :
    ¬ Reads (word old) (before ++ (old.map .char ++ after)) := by
  intro h
  induction before with
  | nil =>
    obtain ⟨c, rest, rfl⟩ := List.exists_cons_of_ne_nil hold
    obtain ⟨hnone, -⟩ := h
    have htext : render (rest.map .char ++ after) = rest ++ render after := by
      rw [render_append, render_char]
    have hhit : word (c :: rest) (c :: render (rest.map .char ++ after)) = some (c :: rest) := by
      rw [htext]
      exact word_append (c :: rest) (render after)
    exact Option.some_ne_none _ (hhit.symm.trans hnone)
  | cons p before ih =>
    cases p with
    | char c => exact ih h.2
    | hit t => exact ih h.2.2

theorem absent_from_mark (hold : old ≠ []) (h : ¬ Overlaps old marker) :
    ¬ old <:+: mark old marker text := by
  intro hin
  obtain ⟨before, after, hkept⟩ := kept_where_occurs h hold hin
  have hreads := reads_word hold text
  rw [hkept] at hreads
  exact not_reads_kept hold before after hreads

/-- A word that cannot be laid over the marker is not made by replacing another one. -/
theorem infix_of_mark {u : Text} (hu : u ≠ []) (h : ¬ Overlaps u marker)
    (hin : u <:+: mark old marker text) : u <:+: text := by
  obtain ⟨before, after, hkept⟩ := kept_where_occurs h hu hin
  have hrender := render_scan (lawful_word old) text
  rw [hkept, render_append, render_append, render_char] at hrender
  exact ⟨render before, render after, by rw [List.append_assoc, hrender]⟩

/-- Either nothing is replaced or the marker is in the outcome. -/
theorem mark_cases (old marker text : Text) :
    (∃ kept : Text, scan (word old) text = kept.map .char) ∨ marker <:+: mark old marker text := by
  unfold mark
  generalize scan (word old) text = ps
  induction ps with
  | nil => exact .inl ⟨[], rfl⟩
  | cons p ps ih =>
    cases p with
    | hit t => exact .inr (List.prefix_append marker _).isInfix
    | char c =>
      rcases ih with ⟨kept, rfl⟩ | hin
      · exact .inl ⟨c :: kept, rfl⟩
      · exact .inr (List.infix_cons hin)

theorem marker_occurs (hold : old ≠ []) (h : old <:+: text) : marker <:+: mark old marker text := by
  rcases mark_cases old marker text with ⟨kept, hkept⟩ | hin
  · have hrender := render_scan (lawful_word old) text
    rw [hkept, render_char] at hrender
    subst hrender
    obtain ⟨before, after, rfl⟩ := h
    have hreads := reads_word hold (before ++ old ++ after)
    rw [hkept, List.map_append, List.map_append, List.append_assoc] at hreads
    exact absurd hreads (not_reads_kept hold _ _)
  · exact hin

theorem mark_of_absent (h : ¬ old <:+: text) : mark old marker text = text := by
  have hkept : ∀ p ∈ scan (word old) text, p.marked marker = p.text := by
    intro p hp
    cases p with
    | char c => rfl
    | hit t =>
      obtain ⟨rest, hrest⟩ := hit_of_mem_scanFrom hp
      obtain ⟨-, he⟩ := Option.ite_none_right_eq_some.mp hrest
      obtain ⟨before, after, hsplit⟩ := List.append_of_mem hp
      have hrender := render_scan (lawful_word old) text
      rw [hsplit, render_append] at hrender
      refine absurd ⟨render before, render after, ?_⟩ h
      rw [← hrender, Option.some.inj he, List.append_assoc]
      rfl
  have hrender := render_scan (lawful_word old) text
  rw [mark]
  exact (List.flatMap_congr hkept).trans hrender

end Marking

end DeerFlow.Scan
