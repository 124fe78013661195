import DeerFlow.Lib.Overlap
import DeerFlow.Lib.Scan

/-! Replacing the matches of a pattern so that none is left. A replacement in which no match can
start, and which stops what could run into the match it replaces, makes no new match. -/

namespace DeerFlow.Scan

/-- The text of a piece when a match is replaced. -/
def Piece.replaced (f : Text → Text) : Piece → Text
  | char c => [c]
  | hit t => f t

theorem subst_eq (find : Pattern) (f : Text → Text) (s : Text) :
    subst find f s = (scan find s).flatMap (Piece.replaced f) := by
  unfold subst
  apply List.flatMap_congr
  intro p _
  cases p with
  | char c | hit t => rfl

/-- The pattern starts a match nowhere in the text. -/
def Absent (find : Pattern) (s : Text) : Prop := ∀ u, u <:+ s → u ≠ [] → find u = none

section Absent
variable {find : Pattern} {s : Text}

theorem Absent.of_suffix {t : Text} (h : Absent find s) (ht : t <:+ s) : Absent find t :=
  fun u hu => h u (hu.trans ht)

theorem subst_of_absent (h : Absent find s) (f : Text → Text) : subst find f s = s := by
  induction s with
  | nil => rfl
  | cons c s ih =>
    have hnone : find (c :: s) = none := h _ List.suffix_rfl (List.cons_ne_nil c s)
    have hscan : scan find (c :: s) = .char c :: scan find s := by
      rw [scan, scanFrom, hnone]
      rfl
    have hrest := ih (h.of_suffix (List.suffix_cons c s))
    rw [subst_eq] at hrest ⊢
    rw [hscan]
    exact congrArg (c :: ·) hrest

theorem absent_cons {c : Char} : Absent find (c :: s) ↔ find (c :: s) = none ∧ Absent find s := by
  constructor
  · intro h
    exact ⟨h _ List.suffix_rfl (List.cons_ne_nil c s), h.of_suffix (List.suffix_cons c s)⟩
  · rintro ⟨hhere, hrest⟩ u hu hne
    rcases List.suffix_cons_iff.mp hu with rfl | hu
    · exact hhere
    · exact hrest u hu hne

theorem absent_append {t : Text} : Absent find (s ++ t) ↔
    (∀ u, u <:+ s → u ≠ [] → find (u ++ t) = none) ∧ Absent find t := by
  induction s with
  | nil =>
    refine ⟨fun h => ⟨fun u hu hne => absurd (List.suffix_nil.mp hu) hne, h⟩, fun h => h.2⟩
  | cons c s ih =>
    rw [List.cons_append, absent_cons, ih]
    constructor
    · rintro ⟨hhere, hrest, ht⟩
      refine ⟨fun u hu hne => ?_, ht⟩
      rcases List.suffix_cons_iff.mp hu with rfl | hu
      · exact hhere
      · exact hrest u hu hne
    · rintro ⟨hall, ht⟩
      exact ⟨hall _ List.suffix_rfl (List.cons_ne_nil c s),
        fun u hu hne => hall u (hu.trans (List.suffix_cons c s)) hne, ht⟩

end Absent

/-- A match that has begun gets no further with the second character than with the first. -/
def Stops (find : Pattern) (c d : Char) : Prop :=
  ∀ u x y, u ≠ [] → find (u ++ c :: x) = none → find (u ++ d :: y) = none

section Substitution
variable {find other : Pattern} {f : Text → Text}

/-- Where a match of the one pattern is replaced, no match of the other one begins or goes on. -/
structure Breaks (other : Pattern) (f : Text → Text) (t : Text) : Prop where
  stops : ∃ c x d y, t = c :: x ∧ f t = d :: y ∧ Stops other c d
  inside : ∀ u y, u <:+ f t → u ≠ [] → other (u ++ y) = none

/-- What was kept in front of the first replacement starts a match only if it did so before. -/
theorem none_replaced {ps : List Piece} (hhits : ∀ t, .hit t ∈ ps → Breaks other f t) {u : Text}
    (hu : u ≠ []) (h : other (u ++ render ps) = none) :
    other (u ++ ps.flatMap (Piece.replaced f)) = none := by
  induction ps generalizing u with
  | nil => exact h
  | cons p ps ih =>
    cases p with
    | char c =>
      have hrest := ih (fun t ht => hhits t (List.mem_cons_of_mem _ ht)) (u := u ++ [c]) (by simp)
        (by rw [List.append_assoc]; exact h)
      rw [List.append_assoc] at hrest
      exact hrest
    | hit t =>
      obtain ⟨c, x, d, y, ht, hft, hstops⟩ := (hhits t (List.mem_cons_self ..)).stops
      have htext : render (.hit t :: ps) = c :: (x ++ render ps) := by
        change t ++ render ps = _
        rw [ht]
        rfl
      have hout : (Piece.hit t :: ps).flatMap (Piece.replaced f) =
          d :: (y ++ ps.flatMap (Piece.replaced f)) := by
        change f t ++ _ = _
        rw [hft]
        rfl
      rw [htext] at h
      rw [hout]
      exact hstops u _ _ hu h

/-- The characters that a scan keeps start no match of the other pattern. -/
def KeptFree (other : Pattern) : List Piece → Prop
  | [] => True
  | .char c :: ps => other (c :: render ps) = none ∧ KeptFree other ps
  | .hit _ :: ps => KeptFree other ps

theorem KeptFree.of_reads {ps : List Piece} (h : Reads find ps) : KeptFree find ps := by
  induction ps with
  | nil => trivial
  | cons p ps ih =>
    cases p with
    | char c => exact ⟨h.1, ih h.2⟩
    | hit t => exact ih h.2.2

theorem KeptFree.of_absent {ps : List Piece} (h : Absent other (render ps)) :
    KeptFree other ps := by
  induction ps with
  | nil => trivial
  | cons p ps ih =>
    cases p with
    | char c =>
      obtain ⟨hhere, hrest⟩ := absent_cons.mp h
      exact ⟨hhere, ih hrest⟩
    | hit t => exact ih (h.of_suffix (List.suffix_append t (render ps)))

theorem absent_replaced {ps : List Piece} (hkept : KeptFree other ps)
    (hhits : ∀ t, .hit t ∈ ps → Breaks other f t) :
    Absent other (ps.flatMap (Piece.replaced f)) := by
  induction ps with
  | nil =>
    intro u hu hne
    exact absurd (List.suffix_nil.mp hu) hne
  | cons p ps ih =>
    have hrest : ∀ t, .hit t ∈ ps → Breaks other f t :=
      fun t ht => hhits t (List.mem_cons_of_mem _ ht)
    cases p with
    | char c =>
      refine absent_cons.mpr ⟨?_, ih hkept.2 hrest⟩
      exact none_replaced hrest (u := [c]) (List.cons_ne_nil c []) hkept.1
    | hit t =>
      refine absent_append.mpr ⟨fun u hu hne => ?_, ih hkept hrest⟩
      exact (hhits t (List.mem_cons_self ..)).inside u _ hu hne

/-- No match is left when the replacements break the pattern itself. -/
theorem absent_subst (hfind : find.Lawful) (hne : ∀ s, find s ≠ some [])
    (hbreaks : ∀ s t, find s = some t → Breaks find f t) (s : Text) :
    Absent find (subst find f s) := by
  rw [subst_eq]
  apply absent_replaced (KeptFree.of_reads (reads_scanFrom hfind hne 0 s))
  intro t ht
  obtain ⟨rest, hrest⟩ := hit_of_mem_scanFrom ht
  exact hbreaks rest t hrest

/-- Replacing the matches of one pattern makes no match of another. -/
theorem Absent.subst {s : Text} (h : Absent other s) (hfind : find.Lawful)
    (hbreaks : ∀ s t, find s = some t → Breaks other f t) :
    Absent other (Scan.subst find f s) := by
  rw [subst_eq]
  apply absent_replaced
  · apply KeptFree.of_absent
    rw [render_scan hfind]
    exact h
  · intro t ht
    obtain ⟨rest, hrest⟩ := hit_of_mem_scanFrom ht
    exact hbreaks rest t hrest

end Substitution

end DeerFlow.Scan
