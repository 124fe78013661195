import DeerFlow.Lib.Except
import DeerFlow.Lib.Json

/-! Replacing the matches of a pattern as `re.sub` does, from left to right and each from where
the one before it ended. A pattern says what it matches at the start of a text. -/

namespace DeerFlow.Scan

abbrev Pattern := Text → Option Text

inductive Piece where
  | char (c : Char)
  | hit (text : Text)
  deriving DecidableEq

def Piece.text : Piece → Text
  | char c => [c]
  | hit t => t

def render (ps : List Piece) : Text := ps.flatMap Piece.text

/-- The first characters may still belong to a match. An empty match is passed over. -/
def scanFrom (find : Pattern) : Nat → Text → List Piece
  | _, [] => []
  | skip + 1, _ :: s => scanFrom find skip s
  | 0, c :: s =>
    match find (c :: s) with
    | some (d :: t) => .hit (d :: t) :: scanFrom find t.length s
    | some [] | none => .char c :: scanFrom find 0 s

def scan (find : Pattern) (s : Text) : List Piece := scanFrom find 0 s

/-- What a pattern matches is there. -/
def Pattern.Lawful (find : Pattern) : Prop := ∀ s t, find s = some t → t <+: s

/-- The pieces are those that the scan of their text finds. -/
def Reads (find : Pattern) : List Piece → Prop
  | [] => True
  | .char c :: ps => find (c :: render ps) = none ∧ Reads find ps
  | .hit t :: ps => t ≠ [] ∧ find (t ++ render ps) = some t ∧ Reads find ps

instance (find : Pattern) (ps : List Piece) : Decidable (Reads find ps) := by
  induction ps with
  | nil => exact .isTrue trivial
  | cons p ps ih =>
    cases p with
    | char c => exact inferInstanceAs (Decidable (_ ∧ _))
    | hit t => exact inferInstanceAs (Decidable (_ ∧ _ ∧ _))

section Pieces
variable {find : Pattern}

theorem render_scanFrom (hfind : find.Lawful) (skip : Nat) (s : Text) :
    render (scanFrom find skip s) = s.drop skip := by
  induction s generalizing skip with
  | nil => rw [scanFrom, List.drop_nil]; rfl
  | cons c s ih =>
    cases skip with
    | succ skip => exact ih skip
    | zero =>
      rw [scanFrom]
      split
      · next d t hhit =>
        -- what is skipped after a hit is the rest of the hit
        obtain ⟨rest, hrest⟩ := hfind _ _ hhit
        obtain ⟨rfl, hs⟩ := List.cons.inj hrest
        have htail : render (scanFrom find t.length s) = rest := by
          rw [ih, ← hs]
          exact List.drop_left
        rw [← hrest]
        exact congrArg ((d :: t) ++ ·) htail
      all_goals exact congrArg (c :: ·) (ih 0)

theorem render_scan (hfind : find.Lawful) (s : Text) : render (scan find s) = s :=
  render_scanFrom hfind 0 s

theorem hit_of_mem_scanFrom {skip : Nat} {s t : Text} (h : .hit t ∈ scanFrom find skip s) :
    ∃ rest, find rest = some t := by
  induction s generalizing skip with
  | nil =>
    rw [scanFrom] at h
    cases h
  | cons c s ih =>
    cases skip with
    | succ skip => exact ih h
    | zero =>
      rw [scanFrom] at h
      split at h
      · next d u hhit =>
        rcases List.mem_cons.mp h with he | h
        · cases he
          exact ⟨c :: s, hhit⟩
        · exact ih h
      all_goals exact ih ((List.mem_cons.mp h).resolve_left fun he => by cases he)

theorem scanFrom_append (t s : Text) : scanFrom find t.length (t ++ s) = scan find s := by
  induction t with
  | nil => rfl
  | cons c t ih => exact ih

/-- A match that starts before a character which the pattern stops at ends before it. -/
theorem scanFrom_stop {d : Char} (hfind : find.Lawful) (hnothing : find [] = none)
    (hstop : ∀ x y, find (x ++ d :: y) = find x) (x y : Text) {skip : Nat}
    (hskip : skip ≤ x.length) :
    scanFrom find skip (x ++ d :: y) = scanFrom find skip x ++ .char d :: scan find y := by
  induction x generalizing skip with
  | nil =>
    obtain rfl := Nat.le_zero.mp hskip
    have hnone : find (d :: y) = none := (hstop [] y).trans hnothing
    rw [List.nil_append, scanFrom, scanFrom, hnone]
    rfl
  | cons c x ih =>
    cases skip with
    | succ skip => exact ih (Nat.le_of_succ_le_succ hskip)
    | zero =>
      have hcut : find (c :: (x ++ d :: y)) = find (c :: x) := hstop (c :: x) y
      rw [List.cons_append, scanFrom, scanFrom, hcut]
      split
      · next e t hhit =>
        have hlength := (hfind _ _ hhit).length_le
        rw [ih (Nat.le_of_succ_le_succ hlength)]
        rfl
      all_goals
        rw [ih (Nat.zero_le _)]
        rfl

theorem scan_render {ps : List Piece} (h : Reads find ps) : scan find (render ps) = ps := by
  induction ps with
  | nil => rfl
  | cons p ps ih =>
    cases p with
    | char c =>
      obtain ⟨hnone, hrest⟩ := h
      have htext : render (.char c :: ps) = c :: render ps := rfl
      rw [scan, htext, scanFrom, hnone]
      exact congrArg (Piece.char c :: ·) (ih hrest)
    | hit t =>
      obtain ⟨hne, hhit, hrest⟩ := h
      obtain ⟨d, t, rfl⟩ := List.exists_cons_of_ne_nil hne
      have htext : render (.hit (d :: t) :: ps) = d :: (t ++ render ps) := rfl
      rw [List.cons_append] at hhit
      rw [scan, htext, scanFrom, hhit]
      simp only
      rw [scanFrom_append, ih hrest]

end Pieces

section Substitution
variable {ε : Type}

/-- The replacement of a match may fail. -/
def Piece.replace (f : Text → Except ε Text) : Piece → Except ε Text
  | char c => .ok [c]
  | hit t => f t

def sub (find : Pattern) (f : Text → Except ε Text) (s : Text) : Except ε Text :=
  ((scan find s).mapM (Piece.replace f)).map List.flatten

/-- The replacement of a match does not fail. -/
def subst (find : Pattern) (f : Text → Text) (s : Text) : Text :=
  (scan find s).flatMap fun
    | .char c => [c]
    | .hit t => f t

theorem sub_ok (find : Pattern) (f : Text → Text) (s : Text) :
    sub find (fun t => (.ok (f t) : Except ε Text)) s = .ok (subst find f s) := by
  have hparts : ∀ ps : List Piece, ps.mapM (Piece.replace fun t => (.ok (f t) : Except ε Text)) =
      .ok (ps.map fun | .char c => [c] | .hit t => f t) := by
    intro ps
    induction ps with
    | nil => rfl
    | cons p ps ih =>
      rw [List.mapM_cons, ih]
      cases p with
      | char c | hit t => rfl
  unfold sub subst
  rw [hparts, List.flatMap_def]
  rfl

variable {find : Pattern} {f : Text → Except ε Text} {s out : Text}

theorem sub_eq_ok : sub find f s = .ok out ↔ ∃ parts,
    List.Forall₂ (fun p part => Piece.replace f p = .ok part) (scan find s) parts ∧
      parts.flatten = out := by
  unfold sub
  rw [map_eq_ok]
  exact exists_congr fun parts => and_congr_left fun _ => mapM_eq_ok

theorem mem_of_sub (hfind : find.Lawful) {c : Char} (h : sub find f s = .ok out) (hc : c ∈ out) :
    c ∈ s ∨ ∃ t u rest, find rest = some t ∧ t ⊆ s ∧ f t = .ok u ∧ c ∈ u := by
  obtain ⟨parts, hparts, rfl⟩ := sub_eq_ok.mp h
  obtain ⟨part, hpart, hc⟩ := List.mem_flatten.mp hc
  obtain ⟨p, hp, hrepl⟩ := exists_of_forall₂_right hparts hpart
  -- the pieces of the scan make up the text
  have hsub : p.text ⊆ s := by
    rw [← render_scan hfind s]
    exact fun d hd => List.mem_flatMap.mpr ⟨p, hp, hd⟩
  cases p with
  | char d =>
    cases hrepl
    exact .inl (hsub hc)
  | hit t =>
    obtain ⟨rest, hrest⟩ := hit_of_mem_scanFrom hp
    exact .inr ⟨t, part, rest, hrest, hsub, hrepl, hc⟩

/-- Replacing in a text whose pieces are known. -/
theorem sub_render {ps : List Piece} (h : Reads find ps) (g : Piece → Text)
    (hg : ∀ p ∈ ps, Piece.replace f p = .ok (g p)) : sub find f (render ps) = .ok (ps.flatMap g) := by
  refine sub_eq_ok.mpr ⟨ps.map g, ?_, rfl⟩
  rw [scan_render h, List.forall₂_map_right_iff]
  exact List.forall₂_same.mpr hg

end Substitution

end DeerFlow.Scan
