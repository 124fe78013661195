import DeerFlow.Middlewares.ShellAudit

/-! What stands between the operators of a command, and of two commands that an operator joins.
Where the operator does not run together with a character next to it, only the segments at the
seam change. -/

namespace DeerFlow.Middlewares.ShellAudit
open Regex

section Quoting
variable {q : Quotes} {s t : Text} {c : Char}

def Quotes.run (q : Quotes) (s : Text) : Quotes := s.foldl Quotes.step q

theorem Quotes.run_append (q : Quotes) (s t : Text) : q.run (s ++ t) = (q.run s).run t :=
  List.foldl_append

/-- No backslash and no quote. -/
def isPlain (c : Char) : Bool := c ≠ '\\' && c ≠ '\'' && c ≠ '"'

theorem closed_step (hc : isPlain c = true) : Quotes.closed.step c = .closed := by
  simp only [isPlain, Bool.and_eq_true, decide_eq_true_eq] at hc
  simp [Quotes.step, Quotes.closed, hc]

theorem closed_run (h : ∀ c ∈ s, isPlain c = true) : Quotes.closed.run s = .closed := by
  induction s with
  | nil => rfl
  | cons c s ih =>
    rw [List.forall_mem_cons] at h
    show (Quotes.closed.step c).run s = _
    rw [closed_step h.1]
    exact ih h.2

theorem isPlain_of_isSpace (hc : isSpace c = true) : isPlain c = true := by
  have hbackslash : isSpace '\\' = false := by decide
  have hsingle : isSpace '\'' = false := by decide
  have hdouble : isSpace '"' = false := by decide
  simp only [isPlain, Bool.and_eq_true, decide_eq_true_eq]
  refine ⟨⟨?_, ?_⟩, ?_⟩
  · rintro rfl
    simp [hbackslash] at hc
  · rintro rfl
    simp [hsingle] at hc
  · rintro rfl
    simp [hdouble] at hc

end Quoting

section Scanning
variable {q : Quotes} {skip : Bool} {current s x y : Text} {c : Char}

theorem scan_skip (q : Quotes) (current s : Text) (c : Char) :
    scanSegments q true current (c :: s) = scanSegments q false current s := by
  rw [scanSegments, if_pos rfl]

theorem scan_operator (hc : c = '&' ∨ c = '|') (hs : s.head? = some c) :
    scanSegments .closed false current (c :: s) =
      (current :: (scanSegments .closed true [] s).1, (scanSegments .closed true [] s).2) := by
  rw [scanSegments, if_neg (by simp), if_pos ⟨rfl, hc, hs⟩]

theorem scan_semicolon (current s : Text) :
    scanSegments .closed false current (';' :: s) =
      (current :: (scanSegments .closed false [] s).1, (scanSegments .closed false [] s).2) := by
  rw [scanSegments, if_neg (by simp), if_neg (by simp), if_pos ⟨rfl, rfl⟩]

theorem scan_other (hoperator : ¬(q = .closed ∧ (c = '&' ∨ c = '|') ∧ s.head? = some c))
    (hsemicolon : ¬(q = .closed ∧ c = ';')) :
    scanSegments q false current (c :: s) = scanSegments (q.step c) false (current ++ [c]) s := by
  rw [scanSegments, if_neg (by simp), if_neg hoperator, if_neg hsemicolon]

/-- What is skipped is the second character of an operator. -/
def Skips (q : Quotes) (skip : Bool) (s : Text) : Prop :=
  skip = true → q = .closed ∧ ∃ c t, s = c :: t ∧ (c = '&' ∨ c = '|')

theorem skips_false (q : Quotes) (s : Text) : Skips q false s := nofun

theorem skips_of_head (hc : c = '&' ∨ c = '|') (hs : s.head? = some c) : Skips .closed true s := by
  intro _
  cases s with
  | nil => cases hs
  | cons d t => exact ⟨rfl, c, t, by rw [Option.some.inj hs], hc⟩

theorem scan_induction {motive : Quotes → Bool → Text → Text → Prop}
    (nil : ∀ q skip current, motive q skip current [])
    (skip : ∀ current c s, (c = '&' ∨ c = '|') → motive .closed false current s →
      motive .closed true current (c :: s))
    (operator : ∀ current c s, (c = '&' ∨ c = '|') → motive .closed true [] (c :: s) →
      motive .closed false current (c :: c :: s))
    (semicolon : ∀ current s, motive .closed false [] s → motive .closed false current (';' :: s))
    (other : ∀ q current c s, ¬(q = .closed ∧ (c = '&' ∨ c = '|') ∧ s.head? = some c) →
      ¬(q = .closed ∧ c = ';') → motive (q.step c) false (current ++ [c]) s →
      motive q false current (c :: s))
    (q : Quotes) (skip' : Bool) (current s : Text) (h : Skips q skip' s) :
    motive q skip' current s := by
  induction s generalizing q skip' current with
  | nil => exact nil q skip' current
  | cons c s ih =>
    cases skip' with
    | true =>
      obtain ⟨rfl, d, t, heq, hd⟩ := h rfl
      obtain ⟨rfl, rfl⟩ := List.cons.inj heq
      exact skip current c s hd (ih .closed false current (skips_false _ _))
    | false =>
      by_cases hoperator : q = .closed ∧ (c = '&' ∨ c = '|') ∧ s.head? = some c
      · obtain ⟨rfl, hc, hs⟩ := hoperator
        have hskip := skips_of_head hc hs
        obtain ⟨d, t, rfl⟩ : ∃ d t, s = d :: t := by
          obtain ⟨-, d, t, heq, -⟩ := hskip rfl
          exact ⟨d, t, heq⟩
        obtain rfl := Option.some.inj hs
        exact operator current d t hc (ih .closed true [] hskip)
      · by_cases hsemicolon : q = .closed ∧ c = ';'
        · obtain ⟨rfl, rfl⟩ := hsemicolon
          exact semicolon current s (ih .closed false [] (skips_false _ _))
        · exact other q current c s hoperator hsemicolon
            (ih (q.step c) false (current ++ [c]) (skips_false _ _))

theorem isPlain_of_operator (hc : c = '&' ∨ c = '|') : isPlain c = true := by
  rcases hc with rfl | rfl <;> decide

theorem scan_quotes (h : Skips q skip s) : (scanSegments q skip current s).2 = q.run s := by
  refine scan_induction (motive := fun q skip current s =>
    (scanSegments q skip current s).2 = q.run s) ?_ ?_ ?_ ?_ ?_ q skip current s h
  · intro q skip current
    rfl
  · intro current c s hc ih
    rw [scan_skip, ih]
    show _ = (Quotes.closed.step c).run s
    rw [closed_step (isPlain_of_operator hc)]
  · intro current c s hc ih
    rw [scan_operator hc rfl]
    show _ = (Quotes.closed.step c).run (c :: s)
    rw [closed_step (isPlain_of_operator hc)]
    exact ih
  · intro current s ih
    rw [scan_semicolon]
    exact ih
  · intro q current c s hoperator hsemicolon ih
    rw [scan_other hoperator hsemicolon, ih]
    rfl

theorem scan_ne_nil (h : Skips q skip s) : (scanSegments q skip current s).1 ≠ [] := by
  refine scan_induction (motive := fun q skip current s =>
    (scanSegments q skip current s).1 ≠ []) ?_ ?_ ?_ ?_ ?_ q skip current s h
  · exact fun q skip current => List.cons_ne_nil current []
  · intro current c s _ ih
    rwa [scan_skip]
  · intro current c s hc _
    rw [scan_operator hc rfl]
    exact List.cons_ne_nil _ _
  · intro current s _
    rw [scan_semicolon]
    exact List.cons_ne_nil _ _
  · intro q current c s hoperator hsemicolon ih
    rwa [scan_other hoperator hsemicolon]

theorem scan_current (a : Text) (h : Skips q skip s) : (scanSegments q skip (a ++ current) s).1 =
    (scanSegments q skip current s).1.modifyHead (a ++ ·) := by
  refine scan_induction (motive := fun q skip current s =>
    (scanSegments q skip (a ++ current) s).1 = (scanSegments q skip current s).1.modifyHead (a ++ ·))
    ?_ ?_ ?_ ?_ ?_ q skip current s h
  · intro q skip current
    rfl
  · intro current c s _ ih
    rw [scan_skip, scan_skip, ih]
  · intro current c s hc _
    rw [scan_operator hc rfl, scan_operator hc rfl]
    rfl
  · intro current s _
    rw [scan_semicolon, scan_semicolon]
    rfl
  · intro q current c s hoperator hsemicolon ih
    rw [scan_other hoperator hsemicolon, scan_other hoperator hsemicolon, List.append_assoc, ih]

theorem quotes_run_singleton (q : Quotes) (s : Text) (c : Char) :
    q.run (s ++ [c]) = (q.run s).step c := Quotes.run_append q s [c]

/-- A segment leaves no quote open, unless the command does. -/
theorem scan_closed (h : Skips q skip s) (hcurrent : Quotes.closed.run current = q)
    (hs : q.run s = .closed) :
    ∀ t ∈ (scanSegments q skip current s).1, Quotes.closed.run t = .closed := by
  refine scan_induction (motive := fun q skip current s => Quotes.closed.run current = q →
    q.run s = .closed → ∀ t ∈ (scanSegments q skip current s).1, Quotes.closed.run t = .closed)
    ?_ ?_ ?_ ?_ ?_ q skip current s h hcurrent hs
  · intro q skip current hcurrent hs
    exact List.forall_mem_singleton.mpr (hcurrent.trans hs)
  · intro current c s hc ih hcurrent hs
    rw [scan_skip]
    replace hs : (Quotes.closed.step c).run s = .closed := hs
    rw [closed_step (isPlain_of_operator hc)] at hs
    exact ih hcurrent hs
  · intro current c s hc ih hcurrent hs
    rw [scan_operator hc rfl, List.forall_mem_cons]
    replace hs : (Quotes.closed.step c).run (c :: s) = .closed := hs
    rw [closed_step (isPlain_of_operator hc)] at hs
    exact ⟨hcurrent, ih rfl hs⟩
  · intro current s ih hcurrent hs
    rw [scan_semicolon, List.forall_mem_cons]
    exact ⟨hcurrent, ih rfl hs⟩
  · intro q current c s hoperator hsemicolon ih hcurrent hs
    rw [scan_other hoperator hsemicolon]
    exact ih (by rw [quotes_run_singleton, hcurrent]) hs

/-- The segments of two texts, of which the last and the first become one. -/
def glue (xs ys : List Text) : List Text := xs.dropLast ++ ys.modifyHead (xs.getLastD [] ++ ·)

theorem glue_cons {xs : List Text} (hxs : xs ≠ []) (current : Text) (ys : List Text) :
    glue (current :: xs) ys = current :: glue xs ys := by
  unfold glue
  obtain ⟨z, zs, rfl⟩ := List.exists_cons_of_ne_nil hxs
  rfl

/-- No operator of two characters stands across the seam. -/
def Seam (x y : Text) : Prop := ∀ c, x.getLast? = some c → c = '&' ∨ c = '|' → y.head? ≠ some c

theorem Seam.tail (h : Seam (c :: x) y) : Seam x y := by
  intro d hd
  refine h d ?_
  rw [List.getLast?_cons, hd, Option.getD_some]

theorem scan_append (h : Skips q skip x) (hx : skip = true → x ≠ []) (hseam : Seam x y) :
    (scanSegments q skip current (x ++ y)).1 =
      glue (scanSegments q skip current x).1 (scanSegments (q.run x) false [] y).1 := by
  refine scan_induction (motive := fun q skip current x => (skip = true → x ≠ []) → Seam x y →
    (scanSegments q skip current (x ++ y)).1 =
      glue (scanSegments q skip current x).1 (scanSegments (q.run x) false [] y).1)
    ?_ ?_ ?_ ?_ ?_ q skip current x h hx hseam
  · intro q skip current hx _
    obtain rfl : skip = false := by
      cases skip with
      | true => exact absurd rfl (hx rfl)
      | false => rfl
    have hcurrent : (scanSegments q false (current ++ []) y).1 = _ :=
      scan_current current (skips_false q y)
    rw [List.append_nil] at hcurrent
    exact hcurrent
  · intro current c x hc ih _ hseam
    rw [List.cons_append, scan_skip, scan_skip, ih nofun hseam.tail]
    show _ = glue _ (scanSegments ((Quotes.closed.step c).run x) false [] y).1
    rw [closed_step (isPlain_of_operator hc)]
  · intro current c x hc ih _ hseam
    have hskip : Skips .closed true (c :: x) := skips_of_head hc rfl
    rw [List.cons_append, List.cons_append, scan_operator hc rfl, scan_operator hc rfl,
      glue_cons (scan_ne_nil hskip)]
    refine congrArg (current :: ·) ((ih (fun _ => List.cons_ne_nil c x) hseam.tail).trans ?_)
    show glue _ (scanSegments (Quotes.closed.run (c :: x)) false [] y).1 =
      glue _ (scanSegments ((Quotes.closed.step c).run (c :: x)) false [] y).1
    rw [closed_step (isPlain_of_operator hc)]
  · intro current x ih _ hseam
    rw [List.cons_append, scan_semicolon, scan_semicolon,
      glue_cons (scan_ne_nil (skips_false _ _))]
    exact congrArg (current :: ·) (ih nofun hseam.tail)
  · intro q current c x hoperator hsemicolon ih _ hseam
    have hoperator' : ¬(q = .closed ∧ (c = '&' ∨ c = '|') ∧ (x ++ y).head? = some c) := by
      rintro ⟨hq, hc, hhead⟩
      cases x with
      | nil => exact hseam c rfl hc hhead
      | cons d x => exact hoperator ⟨hq, hc, hhead⟩
    rw [List.cons_append, scan_other hoperator' hsemicolon, scan_other hoperator hsemicolon,
      ih nofun hseam.tail]
    rfl

end Scanning

section Weaving

/-- What separates two segments. -/
def IsSplit (op : Text) : Prop := op = [';'] ∨ op = ['&', '&'] ∨ op = ['|', '|']

/-- The segments of a text, with operators between them. -/
inductive Woven : List Text → Text → Prop
  | last (s : Text) : Woven [s] s
  | cons (s : Text) {op t : Text} {segments : List Text} (hop : IsSplit op)
      (h : Woven segments t) : Woven (s :: segments) (s ++ op ++ t)

theorem woven_scan {q : Quotes} {skip : Bool} {current s : Text} (h : Skips q skip s) :
    Woven (scanSegments q skip current s).1 (current ++ s.drop (if skip then 1 else 0)) := by
  refine scan_induction (motive := fun q skip current s =>
    Woven (scanSegments q skip current s).1 (current ++ s.drop (if skip then 1 else 0)))
    ?_ ?_ ?_ ?_ ?_ q skip current s h
  · intro q skip current
    rw [List.drop_nil, List.append_nil]
    exact .last current
  · intro current c s _ ih
    rw [scan_skip]
    exact ih
  · intro current c s hc ih
    rw [scan_operator hc rfl]
    have hop : IsSplit [c, c] := by
      rcases hc with rfl | rfl
      · exact .inr (.inl rfl)
      · exact .inr (.inr rfl)
    have hwoven := Woven.cons current hop ih
    simpa using hwoven
  · intro current s ih
    rw [scan_semicolon]
    have hwoven := Woven.cons current (.inl rfl) ih
    simpa using hwoven
  · intro q current c s hoperator hsemicolon ih
    rw [scan_other hoperator hsemicolon]
    simpa using ih

end Weaving

section Segments
variable {x y : Text}

def segments (command : Text) : List Text := (scanSegments .closed false [] command).1

theorem woven_segments (command : Text) : Woven (segments command) command := by
  have h : Woven (segments command) ([] ++ command.drop 0) := woven_scan (skips_false _ _)
  exact h

theorem segments_ne_nil (command : Text) : segments command ≠ [] := scan_ne_nil (skips_false _ _)

theorem segments_closed (hx : Quotes.closed.run x = .closed) :
    ∀ s ∈ segments x, Quotes.closed.run s = .closed := scan_closed (skips_false _ _) rfl hx

theorem segments_append (hx : Quotes.closed.run x = .closed) (hseam : Seam x y) :
    segments (x ++ y) = glue (segments x) (segments y) := by
  unfold segments
  rw [scan_append (skips_false _ _) nofun hseam, hx]

/-- An operator that splits stands between the segments of the two commands. -/
theorem segments_split {op : Text} (hop : IsSplit op) (y : Text) :
    segments (op ++ y) = [] :: segments y := by
  unfold segments
  rcases hop with rfl | rfl | rfl
  · exact congrArg Prod.fst (scan_semicolon [] y)
  · have hscan : scanSegments .closed false [] ('&' :: '&' :: y) = _ :=
      scan_operator (.inl rfl) rfl
    rw [scan_skip] at hscan
    exact congrArg Prod.fst hscan
  · have hscan : scanSegments .closed false [] ('|' :: '|' :: y) = _ :=
      scan_operator (.inr rfl) rfl
    rw [scan_skip] at hscan
    exact congrArg Prod.fst hscan

theorem glue_nil_cons (xs ys : List Text) (hxs : xs ≠ []) : glue xs ([] :: ys) = xs ++ ys := by
  unfold glue
  rw [List.modifyHead_cons, List.append_nil]
  rcases List.eq_nil_or_concat xs with rfl | ⟨zs, z, rfl⟩
  · exact absurd rfl hxs
  · simp

theorem segments_cons {c : Char} (hc : isPlain c = true) (hsemicolon : c ≠ ';')
    (hseam : Seam [c] y) : segments (c :: y) = (segments y).modifyHead (c :: ·) := by
  unfold segments
  rw [scan_other, closed_step hc]
  · exact scan_current [c] (skips_false _ _)
  · rintro ⟨-, hop, hhead⟩
    exact hseam c rfl hop hhead
  · exact fun h => hsemicolon h.2

end Segments

end DeerFlow.Middlewares.ShellAudit
