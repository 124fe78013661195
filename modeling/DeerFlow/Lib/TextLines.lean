import DeerFlow.Lib.Json

/-! White space, and the lines of a text: the ones that are written, each ended by a newline, and the
ones Python's `str.splitlines` finds, which breaks a text at more characters
than the newline. -/

namespace DeerFlow

section Literals
variable {s t : String} {cs ds : Text}

/-- The characters of a literal, which the kernel then has without decoding the literal's bytes. -/
theorem toList_literal (h : s = String.ofList cs) : s.toList = cs := by
  rw [h, String.toList_ofList]

theorem toList_append_literal (hs : s = String.ofList cs) (ht : t = String.ofList ds) :
    (s ++ t).toList = cs ++ ds := by
  rw [String.toList_append, toList_literal hs, toList_literal ht]

theorem map_toList_eq {ss : List String} {css : List Text}
    (h : List.Forall₂ (fun s cs => s.toList = cs) ss css) : ss.map String.toList = css := by
  induction h with
  | nil => rfl
  | cons hs _ ih => rw [List.map_cons, hs, ih]

end Literals

/-- The characters that `str.strip` removes and `\s` matches. -/
def isSpace (c : Char) : Bool :=
  let n := c.toNat
  (9 ≤ n && n ≤ 13) || (28 ≤ n && n ≤ 32) || n = 0x85 || n = 0xA0 || n = 0x1680 ||
    (0x2000 ≤ n && n ≤ 0x200A) || n = 0x2028 || n = 0x2029 || n = 0x202F || n = 0x205F ||
    n = 0x3000

/-- `str.strip()`. -/
def stripSpace (text : Text) : Text := (text.dropWhile isSpace).rdropWhile isSpace

/-- `str.split()`. -/
def splitWords (text : Text) : List Text := (text.splitOnP isSpace).filter (· ≠ [])

def isLineBreak (c : Char) : Bool :=
  let n := c.toNat
  (10 ≤ n && n ≤ 13) || (28 ≤ n && n ≤ 30) || n = 0x85 || n = 0x2028 || n = 0x2029

/-- The lines of a text of which `line`, in reverse, has been read. -/
def splitlinesFrom (line : Text) : Text → List Text
  | [] => if line = [] then [] else [line.reverse]
  | '\r' :: '\n' :: rest => line.reverse :: splitlinesFrom [] rest
  | c :: rest =>
    if isLineBreak c then line.reverse :: splitlinesFrom [] rest
    else splitlinesFrom (c :: line) rest

def splitlines (s : Text) : List Text := splitlinesFrom [] s

/-- The newlines of a file that was opened as text. -/
def universalNewlines : Text → Text
  | [] => []
  | '\r' :: '\n' :: rest => '\n' :: universalNewlines rest
  | c :: rest => (if c = '\r' then '\n' else c) :: universalNewlines rest

def Unbroken (s : Text) : Prop := ∀ c ∈ s, isLineBreak c = false

def writeLines (lines : List Text) : Text := lines.flatMap (· ++ ['\n'])

theorem splitlinesFrom_cons {c : Char} (hc : isLineBreak c = false) (line rest : Text) :
    splitlinesFrom line (c :: rest) = splitlinesFrom (c :: line) rest := by
  rw [splitlinesFrom.eq_def]
  split
  · next heq => exact absurd heq (List.cons_ne_nil _ _)
  · next heq =>
    rw [(List.cons.inj heq).1] at hc
    exact absurd hc (by decide)
  · next heq =>
    obtain ⟨rfl, rfl⟩ := List.cons.inj heq
    rw [if_neg (by simp [hc])]

theorem splitlinesFrom_append {s : Text} (hs : Unbroken s) (line rest : Text) :
    splitlinesFrom line (s ++ rest) = splitlinesFrom (s.reverse ++ line) rest := by
  induction s generalizing line with
  | nil => rfl
  | cons c s ih =>
    have hc := hs c (List.mem_cons_self ..)
    rw [List.cons_append, splitlinesFrom_cons hc, ih fun d hd => hs d (List.mem_cons_of_mem _ hd)]
    simp

theorem splitlinesFrom_newline (line rest : Text) :
    splitlinesFrom line ('\n' :: rest) = line.reverse :: splitlinesFrom [] rest := by
  rw [splitlinesFrom.eq_def]
  rfl

/-- Lines without a break are found again, and so is a last line that no newline ends. -/
theorem splitlines_writeLines {lines : List Text} {last : Text} (h : ∀ l ∈ lines, Unbroken l)
    (hlast : Unbroken last) (hne : last ≠ []) :
    splitlines (writeLines lines ++ last) = lines ++ [last] := by
  unfold splitlines writeLines
  induction lines with
  | nil =>
    have hread := splitlinesFrom_append hlast [] []
    rw [List.append_nil, List.append_nil] at hread
    simp [hread, splitlinesFrom, hne]
  | cons l lines ih =>
    have hl := h l (List.mem_cons_self ..)
    have hrest := ih fun m hm => h m (List.mem_cons_of_mem _ hm)
    rw [List.flatMap_cons, List.append_assoc, List.append_assoc, splitlinesFrom_append hl,
      List.singleton_append, splitlinesFrom_newline, hrest]
    simp

theorem universalNewlines_of_not_mem {s : Text} (h : '\r' ∉ s) : universalNewlines s = s := by
  induction s with
  | nil => rfl
  | cons c s ih =>
    obtain ⟨hc, hs⟩ := not_or.mp (fun hm => h (List.mem_cons.mpr hm))
    rw [universalNewlines.eq_def]
    split
    · next heq => exact absurd heq (List.cons_ne_nil _ _)
    · next heq => exact absurd (List.cons.inj heq).1 (Ne.symm hc)
    · next heq =>
      obtain ⟨rfl, rfl⟩ := List.cons.inj heq
      rw [if_neg (Ne.symm hc), ih hs]

theorem not_mem_universalNewlines (s : Text) : '\r' ∉ universalNewlines s := by
  induction s using universalNewlines.induct with
  | case1 => exact List.not_mem_nil
  | case2 rest ih =>
    rw [universalNewlines]
    intro h
    rcases List.mem_cons.mp h with h | h
    · cases h
    · exact ih h
  | case3 c rest hother ih =>
    rw [universalNewlines]
    · intro h
      rcases List.mem_cons.mp h with h | h
      · split at h
        · cases h
        · next hc => exact hc h.symm
      · exact ih h
    · exact hother

theorem not_mem_writeLines {lines : List Text} (h : ∀ l ∈ lines, Unbroken l) :
    '\r' ∉ writeLines lines := by
  intro hmem
  obtain ⟨l, hl, hmem⟩ := List.mem_flatMap.mp hmem
  rcases List.mem_append.mp hmem with hmem | hmem
  · exact absurd (h l hl _ hmem) (by decide)
  · exact absurd (List.mem_singleton.mp hmem) (by decide)

end DeerFlow
