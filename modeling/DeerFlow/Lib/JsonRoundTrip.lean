import DeerFlow.Lib.Json

/-! A value that `Json.dumps` wrote is the value `Json.loads` reads. A number
ends where no digit, point or exponent follows, so each reader is followed
through a text that continues with anything else. -/

namespace DeerFlow

section Numbers

def NoDigit (rest : Text) : Prop := ∀ c ∈ rest.head?, c.isDigit = false

/-- A number that ends here ends for good. -/
def Follow (rest : Text) : Prop :=
  ∀ c ∈ rest.head?, c.isDigit = false ∧ c ≠ '.' ∧ c ≠ 'e' ∧ c ≠ 'E'

theorem Follow.noDigit {rest : Text} (h : Follow rest) : NoDigit rest := fun c hc => (h c hc).1

theorem takeWhile_isDigit {rest : Text} (h : NoDigit rest) : rest.takeWhile Char.isDigit = [] := by
  cases rest with
  | nil => rfl
  | cons c rest => simp [h c rfl]

theorem dropWhile_isDigit {rest : Text} (h : NoDigit rest) : rest.dropWhile Char.isDigit = rest := by
  cases rest with
  | nil => rfl
  | cons c rest => simp [h c rfl]

theorem parseDigits_append (ds : Digits) {rest : Text} (h : NoDigit rest) :
    parseDigits (ds.chars ++ rest) = some (ds, rest) := by
  have htake : (ds.chars ++ rest).takeWhile Char.isDigit = ds.chars := by
    rw [List.takeWhile_append_of_pos ds.digits, takeWhile_isDigit h, List.append_nil]
  have hdrop : (ds.chars ++ rest).dropWhile Char.isDigit = rest := by
    rw [List.dropWhile_append_of_pos ds.digits, dropWhile_isDigit h]
  unfold parseDigits
  simp only [htake, hdrop, ds.nonempty, ne_eq, not_false_eq_true, dite_true]

def Digits.ofNat (n : Nat) : Digits :=
  ⟨Nat.toDigits 10 n, Nat.toDigits_ne_nil,
    fun _ hc => Nat.isDigit_of_mem_toDigits (by decide) (by decide) hc⟩

theorem head_toDigits {n : Nat} (hn : n ≠ 0) : (Nat.toDigits 10 n).head? ≠ some '0' := by
  induction n using Nat.strongRecOn with
  | ind n ih =>
    by_cases hlt : n < 10
    · have hdigit : ∀ m < 10, m ≠ 0 → Nat.digitChar m ≠ '0' := by decide
      rw [Nat.toDigits_of_lt_base hlt]
      simpa using hdigit n hlt hn
    · rw [Nat.toDigits_of_base_le (by decide) (Nat.not_lt.mp hlt),
        List.head?_append_of_ne_nil _ Nat.toDigits_ne_nil]
      exact ih _ (by omega) (by omega)

theorem parseWhole_toDigits (n : Nat) {rest : Text} (h : NoDigit rest) :
    parseWhole (Nat.toDigits 10 n ++ rest) = some (n, rest) := by
  by_cases hn : n = 0
  · subst hn
    rfl
  · have hdigits := parseDigits_append (Digits.ofNat n) h
    have hvalue := @Nat.ofDigitChars_toDigits 10 n (by decide) (by decide)
    unfold parseWhole
    split
    · next rest' heq =>
      have hhead := congrArg List.head? heq
      rw [List.head?_append_of_ne_nil _ Nat.toDigits_ne_nil] at hhead
      exact absurd hhead (head_toDigits hn)
    · change (parseDigits ((Digits.ofNat n).chars ++ rest)).map _ = _
      rw [hdigits]
      exact congrArg some (Prod.ext hvalue rfl)

theorem parseFraction_append (ds : Digits) {rest : Text} (h : NoDigit rest) :
    parseFraction ('.' :: ds.chars ++ rest) = (some ds, rest) := by
  simp only [List.cons_append, parseFraction, parseDigits_append ds h, Option.elim_some]

theorem parseSign_append (sign : Sign) (ds : Digits) (rest : Text) :
    parseSign (sign.text ++ (ds.chars ++ rest)) = (sign, ds.chars ++ rest) := by
  cases sign with
  | plus | minus => rfl
  | none =>
    obtain ⟨chars, hne, hdigits⟩ := ds
    cases chars with
    | nil => exact absurd rfl hne
    | cons c cs =>
      have hc := hdigits c (List.mem_cons_self ..)
      simp only [Sign.text, List.nil_append, List.cons_append, parseSign]
      split
      · next heq => injection heq with heq; subst heq; exact absurd hc (by decide)
      · next heq => injection heq with heq; subst heq; exact absurd hc (by decide)
      · rfl

theorem parseExponent_append (e : Exponent) {rest : Text} (h : NoDigit rest) :
    parseExponent (e.text ++ rest) = (some e, rest) := by
  obtain ⟨upper, sign, ds⟩ := e
  have hsign := parseSign_append sign ds rest
  have hdigits := parseDigits_append ds h
  cases upper <;> simp [Exponent.text, parseExponent, hsign, hdigits]

theorem parseFraction_none {rest : Text} (h : ∀ c ∈ rest.head?, c ≠ '.') :
    parseFraction rest = (none, rest) := by
  cases rest with
  | nil => rfl
  | cons c rest =>
    unfold parseFraction
    split
    · next heq => exact absurd (List.cons.inj heq).1 (h c rfl)
    · rfl

theorem parseExponent_none {rest : Text} (h : ∀ c ∈ rest.head?, c ≠ 'e' ∧ c ≠ 'E') :
    parseExponent rest = (none, rest) := by
  cases rest with
  | nil => rfl
  | cons c rest => simp [parseExponent, h c rfl]

theorem parseFraction_text (fraction : Option Digits) {rest : Text}
    (h : ∀ c ∈ rest.head?, c.isDigit = false ∧ c ≠ '.') :
    parseFraction (fractionText fraction ++ rest) = (fraction, rest) := by
  cases fraction with
  | none => exact parseFraction_none fun c hc => (h c hc).2
  | some ds => exact parseFraction_append ds fun c hc => (h c hc).1

theorem parseExponent_text (exponent : Option Exponent) {rest : Text} (h : Follow rest) :
    parseExponent (exponentText exponent ++ rest) = (exponent, rest) := by
  cases exponent with
  | none => exact parseExponent_none fun c hc => (h c hc).2.2
  | some e => exact parseExponent_append e h.noDigit

theorem head_exponentText (exponent : Option Exponent) {rest : Text} (h : Follow rest) :
    ∀ c ∈ (exponentText exponent ++ rest).head?, c.isDigit = false ∧ c ≠ '.' := by
  cases exponent with
  | none =>
    intro c hc
    exact ⟨(h c hc).1, (h c hc).2.1⟩
  | some e =>
    intro c hc
    have hletter : c = if e.upper then 'E' else 'e' := (Option.some.inj hc).symm
    subst hletter
    split <;> exact ⟨by decide, by decide⟩

theorem noDigit_fractionText (fraction : Option Digits) {rest : Text} (h : NoDigit rest) :
    NoDigit (fractionText fraction ++ rest) := by
  cases fraction with
  | none => exact h
  | some ds =>
    intro c hc
    have hpoint : c = '.' := (Option.some.inj hc).symm
    subst hpoint
    decide

theorem parseUnsigned_int (negative : Bool) (n : Nat) {rest : Text} (h : Follow rest) :
    parseUnsigned negative (Nat.toDigits 10 n ++ rest) =
      some (.int (if negative then -n else n), rest) := by
  have hfraction := parseFraction_none fun c hc => (h c hc).2.1
  have hexponent := parseExponent_none fun c hc => (h c hc).2.2
  simp [parseUnsigned, parseWhole_toDigits n h.noDigit, hfraction, hexponent]

theorem parseUnsigned_float (x : FloatLiteral) {rest : Text} (h : Follow rest) :
    parseUnsigned x.negative (Nat.toDigits 10 x.whole ++
      (fractionText x.fraction ++ exponentText x.exponent) ++ rest) = some (.float x, rest) := by
  have hhead := head_exponentText x.exponent h
  have hwhole := parseWhole_toDigits x.whole
    (noDigit_fractionText x.fraction fun c hc => (hhead c hc).1)
  have hfraction := parseFraction_text x.fraction hhead
  have hexponent := parseExponent_text x.exponent h
  rw [List.append_assoc, List.append_assoc]
  simp [parseUnsigned, hwhole, hfraction, hexponent, x.isFloat]

theorem parseValue_digit {c : Char} (hc : c.isDigit = true) (fuel : Nat) (rest : Text) :
    parseValue (fuel + 1) (c :: rest) = parseUnsigned false (c :: rest) := by
  unfold parseValue
  split
  case h_10 =>
    unfold parseNumber
    split
    · next heq => rw [(List.cons.inj heq).1] at hc; exact absurd hc (by decide)
    · rfl
  all_goals next heq => rw [(List.cons.inj heq).1] at hc; exact absurd hc (by decide)

theorem parseValue_minus {c : Char} (hc : c.isDigit = true) (fuel : Nat) (rest : Text) :
    parseValue (fuel + 1) ('-' :: c :: rest) = parseUnsigned true (c :: rest) := by
  unfold parseValue
  split
  case h_10 => rfl
  case h_9 heq =>
    rw [(List.cons.inj (List.cons.inj heq).2).1] at hc
    exact absurd hc (by decide)
  all_goals next heq => exact absurd (List.cons.inj heq).1 (by decide)

theorem parseValue_number (negative : Bool) (n fuel : Nat) (rest : Text) :
    parseValue (fuel + 1) ((if negative then ['-'] else []) ++ Nat.toDigits 10 n ++ rest) =
      parseUnsigned negative (Nat.toDigits 10 n ++ rest) := by
  have hdigits := (Digits.ofNat n).digits
  obtain ⟨c, cs, hcons⟩ := List.exists_cons_of_ne_nil (Digits.ofNat n).nonempty
  have hc : c.isDigit = true := hdigits c (hcons ▸ List.mem_cons_self ..)
  have htext : Nat.toDigits 10 n = c :: cs := hcons
  rw [htext]
  cases negative with
  | false => exact parseValue_digit hc fuel (cs ++ rest)
  | true => exact parseValue_minus hc fuel (cs ++ rest)

theorem parseValue_int (n : Int) (fuel : Nat) {rest : Text} (h : Follow rest) :
    parseValue (fuel + 1) (intText n ++ rest) = some (.int n, rest) := by
  have hsign : intText n =
      (if decide (n < 0) then ['-'] else []) ++ Nat.toDigits 10 n.natAbs := by
    simp [intText]
  rw [hsign, parseValue_number, parseUnsigned_int _ _ h]
  congr 3
  by_cases hn : n < 0
  · have habs : -(n.natAbs : Int) = n := by omega
    rw [decide_eq_true hn, if_pos rfl, habs]
  · have habs : (n.natAbs : Int) = n := by omega
    rw [decide_eq_false hn, if_neg Bool.false_ne_true, habs]

theorem parseValue_float (x : FloatLiteral) (fuel : Nat) {rest : Text} (h : Follow rest) :
    parseValue (fuel + 1) (x.text ++ rest) = some (.float x, rest) := by
  rw [← parseUnsigned_float x h, FloatLiteral.text, List.append_assoc,
    parseValue_number]
  simp only [List.append_assoc]

end Numbers

section Strings

theorem parseString_escape {e : Char × Char} (h : e ∈ escapes) (rest : Text) :
    parseString ('\\' :: e.1 :: rest) = (parseString rest).map fun p => (e.2 :: p.1, p.2) := by
  simp only [escapes, List.mem_cons, List.not_mem_nil, or_false] at h
  rcases h with rfl | rfl | rfl | rfl | rfl | rfl | rfl <;> rw [parseString.eq_def] <;> rfl

theorem parseString_control {n : Nat} (h : n < 32) (rest : Text) :
    parseString ('\\' :: 'u' :: '0' :: '0' :: Nat.digitChar (n / 16) :: Nat.digitChar (n % 16) :: rest)
      = (parseString rest).map fun p => (Char.ofNat n :: p.1, p.2) := by
  have hhex : ∀ m < 32,
      (hex4 '0' '0' (Nat.digitChar (m / 16)) (Nat.digitChar (m % 16))).bind unitChar =
        some (Char.ofNat m) := by decide
  obtain ⟨k, hk, hunit⟩ := Option.bind_eq_some_iff.mp (hhex n h)
  rw [parseString.eq_def]
  simp only [hk, hunit]

theorem parseString_plain {c : Char} (hquote : c ≠ '"') (hslash : c ≠ '\\') (hlow : ¬ c.toNat < 32)
    (rest : Text) : parseString (c :: rest) = (parseString rest).map fun p => (c :: p.1, p.2) := by
  rw [parseString.eq_def]
  split
  · next heq => exact absurd heq (List.cons_ne_nil _ _)
  · next heq => exact absurd (List.cons.inj heq).1 hquote
  · next heq => exact absurd (List.cons.inj heq).1 hslash
  · next heq => exact absurd (List.cons.inj heq).1 hslash
  · next heq =>
    obtain ⟨rfl, rfl⟩ := List.cons.inj heq
    rw [if_neg (not_or.mpr ⟨hslash, hlow⟩)]

theorem parseString_escapeChar (c : Char) (rest : Text) :
    parseString (escapeChar c ++ rest) = (parseString rest).map fun p => (c :: p.1, p.2) := by
  unfold escapeChar
  split
  · next e he =>
    have hc : e.2 = c := by simpa using List.find?_some he
    rw [← hc]
    exact parseString_escape (List.mem_of_find?_eq_some he) rest
  · next hnone =>
    split
    · next hlow =>
      have hcontrol := parseString_control hlow rest
      rwa [Char.ofNat_toNat] at hcontrol
    · next hlow =>
      have hnot : ∀ e ∈ escapes, e.2 ≠ c := by simpa using hnone
      apply parseString_plain _ _ hlow
      · exact (hnot ('"', '"') (by decide)).symm
      · exact (hnot ('\\', '\\') (by decide)).symm

theorem parseString_quoted (s rest : Text) :
    parseString (s.flatMap escapeChar ++ '"' :: rest) = some (s, rest) := by
  induction s with
  | nil => rfl
  | cons c s ih =>
    rw [List.flatMap_cons, List.append_assoc, parseString_escapeChar, ih]
    rfl

theorem parseValue_str (s : String) (fuel : Nat) (rest : Text) :
    parseValue (fuel + 1) (quote s ++ rest) = some (.str s, rest) := by
  have hquoted := parseString_quoted s.toList rest
  simp only [quote, List.cons_append, List.append_assoc]
  unfold parseValue
  simp only [List.nil_append, hquoted, Option.map_some, String.ofList_toList]

end Strings
section Items

theorem skip_cons {c : Char} (h : isJsonSpace c = false) (rest : Text) :
    skip (c :: rest) = c :: rest := by
  simp [skip, h]

variable {α : Type*} (text : α → Text)

theorem length_joinTail (xs : List α) : xs.length ≤ (joinTail text xs).length := by
  induction xs with
  | nil => exact le_rfl
  | cons x xs ih =>
    simp only [joinTail, List.length_cons, List.length_append]
    omega

theorem length_le_joinTail {x : α} {xs : List α} (h : x ∈ xs) :
    (text x).length ≤ (joinTail text xs).length := by
  induction xs with
  | nil => cases h
  | cons y ys ih =>
    simp only [joinTail, List.length_cons, List.length_append]
    rcases List.mem_cons.mp h with rfl | hmem
    · omega
    · have := ih hmem
      omega

/-- Items that start with no space and that are read up to a comma or the
closing bracket are read back one after the other. -/
theorem parseItems_joinTail {item : Text → Option (α × Text)} {close : Char}
    (hclose : close ≠ ',' ∧ isJsonSpace close = false) {x : α} {xs : List α}
    (hhead : ∀ y ∈ xs, ∀ rest, skip (text y ++ rest) = text y ++ rest)
    (hitem : ∀ y ∈ x :: xs, ∀ c rest, c = ',' ∨ c = close →
      item (text y ++ c :: rest) = some (y, c :: rest))
    {fuel : Nat} (hfuel : xs.length < fuel) (rest : Text) :
    parseItems item close fuel (text x ++ joinTail text xs ++ close :: rest) =
      some (x :: xs, rest) := by
  induction xs generalizing x fuel with
  | nil =>
    obtain ⟨fuel, rfl⟩ := Nat.exists_eq_succ_of_ne_zero (Nat.ne_of_gt hfuel)
    have hx := hitem x (List.mem_cons_self ..) close rest (.inr rfl)
    rw [joinTail, List.append_nil, parseItems, hx]
    simp only [skip_cons hclose.2, if_neg hclose.1, if_true]
  | cons y ys ih =>
    obtain ⟨fuel, rfl⟩ := Nat.exists_eq_succ_of_ne_zero (Nat.ne_of_gt (Nat.zero_lt_of_lt hfuel))
    have hx := hitem x (List.mem_cons_self ..) ',' (' ' :: (text y ++ joinTail text ys ++ close :: rest))
      (.inl rfl)
    have hys := ih (fun z hz => hhead z (List.mem_cons_of_mem _ hz))
      (fun z hz => hitem z (List.mem_cons_of_mem _ hz)) (Nat.lt_of_succ_lt_succ hfuel)
    have hskip : skip (' ' :: (text y ++ joinTail text ys ++ close :: rest)) =
        text y ++ joinTail text ys ++ close :: rest := by
      rw [List.append_assoc]
      exact hhead y (List.mem_cons_self ..) _
    have htext : text x ++ joinTail text (y :: ys) ++ close :: rest =
        text x ++ ',' :: (' ' :: (text y ++ joinTail text ys ++ close :: rest)) := by
      simp [joinTail]
    rw [htext, parseItems, hx]
    simp only [skip_cons (c := ',') (by decide), if_true, hskip, hys, Option.map_some]

theorem length_le_joinItems {x : α} {xs : List α} (h : x ∈ xs) :
    (text x).length ≤ (joinItems text xs).length := by
  cases xs with
  | nil => cases h
  | cons y ys =>
    simp only [joinItems, List.length_append]
    rcases List.mem_cons.mp h with rfl | hmem
    · omega
    · have := length_le_joinTail text hmem
      omega

theorem parseBracketed_joinItems {item : Text → Option (α × Text)} (close : Char)
    (hclose : close ≠ ',' ∧ isJsonSpace close = false) {xs : List α}
    (hhead : ∀ y ∈ xs, ∃ c t, text y = c :: t ∧ isJsonSpace c = false ∧ c ≠ close)
    (hitem : ∀ y ∈ xs, ∀ c rest, c = ',' ∨ c = close →
      item (text y ++ c :: rest) = some (y, c :: rest)) (rest : Text) :
    parseBracketed item close (joinItems text xs ++ close :: rest) = some (xs, rest) := by
  have hskip : ∀ y ∈ xs, ∀ rest, skip (text y ++ rest) = text y ++ rest := by
    intro y hy rest
    obtain ⟨c, t, hy, hspace, -⟩ := hhead y hy
    rw [hy]
    exact skip_cons hspace (t ++ rest)
  cases xs with
  | nil => simp [joinItems, parseBracketed, skip_cons hclose.2]
  | cons x xs =>
    have hfuel : xs.length < (text x ++ joinTail text xs ++ close :: rest).length := by
      have := length_joinTail text xs
      simp only [List.length_append, List.length_cons]
      omega
    have hitems := parseItems_joinTail text hclose
      (fun y hy => hskip y (List.mem_cons_of_mem _ hy)) hitem hfuel rest
    obtain ⟨c, t, hx, -, hne⟩ := hhead x (List.mem_cons_self ..)
    have htext := hskip x (List.mem_cons_self ..) (joinTail text xs ++ close :: rest)
    rw [← List.append_assoc] at htext
    unfold parseBracketed
    rw [joinItems, htext]
    rw [hx] at hitems ⊢
    simp only [List.cons_append, if_neg hne] at hitems ⊢
    exact hitems

theorem foldl_upsert (items acc : List (String × Json))
    (h : ((acc ++ items).map Prod.fst).Nodup) :
    items.foldl (fun d x => upsert Prod.fst x d) acc = acc ++ items := by
  induction items generalizing acc with
  | nil => simp
  | cons x items ih =>
    have hnone : acc.find? (fun y => y.1 = x.1) = none := by
      rw [List.map_append, List.map_cons] at h
      have hnot := List.disjoint_of_nodup_append h
      rw [List.find?_eq_none]
      intro y hy hkey
      exact hnot (List.mem_map_of_mem hy) (by rw [of_decide_eq_true hkey]; exact List.mem_cons_self ..)
    rw [List.foldl_cons, upsert_of_find?_none _ hnone, ih _ (by simpa using h)]
    simp

theorem ofItems_of_nodup {items : List (String × Json)} (h : (items.map Prod.fst).Nodup) :
    ofItems items = items := foldl_upsert items [] h

end Items

section Values

def memberText (x : String × Json) : Text := quote x.1 ++ ':' :: ' ' :: x.2.dumps

theorem dumpsTail_eq (xs : List Json) : dumpsTail xs = joinTail Json.dumps xs := by
  induction xs with
  | nil => rfl
  | cons x xs ih => rw [dumpsTail, ih, joinTail]

theorem dumpsItems_eq (items : List (String × Json)) :
    dumpsItems items = joinTail memberText items := by
  induction items with
  | nil => rfl
  | cons x items ih =>
    obtain ⟨k, v⟩ := x
    rw [dumpsItems, ih, joinTail]
    simp [memberText]

theorem dumps_arr (xs : List Json) :
    Json.dumps (.arr xs) = '[' :: joinItems Json.dumps xs ++ [']'] := by
  cases xs with
  | nil => rfl
  | cons x xs => simp [Json.dumps, joinItems, dumpsTail_eq]

theorem dumps_obj (items : List (String × Json)) :
    Json.dumps (.obj items) = '\x7b' :: joinItems memberText items ++ ['\x7d'] := by
  cases items with
  | nil => rfl
  | cons x items =>
    obtain ⟨k, v⟩ := x
    simp [Json.dumps, joinItems, memberText, dumpsItems_eq]

theorem head_signed (negative : Bool) (n : Nat) (rest : Text) :
    ∃ c t, (if negative then ['-'] else []) ++ Nat.toDigits 10 n ++ rest = c :: t ∧
      (c = '-' ∨ c.isDigit = true) := by
  cases negative with
  | true => exact ⟨'-', _, rfl, .inl rfl⟩
  | false =>
    obtain ⟨c, cs, hcons⟩ := List.exists_cons_of_ne_nil (Digits.ofNat n).nonempty
    have htext : Nat.toDigits 10 n = c :: cs := hcons
    have hc := (Digits.ofNat n).digits c (hcons ▸ List.mem_cons_self ..)
    exact ⟨c, cs ++ rest, by rw [htext]; rfl, .inr hc⟩

theorem head_dumps (j : Json) : ∃ c t, j.dumps = c :: t ∧ isJsonSpace c = false ∧ c ≠ ']' := by
  have hnumber : ∀ {s : Text}, (∃ c t, s = c :: t ∧ (c = '-' ∨ c.isDigit = true)) →
      ∃ c t, s = c :: t ∧ isJsonSpace c = false ∧ c ≠ ']' := by
    rintro s ⟨c, t, rfl, rfl | hc⟩
    · exact ⟨'-', t, rfl, by decide, by decide⟩
    · refine ⟨c, t, rfl, ?_, ?_⟩
      · by_contra hspace
        simp only [isJsonSpace, Bool.not_eq_false, Bool.or_eq_true, decide_eq_true_eq] at hspace
        rcases hspace with ((rfl | rfl) | rfl) | rfl <;> exact absurd hc (by decide)
      · rintro rfl
        exact absurd hc (by decide)
  cases j with
  | null => exact ⟨_, _, rfl, by decide, by decide⟩
  | bool b => cases b <;> exact ⟨_, _, rfl, by decide, by decide⟩
  | int n =>
    have hhead := head_signed (decide (n < 0)) n.natAbs []
    apply hnumber
    simpa [Json.dumps, intText] using hhead
  | float x =>
    have hhead := head_signed x.negative x.whole (fractionText x.fraction ++ exponentText x.exponent)
    apply hnumber
    simpa [Json.dumps, FloatLiteral.text] using hhead
  | nonFinite x => cases x <;> exact ⟨_, _, rfl, by decide, by decide⟩
  | str s => exact ⟨'"', _, rfl, by decide, by decide⟩
  | arr xs => cases xs <;> exact ⟨'[', _, rfl, by decide, by decide⟩
  | obj items => cases items <;> exact ⟨'\x7b', _, rfl, by decide, by decide⟩

theorem skip_dumps (j : Json) (rest : Text) : skip (j.dumps ++ rest) = j.dumps ++ rest := by
  obtain ⟨c, t, hj, hspace, -⟩ := head_dumps j
  rw [hj]
  exact skip_cons hspace (t ++ rest)

theorem follow_close {c : Char} {close : Char} (hclose : close = ']' ∨ close = '\x7d')
    (hc : c = ',' ∨ c = close) (rest : Text) : Follow (c :: rest) := by
  intro d hd
  have hdc : d = c := (Option.some.inj hd).symm
  subst hdc
  rcases hc with rfl | rfl
  · decide
  · rcases hclose with rfl | rfl <;> decide

theorem parseMember_memberText {value : Text → Option (Json × Text)} {x : String × Json}
    {rest : Text} (h : value (x.2.dumps ++ rest) = some (x.2, rest)) :
    parseMember value (memberText x ++ rest) = some (x, rest) := by
  have hkey := parseString_quoted x.1.toList (':' :: ' ' :: (x.2.dumps ++ rest))
  have htext : memberText x ++ rest =
      '"' :: (x.1.toList.flatMap escapeChar ++ '"' :: ':' :: ' ' :: (x.2.dumps ++ rest)) := by
    simp [memberText, quote]
  have hcolon : skip (':' :: ' ' :: (x.2.dumps ++ rest)) = ':' :: ' ' :: (x.2.dumps ++ rest) :=
    skip_cons (by decide) _
  have hspace : skip (' ' :: (x.2.dumps ++ rest)) = x.2.dumps ++ rest := skip_dumps x.2 rest
  rw [htext, parseMember, hkey]
  simp only [hcolon, hspace, h, Option.map_some, String.ofList_toList]

/-- A text that the reader takes for the value `j`, whatever follows. -/
def Reads (j : Json) : Prop :=
  ∀ fuel rest, j.dumps.length ≤ fuel → Follow rest →
    parseValue fuel (j.dumps ++ rest) = some (j, rest)

theorem reads_of_succ {j : Json} (h : ∀ fuel rest, j.dumps.length ≤ fuel + 1 → Follow rest →
    parseValue (fuel + 1) (j.dumps ++ rest) = some (j, rest)) : Reads j := by
  intro fuel rest hfuel hrest
  obtain ⟨c, t, hj, -⟩ := head_dumps j
  cases fuel with
  | zero =>
    rw [hj] at hfuel
    exact absurd hfuel (Nat.not_succ_le_zero _)
  | succ fuel => exact h fuel rest hfuel hrest

theorem reads_arr {xs : List Json} (hxs : ∀ x ∈ xs, Reads x) : Reads (.arr xs) := by
  apply reads_of_succ
  intro fuel rest hfuel _
  rw [dumps_arr] at hfuel
  simp only [List.cons_append, List.length_cons, List.length_append] at hfuel
  have hitems := parseBracketed_joinItems Json.dumps ']' (by decide)
    (fun x _ => head_dumps x) (fun x hx c t hc => by
      have hlength := length_le_joinItems Json.dumps hx
      exact hxs x hx fuel (c :: t) (by omega) (follow_close (.inl rfl) hc t)) rest
  have htext : Json.dumps (.arr xs) ++ rest = '[' :: (joinItems Json.dumps xs ++ ']' :: rest) := by
    simp [dumps_arr]
  rw [htext, parseValue, hitems]
  rfl

theorem head_memberText (x : String × Json) :
    ∃ c t, memberText x = c :: t ∧ isJsonSpace c = false ∧ c ≠ '\x7d' :=
  ⟨'"', _, rfl, by decide, by decide⟩

theorem reads_obj {items : List (String × Json)} (hkeys : (items.map Prod.fst).Nodup)
    (hitems : ∀ x ∈ items, Reads x.2) : Reads (.obj items) := by
  apply reads_of_succ
  intro fuel rest hfuel _
  rw [dumps_obj] at hfuel
  simp only [List.cons_append, List.length_cons, List.length_append] at hfuel
  have hmembers := parseBracketed_joinItems memberText '\x7d' (by decide)
    (fun x _ => head_memberText x) (fun x hx c t hc => by
      have hlength := length_le_joinItems memberText hx
      simp only [memberText, List.length_append, List.length_cons] at hlength
      exact parseMember_memberText
        (hitems x hx fuel (c :: t) (by omega) (follow_close (.inr rfl) hc t))) rest
  have htext : Json.dumps (.obj items) ++ rest =
      '\x7b' :: (joinItems memberText items ++ '\x7d' :: rest) := by
    simp [dumps_obj]
  rw [htext, parseValue, hmembers]
  simp only [Option.map_some, ofItems_of_nodup hkeys]

theorem reads_dumps {j : Json} (h : j.Unique) : Reads j := by
  induction h with
  | null =>
    apply reads_of_succ
    intro fuel rest _ _
    rfl
  | bool b =>
    apply reads_of_succ
    intro fuel rest _ _
    cases b <;> rfl
  | int n =>
    apply reads_of_succ
    intro fuel rest _ hrest
    exact parseValue_int n fuel hrest
  | float x =>
    apply reads_of_succ
    intro fuel rest _ hrest
    exact parseValue_float x fuel hrest
  | nonFinite x =>
    apply reads_of_succ
    intro fuel rest _ _
    cases x <;> rfl
  | str s =>
    apply reads_of_succ
    intro fuel rest _ _
    exact parseValue_str s fuel rest
  | arr _ ih => exact reads_arr ih
  | obj hkeys _ ih => exact reads_obj hkeys ih

/-- What `dumps` writes, `loads` reads back. -/
theorem loads_dumps {j : Json} (h : j.Unique) : Json.loads j.dumps = some j := by
  have hread := reads_dumps h (j.dumps.length + 1) [] (Nat.le_succ _) (fun c hc => by cases hc)
  have hskip := skip_dumps j []
  rw [List.append_nil] at hread hskip
  unfold Json.loads
  rw [hskip, hread]
  rfl

end Values

/-! Only the strings of a value bring characters other than printable ASCII into
its text, and none of them a control character. -/

section Characters
variable {p q : Char → Prop} (hp : ∀ c : Char, 32 ≤ c.toNat → c.toNat < 127 → p c)
  (hq : ∀ c, q c → 32 ≤ c.toNat → p c)
include hp

theorem over_digit {c : Char} (h : c.isDigit = true) : p c := by
  simp only [Char.isDigit, Bool.and_eq_true, decide_eq_true_eq] at h
  have h48 : 48 ≤ c.toNat := h.1
  have h57 : c.toNat ≤ 57 := h.2
  exact hp c (by omega) (by omega)

theorem over_toDigits (n : Nat) : ∀ c ∈ Nat.toDigits 10 n, p c := fun c hc =>
  over_digit hp ((Digits.ofNat n).digits c hc)

theorem over_floatText (x : FloatLiteral) : ∀ c ∈ x.text, p c := by
  intro c hc
  simp only [FloatLiteral.text, List.mem_append] at hc
  rcases hc with (hc | hc) | hc | hc
  · split at hc
    · exact List.mem_singleton.mp hc ▸ hp '-' (by decide) (by decide)
    · cases hc
  · exact over_toDigits hp _ c hc
  · rcases hfraction : x.fraction with _ | ds
    · rw [hfraction] at hc
      cases hc
    · rw [hfraction, fractionText, List.mem_cons] at hc
      rcases hc with rfl | hc
      · exact hp '.' (by decide) (by decide)
      · exact over_digit hp (ds.digits c hc)
  · rcases hexponent : x.exponent with _ | e
    · rw [hexponent] at hc
      cases hc
    · rw [hexponent, exponentText, Exponent.text, List.cons_append, List.mem_cons,
        List.mem_append] at hc
      rcases hc with rfl | hc | hc
      · split <;> exact hp _ (by decide) (by decide)
      · cases hsign : e.sign <;> rw [hsign] at hc
        · cases hc
        · exact List.mem_singleton.mp hc ▸ hp '+' (by decide) (by decide)
        · exact List.mem_singleton.mp hc ▸ hp '-' (by decide) (by decide)
      · exact over_digit hp (e.digits.digits c hc)

theorem over_intText (n : Int) : ∀ c ∈ intText n, p c := by
  intro c hc
  rcases List.mem_append.mp hc with hc | hc
  · split at hc
    · exact List.mem_singleton.mp hc ▸ hp '-' (by decide) (by decide)
    · cases hc
  · exact over_toDigits hp _ c hc

include hq in
theorem over_escapeChar {c : Char} (hc : q c) : ∀ d ∈ escapeChar c, p d := by
  have hescape : ∀ e ∈ escapes, 32 ≤ e.1.toNat ∧ e.1.toNat < 127 := by decide
  have hslash : p '\\' := hp _ (by decide) (by decide)
  intro d hd
  unfold escapeChar at hd
  split at hd
  · next e he =>
    rcases List.mem_cons.mp hd with rfl | hd
    · exact hslash
    · have he := hescape e (List.mem_of_find?_eq_some he)
      exact List.mem_singleton.mp hd ▸ hp _ he.1 he.2
  · split at hd
    · next hlow =>
      have hhex : ∀ m < 16, 32 ≤ (Nat.digitChar m).toNat ∧ (Nat.digitChar m).toNat < 127 := by
        decide
      have hhigh := hhex (c.toNat / 16) (by omega)
      have hrest := hhex (c.toNat % 16) (by omega)
      simp only [List.mem_cons, List.not_mem_nil, or_false] at hd
      rcases hd with rfl | rfl | rfl | rfl | rfl | rfl
      · exact hslash
      · exact hp _ (by decide) (by decide)
      · exact hp _ (by decide) (by decide)
      · exact hp _ (by decide) (by decide)
      · exact hp _ hhigh.1 hhigh.2
      · exact hp _ hrest.1 hrest.2
    · next hlow => exact List.mem_singleton.mp hd ▸ hq c hc (Nat.not_lt.mp hlow)

include hq in
theorem over_quote {s : String} (hs : ∀ c ∈ s.toList, q c) : ∀ c ∈ quote s, p c := by
  have hquote : p '"' := hp _ (by decide) (by decide)
  intro c hc
  simp only [quote, List.cons_append, List.mem_cons, List.mem_append, List.not_mem_nil,
    or_false] at hc
  rcases hc with rfl | hc | rfl
  · exact hquote
  · obtain ⟨d, hd, hc⟩ := List.mem_flatMap.mp hc
    exact over_escapeChar hp hq (hs d hd) c hc
  · exact hquote

theorem over_joinTail {α : Type*} {text : α → Text} {xs : List α}
    (h : ∀ x ∈ xs, ∀ c ∈ text x, p c) : ∀ c ∈ joinTail text xs, p c := by
  induction xs with
  | nil => exact fun c hc => by cases hc
  | cons x xs ih =>
    intro c hc
    simp only [joinTail, List.cons_append, List.mem_cons, List.mem_append] at hc
    rcases hc with rfl | rfl | hc | hc
    · exact hp _ (by decide) (by decide)
    · exact hp _ (by decide) (by decide)
    · exact h x (List.mem_cons_self ..) c hc
    · exact ih (fun y hy => h y (List.mem_cons_of_mem _ hy)) c hc

theorem over_bracketed {α : Type*} {text : α → Text} {xs : List α} {a b : Char}
    (ha : 32 ≤ a.toNat ∧ a.toNat < 127) (hb : 32 ≤ b.toNat ∧ b.toNat < 127)
    (h : ∀ x ∈ xs, ∀ c ∈ text x, p c) : ∀ c ∈ a :: joinItems text xs ++ [b], p c := by
  intro c hc
  rw [List.cons_append, List.mem_cons, List.mem_append, List.mem_singleton] at hc
  rcases hc with rfl | hc | rfl
  · exact hp _ ha.1 ha.2
  · cases xs with
    | nil => cases hc
    | cons x xs =>
      rcases List.mem_append.mp hc with hc | hc
      · exact h x (List.mem_cons_self ..) c hc
      · exact over_joinTail hp (fun y hy => h y (List.mem_cons_of_mem _ hy)) c hc
  · exact hp _ hb.1 hb.2

include hq in
theorem over_dumps {j : Json} (h : j.Over q) : ∀ c ∈ j.dumps, p c := by
  have hword : ∀ {s : Text}, (s.all fun c => decide (32 ≤ c.toNat ∧ c.toNat < 127)) = true →
      ∀ c ∈ s, p c := by
    intro s hs c hc
    obtain ⟨hlow, hhigh⟩ := of_decide_eq_true (List.all_eq_true.mp hs c hc)
    exact hp c hlow hhigh
  induction h with
  | null => exact hword (by decide)
  | bool b => cases b <;> exact hword (by decide)
  | int n => exact over_intText hp n
  | float x => exact over_floatText hp x
  | nonFinite x => cases x <;> exact hword (by decide)
  | str hs => exact over_quote hp hq hs
  | arr _ ih =>
    rw [dumps_arr]
    exact over_bracketed hp (by decide) (by decide) ih
  | obj hkeys _ ih =>
    rw [dumps_obj]
    apply over_bracketed hp (by decide) (by decide)
    intro x hx c hc
    simp only [memberText, List.mem_append, List.mem_cons] at hc
    rcases hc with hc | rfl | rfl | hc
    · exact over_quote hp hq (hkeys x hx) c hc
    · exact hp _ (by decide) (by decide)
    · exact hp _ (by decide) (by decide)
    · exact ih x hx c hc

end Characters

end DeerFlow
