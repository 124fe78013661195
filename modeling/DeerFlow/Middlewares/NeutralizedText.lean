import DeerFlow.Middlewares.InputSanitization

/-! What the guardrail leaves of a text. No blocked tag and no boundary token is left, because the
replacements stop what could run into them, and everything else is kept. -/

namespace DeerFlow.Middlewares
open Scan

section Characters
variable {c d : Char}

theorem toLower_cases (c : Char) :
    (65 ≤ c.toNat ∧ c.toNat ≤ 90 ∧ c.toLower.toNat = c.toNat + 32) ∨ c.toLower = c := by
  unfold Char.toLower
  split_ifs with hupper
  · left
    simp only [ge_iff_le, UInt32.le_iff_toNat_le] at hupper
    have hlow : 65 ≤ c.val.toNat := hupper.1
    have hhigh : c.val.toNat ≤ 90 := hupper.2
    refine ⟨hlow, hhigh, ?_⟩
    change (c.val + _).toNat = c.val.toNat + 32
    rw [UInt32.toNat_add]
    have hshift : ('a'.val - 'A'.val).toNat = 32 := by decide
    omega
  · exact .inr rfl

/-- A character that is not a small letter stands only for itself. -/
theorem eq_of_foldCase (hd : ¬ (97 ≤ d.toNat ∧ d.toNat ≤ 122)) (h : foldCase c = d) : c = d := by
  subst h
  unfold foldCase at hd ⊢
  split_ifs at hd ⊢
  · exact absurd (by decide) hd
  · exact absurd (by decide) hd
  · exact absurd (by decide) hd
  · rcases toLower_cases c with ⟨hlow, hhigh, hlower⟩ | hsame
    · omega
    · exact hsame.symm

theorem isAscii_of_foldCase_m (h : foldCase c = 'm') : c = 'm' ∨ c = 'M' := by
  unfold foldCase at h
  split_ifs at h
  · exact absurd h (by decide)
  · exact absurd h (by decide)
  · exact absurd h (by decide)
  · rcases toLower_cases c with ⟨-, -, hlower⟩ | hsame
    · rw [h] at hlower
      have hm : c.toNat = 77 := by
        have hnat : ('m' : Char).toNat = 109 := by decide
        omega
      exact .inr (Char.toNat_inj.mp hm)
    · exact .inl (hsame ▸ h)

theorem foldCase_of_isSpace (h : isSpace c = true) : foldCase c = c := by
  unfold foldCase
  split_ifs with hi hs hk
  · rcases hi with rfl | rfl <;> exact absurd h (by decide)
  · rw [hs] at h
    exact absurd h (by decide)
  · rw [hk] at h
    exact absurd h (by decide)
  · rcases toLower_cases c with ⟨hlow, hhigh, -⟩ | hsame
    · simp only [isSpace, Bool.or_eq_true, Bool.and_eq_true, decide_eq_true_eq] at h
      omega
    · exact hsame

end Characters

section Openings
variable {W : WordClass} {c d : Char} {s u x y gap name rest : Text}

/-- What may stand between the < and the name of a tag. -/
def Gap (gap : Text) : Prop :=
  ∃ a b, (∀ c ∈ a ++ b, isSpace c = true) ∧ (gap = a ++ b ∨ gap = a ++ '/' :: b)

theorem afterSlash_gap (s : Text) : ∃ gap, Gap gap ∧ s = gap ++ afterSlash s := by
  have hspaces (s : Text) : ∀ c ∈ s.takeWhile isSpace, isSpace c = true :=
    fun c hc => List.mem_takeWhile_imp hc
  unfold afterSlash
  split
  · next rest heq =>
    refine ⟨s.takeWhile isSpace ++ '/' :: rest.takeWhile isSpace,
      ⟨s.takeWhile isSpace, rest.takeWhile isSpace, fun c hc => ?_, .inr rfl⟩, ?_⟩
    · exact (List.mem_append.mp hc).elim (hspaces s c) (hspaces rest c)
    · rw [List.append_assoc, List.cons_append, List.takeWhile_append_dropWhile, ← heq,
        List.takeWhile_append_dropWhile]
  · exact ⟨s.takeWhile isSpace, ⟨s.takeWhile isSpace, [], by simpa using hspaces s, by simp⟩,
      List.takeWhile_append_dropWhile.symm⟩

theorem dropWhile_spaces {a : Text} (ha : ∀ c ∈ a, isSpace c = true) (hc : isSpace c = false) :
    (a ++ c :: x).dropWhile isSpace = c :: x := by
  rw [List.dropWhile_append_of_pos ha, List.dropWhile_cons_of_neg (by simp [hc])]

theorem afterSlash_append (hgap : Gap gap) (hc : isSpace c = false) (hslash : c ≠ '/') :
    afterSlash (gap ++ c :: x) = c :: x := by
  obtain ⟨a, b, hspaces, rfl | rfl⟩ := hgap
  · unfold afterSlash
    rw [dropWhile_spaces hspaces hc]
    split
    · next heq => exact absurd (List.cons.inj heq).1 hslash
    · rfl
  · have ha : ∀ c ∈ a, isSpace c = true := fun c hc => hspaces c (List.mem_append_left _ hc)
    have hb : ∀ c ∈ b, isSpace c = true := fun c hc => hspaces c (List.mem_append_right _ hc)
    unfold afterSlash
    rw [List.append_assoc, List.cons_append, dropWhile_spaces ha (by decide)]
    exact dropWhile_spaces hb hc

theorem nameChar (hname : name.map foldCase ∈ blockedTagNames) (hc : c ∈ name) :
    isSpace c = false ∧ c ≠ '/' := by
  have hfold : foldCase c ∈ name.map foldCase := List.mem_map_of_mem hc
  have hnames : ∀ n ∈ blockedTagNames, n.all fun c => !isSpace c && c ≠ '/' := by decide
  have hchar := List.all_eq_true.mp (hnames _ hname) _ hfold
  simp only [Bool.and_eq_true, Bool.not_eq_true', decide_eq_true_eq] at hchar
  refine ⟨?_, ?_⟩
  · by_contra hspace
    rw [Bool.not_eq_false] at hspace
    rw [foldCase_of_isSpace hspace, hspace] at hchar
    exact Bool.noConfusion hchar.1
  · rintro rfl
    exact hchar.2 (by decide)

theorem opensTag_iff : opensTag W s = true ↔ ∃ gap name rest, s = gap ++ (name ++ rest) ∧
    Gap gap ∧ name.map foldCase ∈ blockedTagNames ∧ W.boundary name rest = true := by
  unfold opensTag
  rw [List.any_eq_true]
  constructor
  · rintro ⟨n, hn, h⟩
    obtain ⟨hstarts, hboundary⟩ := Bool.and_eq_true_iff.mp h
    obtain ⟨gap, hgap, hs⟩ := afterSlash_gap s
    refine ⟨gap, (afterSlash s).take n.length, (afterSlash s).drop n.length, ?_, hgap, ?_,
      hboundary⟩
    · rw [List.take_append_drop]
      exact hs
    · rw [List.map_take, ← List.prefix_iff_eq_take.mp (List.isPrefixOf_iff_prefix.mp hstarts)]
      exact hn
  · rintro ⟨gap, name, rest, rfl, hgap, hname, hboundary⟩
    have hne : name ≠ [] := by
      rintro rfl
      exact absurd hname (by decide)
    obtain ⟨c, tail, rfl⟩ := List.exists_cons_of_ne_nil hne
    obtain ⟨hspace, hslash⟩ := nameChar hname (List.mem_cons_self ..)
    refine ⟨_, hname, ?_⟩
    rw [List.cons_append, afterSlash_append hgap hspace hslash, ← List.cons_append,
      List.length_map, List.take_left, List.drop_left, hboundary, List.map_append, Bool.and_true]
    exact List.isPrefixOf_iff_prefix.mpr (List.prefix_append _ _)

/-- The name of a tag without a dash. -/
def plainTagNames : List Text := blockedTagNames.filter ('-' ∉ ·)

/-- Behind a dash the border has been reached, so the name with a dash is not needed. -/
theorem opensTag_iff_plain : opensTag W s = true ↔ ∃ gap name rest, s = gap ++ (name ++ rest) ∧
    Gap gap ∧ name.map foldCase ∈ plainTagNames ∧ W.boundary name rest = true := by
  rw [opensTag_iff]
  constructor
  · rintro ⟨gap, name, rest, rfl, hgap, hname, hboundary⟩
    by_cases hdash : '-' ∈ name.map foldCase
    · have honly : ∀ n ∈ blockedTagNames, '-' ∈ n → n = "system".toList ++ "-reminder".toList := by
        decide
      obtain ⟨front, back, rfl, hfront, hback⟩ :=
        List.map_eq_append_iff.mp (honly _ hname hdash)
      refine ⟨gap, front, back ++ rest, by rw [List.append_assoc], hgap, ?_, ?_⟩
      · rw [hfront]
        decide
      · have hm : front.map foldCase = "syste".toList ++ ['m'] := hfront
        obtain ⟨before, last, rfl, -, hlast⟩ := List.map_eq_append_iff.mp hm
        obtain ⟨c, rfl, hc⟩ := List.map_eq_singleton_iff.mp hlast
        have hdashed : back.map foldCase = '-' :: "reminder".toList := hback
        obtain ⟨d, back, rfl, hd, -⟩ := List.map_eq_cons_iff.mp hdashed
        obtain rfl := eq_of_foldCase (by decide) hd
        have hword : W.isWord c = true := by
          rcases isAscii_of_foldCase_m hc with rfl | rfl <;> exact W.ascii _ (by decide)
        have hborder : W.isWord '-' = false := W.ascii _ (by decide)
        unfold WordClass.boundary
        rw [List.getLast?_concat, List.cons_append, List.head?_cons, Option.any_some,
          Option.any_some, hword, hborder]
        rfl
    · exact ⟨gap, name, rest, rfl, hgap, List.mem_filter.mpr ⟨hname, by simpa using hdash⟩,
        hboundary⟩
  · rintro ⟨gap, name, rest, rfl, hgap, hname, hboundary⟩
    exact ⟨gap, name, rest, rfl, hgap, (List.mem_filter.mp hname).1, hboundary⟩

/-- A character that neither continues a name nor stands before one, and that ends a word. -/
structure Stop (W : WordClass) (d : Char) : Prop where
  space : isSpace d = false
  slash : d ≠ '/'
  name : ∀ n ∈ plainTagNames, foldCase d ∉ n
  word : W.isWord d = false

theorem stop_dash : Stop W '-' :=
  ⟨by decide, by decide, by decide, W.ascii _ (by decide)⟩

theorem stop_bracket : Stop W '[' :=
  ⟨by decide, by decide, by decide, W.ascii _ (by decide)⟩

theorem stop_ampersand : Stop W '&' :=
  ⟨by decide, by decide, by decide, W.ascii _ (by decide)⟩

theorem isSpace_or_slash_of_mem_gap (hgap : Gap gap) (hc : c ∈ gap) :
    isSpace c = true ∨ c = '/' := by
  obtain ⟨a, b, hspaces, rfl | rfl⟩ := hgap
  · exact .inl (hspaces c hc)
  · rcases List.mem_append.mp hc with ha | hb
    · exact .inl (hspaces c (List.mem_append_left _ ha))
    · exact (List.mem_cons.mp hb).elim .inr fun hb => .inl (hspaces c (List.mem_append_right _ hb))

theorem split_before {α : Type} {pre rest u y : List α} {d : α} (h : pre ++ rest = u ++ d :: y)
    (hd : d ∉ pre) : ∃ v, u = pre ++ v ∧ rest = v ++ d :: y := by
  rcases List.append_eq_append_iff.mp h with ⟨v, hu, hrest⟩ | ⟨v, hpre, hrest⟩
  · exact ⟨v, hu, hrest⟩
  · cases v with
    | nil =>
      rw [List.append_nil] at hpre
      exact ⟨[], by rw [hpre, List.append_nil], hrest.symm⟩
    | cons e v =>
      obtain ⟨rfl, -⟩ := List.cons.inj hrest
      exact absurd (hpre ▸ by simp) hd

theorem boundary_append (hd : W.isWord d = false) :
    W.boundary name (rest ++ d :: y) = W.boundary name rest := by
  unfold WordClass.boundary
  cases rest with
  | nil => simp [hd]
  | cons c rest => rfl

/-- What opens before such a character opens without it. -/
theorem opensTag_of_append (hd : Stop W d) (h : opensTag W (u ++ d :: y) = true) :
    opensTag W u = true := by
  obtain ⟨gap, name, rest, hsplit, hgap, hname, hboundary⟩ := opensTag_iff_plain.mp h
  have hout : d ∉ gap ++ name := by
    intro hmem
    rcases List.mem_append.mp hmem with hmem | hmem
    · rcases isSpace_or_slash_of_mem_gap hgap hmem with hspace | hslash
      · exact Bool.noConfusion (hspace.symm.trans hd.space)
      · exact hd.slash hslash
    · exact hd.name _ hname (List.mem_map_of_mem hmem)
  rw [← List.append_assoc] at hsplit
  obtain ⟨v, rfl, rfl⟩ := split_before hsplit.symm hout
  rw [boundary_append hd.word] at hboundary
  exact opensTag_iff_plain.mpr ⟨gap, name, v, List.append_assoc .., hgap, hname, hboundary⟩

/-- A newline at the end opens nothing. -/
theorem opensTag_of_newline (h : opensTag W (u ++ ['\n']) = true) : opensTag W u = true := by
  obtain ⟨gap, name, rest, hsplit, hgap, hname, hboundary⟩ := opensTag_iff.mp h
  have hne : name ≠ [] := by
    rintro rfl
    exact absurd hname (by decide)
  rcases List.eq_nil_or_concat' rest with rfl | ⟨r, e, rfl⟩
  · obtain ⟨front, c, rfl⟩ := List.eq_nil_or_concat' name |>.resolve_left hne
    rw [List.append_nil, ← List.append_assoc] at hsplit
    have hlast := List.append_inj_right' hsplit rfl
    rw [← List.cons.inj hlast |>.1] at hname
    have hspace := (nameChar (c := '\n') hname (by simp)).1
    exact absurd hspace (by decide)
  · rw [← List.append_assoc, ← List.append_assoc] at hsplit
    obtain ⟨hu, hlast⟩ := List.append_inj' hsplit rfl
    rw [← (List.cons.inj hlast).1, boundary_append (W.ascii _ (by decide))] at hboundary
    exact opensTag_iff.mpr ⟨gap, name, r, by rw [hu, List.append_assoc], hgap, hname, hboundary⟩

theorem opensTag_append (hc : W.isWord c = false) (h : opensTag W u = true) :
    opensTag W (u ++ c :: x) = true := by
  obtain ⟨gap, name, rest, rfl, hgap, hname, hboundary⟩ := opensTag_iff.mp h
  refine opensTag_iff.mpr ⟨gap, name, rest ++ c :: x, by simp, hgap, hname, ?_⟩
  rw [boundary_append hc]
  exact hboundary

end Openings

section Tags
variable {W : WordClass} {c d : Char} {s t u x y : Text}

theorem blockedTag_of_ne (hc : c ≠ '<') (s : Text) : blockedTag W (c :: s) = none := by
  unfold blockedTag
  split
  · next heq => exact absurd (List.cons.inj heq).1 hc
  · rfl

theorem blockedTag_eq_none : blockedTag W ('<' :: s) = none ↔ opensTag W s = false := by
  simp [blockedTag]

theorem blockedTag_eq_some (h : blockedTag W s = some t) : ∃ rest, s = '<' :: rest ∧
    t = s.takeWhile (· ≠ '>') ++ (s.dropWhile (· ≠ '>')).take 1 := by
  unfold blockedTag at h
  split at h
  · next rest =>
    obtain ⟨-, h⟩ := Option.ite_none_right_eq_some.mp h
    exact ⟨rest, rfl, (Option.some.inj h).symm⟩
  · cases h

theorem lawful_blockedTag (W : WordClass) : (blockedTag W).Lawful := by
  intro s t h
  obtain ⟨-, -, rfl⟩ := blockedTag_eq_some h
  conv_rhs => rw [← List.takeWhile_append_dropWhile (p := (· ≠ '>')) (l := s)]
  exact (List.prefix_append_right_inj _).mpr (List.take_prefix _ _)

theorem blockedTag_cons (h : blockedTag W s = some t) : ∃ x, t = '<' :: x := by
  obtain ⟨rest, rfl, rfl⟩ := blockedTag_eq_some h
  rw [List.takeWhile_cons_of_pos (by decide)]
  exact ⟨_, rfl⟩

theorem blockedTag_ne_nil (s : Text) : blockedTag W s ≠ some [] := by
  intro h
  obtain ⟨x, hx⟩ := blockedTag_cons h
  cases hx

/-- A tag that is not found is not found where no other one opens. -/
theorem blockedTag_of_opens {e : Char} {v v' : Text}
    (hopens : opensTag W v' = true → opensTag W v = true) (h : blockedTag W (e :: v) = none) :
    blockedTag W (e :: v') = none := by
  by_cases he : e = '<'
  · subst he
    rw [blockedTag_eq_none] at h ⊢
    by_contra hopened
    rw [Bool.not_eq_false] at hopened
    exact Bool.noConfusion (h.symm.trans (hopens hopened))
  · exact blockedTag_of_ne he _

/-- A tag that opens before a character that ends a word opens without it, and the other way. -/
theorem blockedTag_append_stop (hd : Stop W d) (hu : u ≠ []) (h : blockedTag W u = none) :
    blockedTag W (u ++ d :: y) = none := by
  obtain ⟨e, v, rfl⟩ := List.exists_cons_of_ne_nil hu
  exact blockedTag_of_opens (opensTag_of_append hd) h

theorem blockedTag_of_append (hc : W.isWord c = false) (hu : u ≠ [])
    (h : blockedTag W (u ++ c :: x) = none) : blockedTag W u = none := by
  obtain ⟨e, v, rfl⟩ := List.exists_cons_of_ne_nil hu
  exact blockedTag_of_opens (opensTag_append hc) h

theorem blockedTag_append_newline (hu : u ≠ []) (h : blockedTag W u = none) :
    blockedTag W (u ++ ['\n']) = none := by
  obtain ⟨e, v, rfl⟩ := List.exists_cons_of_ne_nil hu
  exact blockedTag_of_opens opensTag_of_newline h

theorem stops_blockedTag (hc : W.isWord c = false) (hd : Stop W d) :
    Stops (blockedTag W) c d :=
  fun _ _ _ hu hnone => blockedTag_append_stop hd hu (blockedTag_of_append hc hu hnone)

theorem escapeTag_cons (x : Text) : ∃ y, escapeTag ('<' :: x) = '&' :: y := ⟨_, rfl⟩

theorem not_mem_of_all {text : Text} (h : (text.all fun d => d ≠ c) = true) : c ∉ text := by
  intro hmem
  simpa using List.all_eq_true.mp h c hmem

theorem not_mem_escapeTag (tag : Text) : '<' ∉ escapeTag tag ∧ '>' ∉ escapeTag tag := by
  have hchar (d : Char) : '<' ∉ escapeChar d ∧ '>' ∉ escapeChar d := by
    unfold escapeChar
    split_ifs with hlt hgt
    · exact ⟨not_mem_of_all (by decide), not_mem_of_all (by decide)⟩
    · exact ⟨not_mem_of_all (by decide), not_mem_of_all (by decide)⟩
    · exact ⟨fun h => hlt (List.mem_singleton.mp h).symm,
        fun h => hgt (List.mem_singleton.mp h).symm⟩
  constructor
  · intro h
    obtain ⟨d, -, hd⟩ := List.mem_flatMap.mp h
    exact (hchar d).1 hd
  · intro h
    obtain ⟨d, -, hd⟩ := List.mem_flatMap.mp h
    exact (hchar d).2 hd

theorem blockedTag_of_not_mem (h : '<' ∉ s) (hu : u <:+ s) (hne : u ≠ []) :
    blockedTag W (u ++ y) = none := by
  obtain ⟨c, v, rfl⟩ := List.exists_cons_of_ne_nil hne
  apply blockedTag_of_ne
  rintro rfl
  exact h (hu.subset (List.mem_cons_self ..))

theorem breaks_escapeTag (h : blockedTag W s = some t) : Breaks (blockedTag W) escapeTag t := by
  obtain ⟨x, rfl⟩ := blockedTag_cons h
  obtain ⟨y, hy⟩ := escapeTag_cons x
  refine ⟨⟨'<', x, '&', y, rfl, hy, ?_⟩, fun u z hu hne => ?_⟩
  · exact stops_blockedTag (W.ascii _ (by decide)) stop_ampersand
  · exact blockedTag_of_not_mem (not_mem_escapeTag _).1 hu hne

theorem absent_escapeTags (W : WordClass) (text : Text) :
    Absent (blockedTag W) (escapeTags W text) :=
  absent_subst (lawful_blockedTag W) blockedTag_ne_nil (fun _ _ => breaks_escapeTag) text

end Tags

section Tokens
variable {W : WordClass} {c d : Char} {s t u x y w : Text}

theorem boundaryToken_eq_some (h : boundaryToken s = some t) :
    (t = userInputBegin ∨ t = userInputEnd) ∧ t <+: s := by
  unfold boundaryToken at h
  split_ifs at h with hbegin hend
  · cases h
    exact ⟨.inl rfl, List.isPrefixOf_iff_prefix.mp hbegin⟩
  · cases h
    exact ⟨.inr rfl, List.isPrefixOf_iff_prefix.mp hend⟩

theorem boundaryToken_eq_none : boundaryToken s = none ↔
    ¬ userInputBegin <+: s ∧ ¬ userInputEnd <+: s := by
  unfold boundaryToken
  rw [← List.isPrefixOf_iff_prefix, ← List.isPrefixOf_iff_prefix]
  split_ifs with hbegin hend
  · simp [hbegin]
  · simp [hend]
  · simp [hbegin, hend]

theorem lawful_boundaryToken : boundaryToken.Lawful := fun _ _ h => (boundaryToken_eq_some h).2

theorem neutralForm_cons (ht : t = userInputBegin ∨ t = userInputEnd) :
    ∃ x y, t = '-' :: x ∧ neutralForm t = '[' :: y := by
  rcases ht with rfl | rfl
  · exact ⟨_, _, rfl, rfl⟩
  · exact ⟨_, _, rfl, rfl⟩

theorem boundaryToken_ne_nil (s : Text) : boundaryToken s ≠ some [] := by
  intro h
  obtain ⟨x, y, hx, -⟩ := neutralForm_cons (boundaryToken_eq_some h).1
  cases hx

theorem not_mem_neutralForm (ht : t = userInputBegin ∨ t = userInputEnd) :
    '<' ∉ neutralForm t ∧ '-' ∉ neutralForm t := by
  rcases ht with rfl | rfl
  · exact ⟨not_mem_of_all (by decide), not_mem_of_all (by decide)⟩
  · exact ⟨not_mem_of_all (by decide), not_mem_of_all (by decide)⟩

/-- A word is read before a character that it does not have without the rest of the text. -/
theorem prefix_append_cons (hd : d ∉ w) : w <+: u ++ d :: y ↔ w <+: u := by
  constructor
  · rintro ⟨rest, hrest⟩
    obtain ⟨v, rfl, -⟩ := split_before hrest hd
    exact List.prefix_append w v
  · exact fun h => h.trans (List.prefix_append _ _)

/-- A token does not run over a character that it does not have. -/
theorem boundaryToken_append (hbegin : d ∉ userInputBegin) (hend : d ∉ userInputEnd) :
    boundaryToken (u ++ d :: y) = boundaryToken u := by
  unfold boundaryToken
  simp only [List.isPrefixOf_iff_prefix, prefix_append_cons hbegin, prefix_append_cons hend]

theorem boundaryToken_of_ne (hc : c ≠ '-') (s : Text) : boundaryToken (c :: s) = none := by
  rw [boundaryToken_eq_none]
  exact ⟨fun h => hc (List.cons_prefix_cons.mp h).1.symm,
    fun h => hc (List.cons_prefix_cons.mp h).1.symm⟩

theorem breaks_neutralForm (h : boundaryToken s = some t) :
    Breaks boundaryToken neutralForm t := by
  have ht := (boundaryToken_eq_some h).1
  obtain ⟨x, y, hx, hy⟩ := neutralForm_cons ht
  refine ⟨⟨'-', x, '[', y, hx, hy, ?_⟩, fun u z hu hne => ?_⟩
  · intro u x y hu hnone
    rw [boundaryToken_append (not_mem_of_all (by decide)) (not_mem_of_all (by decide))]
    rw [boundaryToken_eq_none] at hnone ⊢
    exact ⟨fun h => hnone.1 (h.trans (List.prefix_append _ _)),
      fun h => hnone.2 (h.trans (List.prefix_append _ _))⟩
  · obtain ⟨c, v, rfl⟩ := List.exists_cons_of_ne_nil hne
    apply boundaryToken_of_ne
    rintro rfl
    exact (not_mem_neutralForm ht).2 (hu.subset (List.mem_cons_self ..))

theorem absent_neutralizeBoundaryTokens (text : Text) :
    Absent boundaryToken (neutralizeBoundaryTokens text) :=
  absent_subst lawful_boundaryToken boundaryToken_ne_nil (fun _ _ => breaks_neutralForm) text

theorem tags_break_neutralForm (h : boundaryToken s = some t) :
    Breaks (blockedTag W) neutralForm t := by
  have ht := (boundaryToken_eq_some h).1
  obtain ⟨x, y, hx, hy⟩ := neutralForm_cons ht
  refine ⟨⟨'-', x, '[', y, hx, hy, ?_⟩, fun u z hu hne => ?_⟩
  · exact stops_blockedTag (W.ascii _ (by decide)) stop_bracket
  · exact blockedTag_of_not_mem (not_mem_neutralForm ht).1 hu hne

/-- Neutralizing tokens makes no tag. -/
theorem tagFree_neutralizeBoundaryTokens (h : Absent (blockedTag W) s) :
    Absent (blockedTag W) (neutralizeBoundaryTokens s) :=
  h.subst lawful_boundaryToken fun _ _ => tags_break_neutralForm

/-- A text without the tokens, as a text that does not contain them. -/
theorem absent_boundaryToken_iff : Absent boundaryToken s ↔
    ¬ userInputBegin <:+: s ∧ ¬ userInputEnd <:+: s := by
  have hread (u : Text) (hu : u ≠ []) (h : boundaryToken u = none) : ¬ userInputBegin <+: u ∧
      ¬ userInputEnd <+: u := boundaryToken_eq_none.mp h
  rw [List.infix_iff_prefix_suffix, List.infix_iff_prefix_suffix]
  constructor
  · intro h
    constructor
    · rintro ⟨u, hprefix, hu⟩
      have hne : u ≠ [] := fun hnil => absurd (List.prefix_nil.mp (hnil ▸ hprefix)) (by decide)
      exact (boundaryToken_eq_none.mp (h u hu hne)).1 hprefix
    · rintro ⟨u, hprefix, hu⟩
      have hne : u ≠ [] := fun hnil => absurd (List.prefix_nil.mp (hnil ▸ hprefix)) (by decide)
      exact (boundaryToken_eq_none.mp (h u hu hne)).2 hprefix
  · rintro ⟨hbegin, hend⟩ u hu -
    exact boundaryToken_eq_none.mpr ⟨fun h => hbegin ⟨u, h, hu⟩, fun h => hend ⟨u, h, hu⟩⟩

end Tokens

section Kept
variable {W : WordClass} {c d : Char} {s w text : Text}

/-- Outside of tags and tokens every character is kept. -/
inductive Neutralized (W : WordClass) : Text → Text → Prop
  | done : Neutralized W [] []
  | keep (c : Char) {s t : Text} : Neutralized W s t → Neutralized W (c :: s) (c :: t)
  | token {w s t : Text} : boundaryToken (w ++ s) = some w → Neutralized W s t →
      Neutralized W (w ++ s) (neutralForm w ++ t)
  | tag {w s t : Text} : blockedTag W (w ++ s) = some w → Neutralized W s t →
      Neutralized W (w ++ s) (neutralizeBoundaryTokens (escapeTag w) ++ t)

theorem neutralize_cons_of_none (h : boundaryToken (c :: s) = none) :
    neutralizeBoundaryTokens (c :: s) = c :: neutralizeBoundaryTokens s := by
  have hscan : scan boundaryToken (c :: s) = .char c :: scan boundaryToken s := by
    rw [scan, scanFrom, h]
    rfl
  unfold neutralizeBoundaryTokens
  rw [subst_eq, subst_eq, hscan]
  rfl

theorem neutralize_token (h : boundaryToken (w ++ s) = some w) :
    neutralizeBoundaryTokens (w ++ s) = neutralForm w ++ neutralizeBoundaryTokens s := by
  obtain ⟨x, y, rfl, -⟩ := neutralForm_cons (boundaryToken_eq_some h).1
  have hscan : scan boundaryToken ('-' :: x ++ s) = .hit ('-' :: x) :: scan boundaryToken s := by
    rw [List.cons_append] at h ⊢
    rw [scan, scanFrom, h]
    exact congrArg (Piece.hit _ :: ·) (scanFrom_append x s)
  unfold neutralizeBoundaryTokens
  rw [subst_eq, subst_eq, hscan]
  rfl

/-- The tokens on the two sides of a character that they do not have are replaced by themselves. -/
theorem neutralize_append (hbegin : d ∉ userInputBegin) (hend : d ∉ userInputEnd) (u y : Text) :
    neutralizeBoundaryTokens (u ++ d :: y) =
      neutralizeBoundaryTokens u ++ d :: neutralizeBoundaryTokens y := by
  have hscan : scan boundaryToken (u ++ d :: y) =
      scan boundaryToken u ++ .char d :: scan boundaryToken y :=
    scanFrom_stop lawful_boundaryToken (by decide)
      (fun x y => boundaryToken_append hbegin hend) u y (Nat.zero_le _)
  unfold neutralizeBoundaryTokens
  rw [subst_eq, subst_eq, subst_eq, hscan, List.flatMap_append]
  rfl

theorem boundaryToken_token (hw : w = userInputBegin ∨ w = userInputEnd) (s : Text) :
    boundaryToken (w ++ s) = some w := by
  rcases hw with rfl | rfl
  · exact if_pos (List.isPrefixOf_iff_prefix.mpr (List.prefix_append _ _))
  · have hother : ¬ userInputBegin.isPrefixOf (userInputEnd ++ s) = true := by
      rw [List.isPrefixOf_iff_prefix]
      intro h
      rcases List.prefix_or_prefix_of_prefix h (List.prefix_append userInputEnd s) with h | h
      · exact absurd h (by decide)
      · exact absurd h (by decide)
    rw [boundaryToken, if_neg hother]
    exact if_pos (List.isPrefixOf_iff_prefix.mpr (List.prefix_append _ _))

theorem reads_append_right {find : Pattern} {ps qs : List Piece} (h : Scan.Reads find (ps ++ qs)) :
    Scan.Reads find qs := by
  induction ps with
  | nil => exact h
  | cons p ps ih =>
    cases p with
    | char c => exact ih h.2
    | hit t => exact ih h.2.2

/-- A word that no escaped tag can start is read in characters that were kept. -/
theorem chars_of_prefix {ps : List Piece} (hps : Scan.Reads (blockedTag W) ps) (hw : '&' ∉ w)
    (h : w <+: ps.flatMap (Piece.replaced escapeTag)) : ∃ qs, ps = w.map .char ++ qs := by
  induction ps generalizing w with
  | nil => exact ⟨[], by rw [List.prefix_nil.mp h]; rfl⟩
  | cons p ps ih =>
    by_cases hne : w = []
    · exact ⟨p :: ps, by rw [hne]; rfl⟩
    obtain ⟨c, w, rfl⟩ := List.exists_cons_of_ne_nil hne
    cases p with
    | char d =>
      have hcons : c :: w <+: d :: ps.flatMap (Piece.replaced escapeTag) := h
      obtain ⟨rfl, hrest⟩ := List.cons_prefix_cons.mp hcons
      obtain ⟨qs, rfl⟩ := ih hps.2 (fun hmem => hw (List.mem_cons_of_mem _ hmem)) hrest
      exact ⟨qs, rfl⟩
    | hit t =>
      obtain ⟨x, rfl⟩ := blockedTag_cons hps.2.1
      obtain ⟨y, hy⟩ := escapeTag_cons x
      have hcons : c :: w <+: escapeTag ('<' :: x) ++ ps.flatMap (Piece.replaced escapeTag) := h
      rw [hy, List.cons_append] at hcons
      obtain ⟨rfl, -⟩ := List.cons_prefix_cons.mp hcons
      exact absurd (List.mem_cons_self ..) hw

theorem blockedTag_ends (h : blockedTag W (w ++ s) = some w) : s = [] ∨ ∃ v, w = v ++ ['>'] := by
  obtain ⟨rest, -, hw⟩ := blockedTag_eq_some h
  have hsplit := List.takeWhile_append_dropWhile (p := (· ≠ '>')) (l := w ++ s)
  rcases hdrop : (w ++ s).dropWhile (· ≠ '>') with _ | ⟨c, tail⟩
  · rw [hdrop, List.append_nil] at hsplit
    rw [hdrop, List.take_nil, List.append_nil, hsplit] at hw
    exact .inl (List.append_right_eq_self.mp hw.symm)
  · have hc : c = '>' := by
      have hhead := List.head?_dropWhile_not (p := (· ≠ '>')) (l := w ++ s)
      rw [hdrop] at hhead
      simpa using hhead
    rw [hdrop, hc] at hw
    exact .inr ⟨_, hw⟩

theorem neutralize_tag {ps : List Piece} (hps : Scan.Reads (blockedTag W) ps)
    (h : blockedTag W (w ++ render ps) = some w) :
    neutralizeBoundaryTokens (escapeTag w ++ ps.flatMap (Piece.replaced escapeTag)) =
      neutralizeBoundaryTokens (escapeTag w) ++
        neutralizeBoundaryTokens (ps.flatMap (Piece.replaced escapeTag)) := by
  rcases blockedTag_ends h with hnil | ⟨v, rfl⟩
  · have hps : ps = [] := by
      cases ps with
      | nil => rfl
      | cons p ps =>
        cases p with
        | char c => cases hnil
        | hit t => exact absurd (List.append_eq_nil_iff.mp hnil).1 hps.1
    rw [hps]
    exact (List.append_nil _).symm ▸ (List.append_nil _).symm
  · have hescaped : escapeTag (v ++ ['>']) = (escapeTag v ++ "&gt".toList) ++ [';'] := by
      rw [escapeTag, List.flatMap_append, List.append_assoc]
      rfl
    have hbegin : ';' ∉ userInputBegin := not_mem_of_all (by decide)
    have hend : ';' ∉ userInputEnd := not_mem_of_all (by decide)
    rw [hescaped, List.append_assoc, List.singleton_append, neutralize_append hbegin hend,
      neutralize_append hbegin hend, List.append_assoc]
    rfl

theorem neutralized_pieces {ps : List Piece} (h : Scan.Reads (blockedTag W) ps) :
    Neutralized W (render ps)
      (neutralizeBoundaryTokens (ps.flatMap (Piece.replaced escapeTag))) := by
  induction hn : ps.length using Nat.strong_induction_on generalizing ps with
  | _ n ih =>
    cases ps with
    | nil => exact .done
    | cons p ps =>
      cases p with
      | hit w =>
        have hrest := ih ps.length (by simp at hn; omega) h.2.2 rfl
        have hout := neutralize_tag h.2.2 h.2.1
        change Neutralized W (w ++ render ps)
          (neutralizeBoundaryTokens (escapeTag w ++ ps.flatMap (Piece.replaced escapeTag)))
        rw [hout]
        exact .tag h.2.1 hrest
      | char c =>
        change Neutralized W (c :: render ps)
          (neutralizeBoundaryTokens (c :: ps.flatMap (Piece.replaced escapeTag)))
        rcases hfound : boundaryToken (c :: ps.flatMap (Piece.replaced escapeTag)) with _ | w
        · rw [neutralize_cons_of_none hfound]
          exact .keep c (ih ps.length (by simp at hn; omega) h.2 rfl)
        · obtain ⟨hw, hprefix⟩ := boundaryToken_eq_some hfound
          have hamp : '&' ∉ w := by
            rcases hw with rfl | rfl <;> exact not_mem_of_all (by decide)
          have hpieces : Scan.Reads (blockedTag W) (.char c :: ps) := h
          obtain ⟨qs, hqs⟩ := chars_of_prefix hpieces hamp hprefix
          have hlength : qs.length < n := by
            have hne : w ≠ [] := by rcases hw with rfl | rfl <;> decide
            have hpos := List.length_pos_of_ne_nil hne
            rw [← hn, hqs, List.length_append, List.length_map]
            omega
          have htext : c :: render ps = w ++ render qs := by
            change render (.char c :: ps) = _
            rw [hqs, render_append, render_char]
          have hout : c :: ps.flatMap (Piece.replaced escapeTag) =
              w ++ qs.flatMap (Piece.replaced escapeTag) := by
            change (Piece.char c :: ps).flatMap (Piece.replaced escapeTag) = _
            rw [hqs, List.flatMap_append, List.flatMap_map]
            exact congrArg (· ++ _) (List.flatMap_singleton' w)
          rw [htext, hout, neutralize_token (boundaryToken_token hw _)]
          refine .token (boundaryToken_token hw _) (ih qs.length hlength ?_ rfl)
          exact reads_append_right (hqs ▸ h : Scan.Reads (blockedTag W) (w.map .char ++ qs))

theorem neutralized_escapeTags (W : WordClass) (text : Text) :
    Neutralized W text (neutralizeBoundaryTokens (escapeTags W text)) := by
  have hreads : Scan.Reads (blockedTag W) (scan (blockedTag W) text) :=
    reads_scanFrom (lawful_blockedTag W) blockedTag_ne_nil 0 text
  have hpieces := neutralized_pieces hreads
  rw [escapeTags, subst_eq]
  rwa [render_scan (lawful_blockedTag W)] at hpieces

theorem Neutralized.refl (W : WordClass) (text : Text) : Neutralized W text text := by
  induction text with
  | nil => exact .done
  | cons c text ih => exact .keep c ih

theorem isSpace_of_blank (h : stripSpace text = []) (hc : c ∈ text) : isSpace c = true := by
  have hrest := List.rdropWhile_eq_nil_iff.mp h
  have hnone : text.dropWhile isSpace = [] := by
    by_contra hne
    obtain ⟨d, rest, hcons⟩ := List.exists_cons_of_ne_nil hne
    have hhead := List.head?_dropWhile_not isSpace text
    rw [hcons] at hhead
    have hspace := hrest d (hcons ▸ List.mem_cons_self ..)
    simp [hspace] at hhead
  exact List.dropWhile_eq_nil_iff.mp hnone c hc

/-- A blank text has neither tags nor tokens. -/
theorem absent_of_blank (h : stripSpace text = []) :
    Absent (blockedTag W) text ∧ Absent boundaryToken text := by
  constructor
  · rintro (_ | ⟨c, u⟩) hu hne
    · exact absurd rfl hne
    · apply blockedTag_of_ne
      rintro rfl
      exact absurd (isSpace_of_blank h (hu.subset (List.mem_cons_self ..))) (by decide)
  · rintro (_ | ⟨c, u⟩) hu hne
    · exact absurd rfl hne
    · apply boundaryToken_of_ne
      rintro rfl
      exact absurd (isSpace_of_blank h (hu.subset (List.mem_cons_self ..))) (by decide)

theorem neutralizeUntrustedTags_absent (W : WordClass) (text : Text) :
    Absent (blockedTag W) (neutralizeUntrustedTags W text) ∧
      Absent boundaryToken (neutralizeUntrustedTags W text) ∧
      Neutralized W text (neutralizeUntrustedTags W text) := by
  unfold neutralizeUntrustedTags
  split_ifs with hblank
  · obtain ⟨htags, htokens⟩ := absent_of_blank (W := W) hblank
    exact ⟨htags, htokens, .refl W text⟩
  · exact ⟨tagFree_neutralizeBoundaryTokens (absent_escapeTags W text),
      absent_neutralizeBoundaryTokens _, neutralized_escapeTags W text⟩

theorem neutralizeUntrustedTags_of_absent (htags : Absent (blockedTag W) text)
    (htokens : Absent boundaryToken text) : neutralizeUntrustedTags W text = text := by
  unfold neutralizeUntrustedTags
  split_ifs
  · rfl
  · rw [escapeTags, subst_of_absent htags]
    exact subst_of_absent htokens _

end Kept

/-- Nothing blocked is left of a text, neutralizing it again changes nothing, and outside of tags
and tokens it is kept. -/
theorem neutralizeUntrustedTags_complete (W : WordClass) (text : Text) :
    let out := neutralizeUntrustedTags W text
    (∀ u, u <:+ out → blockedTag W u = none) ∧ ¬ userInputBegin <:+: out ∧
      ¬ userInputEnd <:+: out ∧ neutralizeUntrustedTags W out = out ∧ Neutralized W text out := by
  intro out
  obtain ⟨htags, htokens, hkept⟩ := neutralizeUntrustedTags_absent W text
  obtain ⟨hbegin, hend⟩ := absent_boundaryToken_iff.mp htokens
  refine ⟨fun u hu => ?_, hbegin, hend, ?_, hkept⟩
  · by_cases hne : u = []
    · rw [hne]
      rfl
    · exact htags u hu hne
  · exact neutralizeUntrustedTags_of_absent htags htokens

end DeerFlow.Middlewares
