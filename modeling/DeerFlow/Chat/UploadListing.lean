import DeerFlow.Chat.UploadedFiles
import DeerFlow.Lib.Except
import DeerFlow.Lib.JsonRoundTrip

/-! Whether the browser reads the files that a block lists. The pattern wants the path
on the line after the size, where the channel manager writes the kind of the file,
and it reads the digits of a size without its unit. -/

namespace DeerFlow.Chat

section Channel
variable {f : UploadedFile} {files : List UploadedFile} {l : Text}

/-- Where the mark of a path begins a line, the line before it ends with this character. -/
def Below (c : Char) (l m : Text) : Prop :=
  "Path:".toList <+: m.dropWhile isWhiteSpace → l.getLast? = some c

theorem below_mark {ls : List Text} {c : Char} {p gap q : Text} (hls : ∀ l ∈ ls, '\n' ∉ l)
    (hbelow : ls.IsChain (Below c)) (hbreak : '\n' ∈ gap) (hgap : ∀ d ∈ gap, isWhiteSpace d = true)
    (h : writeLines ls = p ++ ')' :: gap ++ "Path:".toList ++ q) :
    c = ')' ∨ isWhiteSpace c = true := by
  -- the last newline of the gap
  obtain ⟨g₂, g₁, hsplit, hlast⟩ := List.eq_append_cons_of_mem (List.mem_reverse.mpr hbreak)
  have heq : gap = g₁.reverse ++ '\n' :: g₂.reverse := by
    simpa using congrArg List.reverse hsplit
  have hspace₁ : ∀ d ∈ g₁.reverse, isWhiteSpace d = true := fun d hd =>
    hgap d (by simp_all)
  have hspace₂ : ∀ d ∈ g₂.reverse, isWhiteSpace d = true := fun d hd =>
    hgap d (by simp_all)
  have hcut : writeLines ls =
      (p ++ ')' :: g₁.reverse) ++ '\n' :: (g₂.reverse ++ "Path:".toList ++ q) := by
    rw [h, heq]
    simp
  obtain ⟨before, l, after, rfl, hbefore, hafter⟩ := writeLines_split hls hcut
  have hword : '\n' ∉ g₂.reverse ++ "Path:".toList := by
    simp [hlast]
  obtain ⟨m, ms, rfl, r, rfl⟩ := prefix_writeLines (by simp) hword ⟨q, hafter⟩
  have hmark : "Path:".toList <+:
      (g₂.reverse ++ "Path:".toList ++ r).dropWhile isWhiteSpace := by
    rw [List.append_assoc, List.dropWhile_append_of_pos hspace₂]
    exact ⟨r, rfl⟩
  have hend : l.getLast? = some c :=
    (List.isChain_cons_cons.mp (List.isChain_append.mp hbelow).2.1).1 hmark
  have hmem : c ∈ ')' :: g₁.reverse := by
    have hread := congrArg List.getLast? hbefore
    rw [List.getLast?_append_cons, List.getLast?_append, hend] at hread
    exact List.mem_of_getLast? hread
  rcases List.mem_cons.mp hmem with hbracket | hg
  · exact .inl hbracket
  · exact .inr (hspace₁ c hg)

theorem below_of_unmarked {c : Char} {l m : Text}
    (h : ¬ "Path:".toList <+: m.dropWhile isWhiteSpace) : Below c l m := fun hmark => absurd hmark h

theorem below_of_forall_unmarked {c : Char} {ls : List Text}
    (h : ∀ m ∈ ls, ¬ "Path:".toList <+: m.dropWhile isWhiteSpace) : ls.IsChain (Below c) := by
  induction ls with
  | nil => exact .nil
  | cons l ls ih =>
    obtain ⟨-, hrest⟩ := List.forall_mem_cons.mp h
    refine List.isChain_cons.mpr ⟨fun m hm => ?_, ih hrest⟩
    exact below_of_unmarked (hrest m (List.mem_of_mem_head? hm))

theorem nameLine_unmarked (f : UploadedFile) :
    ¬ "Path:".toList <+: (nameLine f).dropWhile isWhiteSpace := by
  have hdash : (nameLine f).dropWhile isWhiteSpace = '-' :: (nameLine f).drop 1 := rfl
  rw [hdash]
  intro h
  exact absurd (List.cons_prefix_cons.mp h).1 (by decide)

theorem typeLine_unmarked (f : UploadedFile) :
    ¬ "Path:".toList <+: (typeLine f).dropWhile isWhiteSpace := by
  unfold typeLine
  split <;> decide

theorem getLast?_typeLine (f : UploadedFile) : (typeLine f).getLast? = some 'e' := by
  unfold typeLine
  split <;> decide

theorem below_channelEntries (files : List UploadedFile) {rest : List Text} (hrest : rest.IsChain (Below 'e'))
    (hhead : ∀ m ∈ rest.head?, ¬ "Path:".toList <+: m.dropWhile isWhiteSpace) :
    (files.flatMap channelEntry ++ rest).IsChain (Below 'e') ∧
      ∀ m ∈ (files.flatMap channelEntry ++ rest).head?,
        ¬ "Path:".toList <+: m.dropWhile isWhiteSpace := by
  induction files with
  | nil => exact ⟨hrest, hhead⟩
  | cons f files ih =>
    obtain ⟨hchain, hfirst⟩ := ih
    rw [List.flatMap_cons, List.append_assoc]
    constructor
    · refine .cons_cons (below_of_unmarked (typeLine_unmarked f)) ?_
      refine .cons_cons (fun _ => getLast?_typeLine f) ?_
      refine .cons_cons (below_of_unmarked (by decide)) ?_
      exact List.isChain_cons.mpr ⟨fun m hm => below_of_unmarked (hfirst m hm), hchain⟩
    · intro m hm
      rw [← Option.some.inj hm]
      exact nameLine_unmarked f

theorem uploadsBlock_eq (lines : List Text) : uploadsBlock lines =
    writeLines (openTag "uploaded_files" :: lines) ++ closeTag "uploaded_files" :=
  intercalate_newline (openTag "uploaded_files" :: lines) (closeTag "uploaded_files")

theorem mem_printedSize {p : PrintedSize} {c : Char} (h : c ∈ p.text) :
    c.isDigit = true ∨ c ∈ ['.', ' ', 'K', 'M', 'B'] := by
  unfold PrintedSize.text at h
  have hdigit {n : Nat} (hn : c ∈ Nat.toDigits 10 n) : c.isDigit = true :=
    Nat.isDigit_of_mem_toDigits (by decide) (by decide) hn
  rcases List.mem_append.mp h with h | h
  · rcases List.mem_append.mp h with h | h
    · exact .inl (hdigit h)
    · rcases List.mem_cons.mp h with rfl | h
      · exact .inr (by decide)
      · exact .inl (hdigit h)
  · right
    cases hunit : p.unit with
    | kb =>
      rw [hunit] at h
      have hsub : SizeUnit.kb.label.toList ⊆ ['.', ' ', 'K', 'M', 'B'] := by decide
      exact hsub h
    | mb =>
      rw [hunit] at h
      have hsub : SizeUnit.mb.label.toList ⊆ ['.', ' ', 'K', 'M', 'B'] := by decide
      exact hsub h

theorem notMem_printedSize {c : Char} (hdigit : c.isDigit = false)
    (hother : c ∉ ['.', ' ', 'K', 'M', 'B']) (p : PrintedSize) : c ∉ p.text := by
  intro hmem
  rcases mem_printedSize hmem with h | h
  · rw [hdigit] at h
    cases h
  · exact hother h

/-- A file as the backend lists it: its name is one that it accepts, without a line break. -/
structure Listed (f : UploadedFile) : Prop where
  accepted : ∃ name, Gateway.normalizeFilename f.filename = .ok name
  unbroken : '\n' ∉ f.filename
  path : f.path = "/mnt/user-data/uploads/".toList ++ f.filename

theorem nameLine_unbroken (h : Listed f) : '\n' ∉ nameLine f := by
  have hsize : '\n' ∉ (printedSize f.size).text :=
    notMem_printedSize (by decide) (by decide) _
  unfold nameLine
  simp only [List.mem_append, h.unbroken, hsize, or_false]
  decide

theorem pathLine_unbroken (h : Listed f) : '\n' ∉ pathLine f := by
  unfold pathLine
  rw [h.path]
  simp only [List.mem_append, h.unbroken, or_false]
  decide

theorem typeLine_unbroken (f : UploadedFile) : '\n' ∉ typeLine f := by
  unfold typeLine
  split <;> decide

theorem channelEntry_unbroken (h : Listed f) : ∀ l ∈ channelEntry f, '\n' ∉ l := by
  intro l hl
  simp only [channelEntry, List.mem_cons, List.not_mem_nil, or_false] at hl
  rcases hl with rfl | rfl | rfl | rfl
  · exact nameLine_unbroken h
  · exact typeLine_unbroken f
  · exact pathLine_unbroken h
  · exact List.not_mem_nil

/-- No entry's path begins on such a line. -/
def Unmarked (l : Text) : Prop := '\n' ∉ l ∧ ¬ "Path:".toList <+: l.dropWhile isWhiteSpace

/-- Nothing else that the reader looks for is in such a line. -/
def Quiet (l : Text) : Prop :=
  ¬ closeTag "uploaded_files" <:+: l ∧ ¬ "No files have been uploaded yet.".toList <:+: l ∧
    ¬ "(empty)".toList <:+: l

instance : DecidablePred Unmarked := fun _ => inferInstanceAs (Decidable (_ ∧ _))

instance : DecidablePred Quiet := fun _ => inferInstanceAs (Decidable (_ ∧ _))

theorem fixed_header : ∀ l ∈ uploadsHeader, Unmarked l ∧ Quiet l ∧ ¬ "- ".toList <:+: l := by
  rw [uploadsHeader, toList_literal (s := "The following files were uploaded in this message:") rfl]
  decide +kernel

theorem fixed_footer : (∀ l ∈ uploadsFooter, Unmarked l ∧ Quiet l) ∧
    scanFiles 0 (writeLines uploadsFooter) = [] := by
  rw [show uploadsFooter = _ from map_toList_eq (.cons (toList_literal rfl)
    (.cons (toList_append_literal rfl rfl) (.cons (toList_literal rfl) (.cons (toList_literal rfl)
      (.cons (toList_literal rfl) (.cons (toList_literal rfl)
        (.cons (toList_append_literal rfl rfl) .nil)))))))]
  decide +kernel

theorem fixed_channelFooter : ∀ l ∈ channelFooter, Unmarked l := by
  rw [show channelFooter = _ from map_toList_eq (.cons (toList_literal rfl)
    (.cons (toList_append_literal rfl rfl) .nil))]
  decide +kernel

theorem fixed_tags : Unmarked (openTag "uploaded_files") ∧ Unmarked (closeTag "uploaded_files") := by
  decide

/-- The reader finds nothing in a block where no path stands below an entry's name. -/
theorem parse_uploadsBlock {lines : List Text} (hlines : ∀ l ∈ lines, '\n' ∉ l)
    (hbelow : (openTag "uploaded_files" ::
      (lines ++ [closeTag "uploaded_files"])).IsChain (Below 'e')) :
    parseUploadedFiles (uploadsBlock lines) = [] := by
  refine List.eq_nil_iff_forall_not_mem.mpr fun file hfile => ?_
  obtain ⟨p, gap, q, heq, hbreak, hgap⟩ := mark_of_mem_parse hfile
  have hread : writeLines (openTag "uploaded_files" :: (lines ++ [closeTag "uploaded_files"])) =
      p ++ ')' :: gap ++ "Path:".toList ++ (q ++ ['\n']) := by
    have hall : uploadsBlock lines ++ ['\n'] =
        writeLines (openTag "uploaded_files" :: (lines ++ [closeTag "uploaded_files"])) := by
      rw [uploadsBlock_eq]
      simp [writeLines]
    rw [← hall, heq]
    simp
  have hunbroken : ∀ l ∈ openTag "uploaded_files" :: (lines ++ [closeTag "uploaded_files"]),
      '\n' ∉ l :=
    List.forall_mem_cons.mpr ⟨fixed_tags.1.1, List.forall_mem_append.mpr
      ⟨hlines, List.forall_mem_singleton.mpr fixed_tags.2.1⟩⟩
  rcases below_mark hunbroken hbelow hbreak hgap hread with hbracket | hspace
  · exact absurd hbracket (by decide)
  · exact absurd hspace (by decide)

theorem parse_of_unmarked {lines : List Text} (h : ∀ l ∈ lines, Unmarked l) :
    parseUploadedFiles (uploadsBlock lines) = [] := by
  refine parse_uploadsBlock (fun l hl => (h l hl).1) (below_of_forall_unmarked ?_)
  exact List.forall_mem_cons.mpr ⟨fixed_tags.1.2, List.forall_mem_append.mpr
    ⟨fun l hl => (h l hl).2, List.forall_mem_singleton.mpr fixed_tags.2.2⟩⟩

theorem parse_channel (h : ∀ f ∈ files, Listed f) :
    parseUploadedFiles (formatUploadedFilesBlock files) = [] := by
  unfold formatUploadedFilesBlock
  split_ifs with hfiles
  · refine parse_of_unmarked (List.forall_mem_append.mpr ⟨List.forall_mem_append.mpr
      ⟨fun l hl => (fixed_header l hl).1, ?_⟩, fixed_channelFooter⟩)
    decide
  · have hend : ∀ l ∈ channelFooter ++ [closeTag "uploaded_files"],
        ¬ "Path:".toList <+: l.dropWhile isWhiteSpace :=
      List.forall_mem_append.mpr ⟨fun l hl => (fixed_channelFooter l hl).2,
        List.forall_mem_singleton.mpr fixed_tags.2.2⟩
    obtain ⟨hentries, hfirst⟩ := below_channelEntries files (below_of_forall_unmarked hend)
      fun m hm => hend m (List.mem_of_mem_head? hm)
    refine parse_uploadsBlock ?_ ?_
    · simp only [List.forall_mem_append, List.forall_mem_flatMap]
      exact ⟨⟨fun l hl => (fixed_header l hl).1.1, fun f hf => channelEntry_unbroken (h f hf)⟩,
        fun l hl => (fixed_channelFooter l hl).1⟩
    · rw [List.append_assoc, List.append_assoc, ← List.cons_append]
      refine List.isChain_append.mpr ⟨below_of_forall_unmarked ?_, hentries, ?_⟩
      · exact List.forall_mem_cons.mpr ⟨fixed_tags.1.2, fun l hl => (fixed_header l hl).1.2⟩
      · intro l _ m hm
        exact below_of_unmarked (hfirst m hm)

end Channel

section Trimmed
variable {s t : Text} {c : Char}

theorem trim_eq_self (hhead : ∀ c ∈ s.head?, isWhiteSpace c = false)
    (hlast : ∀ c ∈ s.getLast?, isWhiteSpace c = false) : trim s = s := by
  have hfront : s.dropWhile isWhiteSpace = s := by
    cases s with
    | nil => rfl
    | cons c s => exact List.dropWhile_cons_of_neg (by simp [hhead c rfl])
  unfold trim
  rw [hfront]
  refine List.rdropWhile_eq_self_iff.mpr fun hne => ?_
  simp [hlast _ (List.getLast?_eq_some_getLast hne)]

theorem getLast?_trim (s : Text) : ∀ c ∈ (trim s).getLast?, isWhiteSpace c = false := by
  intro c hc
  obtain ⟨hne, rfl⟩ := List.mem_getLast?_eq_getLast hc
  exact eq_false_of_ne_true (List.rdropWhile_last_not _ _ hne)

theorem head?_trim (s : Text) : ∀ c ∈ (trim s).head?, isWhiteSpace c = false := by
  intro c hc
  obtain ⟨rest, hrest⟩ := List.rdropWhile_prefix isWhiteSpace (l := s.dropWhile isWhiteSpace)
  have hhead : (s.dropWhile isWhiteSpace).head? = some c := by
    rw [← hrest, List.head?_append]
    unfold trim at hc
    rw [hc]
    rfl
  have hstop := List.head?_dropWhile_not isWhiteSpace s
  rw [hhead] at hstop
  exact hstop

theorem trim_subset (s : Text) : trim s ⊆ s := fun _ hc =>
  (List.dropWhile_suffix isWhiteSpace).subset ((List.rdropWhile_prefix isWhiteSpace _).subset hc)

theorem trim_trim (s : Text) : trim (trim s) = trim s :=
  trim_eq_self (head?_trim s) (getLast?_trim s)

theorem trim_append_space (s : Text) : trim (s ++ [' ']) = trim s := by
  unfold trim
  rw [List.dropWhile_append]
  split
  · next hall =>
    rw [List.isEmpty_iff.mp hall]
    decide
  · exact List.rdropWhile_concat_pos _ _ _ (by decide)

end Trimmed

section Sizes
variable {p : PrintedSize} {size : Nat}

theorem isWhiteSpace_of_isDigit {c : Char} (h : c.isDigit = true) : isWhiteSpace c = false := by
  have hlisted : c ∉ ['\t', '\n', '\x0b', '\x0c', '\r', ' ', '\u00a0', '\u1680', '\u2028',
      '\u2029', '\u202f', '\u205f', '\u3000', '\ufeff'] := by
    intro hmem
    simp only [List.mem_cons, List.not_mem_nil, or_false] at hmem
    rcases hmem with rfl | rfl | rfl | rfl | rfl | rfl | rfl | rfl | rfl | rfl | rfl | rfl | rfl |
      rfl <;> cases h
  have hbelow : ¬ ('\u2000' ≤ c) := by
    intro hle
    have hnine : c ≤ '9' := by
      simp only [Char.isDigit, Bool.and_eq_true, decide_eq_true_eq] at h
      exact h.2
    exact absurd (hle.trans hnine) (by decide)
  simp [isWhiteSpace, hlisted, hbelow]

theorem parseInt_digits (ds : Digits) {rest : Text} (h : NoDigit rest) :
    parseInt (ds.chars ++ rest) = some (Nat.ofDigitChars 10 ds.chars 0 : Int) := by
  obtain ⟨c, cs, hcs⟩ := List.exists_cons_of_ne_nil ds.nonempty
  have hdigit : c.isDigit = true := ds.digits c (by simp [hcs])
  have hskip : (ds.chars ++ rest).dropWhile isWhiteSpace = ds.chars ++ rest := by
    rw [hcs, List.cons_append,
      List.dropWhile_cons_of_neg (by simp [isWhiteSpace_of_isDigit hdigit])]
  unfold parseInt
  rw [hskip]
  split
  · next heq =>
    rw [hcs] at heq
    rw [(List.cons.inj heq).1] at hdigit
    cases hdigit
  · next heq =>
    rw [hcs] at heq
    rw [(List.cons.inj heq).1] at hdigit
    cases hdigit
  · rw [parseDigits_append ds h]
    rfl

theorem parseInt_printedSize (p : PrintedSize) :
    parseInt (trim p.text) = some ((p.tenths / 10 : Nat) : Int) := by
  have htrim : trim p.text = p.text := by
    apply trim_eq_self
    · intro c hc
      unfold PrintedSize.text at hc
      rw [List.append_assoc, List.head?_append_of_ne_nil _ Nat.toDigits_ne_nil] at hc
      exact isWhiteSpace_of_isDigit
        (Nat.isDigit_of_mem_toDigits (by decide) (by decide) (List.mem_of_mem_head? hc))
    · intro c hc
      have hunit : p.unit.label.toList.getLast? = some 'B' := by
        cases p.unit <;> rfl
      unfold PrintedSize.text at hc
      rw [List.getLast?_append, hunit] at hc
      cases hc
      decide
  have htext : p.text = (Digits.ofNat (p.tenths / 10)).chars ++
      ('.' :: Nat.toDigits 10 (p.tenths % 10) ++ p.unit.label.toList) := by
    simp [PrintedSize.text, Digits.ofNat]
  have hstop : NoDigit ('.' :: Nat.toDigits 10 (p.tenths % 10) ++ p.unit.label.toList) := by
    intro c hc
    cases hc
    rfl
  rw [htrim, htext, parseInt_digits _ hstop]
  exact congrArg some (congrArg Int.ofNat (Nat.ofDigitChars_toDigits (by decide) (by decide)))

theorem roundHalfEven_eq_zero {n d : Nat} (hd : 0 < d) : roundHalfEven n d = 0 ↔ 2 * n ≤ d := by
  unfold roundHalfEven
  dsimp only
  rcases Nat.lt_or_ge n d with hlt | hge
  · rw [Nat.div_eq_of_lt hlt, Nat.mod_eq_of_lt hlt]
    split <;> omega
  · have hq : 0 < n / d := Nat.div_pos hge hd
    split <;> omega

theorem toDouble_of_large {n : Nat} (h : 2 ^ 53 ≤ n) : 1024 * 1024 ≤ toDouble n := by
  have hlog : 53 ≤ n.log2 := (Nat.le_log2 (by omega)).mpr h
  have hunit : 2 ^ (n.log2 - 52) * 2 ^ 52 ≤ n := by
    rw [← Nat.pow_add, Nat.sub_add_cancel (by omega)]
    exact Nat.log2_self_le (by omega)
  have hround : n / 2 ^ (n.log2 - 52) ≤ roundHalfEven n (2 ^ (n.log2 - 52)) := by
    unfold roundHalfEven
    dsimp only
    split_ifs <;> omega
  unfold toDouble
  rw [if_neg (Nat.not_lt.mpr h)]
  calc 1024 * 1024 ≤ 2 ^ 52 * 1 := by decide
    _ ≤ n / 2 ^ (n.log2 - 52) * 2 ^ (n.log2 - 52) := by
      apply Nat.mul_le_mul
      · exact (Nat.le_div_iff_mul_le (Nat.two_pow_pos _)).mpr (by rw [Nat.mul_comm]; exact hunit)
      · exact Nat.two_pow_pos _
    _ ≤ _ := Nat.mul_le_mul_right _ hround

theorem tenths_printedSize_eq_zero : (printedSize size).tenths = 0 ↔ size ≤ 51 := by
  have hdouble : size < 2 ^ 53 ∧ toDouble size = size ∨
      2 ^ 53 ≤ size ∧ 1024 * 1024 ≤ toDouble size := by
    rcases Nat.lt_or_ge size (2 ^ 53) with hlt | hge
    · exact .inl ⟨hlt, if_pos hlt⟩
    · exact .inr ⟨hge, toDouble_of_large hge⟩
  unfold printedSize
  dsimp only
  split_ifs with hkb
  · rw [roundHalfEven_eq_zero (by decide)]
    simp only [SizeUnit.bytes]
    omega
  · rw [roundHalfEven_eq_zero (by decide)]
    simp only [SizeUnit.bytes]
    omega

end Sizes

section Tags
variable {u t : Text} {c : Char}

theorem endOfTag_append (tag rest : Text) (hne : tag ≠ []) :
    endOfTag tag (tag ++ rest) = some tag.length := by
  obtain ⟨c, t, rfl⟩ := List.exists_cons_of_ne_nil hne
  rw [List.cons_append, endOfTag, if_pos]
  exact List.isPrefixOf_iff_prefix.mpr ⟨rest, rfl⟩

/-- A tag is found behind a text that does not hold it, since its first character does not come
again in it. -/
theorem endOfTag_of_absent (hc : c ∉ t) (h : ¬ c :: t <:+: u) :
    endOfTag (c :: t) (u ++ c :: t) = some (u.length + (c :: t).length) := by
  induction u with
  | nil =>
    have hhere := endOfTag_append (c :: t) [] (List.cons_ne_nil c t)
    rw [List.append_nil] at hhere
    rw [List.nil_append, hhere, List.length_nil, Nat.zero_add]
  | cons d u ih =>
    have hnot : ¬ c :: t <+: d :: (u ++ c :: t) := by
      rintro ⟨rest, hrest⟩
      rcases Nat.lt_or_ge (d :: u).length (c :: t).length with hlong | hshort
      · exact hc (mem_of_append_cons (s := [c]) (a := d :: u) hrest (by simp) hlong)
      · exact h (List.prefix_of_prefix_length_le ⟨rest, hrest⟩ ⟨c :: t, rfl⟩ hshort).isInfix
    rw [List.cons_append, endOfTag, if_neg fun hhere => hnot (List.isPrefixOf_iff_prefix.mp hhere),
      ih fun hlater => h (List.infix_cons hlater)]
    simp only [Option.map_some, List.length_cons]
    congr 1
    omega

theorem taggedContent_block {name : String} (hname : '<' ∉ name.toList)
    (h : ¬ closeTag name <:+: u) :
    taggedContent name (openTag name ++ (u ++ closeTag name)) = some u := by
  have hopen := endOfTag_append (openTag name) (u ++ closeTag name) (by simp [openTag])
  have hclose : endOfTag (closeTag name) (u ++ closeTag name) =
      some (u.length + (closeTag name).length) :=
    endOfTag_of_absent (by simp [hname]) h
  unfold taggedContent
  simp only [hopen, List.drop_left, hclose, Option.bind_eq_bind, Option.bind_some, Option.pure_def,
    Nat.add_sub_cancel, List.take_left]

end Tags

section Middleware
variable {f : UploadedFile} {files : List UploadedFile} {w : Text}

/-- The words that show where an entry begins, that no files are listed, and where a block ends. -/
def markWords : List String :=
  ["- ", "(empty)", "No files have been uploaded yet.", "</uploaded_files>"]

/-- A file under the name that it is stored under, with nothing in its further lines that
the browser looks for. -/
structure Stored (f : UploadedFile) : Prop where
  name : Gateway.normalizeFilename f.filename = .ok f.filename
  quiet : ∀ l ∈ moreLines f, ∀ w ∈ markWords, ¬ w.toList <:+: l

structure PlainName (name : Text) : Prop where
  noBracket : '(' ∉ name
  trimmed : trim name = name
  noNotice : ¬ "No files have been uploaded yet.".toList <:+: name

theorem normalizeFilename_ok {raw name : Text} (h : Gateway.normalizeFilename raw = .ok name) :
    name ≠ [] ∧ '/' ∉ name := by
  unfold Gateway.normalizeFilename at h
  dsimp only at h
  split_ifs at h with hraw hunsafe
  rw [← Except.ok.inj h]
  have hne : Gateway.pathName raw ≠ [] := (not_or.mp hunsafe).1
  refine ⟨hne, ?_⟩
  cases hlast : (Posix.comps raw).getLast? with
  | none =>
    unfold Gateway.pathName
    rw [hlast]
    exact List.not_mem_nil
  | some name =>
    unfold Gateway.pathName
    rw [hlast]
    exact (Posix.mem_of_mem_comps (List.mem_of_getLast? hlast)).2.2.1

def middleLines (files : List UploadedFile) : List Text :=
  uploadsHeader ++ files.flatMap formatFileEntry ++ uploadsFooter

theorem createFilesMessage_eq (h : files ≠ []) : createFilesMessage files =
    openTag "uploaded_files" ++ ('\n' :: writeLines (middleLines files) ++
      closeTag "uploaded_files") := by
  unfold createFilesMessage
  rw [if_pos h, uploadsBlock_eq, writeLines_cons]
  simp [middleLines]

theorem absent_middleLines (hfixed : ∀ l, Quiet l → ¬ w <:+: l)
    (hne : w ≠ []) (h : ∀ f ∈ files, ¬ w <:+: nameLine f ∧ ¬ w <:+: pathLine f ∧
      ∀ l ∈ moreLines f, ¬ w <:+: l) :
    ∀ l ∈ middleLines files, ¬ w <:+: l := by
  have hblank : ¬ w <:+: [] := fun hw => hne (List.infix_nil.mp hw)
  intro l hl
  simp only [middleLines, List.mem_append, List.mem_flatMap] at hl
  rcases hl with (hl | ⟨f, hf, hl⟩) | hl
  · exact hfixed l (fixed_header l hl).2.1
  · obtain ⟨hname, hpath, hmore⟩ := h f hf
    simp only [formatFileEntry, List.mem_cons, List.mem_append, List.not_mem_nil, or_false] at hl
    rcases hl with (rfl | rfl | hl) | rfl
    · exact hname
    · exact hpath
    · exact hmore l hl
    · exact hblank
  · exact hfixed l (fixed_footer.1 l hl).2

theorem nameLine_eq (f : UploadedFile) : nameLine f =
    "- ".toList ++ (f.filename ++ ' ' :: '(' :: ((printedSize f.size).text ++ [')'])) := by
  simp [nameLine]

theorem pathLine_eq (h : Listed f) :
    pathLine f = "  Path: /mnt/user-data/uploads/".toList ++ f.filename := by
  unfold pathLine
  rw [h.path, ← List.append_assoc]
  rfl

theorem closeTag_absent (hlisted : ∀ f ∈ files, Listed f) (hstored : ∀ f ∈ files, Stored f) :
    ∀ l ∈ middleLines files, ¬ closeTag "uploaded_files" <:+: l := by
  have hhead : (closeTag "uploaded_files").head? = some '<' := by decide
  refine absent_middleLines (fun _ hl => hl.1) (by decide) fun f hf => ?_
  have hname : ¬ closeTag "uploaded_files" <:+: f.filename :=
    not_infix_of_mem (c := '/') (by decide) (normalizeFilename_ok (hstored f hf).name).2
  refine ⟨?_, ?_, fun l hl => (hstored f hf).quiet l hl "</uploaded_files>" (by decide)⟩
  · rw [nameLine_eq, infix_append_of_head hhead (by decide), infix_append_cons (by decide)]
    rintro (h | h)
    · exact hname h
    · have hsize : '<' ∉ '(' :: ((printedSize f.size).text ++ [')']) := by
        simp [notMem_printedSize (c := '<') (by decide) (by decide)]
      exact not_infix_of_mem (by decide) hsize h
  · rw [pathLine_eq (hlisted f hf), infix_append_of_head hhead (by decide)]
    exact hname

theorem notice_absent (hlisted : ∀ f ∈ files, Listed f) (hstored : ∀ f ∈ files, Stored f)
    (hplain : ∀ f ∈ files, PlainName f.filename) :
    ∀ l ∈ middleLines files, ¬ "No files have been uploaded yet.".toList <:+: l := by
  have hhead : "No files have been uploaded yet.".toList.head? = some 'N' := by decide
  refine absent_middleLines (fun _ hl => hl.2.1) (by decide) fun f hf => ?_
  have hname := (hplain f hf).noNotice
  refine ⟨?_, ?_,
    fun l hl => (hstored f hf).quiet l hl "No files have been uploaded yet." (by decide)⟩
  · rw [nameLine_eq, infix_append_of_head hhead (by decide), List.append_cons,
      infix_append_cons (by decide), List.infix_concat_iff]
    rintro ((⟨before, h⟩ | h) | h)
    · have hend : "No files have been uploaded yet.".toList.getLast? = some '.' := by decide
      have hlast := congrArg List.getLast? h
      rw [List.getLast?_append, hend, List.getLast?_concat] at hlast
      cases hlast
    · exact hname h
    · have hsize : 'N' ∉ (printedSize f.size).text ++ [')'] := by
        simp [notMem_printedSize (c := 'N') (by decide) (by decide)]
      exact not_infix_of_mem (by decide) hsize h
  · rw [pathLine_eq (hlisted f hf), infix_append_of_head hhead (by decide)]
    exact hname

theorem empty_absent (hlisted : ∀ f ∈ files, Listed f) (hstored : ∀ f ∈ files, Stored f)
    (hplain : ∀ f ∈ files, PlainName f.filename) :
    ∀ l ∈ middleLines files, ¬ "(empty)".toList <:+: l := by
  have hhead : "(empty)".toList.head? = some '(' := by decide
  refine absent_middleLines (fun _ hl => hl.2.2) (by decide) fun f hf => ?_
  have hname := (hplain f hf).noBracket
  refine ⟨?_, ?_, fun l hl => (hstored f hf).quiet l hl "(empty)" (by decide)⟩
  · rw [nameLine_eq, infix_append_of_head hhead (by decide), List.append_cons,
      infix_append_of_head hhead (by simp [hname]), List.infix_cons_iff]
    have hnot {c : Char} (hdigit : c.isDigit = false) (hother : c ∉ ['.', ' ', 'K', 'M', 'B', ')']) :
        c ∉ (printedSize f.size).text ++ [')'] := by
      simp_all [notMem_printedSize]
    rintro (h | h)
    · have hrest : "empty)".toList <+: (printedSize f.size).text ++ [')'] :=
        (List.cons_prefix_cons.mp h).2
      exact not_infix_of_mem (c := 'e') (by decide) (hnot (by decide) (by decide)) hrest.isInfix
    · exact not_infix_of_mem (c := '(') (by decide) (hnot (by decide) (by decide)) h
  · rw [pathLine_eq (hlisted f hf), infix_append_of_head hhead (by decide)]
    exact not_infix_of_mem (by decide) hname

/-- What the browser reads of an entry of the middleware. -/
def readFile (f : UploadedFile) : FileInMessage :=
  ⟨f.filename, some ((printedSize f.size).tenths / 10 : Nat), f.path⟩

theorem scanFiles_entry (hlisted : Listed f) (hstored : Stored f) (hplain : PlainName f.filename)
    (v : Text) :
    scanFiles 0 (writeLines (formatFileEntry f) ++ v) = readFile f :: scanFiles 0 v := by
  have hne : f.filename ≠ [] := (normalizeFilename_ok hstored.name).1
  have hname : ∀ c ∈ f.filename, isNameChar c = true := by
    intro c hc
    have hbreak := ne_of_mem_of_not_mem hc hlisted.unbroken
    have hbracket := ne_of_mem_of_not_mem hc hplain.noBracket
    simp [isNameChar, hbreak, hbracket]
  have hsize : ')' ∉ (printedSize f.size).text := notMem_printedSize (by decide) (by decide) _
  have hsizeNe : (printedSize f.size).text ≠ [] := by
    simp [PrintedSize.text]
  have hpath : f.path = '/' :: ("mnt/user-data/uploads/".toList ++ f.filename) := by
    rw [hlisted.path]
    rfl
  have hunbroken : '\n' ∉ '/' :: ("mnt/user-data/uploads/".toList ++ f.filename) := by
    rw [← hpath, hlisted.path, List.mem_append]
    exact not_or.mpr ⟨by decide, hlisted.unbroken⟩
  have htrimName : trim (f.filename ++ [' ']) = f.filename := by
    rw [trim_append_space, hplain.trimmed]
  have htrimPath : trim f.path = f.path := by
    apply trim_eq_self
    · intro c hc
      rw [hpath] at hc
      cases hc
      decide
    · intro c hc
      rw [hlisted.path, List.getLast?_append_of_ne_nil _ hne, ← hplain.trimmed] at hc
      exact getLast?_trim _ c hc
  have hmore : ∀ l ∈ moreLines f ++ [[]], ¬ "- ".toList <:+: l := by
    intro l hl
    rcases List.mem_append.mp hl with hl | hl
    · exact hstored.quiet l hl "- " (by decide)
    · rw [List.mem_singleton.mp hl]
      decide
  -- the match takes the line of the name and the line of the path, but not its newline
  have hmatch (rest : Text) : matchFile ((nameLine f ++ '\n' :: pathLine f) ++ '\n' :: rest) =
      some (readFile f, '\n' :: rest) := by
    rw [List.append_assoc, List.cons_append]
    unfold nameLine pathLine readFile
    rw [hpath, matchFile_append hname hsizeNe hsize (by decide) hunbroken, ← hpath, htrimName,
      parseInt_printedSize, htrimPath]
  have hentry : writeLines (formatFileEntry f) ++ v = (nameLine f ++ '\n' :: pathLine f) ++
      '\n' :: (writeLines (moreLines f ++ [[]]) ++ v) := by
    have hlines : formatFileEntry f = nameLine f :: pathLine f :: (moreLines f ++ [[]]) := rfl
    rw [hlines, writeLines_cons, writeLines_cons, List.append_assoc, List.append_assoc,
      List.cons_append, List.cons_append, List.append_assoc, List.cons_append]
  have hblank := scanFiles_line (u := []) (v := writeLines (moreLines f ++ [[]]) ++ v) (by decide)
  rw [List.nil_append] at hblank
  rw [hentry, scanFiles_match (by simp) (hmatch _), hblank, scanFiles_writeLines hmore]

theorem scanFiles_entries (hlisted : ∀ f ∈ files, Listed f) (hstored : ∀ f ∈ files, Stored f)
    (hplain : ∀ f ∈ files, PlainName f.filename) (v : Text) :
    scanFiles 0 (writeLines (files.flatMap formatFileEntry) ++ v) =
      files.map readFile ++ scanFiles 0 v := by
  induction files with
  | nil => rfl
  | cons f files ih =>
    obtain ⟨hf, hfiles⟩ := List.forall_mem_cons.mp hlisted
    obtain ⟨sf, hstored⟩ := List.forall_mem_cons.mp hstored
    obtain ⟨pf, hplain⟩ := List.forall_mem_cons.mp hplain
    rw [List.flatMap_cons, writeLines_append, List.append_assoc, scanFiles_entry hf sf pf,
      ih hfiles hstored hplain]
    rfl

theorem taggedContent_middle (hlisted : ∀ f ∈ files, Listed f) (hstored : ∀ f ∈ files, Stored f)
    (hne : files ≠ []) :
    taggedContent "uploaded_files" (createFilesMessage files) =
      some (writeLines ([] :: middleLines files)) := by
  have hblank : ∀ l ∈ [] :: middleLines files, ¬ closeTag "uploaded_files" <:+: l :=
    List.forall_mem_cons.mpr ⟨by decide, closeTag_absent hlisted hstored⟩
  rw [createFilesMessage_eq hne]
  apply taggedContent_block (by decide)
  rw [← List.nil_append ('\n' :: writeLines (middleLines files)), ← writeLines_cons,
    infix_writeLines (by decide) (by decide)]
  rintro ⟨l, hl, h⟩
  exact hblank l hl h

theorem parse_middle (hlisted : ∀ f ∈ files, Listed f) (hstored : ∀ f ∈ files, Stored f)
    (hplain : ∀ f ∈ files, PlainName f.filename) :
    parseUploadedFiles (createFilesMessage files) = files.map readFile := by
  by_cases hne : files = []
  · subst hne
    refine parse_of_unmarked (List.forall_mem_append.mpr ⟨List.forall_mem_append.mpr
      ⟨fun l hl => (fixed_header l hl).1, ?_⟩, fun l hl => (fixed_footer.1 l hl).1⟩)
    decide
  · have habsent (word : String) (hword : word.toList ≠ []) (hbreak : '\n' ∉ word.toList)
        (h : ∀ l ∈ middleLines files, ¬ word.toList <:+: l) :
        ¬ word.toList <:+: writeLines ([] :: middleLines files) := by
      rw [infix_writeLines hword hbreak]
      rintro ⟨l, hl, hin⟩
      rcases List.mem_cons.mp hl with rfl | hl
      · exact hword (List.infix_nil.mp hin)
      · exact h l hl hin
    unfold parseUploadedFiles
    rw [taggedContent_middle hlisted hstored hne]
    dsimp only
    rw [if_neg (habsent _ (by decide) (by decide) (notice_absent hlisted hstored hplain)),
      if_neg (habsent _ (by decide) (by decide) (empty_absent hlisted hstored hplain))]
    have hheader : ∀ l ∈ [] :: uploadsHeader, ¬ "- ".toList <:+: l :=
      List.forall_mem_cons.mpr ⟨by decide, fun l hl => (fixed_header l hl).2.2⟩
    have hlines : writeLines ([] :: middleLines files) = writeLines ([] :: uploadsHeader) ++
        (writeLines (files.flatMap formatFileEntry) ++ writeLines uploadsFooter) := by
      simp [middleLines, writeLines]
    rw [hlines, scanFiles_writeLines hheader, scanFiles_entries hlisted hstored hplain,
      fixed_footer.2, List.append_nil]

end Middleware

section ReadBack
variable {files : List UploadedFile}

/-- A size that is read agrees with the printed one within half of its last decimal. -/
def SizeRead (p : PrintedSize) (size : Option Int) : Prop :=
  ∃ n, size = some n ∧ 2 * (10 * n - p.tenths * p.unit.bytes).natAbs ≤ p.unit.bytes

structure ReadAs (f : UploadedFile) (read : FileInMessage) : Prop where
  filename : read.filename = f.filename
  path : read.path = f.path
  size : SizeRead (printedSize f.size) read.size

def ReadBack (block : Text) (files : List UploadedFile) : Prop :=
  List.Forall₂ ReadAs files (parseUploadedFiles block)

/-- The whole part alone is the size when nothing is printed, and otherwise never. -/
theorem sizeRead_iff (size : Nat) :
    SizeRead (printedSize size) (some ((printedSize size).tenths / 10 : Nat)) ↔ size ≤ 51 := by
  rw [← tenths_printedSize_eq_zero]
  constructor
  · rintro ⟨n, hn, hbound⟩
    cases hn
    cases hunit : (printedSize size).unit with
    | kb | mb =>
      rw [hunit] at hbound
      simp only [SizeUnit.bytes] at hbound
      omega
  · intro hzero
    exact ⟨_, rfl, by simp [hzero]⟩

theorem filename_of_mem_parse {file : FileInMessage} {text : Text}
    (h : file ∈ parseUploadedFiles text) :
    '(' ∉ file.filename ∧ trim file.filename = file.filename := by
  unfold parseUploadedFiles at h
  split at h
  · cases h
  · split_ifs at h
    · cases h
    · cases h
    · obtain ⟨u, rest, -, hmatch⟩ := mem_scanFiles h
      obtain ⟨name, _, _, _, _, _, _, -, hname, -, -, -, rfl⟩ := matchFile_split hmatch
      exact ⟨fun hmem => (nameGroup_split hname).1 (trim_subset name hmem), trim_trim name⟩

theorem parse_of_notice (hlisted : ∀ f ∈ files, Listed f) (hstored : ∀ f ∈ files, Stored f)
    {f : UploadedFile} (hf : f ∈ files)
    (hnotice : "No files have been uploaded yet.".toList <:+: f.filename) :
    parseUploadedFiles (createFilesMessage files) = [] := by
  have hline : "No files have been uploaded yet.".toList <:+: nameLine f := by
    rw [nameLine_eq]
    exact (hnotice.trans List.infix_append_left).trans List.infix_append_right
  have hmem : nameLine f ∈ [] :: middleLines files := by
    refine List.mem_cons_of_mem _ (List.mem_append_left _ (List.mem_append_right _ ?_))
    exact List.mem_flatMap.mpr ⟨f, hf, List.mem_cons_self ..⟩
  unfold parseUploadedFiles
  rw [taggedContent_middle hlisted hstored (List.ne_nil_of_mem hf)]
  dsimp only
  rw [if_pos ((infix_writeLines (by decide) (by decide)).mpr ⟨_, hmem, hline⟩)]

theorem plainNames_of_readBack (hlisted : ∀ f ∈ files, Listed f) (hstored : ∀ f ∈ files, Stored f)
    (h : ReadBack (createFilesMessage files) files) : ∀ f ∈ files, PlainName f.filename := by
  intro f hf
  obtain ⟨file, hfile, hread⟩ := exists_of_forall₂_left h hf
  obtain ⟨hbracket, htrim⟩ := filename_of_mem_parse hfile
  rw [hread.filename] at hbracket htrim
  refine ⟨hbracket, htrim, fun hnotice => ?_⟩
  rw [parse_of_notice hlisted hstored hf hnotice] at hfile
  cases hfile

theorem readBack_middle_iff (hlisted : ∀ f ∈ files, Listed f) (hstored : ∀ f ∈ files, Stored f)
    (hplain : ∀ f ∈ files, PlainName f.filename) :
    ReadBack (createFilesMessage files) files ↔ ∀ f ∈ files, f.size ≤ 51 := by
  unfold ReadBack
  rw [parse_middle hlisted hstored hplain, List.forall₂_map_right_iff, List.forall₂_same]
  constructor
  · intro h f hf
    exact (sizeRead_iff f.size).mp (h f hf).size
  · intro h f hf
    exact ⟨rfl, rfl, (sizeRead_iff f.size).mpr (h f hf)⟩

/-- Both blocks are read back of no files only. The middleware's alone is read back when
the names are plain and each size is printed as nothing. -/
theorem blocks_read_back_iff (files : List UploadedFile) (hlisted : ∀ f ∈ files, Listed f) :
    (ReadBack (createFilesMessage files) files ∧ ReadBack (formatUploadedFilesBlock files) files ↔
      files = []) ∧
    ((∀ f ∈ files, Stored f) → (ReadBack (createFilesMessage files) files ↔
      ∀ f ∈ files, PlainName f.filename ∧ f.size ≤ 51)) := by
  refine ⟨⟨fun h => ?_, ?_⟩, fun hstored => ⟨fun h => ?_, fun h => ?_⟩⟩
  · have hchannel := h.2
    unfold ReadBack at hchannel
    rw [parse_channel hlisted] at hchannel
    exact List.forall₂_nil_right_iff.mp hchannel
  · rintro rfl
    have hmiddle : parseUploadedFiles (createFilesMessage []) = [] := parse_middle nofun nofun nofun
    unfold ReadBack
    rw [hmiddle, parse_channel hlisted]
    exact ⟨.nil, .nil⟩
  · have hplain := plainNames_of_readBack hlisted hstored h
    have hsize := (readBack_middle_iff hlisted hstored hplain).mp h
    exact fun f hf => ⟨hplain f hf, hsize f hf⟩
  · have hplain := fun f hf => (h f hf).1
    exact (readBack_middle_iff hlisted hstored hplain).mpr fun f hf => (h f hf).2

def notes (size : Nat) : UploadedFile where
  filename := "a.txt".toList
  size := size
  path := "/mnt/user-data/uploads/a.txt".toList
  isImage := false
  queryMatch := false
  outline := []
  outlinePreview := []

theorem listed_notes (size : Nat) : Listed (notes size) := by
  have hunbroken : '\n' ∉ "a.txt".toList := by decide
  exact ⟨⟨_, rfl⟩, hunbroken, rfl⟩

theorem stored_notes (size : Nat) : Stored (notes size) := by
  have hmore : moreLines (notes size) = previewLines [] := rfl
  refine ⟨rfl, ?_⟩
  rw [hmore, previewLines, if_neg (not_not.mpr rfl), toList_append_literal rfl rfl]
  decide +kernel

theorem blocks_read_back_iff_notes : Listed (notes 40) ∧
    (ReadBack (createFilesMessage [notes 40]) [notes 40] ↔
      ∀ f ∈ [notes 40], PlainName f.filename ∧ f.size ≤ 51) := by
  have hlisted : ∀ f ∈ [notes 40], Listed f := List.forall_mem_singleton.mpr (listed_notes 40)
  have hstored : ∀ f ∈ [notes 40], Stored f :=
    List.forall_mem_singleton.mpr (stored_notes 40)
  exact ⟨listed_notes 40, (blocks_read_back_iff [notes 40] hlisted).2 hstored⟩

/-- Of a file of 2048 bytes the browser reads a size of 2, and nothing from a channel. -/
theorem file_not_read_back :
    parseUploadedFiles (createFilesMessage [notes 2048]) =
      [⟨"a.txt".toList, some 2, "/mnt/user-data/uploads/a.txt".toList⟩] ∧
    parseUploadedFiles (formatUploadedFilesBlock [notes 2048]) = [] ∧
    ¬ ∀ files : List UploadedFile, (∀ f ∈ files, Listed f) →
      ReadBack (createFilesMessage files) files ∧
        ReadBack (formatUploadedFilesBlock files) files := by
  have hlisted : ∀ f ∈ [notes 2048], Listed f := List.forall_mem_singleton.mpr (listed_notes 2048)
  have hchannel : parseUploadedFiles (formatUploadedFilesBlock [notes 2048]) = [] :=
    parse_channel hlisted
  have hplain : ∀ f ∈ [notes 2048], PlainName f.filename :=
    List.forall_mem_singleton.mpr ⟨by decide, by decide, by decide⟩
  refine ⟨?_, hchannel, fun h => ?_⟩
  · have htenths : (printedSize (notes 2048).size).tenths / 10 = 2 := by decide +kernel
    rw [parse_middle hlisted (List.forall_mem_singleton.mpr (stored_notes 2048)) hplain]
    simp [readFile, htenths]
    exact ⟨rfl, rfl⟩
  have hread := (h [notes 2048] hlisted).2
  unfold ReadBack at hread
  rw [hchannel] at hread
  cases hread

end ReadBack

end DeerFlow.Chat
