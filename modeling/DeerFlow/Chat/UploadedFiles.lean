import DeerFlow.Chat.ThreadMessages
import DeerFlow.Gateway.Uploads
import DeerFlow.Lib.LineWords

/-! The block that lists the files of a message: how the middleware and the channel manager
write it, and how the browser reads it. The browser's pattern is followed group by group;
each group takes as much as it can, and only the last one ever gives something back. -/

namespace DeerFlow.Chat

section Written

structure OutlineEntry where
  line : Nat
  title : Text
  truncated : Bool
  deriving DecidableEq

structure UploadedFile where
  filename : Text
  size : Nat
  path : Text
  isImage : Bool
  queryMatch : Bool
  outline : List OutlineEntry
  outlinePreview : List Text
  deriving DecidableEq

def roundHalfEven (n d : Nat) : Nat :=
  let q := n / d
  let r := n % d
  if d < 2 * r ∨ (2 * r = d ∧ q % 2 = 1) then q + 1 else q

def toDouble (n : Nat) : Nat :=
  if n < 2 ^ 53 then n
  else
    let unit := 2 ^ (Nat.log2 n - 52)
    roundHalfEven n unit * unit

inductive SizeUnit where
  | kb
  | mb
  deriving DecidableEq

def SizeUnit.bytes : SizeUnit → Nat
  | .kb => 1024
  | .mb => 1024 * 1024

def SizeUnit.label : SizeUnit → String
  | .kb => " KB"
  | .mb => " MB"

/-- A size as it is printed, with one decimal. -/
structure PrintedSize where
  tenths : Nat
  unit : SizeUnit
  deriving DecidableEq

def printedSize (size : Nat) : PrintedSize :=
  let unit := if toDouble size < 1024 * 1024 then SizeUnit.kb else SizeUnit.mb
  ⟨roundHalfEven (10 * toDouble size) unit.bytes, unit⟩

def PrintedSize.text (p : PrintedSize) : Text :=
  Nat.toDigits 10 (p.tenths / 10) ++ '.' :: Nat.toDigits 10 (p.tenths % 10) ++
    p.unit.label.toList

/-- `- {filename} ({size})`. -/
def nameLine (f : UploadedFile) : Text :=
  "- ".toList ++ f.filename ++ " (".toList ++ (printedSize f.size).text ++ ")".toList

def pathLine (f : UploadedFile) : Text := "  Path: ".toList ++ f.path

def outlineLines (outline : List OutlineEntry) : List Text :=
  let truncated := outline.getLast?.any (·.truncated)
  let shown := outline.filter (!·.truncated)
  "  Document outline (use \x60read_file\x60 with line ranges to read sections):".toList ::
    shown.map (fun e => "    L".toList ++ Nat.toDigits 10 e.line ++ ": ".toList ++ e.title) ++
    (if truncated then
      ["    ... (showing first ".toList ++ Nat.toDigits 10 shown.length ++
        " headings; use \x60read_file\x60 to explore further)".toList]
    else [])

def previewLines (preview : List Text) : List Text :=
  (if preview ≠ [] then
    "  No structural headings detected. Document begins with:".toList ::
      preview.map fun text => "    > ".toList ++ text
  else []) ++
  [("  Use \x60grep\x60 to search for keywords (e.g. " ++
    "\x60grep(pattern='keyword', path='/mnt/user-data/uploads/')\x60).").toList]

/-- What the middleware says about a file after its name and its path. -/
def moreLines (f : UploadedFile) : List Text :=
  (if f.queryMatch then ["  Selected because: matched the current query.".toList] else []) ++
  (if f.outline ≠ [] then outlineLines f.outline else previewLines f.outlinePreview)

def formatFileEntry (f : UploadedFile) : List Text :=
  nameLine f :: pathLine f :: moreLines f ++ [[]]

def uploadsHeader : List Text := ["The following files were uploaded in this message:".toList, []]

def uploadsFooter : List Text :=
  ["To work with these files:",
    "- Read from the file first — use the outline line numbers and \x60read_file\x60 " ++
      "to locate relevant sections.",
    "- Use \x60grep\x60 to search for keywords when you are not sure which section to look at",
    "  (e.g. \x60grep(pattern='revenue', path='/mnt/user-data/uploads/')\x60).",
    "- Use \x60glob\x60 to find files by name pattern",
    "  (e.g. \x60glob(pattern='**/*.md', path='/mnt/user-data/uploads/')\x60).",
    "- Only fall back to web search if the file content is clearly insufficient " ++
      "to answer the question."].map String.toList

def uploadsBlock (lines : List Text) : Text :=
  ['\n'].intercalate (openTag "uploaded_files" :: lines ++ [closeTag "uploaded_files"])

/-- The block when there are no older files, and when no file of the message is left out. -/
def createFilesMessage (newFiles : List UploadedFile) : Text :=
  uploadsBlock (uploadsHeader ++
    (if newFiles ≠ [] then newFiles.flatMap formatFileEntry else ["(empty)".toList, []]) ++
    uploadsFooter)

def channelFooter : List Text :=
  ["Use \x60read_file\x60 for text-based files and documents.",
    "Use \x60view_image\x60 for image files (jpg, jpeg, png, webp) " ++
      "so the model can inspect the image content."].map String.toList

def typeLine (f : UploadedFile) : Text :=
  "  Type: ".toList ++ (if f.isImage then "image" else "file").toList

def channelEntry (f : UploadedFile) : List Text := [nameLine f, typeLine f, pathLine f, []]

def formatUploadedFilesBlock (files : List UploadedFile) : Text :=
  uploadsBlock (uploadsHeader ++
    (if files = [] then ["(empty)".toList] else files.flatMap channelEntry) ++ channelFooter)

end Written

section Read

structure FileInMessage where
  filename : Text
  /-- `NaN` is `none`. -/
  size : Option Int
  path : Text
  deriving DecidableEq

def parseInt (text : Text) : Option Int :=
  match text.dropWhile isWhiteSpace with
  | '-' :: rest => (parseDigits rest).map fun p => -(Nat.ofDigitChars 10 p.1.chars 0 : Int)
  | '+' :: rest => (parseDigits rest).map fun p => (Nat.ofDigitChars 10 p.1.chars 0 : Int)
  | rest => (parseDigits rest).map fun p => (Nat.ofDigitChars 10 p.1.chars 0 : Int)

def isNameChar (c : Char) : Bool := c ≠ '\n' && c ≠ '('

/-- `([^\n(]+)\s*\(` and what follows it. -/
def nameGroup (text : Text) : Option (Text × Text) :=
  let name := text.takeWhile isNameChar
  if name = [] then none
  else (("(".toList).isPrefixOf? ((text.dropWhile isNameChar).dropWhile isWhiteSpace)).map (name, ·)

/-- `([^)]+)\)`. -/
def sizeGroup (text : Text) : Option (Text × Text) :=
  let size := text.takeWhile (· ≠ ')')
  if size = [] then none
  else ((")".toList).isPrefixOf? (text.dropWhile (· ≠ ')'))).map (size, ·)

/-- `\s*\n\s*Path:`. -/
def pathMark (text : Text) : Option Text :=
  if '\n' ∈ text.takeWhile isWhiteSpace then
    ("Path:".toList).isPrefixOf? (text.dropWhile isWhiteSpace)
  else none

/-- `\s*([^\n]+)`. Where nothing but white space is left, the spaces give back what follows
the last of them that is not a newline. -/
def pathGroup (text : Text) : Option (Text × Text) :=
  match text.dropWhile isWhiteSpace with
  | [] =>
    let given := text.rdropWhile (· = '\n')
    given.getLast?.map fun c => ([c], text.drop given.length)
  | c :: rest => some ((c :: rest).takeWhile (· ≠ '\n'), (c :: rest).dropWhile (· ≠ '\n'))

/-- A match of the file pattern at the start of a text, and the text after it. -/
def matchFile (text : Text) : Option (FileInMessage × Text) := do
  let rest ← ("- ".toList).isPrefixOf? text
  let (filename, rest) ← nameGroup rest
  let (size, rest) ← sizeGroup rest
  let rest ← pathMark rest
  let (path, rest) ← pathGroup rest
  return (⟨trim filename, parseInt (trim size), trim path⟩, rest)

/-- The matches of a text, of which so many characters belong to a match that began before. -/
def scanFiles : Nat → Text → List FileInMessage
  | _, [] => []
  | skip + 1, _ :: text => scanFiles skip text
  | 0, c :: text => match matchFile (c :: text) with
    | some (file, rest) => file :: scanFiles (text.length - rest.length) text
    | none => scanFiles 0 text

/-- What stands between the first tag and the first closing tag after it. -/
def taggedContent (name : String) (text : Text) : Option Text := do
  let start ← endOfTag (openTag name) text
  let stop ← endOfTag (closeTag name) (text.drop start)
  return (text.drop start).take (stop - (closeTag name).length)

def parseUploadedFiles (content : Text) : List FileInMessage :=
  match taggedContent "uploaded_files" content with
  | none => []
  | some uploadedFilesContent =>
    if "No files have been uploaded yet.".toList <:+: uploadedFilesContent then []
    else if "(empty)".toList <:+: uploadedFilesContent then []
    else scanFiles 0 uploadedFilesContent

end Read

section Pattern
variable {file : FileInMessage} {rest text u v : Text} {skip : Nat}

theorem eq_append_of_isPrefixOf? {word : Text} (h : word.isPrefixOf? text = some rest) :
    text = word ++ rest := by
  induction word generalizing text with
  | nil => simpa [List.isPrefixOf?] using h
  | cons c word ih =>
    cases text with
    | nil => simp [List.isPrefixOf?] at h
    | cons d text =>
      rw [List.isPrefixOf?] at h
      split_ifs at h with hc
      rw [ih h, eq_of_beq hc]
      rfl

theorem isPrefixOf?_append (word text : Text) : word.isPrefixOf? (word ++ text) = some text := by
  induction word with
  | nil => rfl
  | cons c word ih =>
    rw [List.cons_append, List.isPrefixOf?, if_pos (beq_self_eq_true c), ih]

theorem scanFiles_drop (skip : Nat) (text : Text) :
    scanFiles skip text = scanFiles 0 (text.drop skip) := by
  induction skip generalizing text with
  | zero => rfl
  | succ skip ih =>
    cases text with
    | nil => rfl
    | cons c text => exact ih text

theorem mem_scanFiles (h : file ∈ scanFiles skip text) :
    ∃ u rest, u <:+ text ∧ matchFile u = some (file, rest) := by
  induction text generalizing skip with
  | nil => simp [scanFiles] at h
  | cons c text ih =>
    have hlater {k : Nat} (hk : file ∈ scanFiles k text) :
        ∃ u rest, u <:+ c :: text ∧ matchFile u = some (file, rest) := by
      obtain ⟨u, rest, hu, hmatch⟩ := ih hk
      exact ⟨u, rest, hu.trans (List.suffix_cons c text), hmatch⟩
    cases skip with
    | succ skip => exact hlater h
    | zero =>
      rw [scanFiles] at h
      split at h
      · next read rest hmatch =>
        rcases List.mem_cons.mp h with rfl | hrest
        · exact ⟨c :: text, rest, List.suffix_refl _, hmatch⟩
        · exact hlater hrest
      · exact hlater h

theorem nameGroup_split {name : Text} (h : nameGroup text = some (name, rest)) :
    '(' ∉ name ∧ ∃ gap, text = name ++ gap ++ '(' :: rest := by
  unfold nameGroup at h
  dsimp only at h
  split_ifs at h
  obtain ⟨after, hafter, heq⟩ := Option.map_eq_some_iff.mp h
  obtain ⟨rfl, rfl⟩ := Prod.mk.inj heq
  constructor
  · intro hmem
    exact absurd (List.mem_takeWhile_imp hmem) (by decide)
  · refine ⟨(text.dropWhile isNameChar).takeWhile isWhiteSpace, ?_⟩
    calc text = text.takeWhile isNameChar ++ text.dropWhile isNameChar :=
          List.takeWhile_append_dropWhile.symm
      _ = text.takeWhile isNameChar ++ ((text.dropWhile isNameChar).takeWhile isWhiteSpace ++
          (text.dropWhile isNameChar).dropWhile isWhiteSpace) := by
        rw [List.takeWhile_append_dropWhile (p := isWhiteSpace)]
      _ = _ := by
        rw [eq_append_of_isPrefixOf? hafter, List.append_assoc]
        rfl

theorem sizeGroup_split {size : Text} (h : sizeGroup text = some (size, rest)) :
    text = size ++ ')' :: rest := by
  unfold sizeGroup at h
  dsimp only at h
  split_ifs at h
  obtain ⟨after, hafter, heq⟩ := Option.map_eq_some_iff.mp h
  obtain ⟨rfl, rfl⟩ := Prod.mk.inj heq
  calc text = text.takeWhile (· ≠ ')') ++ text.dropWhile (· ≠ ')') :=
        List.takeWhile_append_dropWhile.symm
    _ = _ := by
      rw [eq_append_of_isPrefixOf? hafter]
      rfl

theorem pathMark_split (h : pathMark text = some rest) :
    ∃ gap, text = gap ++ "Path:".toList ++ rest ∧ '\n' ∈ gap ∧
      ∀ c ∈ gap, isWhiteSpace c = true := by
  unfold pathMark at h
  split_ifs at h with hbreak
  refine ⟨text.takeWhile isWhiteSpace, ?_, hbreak, fun c hc => List.mem_takeWhile_imp hc⟩
  calc text = text.takeWhile isWhiteSpace ++ text.dropWhile isWhiteSpace :=
        List.takeWhile_append_dropWhile.symm
    _ = _ := by rw [eq_append_of_isPrefixOf? h, List.append_assoc]

theorem matchFile_split (h : matchFile text = some (file, rest)) :
    ∃ name size path r₁ r₂ r₃ r₄, text = "- ".toList ++ r₁ ∧ nameGroup r₁ = some (name, r₂) ∧
      sizeGroup r₂ = some (size, r₃) ∧ pathMark r₃ = some r₄ ∧
      pathGroup r₄ = some (path, rest) ∧ file = ⟨trim name, parseInt (trim size), trim path⟩ := by
  unfold matchFile at h
  obtain ⟨r₁, hdash, h⟩ := Option.bind_eq_some_iff.mp h
  obtain ⟨⟨name, r₂⟩, hname, h⟩ := Option.bind_eq_some_iff.mp h
  obtain ⟨⟨size, r₃⟩, hsize, h⟩ := Option.bind_eq_some_iff.mp h
  obtain ⟨r₄, hmark, h⟩ := Option.bind_eq_some_iff.mp h
  obtain ⟨⟨path, r₅⟩, hpath, h⟩ := Option.bind_eq_some_iff.mp h
  cases h
  exact ⟨name, size, path, r₁, r₂, r₃, r₄, eq_append_of_isPrefixOf? hdash, hname, hsize, hmark,
    hpath, rfl⟩

/-- The path of a match follows a closing bracket, white space with a newline, and a mark. -/
theorem mark_of_matchFile (h : matchFile text = some (file, rest)) :
    ∃ p gap q, text = p ++ ')' :: gap ++ "Path:".toList ++ q ∧ '\n' ∈ gap ∧
      ∀ c ∈ gap, isWhiteSpace c = true := by
  obtain ⟨name, size, path, r₁, r₂, r₃, r₄, rfl, hname, hsize, hmark, -, -⟩ := matchFile_split h
  obtain ⟨-, space, rfl⟩ := nameGroup_split hname
  obtain ⟨gap, rfl, hbreak, hgap⟩ := pathMark_split hmark
  refine ⟨"- ".toList ++ (name ++ space) ++ '(' :: size, gap, r₄, ?_, hbreak, hgap⟩
  rw [sizeGroup_split hsize]
  simp

theorem taggedContent_infix {name : String} (h : taggedContent name text = some u) :
    u <:+: text := by
  unfold taggedContent at h
  obtain ⟨start, -, h⟩ := Option.bind_eq_some_iff.mp h
  obtain ⟨stop, -, h⟩ := Option.bind_eq_some_iff.mp h
  rw [← Option.some.inj h]
  exact (List.take_prefix _ _).isInfix.trans (List.drop_suffix _ _).isInfix

theorem mark_of_mem_parse (h : file ∈ parseUploadedFiles text) :
    ∃ p gap q, text = p ++ ')' :: gap ++ "Path:".toList ++ q ∧ '\n' ∈ gap ∧
      ∀ c ∈ gap, isWhiteSpace c = true := by
  unfold parseUploadedFiles at h
  split at h
  · cases h
  · next content hcontent =>
    split_ifs at h
    · cases h
    · cases h
    · obtain ⟨u, rest, ⟨before, rfl⟩, hmatch⟩ := mem_scanFiles h
      obtain ⟨front, back, rfl⟩ := taggedContent_infix hcontent
      obtain ⟨p, gap, q, rfl, hbreak, hgap⟩ := mark_of_matchFile hmatch
      exact ⟨front ++ before ++ p, gap, q ++ back, by simp, hbreak, hgap⟩

theorem takeWhile_append_cons {p : Char → Bool} {c : Char} (hu : ∀ d ∈ u, p d = true)
    (hc : p c = false) : (u ++ c :: v).takeWhile p = u := by
  rw [List.takeWhile_append_of_pos hu, List.takeWhile_cons_of_neg (by simp [hc]), List.append_nil]

theorem dropWhile_append_cons {p : Char → Bool} {c : Char} (hu : ∀ d ∈ u, p d = true)
    (hc : p c = false) : (u ++ c :: v).dropWhile p = c :: v := by
  rw [List.dropWhile_append_of_pos hu, List.dropWhile_cons_of_neg (by simp [hc])]

theorem nameGroup_append {name : Text} (hne : name ≠ []) (hname : ∀ c ∈ name, isNameChar c = true) :
    nameGroup (name ++ '(' :: rest) = some (name, rest) := by
  unfold nameGroup
  dsimp only
  rw [takeWhile_append_cons hname (by decide), dropWhile_append_cons hname (by decide), if_neg hne,
    List.dropWhile_cons_of_neg (by decide)]
  rfl

theorem sizeGroup_append {size : Text} (hne : size ≠ []) (hsize : ')' ∉ size) :
    sizeGroup (size ++ ')' :: rest) = some (size, rest) := by
  have hkept : ∀ c ∈ size, decide (c ≠ ')') = true := fun c hc =>
    decide_eq_true (ne_of_mem_of_not_mem hc hsize)
  unfold sizeGroup
  dsimp only
  rw [takeWhile_append_cons hkept (by decide), dropWhile_append_cons hkept (by decide), if_neg hne]
  rfl

theorem pathMark_append : pathMark ("\n  Path:".toList ++ rest) = some rest := by
  have hgap : ∀ c ∈ "\n  ".toList, isWhiteSpace c = true := List.all_eq_true.mp (by decide)
  have htext : "\n  Path:".toList ++ rest = "\n  ".toList ++ 'P' :: ("ath:".toList ++ rest) := rfl
  unfold pathMark
  rw [htext, takeWhile_append_cons hgap (by decide), dropWhile_append_cons hgap (by decide),
    if_pos (by decide)]
  exact isPrefixOf?_append "Path:".toList rest

theorem pathGroup_append {path : Text} {c : Char} (hc : isWhiteSpace c = false)
    (hpath : '\n' ∉ c :: path) :
    pathGroup (' ' :: (c :: path ++ '\n' :: rest)) = some (c :: path, '\n' :: rest) := by
  have hkept : ∀ d ∈ c :: path, decide (d ≠ '\n') = true := fun d hd =>
    decide_eq_true (ne_of_mem_of_not_mem hd hpath)
  have hline := takeWhile_append_cons (v := rest) hkept (c := '\n') (by decide)
  have hafter := dropWhile_append_cons (v := rest) hkept (c := '\n') (by decide)
  unfold pathGroup
  rw [List.dropWhile_cons_of_pos (by decide), List.cons_append,
    List.dropWhile_cons_of_neg (by simp [hc])]
  dsimp only
  rw [← List.cons_append, hline, hafter]

theorem matchFile_append {name size path : Text} {c : Char}
    (hname : ∀ c ∈ name, isNameChar c = true) (hne : size ≠ []) (hsize : ')' ∉ size)
    (hc : isWhiteSpace c = false) (hpath : '\n' ∉ c :: path) :
    matchFile ("- ".toList ++ name ++ " (".toList ++ size ++ ")".toList ++
      '\n' :: ("  Path: ".toList ++ (c :: path) ++ '\n' :: rest)) =
    some (⟨trim (name ++ [' ']), parseInt (trim size), trim (c :: path)⟩, '\n' :: rest) := by
  have htext : "- ".toList ++ name ++ " (".toList ++ size ++ ")".toList ++
      '\n' :: ("  Path: ".toList ++ (c :: path) ++ '\n' :: rest) =
      "- ".toList ++ ((name ++ [' ']) ++ '(' :: (size ++ ')' :: ("\n  Path:".toList ++
        (' ' :: (c :: path ++ '\n' :: rest))))) := by
    simp
  have hspaced : ∀ d ∈ name ++ [' '], isNameChar d = true := by
    intro d hd
    rcases List.mem_append.mp hd with hd | hd
    · exact hname d hd
    · rw [List.mem_singleton.mp hd]
      decide
  unfold matchFile
  rw [htext]
  simp only [isPrefixOf?_append, nameGroup_append (by simp) hspaced, sizeGroup_append hne hsize,
    pathMark_append, pathGroup_append hc hpath, Option.bind_eq_bind, Option.bind_some,
    Option.pure_def]

theorem matchFile_of_not_dash (h : ¬ "- ".toList <+: text) : matchFile text = none := by
  cases hmatch : matchFile text with
  | none => rfl
  | some found =>
    obtain ⟨_, _, _, r₁, _, _, _, hdash, -⟩ := matchFile_split hmatch
    exact absurd ⟨r₁, hdash.symm⟩ h

theorem scanFiles_match (hu : u ≠ []) (h : matchFile (u ++ rest) = some (file, rest)) :
    scanFiles 0 (u ++ rest) = file :: scanFiles 0 rest := by
  obtain ⟨c, u, rfl⟩ := List.exists_cons_of_ne_nil hu
  rw [List.cons_append] at h ⊢
  rw [scanFiles, h]
  dsimp only
  rw [scanFiles_drop, List.length_append, Nat.add_sub_cancel, List.drop_left]

theorem scanFiles_line (h : ¬ "- ".toList <:+: u) :
    scanFiles 0 (u ++ '\n' :: v) = scanFiles 0 v := by
  induction u with
  | nil =>
    have hnone : matchFile ('\n' :: v) = none :=
      matchFile_of_not_dash fun hdash => absurd (List.cons_prefix_cons.mp hdash).1 (by decide)
    rw [List.nil_append, scanFiles, hnone]
  | cons c u ih =>
    have hnone : matchFile (c :: (u ++ '\n' :: v)) = none :=
      matchFile_of_not_dash fun hdash =>
        h (prefix_append_cons (a := c :: u) (by decide) hdash).isInfix
    rw [List.cons_append, scanFiles, hnone]
    exact ih fun hlater => h (List.infix_cons hlater)

theorem scanFiles_writeLines {ls : List Text} (h : ∀ l ∈ ls, ¬ "- ".toList <:+: l) :
    scanFiles 0 (writeLines ls ++ v) = scanFiles 0 v := by
  induction ls with
  | nil => rfl
  | cons l ls ih =>
    rw [writeLines_cons, List.append_assoc, List.cons_append,
      scanFiles_line (h l (List.mem_cons_self ..)), ih fun m hm => h m (List.mem_cons_of_mem _ hm)]

end Pattern

end DeerFlow.Chat
