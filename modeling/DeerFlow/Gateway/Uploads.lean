import DeerFlow.Lib.NumberedName
import DeerFlow.Lib.PosixPath
import DeerFlow.Lib.Transition

/-! The file loop of `upload_files`: each file is staged, committed by a replace
and perhaps converted, and an exception unlinks what was committed before it.
The file operations of the event loop's helper threads succeed, raise or are
cancelled as their events say. -/

namespace DeerFlow.Gateway
open Transition

abbrev Bytes := List UInt8

/-- Files of one `group` are hard links of each other. A link leads to a name of the same
directory or elsewhere. -/
inductive Node where
  | file (content : Bytes) (group : Option Nat)
  | symlink (target : Option Text)
  | special
  deriving DecidableEq

def Node.group : Node → Option Nat
  | .file _ group => group
  | _ => none

def Node.append (data : Bytes) : Node → Node
  | .file content group => .file (content ++ data) group
  | node => node

structure DirEntry where
  name : Text
  node : Node
  deriving DecidableEq

abbrev Dir := Table DirEntry.name

/-- Where opening a name leads. -/
inductive Target where
  | here (name : Text)
  | elsewhere
  | unresolved
  deriving DecidableEq

namespace Dir

def maxSymlinks : Nat := 40

def follow (d : Dir) : Nat → Text → Target
  | 0, _ => .unresolved
  | fuel + 1, name => match (d.get name).map DirEntry.node with
    | some (.symlink none) => .elsewhere
    | some (.symlink (some target)) => follow d fuel target
    | _ => .here name

/-- Writing a file writes every hard link of it. -/
def overwrite (d : Dir) (group : Nat) (content : Bytes) : Dir :=
  d.mapRows (fun x => if x.node.group = some group then
    { x with node := .file content (some group) } else x) fun x => by split_ifs <;> rfl

/-- The names whose content `write_text` changes. -/
def touched (d : Dir) (name : Text) : List Text :=
  match d.follow (maxSymlinks + 1) name with
  | .here target => match (d.get target).bind fun x => x.node.group with
    | some group => (d.rows.filter fun x => x.node.group = some group).map DirEntry.name
    | none => [target]
  | _ => []

/-- `Path.write_text`, which follows links. There is no result where the file cannot be opened. -/
def writeText (d : Dir) (name : Text) (content : Bytes) : Option Dir :=
  match d.follow (maxSymlinks + 1) name with
  | .here target => match (d.get target).map DirEntry.node with
    | none | some (.file _ none) => some (d.put ⟨target, .file content none⟩)
    | some (.file _ (some group)) => some (d.overwrite group content)
    | some _ => none
  | .elsewhere => some d
  | .unresolved => none

/-- `os.replace`. -/
def replace (d : Dir) (source target : Text) : Dir :=
  match d.get source with
  | none => d
  | some x => (d.erase source).put ⟨target, x.node⟩

end Dir

/-- `Path(filename).name`. -/
def pathName (filename : Text) : Text := (Posix.comps filename).getLast?.getD []

/-- The last dot of a name splits it, unless it is the first or the last character. -/
def splitSuffix (name : Text) : Text × Text :=
  let extension := name.reverse.takeWhile (· ≠ '.')
  let stem := name.take (name.length - extension.length - 1)
  if extension ≠ [] ∧ extension.length < name.length ∧ stem ≠ [] then
    (stem, '.' :: extension.reverse)
  else (name, [])

def pathStem (name : Text) : Text := (splitSuffix name).1

def pathSuffix (name : Text) : Text := (splitSuffix name).2

/-- `file_path.with_suffix(".md")`. -/
def markdownName (name : Text) : Text := pathStem name ++ ".md".toList

def convertibleExtensions : List Text :=
  [".pdf", ".ppt", ".pptx", ".xls", ".xlsx", ".doc", ".docx"].map String.toList

inductive FilenameError where
  | empty
  | unsafeName (filename : Text)
  | backslash (filename : Text)
  | tooLong (chars : Nat)
  deriving DecidableEq

def FilenameError.message : FilenameError → Text
  | .empty => "Filename is empty".toList
  | .unsafeName filename => "Filename is unsafe: '".toList ++ filename ++ "'".toList
  | .backslash filename => "Filename contains backslash: '".toList ++ filename ++ "'".toList
  | .tooLong chars => "Filename too long: ".toList ++ (toString chars).toList ++ " chars".toList

def utf8Length (text : Text) : Nat := (text.map fun c => c.utf8Size).sum

def normalizeFilename (filename : Text) : Except FilenameError Text :=
  if filename = [] then .error .empty
  else
    let name := pathName filename
    if name = [] ∨ name = ['.'] ∨ name = "..".toList then .error (.unsafeName filename)
    else if '\\' ∈ name then .error (.backslash filename)
    else if 255 < utf8Length name then .error (.tooLong name.length)
    else .ok name

/-- `{stem}_{counter}{suffix}`. -/
def numbered (name : Text) (counter : Nat) : Text :=
  pathStem name ++ '_' :: (toString counter).toList ++ pathSuffix name

/-- Of more counters than names were claimed, one is free. -/
def claimUniqueFilename (name : Text) (seen : List Text) : Text :=
  if name ∈ seen then
    (((List.range' 1 (seen.length + 1)).map (numbered name)).find? (· ∉ seen)).getD name
  else name

inductive UploadExc where
  | http (status : Nat) (detail : Text)
  | unsafePath (message : Text)
  | other (message : Text)
  deriving DecidableEq

def uploadChunkSize : Nat := 8192

def stagingName (token : Text) : Text := ".upload-".toList ++ token ++ ".part".toList

/-- How staging goes: what `lstat`, `mkstemp` or `fdopen` raises, the names that `mkstemp` draws,
and whether the file of a failed `fdopen` is unlinked. -/
structure Prepare where
  tokens : List Text
  lstat : Option Text := none
  mkstemp : Option Text := none
  fdopen : Option (Text × Bool) := none

def validateUploadDestination (d : Dir) (name : Text) (lstat : Option Text) :
    Except UploadExc Text :=
  match normalizeFilename name with
  | .error e => .error (.other e.message)
  | .ok name => match lstat with
    | some message => .error (.other message)
    | none => match (d.get name).map DirEntry.node with
      | none | some (.file _ none) => .ok name
      | some (.file _ (some _)) =>
        .error (.unsafePath ("Upload destination has multiple links: ".toList ++ name))
      | some _ => .error (.unsafePath ("Upload destination is not a regular file: ".toList ++ name))

/-- Whether there is a staging file afterwards, and the answer: the destination and that file. -/
def prepareUploadDestination (d : Dir) (name : Text) (p : Prepare) :
    Option Text × Except UploadExc (Text × Text) :=
  match validateUploadDestination d name p.lstat with
  | .error e => (none, .error e)
  | .ok dest => match p.mkstemp with
    | some message => (none, .error (.other message))
    | none => match (p.tokens.map stagingName).find? fun temp => (d.get temp).isNone with
      | none => (none, .error (.other "No usable temporary file name found".toList))
      | some temp => match p.fdopen with
        | some (message, true) => (none, .error (.other message))
        | some (message, false) => (some temp, .error (.other message))
        | none => (some temp, .ok (dest, temp))

structure UploadLimits where
  maxFiles : Nat
  maxFileSize : Nat
  maxTotalSize : Nat

structure UploadConfig where
  limits : UploadLimits
  autoConvertDocuments : Bool

structure UploadedFileInfo where
  filename : Text
  size : Nat
  originalFilename : Option Text
  markdownFile : Option Text
  deriving DecidableEq

inductive UploadResult where
  | finished
  | raised (status : Nat) (detail : Text)
  | cancelled
  deriving DecidableEq

/-- The file in hand: as the client named it, normalized, and as it is stored. -/
structure UploadFile where
  filename : Text
  original : Text
  name : Text
  deriving DecidableEq

inductive UploadPc where
  | next
  | writing (file : UploadFile) (dest temp : Text) (size : Nat)
  | aborting (file : UploadFile) (temp : Text) (exc : UploadExc)
  | committed (file : UploadFile) (dest : Text) (size : Nat)
  | cleaning (file : UploadFile) (exc : UploadExc)
  | ended (result : UploadResult)
  deriving DecidableEq

/-- `wrote` are the names whose content the request has changed, recorded in `written_paths`
or not. -/
structure Upload where
  dir : Dir
  files : List (Option Text)
  seen : List Text
  written : List Text
  skipped : List Text
  uploaded : List UploadedFileInfo
  total : Nat
  pc : UploadPc
  wrote : List Text

/-- How a commit goes. A replace that fails unlinks the staging file, or fails at that too. -/
inductive Commit where
  | closeRaises (message : Text)
  | replaceRaises (message : Text) (unlinked : Bool)
  | replaced

inductive Abort where
  | unlinked
  | closeRaises (message : Text)
  | unlinkRaises (message : Text)

/-- How a conversion goes. Before it has opened the Markdown file, or after. -/
inductive Conversion where
  | raises
  | raisesWriting (content : Bytes)
  | converted (content : Bytes)

inductive UploadEvent where
  | next (p : Prepare)
  | chunk (data : Bytes) (raises : Option Text)
  | readRaises (message : Text)
  | commit (c : Commit)
  | abort (a : Abort)
  | convert (c : Conversion)
  /-- Each unlink goes through or not, in order. -/
  | cleanup (unlinks : List Bool) (cancelled : Bool)
  | cancel

namespace Upload

/-- What is checked before the loop. -/
def start (config : UploadConfig) (files : List (Option Text)) (d : Dir) : Upload where
  dir := d
  files := files
  seen := []
  written := []
  skipped := []
  uploaded := []
  total := 0
  pc := if files = [] then .ended (.raised 400 "No files provided".toList)
    else if config.limits.maxFiles < files.length then .ended (.raised 413
      ("Too many files: maximum is ".toList ++ (toString config.limits.maxFiles).toList))
    else .next
  wrote := []

/-- Staging the next file. A destination that is not safe is skipped. -/
def prepareNext (s : Upload) (file : UploadFile) (p : Prepare) : Upload :=
  let (temp, result) := prepareUploadDestination s.dir file.name p
  let s := match temp with
    | none => s
    | some temp => { s with
      dir := s.dir.put ⟨temp, .file [] none⟩
      wrote := s.wrote ++ [temp] }
  match result with
  | .ok (dest, temp) => { s with pc := .writing file dest temp 0 }
  | .error (.unsafePath _) => { s with skipped := s.skipped ++ [file.name], pc := .next }
  | .error e => { s with pc := .cleaning file e }

def nextFile (s : Upload) (p : Prepare) : Upload :=
  match s.files with
  | [] => { s with pc := .ended .finished }
  | file :: files =>
    let s := { s with files := files }
    match file with
    | none => s
    | some filename => match normalizeFilename filename with
      | .error _ => s
      | .ok original =>
        let name := claimUniqueFilename original s.seen
        prepareNext { s with seen := name :: s.seen } ⟨filename, original, name⟩ p

def writeChunk (config : UploadConfig) (s : Upload) (file : UploadFile) (dest temp : Text)
    (size : Nat) (data : Bytes) (raises : Option Text) : Upload :=
  let size := size + data.length
  let total := s.total + data.length
  if config.limits.maxFileSize < size then
    { s with pc := .aborting file temp (.http 413 ("File too large: ".toList ++ file.name)) }
  else if config.limits.maxTotalSize < total then
    { s with pc := .aborting file temp (.http 413 "Total upload size too large".toList) }
  else match raises with
    | some message => { s with pc := .aborting file temp (.other message) }
    | none => { s with
        dir := s.dir.update temp fun x => { x with node := x.node.append data }
        total := total
        pc := .writing file dest temp size }

def commitUploadTemp (s : Upload) (file : UploadFile) (dest temp : Text) (size : Nat) :
    Commit → Upload
  | .closeRaises message => { s with pc := .aborting file temp (.other message) }
  | .replaceRaises message unlinked => { s with
      dir := if unlinked then s.dir.erase temp else s.dir
      pc := .aborting file temp (.other message) }
  | .replaced => { s with
      dir := s.dir.replace temp dest
      written := s.written ++ [dest]
      pc := .committed file dest size
      wrote := s.wrote ++ [dest] }

def abortUploadTemp (s : Upload) (file : UploadFile) (temp : Text) (exc : UploadExc) :
    Abort → Upload
  | .unlinked => { s with dir := s.dir.erase temp, pc := .cleaning file exc }
  | .closeRaises message => { s with
      dir := s.dir.erase temp
      pc := .cleaning file (.other message) }
  | .unlinkRaises message => { s with pc := .cleaning file (.other message) }

/-- `convert_file_to_markdown`: the directory and the names it has written, where the Markdown file
could be opened, and whether there is a result. -/
def convertFileToMarkdown (d : Dir) (name : Text) : Conversion → Option (Dir × List Text) × Bool
  | .raises => (none, false)
  | .raisesWriting content => match d.writeText (markdownName name) content with
    | none => (none, false)
    | some d' => (some (d', d.touched (markdownName name)), false)
  | .converted content => match d.writeText (markdownName name) content with
    | none => (none, false)
    | some d' => (some (d', d.touched (markdownName name)), true)

def convertFile (config : UploadConfig) (s : Upload) (file : UploadFile) (dest : Text) (size : Nat)
    (c : Conversion) : Upload :=
  let markdown := markdownName dest
  let info : UploadedFileInfo := {
    filename := file.name
    size := size
    originalFilename := if file.name = file.original then none else some file.original
    markdownFile := none }
  if config.autoConvertDocuments ∧
      (pathSuffix dest).map Char.toLower ∈ convertibleExtensions then
    let (opened, converted) := convertFileToMarkdown s.dir dest c
    let s := match opened with
      | none => s
      | some (d, names) => { s with dir := d, wrote := s.wrote ++ names }
    if converted then { s with
      written := s.written ++ [markdown]
      uploaded := s.uploaded ++ [{ info with markdownFile := some markdown }]
      pc := .next }
    else { s with uploaded := s.uploaded ++ [info], pc := .next }
  else { s with uploaded := s.uploaded ++ [info], pc := .next }

/-- What `_cleanup_uploaded_paths` unlinks. What it cannot unlink it logs. -/
def removed (s : Upload) (unlinks : List Bool) : List Text :=
  (s.written.reverse.zipIdx.filter fun x => unlinks[x.2]?.getD true).map Prod.fst

def raisedFor (file : UploadFile) : UploadExc → UploadResult
  | .http status detail => .raised status detail
  | .unsafePath message | .other message =>
    .raised 500 ("Failed to upload ".toList ++ file.filename ++ ": ".toList ++ message)

def cleanupUploadedPaths (s : Upload) (file : UploadFile) (exc : UploadExc) (unlinks : List Bool)
    (cancelled : Bool) : Upload :=
  { s with
    dir := (s.removed unlinks).foldl Table.erase s.dir
    wrote := s.wrote ++ s.removed unlinks
    pc := .ended (if cancelled then .cancelled else raisedFor file exc) }

/-- `CancelledError` is no `Exception`: nothing on its way out catches it. -/
def step (config : UploadConfig) (s : Upload) (e : UploadEvent) : Option Upload :=
  match s.pc, e with
  | .ended _, _ => none
  | .next, .next p => some (s.nextFile p)
  | .writing file dest temp size, .chunk data raises =>
    if data = [] ∨ uploadChunkSize < data.length then none
    else some (writeChunk config s file dest temp size data raises)
  | .writing file _ temp _, .readRaises message =>
    some { s with pc := .aborting file temp (.other message) }
  | .writing file dest temp size, .commit c => some (s.commitUploadTemp file dest temp size c)
  | .aborting file temp exc, .abort a => some (s.abortUploadTemp file temp exc a)
  | .committed file dest size, .convert c => some (convertFile config s file dest size c)
  | .cleaning file exc, .cleanup unlinks cancelled =>
    some (s.cleanupUploadedPaths file exc unlinks cancelled)
  | _, .cancel => some { s with pc := .ended .cancelled }
  | _, _ => none

end Upload

def uploadFiles (config : UploadConfig) (files : List (Option Text)) (d : Dir) :
    System Upload UploadEvent := .ofFn (.start config files d) (Upload.step config)

end DeerFlow.Gateway
