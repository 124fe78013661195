import DeerFlow.Lib.Assoc
import DeerFlow.Lib.LineEdits
import DeerFlow.Runtime.EventStore

/-! The comparison of two snapshots of a workspace: which files changed, the diff of each, and the
lines added and deleted, which are counted on the rendered diff. -/

namespace DeerFlow.Workspace
open DeerFlow.Runtime (utf8Length)

inductive DiffUnavailableReason where
  | binary
  | large
  | sensitive
  | truncated
  deriving DecidableEq

inductive WorkspaceChangeStatus where
  | created
  | modified
  | deleted
  deriving DecidableEq

structure WorkspaceChangeLimits where
  maxFiles : Nat := 200
  maxTotalDiffBytes : Nat := 1024 * 1024

structure FileSnapshot where
  root : String
  size : Nat
  mtimeNs : Int
  sha256 : Option String
  binary : Bool := false
  sensitive : Bool := false
  text : Option Text := none
  textPath : Option String := none
  contentUnavailableReason : Option DiffUnavailableReason := none

structure WorkspaceSnapshot where
  files : Assoc String FileSnapshot
  truncated : Bool := false

structure WorkspaceFileChange where
  path : String
  root : String
  status : WorkspaceChangeStatus
  binary : Bool
  sensitive : Bool
  sizeBefore : Option Nat
  sizeAfter : Option Nat
  sha256Before : Option String
  sha256After : Option String
  diff : Text
  diffTruncated : Bool
  diffUnavailableReason : Option DiffUnavailableReason
  additions : Nat
  deletions : Nat

structure WorkspaceChangeSummary where
  created : Nat
  modified : Nat
  deleted : Nat
  additions : Nat
  deletions : Nat
  truncated : Bool

structure WorkspaceChangeResult where
  summary : WorkspaceChangeSummary
  files : List WorkspaceFileChange

section Difflib

structure Hunk where
  range : Text
  edits : List (LineEdit Text)

/-- What is used of `difflib`: the hunks turn the one list of lines into the other. -/
structure Difflib where
  hunks : List Text → List Text → List Hunk
  patches : ∀ a b, Patches ((hunks a b).map (·.edits)) a b

def renderEdit : LineEdit Text → Text
  | .keep line => ' ' :: line
  | .delete line => '-' :: line
  | .insert line => '+' :: line

def Hunk.render (h : Hunk) : List Text :=
  ("@@ ".toList ++ h.range ++ " @@".toList) :: h.edits.map renderEdit

def Difflib.unifiedDiff (difflib : Difflib) (a b : List Text) (fromfile tofile : Text) :
    List Text :=
  match difflib.hunks a b with
  | [] => []
  | hunks => ("--- ".toList ++ fromfile) :: ("+++ ".toList ++ tofile) :: hunks.flatMap Hunk.render

end Difflib

def countDiffLine (counts : Nat × Nat) (line : Text) : Nat × Nat :=
  if "+++ ".toList.isPrefixOf line || "--- ".toList.isPrefixOf line then counts
  else if ['+'].isPrefixOf line then (counts.1 + 1, counts.2)
  else if ['-'].isPrefixOf line then (counts.1, counts.2 + 1)
  else counts

def countDiffLines (lines : List Text) : Nat × Nat := lines.foldl countDiffLine (0, 0)

/-- `difflib`, and what is read when a cached text is opened. -/
structure DiffEnv where
  difflib : Difflib
  readCached : String → Option Text

section Diff
variable (env : DiffEnv)

def diffUnavailableReason (beforeFile afterFile : Option FileSnapshot) :
    Option DiffUnavailableReason :=
  let files := beforeFile.toList ++ afterFile.toList
  [.sensitive, .binary, .large].find? fun preferred =>
    files.any fun file => file.contentUnavailableReason = some preferred

def snapshotText : Option FileSnapshot → Option Text
  | none => some []
  | some file =>
    match file.text, file.textPath with
    | some text, _ => some text
    | none, some path => if path ≠ "" then env.readCached path else none
    | none, none => none

structure BuiltDiff where
  diff : Text
  additions : Nat
  deletions : Nat
  truncated : Bool
  reason : Option DiffUnavailableReason

def buildDiff (path : String) (beforeFile afterFile : Option FileSnapshot)
    (remainingBytes : Nat) : BuiltDiff :=
  match diffUnavailableReason beforeFile afterFile with
  | some reason => ⟨[], 0, 0, false, some reason⟩
  | none =>
    match snapshotText env beforeFile, snapshotText env afterFile with
    | some beforeText, some afterText =>
      let lines := env.difflib.unifiedDiff (splitlines beforeText) (splitlines afterText)
        ('a' :: path.toList) ('b' :: path.toList)
      let diff := ['\n'].intercalate lines
      let counts := countDiffLines lines
      if remainingBytes < utf8Length diff then ⟨[], counts.1, counts.2, true, some .truncated⟩
      else ⟨diff, counts.1, counts.2, false, none⟩
    | _, _ => ⟨[], 0, 0, false, none⟩

end Diff

section Compare

def sameFile (beforeFile afterFile : FileSnapshot) : Bool :=
  match beforeFile.sha256, afterFile.sha256 with
  | some before, some after => before = after
  | _, _ => beforeFile.size = afterFile.size && beforeFile.mtimeNs = afterFile.mtimeNs

def status (beforeFile afterFile : Option FileSnapshot) : WorkspaceChangeStatus :=
  if beforeFile.isNone then .created
  else if afterFile.isNone then .deleted
  else .modified

/-- The file is there on both sides and the same. -/
def unchanged (before after : WorkspaceSnapshot) (path : String) : Bool :=
  match before.files.find path, after.files.find path with
  | some beforeFile, some afterFile => sameFile beforeFile afterFile
  | _, _ => false

def paths (s : WorkspaceSnapshot) : List String := s.files.rows.map Prod.fst

def allPaths (before after : WorkspaceSnapshot) : List String :=
  sorted (paths before ++ paths after).dedup

def getChangedPaths (before after : WorkspaceSnapshot) : Finset String :=
  (paths before ++ paths after).toFinset.filter fun path => !unchanged before after path

structure Comparison where
  changes : List WorkspaceFileChange
  created : Nat
  modified : Nat
  deleted : Nat
  additions : Nat
  deletions : Nat
  totalDiffBytes : Nat
  truncated : Bool

variable (env : DiffEnv) (limits : WorkspaceChangeLimits) (before after : WorkspaceSnapshot)

def fileChange (path : String) (built : BuiltDiff) : WorkspaceFileChange :=
  let beforeFile := before.files.find path
  let afterFile := after.files.find path
  -- One of the two is there, as the source asserts.
  let sample := afterFile.or beforeFile
  { path := path
    root := sample.elim "" (·.root)
    status := status beforeFile afterFile
    binary := sample.elim false (·.binary)
    sensitive := sample.elim false (·.sensitive)
    sizeBefore := beforeFile.map (·.size)
    sizeAfter := afterFile.map (·.size)
    sha256Before := beforeFile.bind (·.sha256)
    sha256After := afterFile.bind (·.sha256)
    diff := built.diff
    diffTruncated := built.truncated
    diffUnavailableReason := built.reason
    additions := built.additions
    deletions := built.deletions }

/-- The loop body of `compare_snapshots`. -/
def comparePath (s : Comparison) (path : String) : Comparison :=
  if unchanged before after path then s
  else
    let beforeFile := before.files.find path
    let afterFile := after.files.find path
    let built := buildDiff env path beforeFile afterFile
      (limits.maxTotalDiffBytes - s.totalDiffBytes)
    let fits := s.changes.length < limits.maxFiles
    { changes := if fits then s.changes ++ [fileChange before after path built] else s.changes
      created := s.created + if status beforeFile afterFile = .created then 1 else 0
      modified := s.modified + if status beforeFile afterFile = .modified then 1 else 0
      deleted := s.deleted + if status beforeFile afterFile = .deleted then 1 else 0
      additions := s.additions + built.additions
      deletions := s.deletions + built.deletions
      totalDiffBytes := s.totalDiffBytes + utf8Length built.diff
      truncated := s.truncated || built.truncated || built.reason = some .large ||
        built.reason = some .truncated || !fits }

def compareSnapshots : WorkspaceChangeResult :=
  let start : Comparison := ⟨[], 0, 0, 0, 0, 0, 0, before.truncated || after.truncated⟩
  let s := (allPaths before after).foldl (comparePath env limits before after) start
  { summary := ⟨s.created, s.modified, s.deleted, s.additions, s.deletions, s.truncated⟩
    files := s.changes }

end Compare

end DeerFlow.Workspace
