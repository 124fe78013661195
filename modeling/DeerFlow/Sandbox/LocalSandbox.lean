import DeerFlow.Lib.PosixPath
import DeerFlow.Lib.Scan
import DeerFlow.Lib.TextLines

/-! The local sandbox: container paths are mapped to host directories. Files are written with the
container paths of their content turned into host paths, and what the agent has written is read
back with host paths turned into container paths. -/

namespace DeerFlow.Sandbox

structure PathMapping where
  containerPath : Text
  localPath : Text
  readOnly : Bool
  deriving DecidableEq

inductive Errno where
  | eacces
  | erofs
  | enoent
  | eisdir
  | other (code : Nat)
  deriving DecidableEq

structure OSError where
  errno : Errno
  strerror : String
  path : Text
  deriving DecidableEq

/-- A `ValueError` comes of a null character in a path. -/
inductive Failure where
  | osError (e : OSError)
  | valueError
  deriving DecidableEq

/-- The mappings, what `Path.resolve` makes of a path on the host, and the characters that `\w`
matches. -/
structure LocalSandbox where
  pathMappings : List PathMapping
  resolve : Text → Text
  isWord : Char → Bool

/-- `sorted(xs, key=key, reverse=True)`. -/
def sortedReverse {α : Type*} (key : α → Nat) (xs : List α) : List α :=
  xs.insertionSort fun x y => key y ≤ key x

def rstripSlash (path : Text) : Text := (path.reverse.dropWhile (· = '/')).reverse

def lstripSlash (path : Text) : Text := path.dropWhile (· = '/')

/-- `path.replace("\\", "/")`. -/
def toSlashes (path : Text) : Text := path.map fun c => if c = '\\' then '/' else c

/-- The path is the root or starts with the root and a slash. -/
def covers (root path : Text) : Bool := path = root ∨ (root ++ ['/']).isPrefixOf path

/-- `mapping.container_path.rstrip("/") or "/"`. -/
def PathMapping.container (m : PathMapping) : Text :=
  let path := rstripSlash m.containerPath
  if path = [] then ['/'] else path

namespace LocalSandbox
variable (b : LocalSandbox)

def resolvedLocalPath (m : PathMapping) : Text := b.resolve m.localPath

def mappingsByContainerSpecificity : List PathMapping :=
  sortedReverse (fun m => m.container.length) b.pathMappings

def mappingsByLocalSpecificity : List PathMapping :=
  sortedReverse (fun m => m.localPath.length) b.pathMappings

def tryResolve (path : Text) : Except Failure Text :=
  if '\x00' ∈ path then .error .valueError else .ok (b.resolve path)

/-- The mapping of a container path and the path relative to it. -/
def findPathMapping (path : Text) : Option (PathMapping × Text) :=
  b.mappingsByContainerSpecificity.findSome? fun m =>
    if m.container = ['/'] then
      if Posix.isAbs path then some (m, lstripSlash path) else none
    else if covers m.container path then
      some (m, lstripSlash (path.drop m.container.length))
    else none

/-- `(local_root / relative).resolve() if relative else local_root`. -/
def underRoot (root relative : Text) : Except Failure Text :=
  if relative = [] then .ok root else b.tryResolve (Posix.join root relative)

def resolvePathWithMapping (path : Text) : Except Failure (Text × Option PathMapping) :=
  match b.findPathMapping path with
  | none => .ok (path, none)
  | some (m, relative) => do
    let resolved ← b.underRoot (b.resolvedLocalPath m) relative
    if Posix.comps (b.resolvedLocalPath m) <+: Posix.comps resolved then .ok (resolved, some m)
    else .error (.osError ⟨.eacces, "Access denied: path escapes mounted directory", path⟩)

def resolvePath (path : Text) : Except Failure Text :=
  (b.resolvePathWithMapping path).map Prod.fst

/-- The mapping with the longest root over the path decides. -/
def isReadOnlyPath (resolvedPath : Text) : Bool :=
  let resolved := b.resolve resolvedPath
  let best := b.pathMappings.foldl (fun best m =>
    if covers (b.resolvedLocalPath m) resolved ∧ best.all (fun n =>
        (b.resolvedLocalPath n).length < (b.resolvedLocalPath m).length) then some m
    else best) none
  best.any (·.readOnly)

def isResolvedPathReadOnly (resolved : Text × Option PathMapping) : Bool :=
  resolved.2.any (·.readOnly) || b.isReadOnlyPath resolved.1

/-- The container path of a host path under the mapping. -/
def containerName? (m : PathMapping) (resolved : Text) : Option Text :=
  let root := b.resolvedLocalPath m
  let relative := lstripSlash (resolved.drop root.length)
  if covers root resolved then
    some (if relative = [] then m.containerPath else m.containerPath ++ '/' :: relative)
  else none

def reverseResolvePath (path : Text) : Except Failure Text :=
  (b.tryResolve (toSlashes path)).map fun resolved =>
    (b.mappingsByLocalSpecificity.findSome? fun m => b.containerName? m resolved).getD resolved

end LocalSandbox

section Patterns

/-- `[^\s"';&|<>()]`. -/
def pathChar (c : Char) : Bool := !(isSpace c || "\"';&|<>()".toList.contains c)

/-- The lookahead: a slash, the end, or neither a word character nor a dot or a hyphen. -/
def textBoundary (isWord : Char → Bool) : Text → Bool
  | [] => true
  | c :: _ => c = '/' || !(isWord c || c = '.' || c = '/' || c = '-')

/-- A separator and the path characters after it, if there is one. -/
def tail (separators : List Char) : Text → Text
  | [] => []
  | c :: rest => if c ∈ separators then c :: rest.takeWhile pathChar else []

def matchContainer (isWord : Char → Bool) (container s : Text) : Option Text :=
  if container.isPrefixOf s ∧ textBoundary isWord (s.drop container.length) then
    some (container ++ tail ['/'] (s.drop container.length))
  else none

def matchRoot (root s : Text) : Option Text :=
  if root.isPrefixOf s then some (root ++ tail ['/', '\\'] (s.drop root.length)) else none

end Patterns

namespace LocalSandbox
variable (b : LocalSandbox)

def contentPattern : Scan.Pattern := fun s =>
  (sortedReverse (fun m => m.containerPath.length) b.pathMappings).findSome? fun m =>
    matchContainer b.isWord m.containerPath s

def resolvePathsInContent (content : Text) : Except Failure Text :=
  Scan.sub b.contentPattern (fun path => (b.resolvePath path).map toSlashes) content

def reverseResolvePathsInOutput (output : Text) : Except Failure Text :=
  b.mappingsByLocalSpecificity.foldlM (fun text m =>
    Scan.sub (matchRoot (b.resolvedLocalPath m)) b.reverseResolvePath text) output

end LocalSandbox

/-- The host's files, and the errors that making the directory of a file and opening it for
writing come to. -/
structure Disk where
  file : Text → Except (Errno × String) Text
  mkdirError : Text → Option (Errno × String)
  openError : Text → Option (Errno × String)

/-- `agentWritten` is `_agent_written_paths`. -/
structure SandboxState where
  disk : Disk
  agentWritten : List Text

def raiseAt (path : Text) (e : Errno × String) : Failure := .osError ⟨e.1, e.2, path⟩

/-- An `OSError` is raised again with the path that was asked for. -/
def Failure.at (path : Text) : Failure → Failure
  | .osError e => .osError { e with path := path }
  | .valueError => .valueError

def SandboxState.put (s : SandboxState) (path text : Text) : SandboxState where
  disk := { s.disk with file := fun p => if p = path then .ok text else s.disk.file p }
  agentWritten := if path ∈ s.agentWritten then s.agentWritten else path :: s.agentWritten

namespace LocalSandbox
variable (b : LocalSandbox)

def readFile (s : SandboxState) (path : Text) : Except Failure Text := do
  let resolved ← b.resolvePath path
  let raw ← (s.disk.file resolved).mapError (raiseAt path)
  let content := universalNewlines raw
  if resolved ∈ s.agentWritten then b.reverseResolvePathsInOutput content else .ok content

def writeFile (s : SandboxState) (path content : Text) (append : Bool) :
    Except Failure SandboxState := do
  let resolved ← b.resolvePathWithMapping path
  if b.isResolvedPathReadOnly resolved then
    .error (.osError ⟨.erofs, "Read-only file system", path⟩)
  else
    let dir := Posix.dirname resolved.1
    match if dir = [] then none else s.disk.mkdirError dir with
    | some e => .error (raiseAt path e)
    | none =>
      let resolvedContent ← (b.resolvePathsInContent content).mapError (Failure.at path)
      match s.disk.openError resolved.1 with
      | some e => .error (raiseAt path e)
      | none =>
        let before := if append then (s.disk.file resolved.1).toOption.getD [] else []
        .ok (s.put resolved.1 (before ++ resolvedContent))

end LocalSandbox

section StrReplace

/-- `content.replace(old, new, 1)`. -/
def replaceFirst (old new : Text) : Text → Text
  | [] => if old = [] then new else []
  | c :: s =>
    if old.isPrefixOf (c :: s) then new ++ (c :: s).drop old.length
    else c :: replaceFirst old new s

/-- `content.replace(old, new)`. -/
def replaceAll (old new content : Text) : Text :=
  if old = [] then new ++ content.flatMap (· :: new)
  else (Scan.scan (fun s => if old.isPrefixOf s then some old else none) content).flatMap fun
    | .char c => [c]
    | .hit _ => new

def replaced (old new : Text) (all : Bool) (content : Text) : Text :=
  if all then replaceAll old new content else replaceFirst old new content

inductive StrReplaceReply where
  | ok
  | notFound
  deriving DecidableEq

/-- What `str_replace` does under the lock of the file. -/
def LocalSandbox.strReplace (b : LocalSandbox) (s : SandboxState) (path old new : Text)
    (all : Bool) : Except Failure (StrReplaceReply × SandboxState) := do
  let content ← b.readFile s path
  if content = [] then .ok (.ok, s)
  else if old <:+: content then
    let t ← b.writeFile s path (replaced old new all content) false
    .ok (.ok, t)
  else .ok (.notFound, s)

end StrReplace

end DeerFlow.Sandbox
