import DeerFlow.Lib.Assoc
import DeerFlow.Sandbox.ToolPaths

/-! Paths rewritten in commands and in their output. In a command the virtual paths of the thread
are replaced, and then the container paths of the sandbox; in the output the sandbox turns host
paths into container paths, and what is left of the host's directories is masked. -/

namespace DeerFlow.Sandbox

section Commands

/-- The lookahead: a slash, the end, or a character that ends a word of the shell. -/
def shellBoundary : Text → Bool
  | [] => true
  | c :: _ => c = '/' || (isSpace c || "\"';&|<>()".toList.contains c)

def matchCommand (container s : Text) : Option Text :=
  if container.isPrefixOf s ∧ shellBoundary (s.drop container.length) then
    some (container ++ tail ['/'] (s.drop container.length))
  else none

namespace LocalSandbox
variable (b : LocalSandbox)

def commandPattern : Scan.Pattern := fun s =>
  (sortedReverse (fun m => m.containerPath.length) b.pathMappings).findSome? fun m =>
    matchCommand m.containerPath s

def resolvePathsInCommand (command : Text) : Except Failure Text :=
  Scan.sub b.commandPattern (fun path => (b.resolvePath path).map toSlashes) command

end LocalSandbox

def userDataPattern : Scan.Pattern := fun s =>
  if virtualPathPrefix.isPrefixOf s then
    some (virtualPathPrefix ++ tail ['/'] (s.drop virtualPathPrefix.length))
  else none

def replaceVirtualPathsInCommand (command : Text) (td : Option ThreadData) : Text :=
  if virtualPathPrefix <:+: command ∧ td.isSome then
    Scan.subst userDataPattern (fun path => toSlashes (replaceVirtualPath path td)) command
  else command

end Commands

section Masking

/-- The host directories of the skills, of the user's own skills and of the ACP workspace of a
thread, where they exist, and what `Path.resolve` makes of a path. -/
structure MaskHost where
  skillsHostPath : Option Text
  skillsContainerPath : Text
  userCustomDir : Option Text
  acpWorkspaceHostPath : Option Text → Option Text
  resolve : Text → Text

def extractThreadId (td : Option ThreadData) : Option Text :=
  match td.bind (·.workspacePath) with
  | some (c :: path) => some ((Posix.comps (c :: path)).dropLast.dropLast.getLast?.getD [])
  | _ => none

/-- A dictionary by the actual paths: of two entries for one path the later value stays. -/
def threadActualToVirtualMappings (td : ThreadData) : List (Text × Text) :=
  ((threadVirtualToActualMappings td).foldl (fun (d : Assoc Text Text) m => d.set m.2 m.1)
    Table.empty).rows

/-- `str(Path(path))`. -/
def pathText (path : Text) : Text :=
  let root := List.replicate (Posix.initialSlashes path) '/'
  let parts := Posix.comps path
  if root = [] ∧ parts = [] then ".".toList else root ++ ['/'].intercalate parts

/-- `sorted(_path_variants(path))`, with doubles: a slash comes before a backslash. -/
def pathVariants (path : Text) : List Text :=
  [toSlashes path, path, path.map fun c => if c = '/' then '\\' else c]

/-- Each root with the virtual path that stands for it. -/
def compiledMaskPatterns (resolve : Text → Text) (sources : List (Text × Text)) :
    List (Text × Text) :=
  sources.flatMap fun source =>
    (pathVariants (pathText source.1) ++ pathVariants (resolve source.1)).eraseDups.map
      fun variant => (variant, source.2)

/-- A backslash of the root stands for a slash too. -/
def spells : Text → Text → Bool
  | [], _ => true
  | _ :: _, [] => false
  | v :: vs, c :: s => (c = v || (v = '\\' && c = '/')) && spells vs s

def maskPattern (base : Text) : Scan.Pattern := fun s =>
  if spells base s then
    some (s.take base.length ++ tail ['/', '\\'] (s.drop base.length))
  else none

def maskMatch (base virtual matchedPath : Text) : Text :=
  if matchedPath = base then virtual
  else
    let relative := (matchedPath.drop base.length).dropWhile isPathSeparator
    if relative = [] then virtual else virtual ++ '/' :: relative

namespace MaskHost
variable (h : MaskHost)

def sources (td : Option ThreadData) : List (Text × Text) :=
  (match h.skillsHostPath with
    | some skills => [(skills, h.skillsContainerPath)]
    | none => []) ++
  (match h.userCustomDir with
    | some custom => [(custom, h.skillsContainerPath ++ "/custom".toList)]
    | none => []) ++
  (match h.acpWorkspaceHostPath (extractThreadId td) with
    | some acp => [(acp, acpWorkspaceVirtualPath)]
    | none => []) ++
  match td with
  | some td => sortedReverse (fun m => m.1.length) (threadActualToVirtualMappings td)
  | none => []

def maskPatterns (td : Option ThreadData) : List (Text × Text) :=
  compiledMaskPatterns h.resolve (h.sources td)

def maskLocalPathsInOutput (output : Text) (td : Option ThreadData) : Text :=
  (h.maskPatterns td).foldl (fun text p => Scan.subst (maskPattern p.1) (maskMatch p.1 p.2) text)
    output

end MaskHost

end Masking

end DeerFlow.Sandbox
