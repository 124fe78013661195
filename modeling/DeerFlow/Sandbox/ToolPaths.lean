import DeerFlow.Sandbox.LocalSandbox

/-! The paths that the local file tools accept. A path is classified by its text, and one under the
thread's directories is resolved and checked again; the local sandbox resolves the others with the
mappings that its provider builds from the same configuration. -/

namespace DeerFlow.Sandbox

structure VolumeMount where
  hostPath : Text
  containerPath : Text
  readOnly : Bool
  deriving DecidableEq

structure ThreadData where
  workspacePath : Option Text
  uploadsPath : Option Text
  outputsPath : Option Text

inductive ToolPathError where
  | sandboxRuntime (message : Text)
  | permission (message : Text)
  | valueError
  deriving DecidableEq

/-- The configuration, what `Path.resolve` makes of a path, and which host paths exist. -/
structure ToolHost where
  skillsContainerPath : Text
  mounts : List VolumeMount
  resolve : Text → Text
  pathExists : Text → Bool

def virtualPathPrefix : Text := "/mnt/user-data".toList

def acpWorkspaceVirtualPath : Text := "/mnt/acp-workspace".toList

section Joining

def pathSeparatorForStyle (path : Text) : Char :=
  if '\\' ∈ path ∧ '/' ∉ path then '\\' else '/'

def isPathSeparator (c : Char) : Bool := c = '/' || c = '\\'

def joinPathPreservingStyle (base relative : Text) : Text :=
  if relative = [] then base
  else
    let separator := pathSeparatorForStyle base
    let normalized := relative.map fun c => if isPathSeparator c then separator else c
    base.rdropWhile isPathSeparator ++ separator :: normalized.dropWhile isPathSeparator

/-- `str(Path(path).parent)`. -/
def parentPath (path : Text) : Text :=
  let root := List.replicate (Posix.initialSlashes path) '/'
  let parts := (Posix.comps path).dropLast
  if root = [] ∧ parts = [] then ".".toList else root ++ ['/'].intercalate parts

end Joining

section Mappings

def directoryMapping (name : String) (path : Option Text) : List (Text × Text) :=
  match path with
  | some (c :: path) => [(virtualPathPrefix ++ name.toList, c :: path)]
  | _ => []

def threadVirtualToActualMappings (td : ThreadData) : List (Text × Text) :=
  let mappings := directoryMapping "/workspace" td.workspacePath ++
    directoryMapping "/uploads" td.uploadsPath ++ directoryMapping "/outputs" td.outputsPath
  match mappings.map fun m => parentPath m.2 with
  | [] => mappings
  | common :: parents =>
    if parents.all (· = common) then mappings ++ [(virtualPathPrefix, common)] else mappings

def replaceUnder (path : Text) (m : Text × Text) : Option Text :=
  if path = m.1 then some m.2
  else if (m.1 ++ ['/']).isPrefixOf path then
    let result := joinPathPreservingStyle m.2 (lstripSlash (path.drop m.1.length))
    if path.getLast? = some '/' ∧ ¬ result.getLast?.any isPathSeparator then
      some (result ++ [pathSeparatorForStyle m.2])
    else some result
  else none

def replaceVirtualPath (path : Text) (td : Option ThreadData) : Text :=
  match td with
  | none => path
  | some td =>
    ((sortedReverse (fun m => m.1.length) (threadVirtualToActualMappings td)).findSome?
      (replaceUnder path)).getD path

end Mappings

/-- A segment of the path leads up. -/
def hasTraversal (path : Text) : Bool := ((toSlashes path).splitOn '/').contains "..".toList

namespace ToolHost
variable (c : ToolHost)

def isSkillsPath (path : Text) : Bool := covers c.skillsContainerPath path

def isAcpWorkspacePath (path : Text) : Bool := covers acpWorkspaceVirtualPath path

def getCustomMounts : List VolumeMount := c.mounts.filter fun m => c.pathExists m.hostPath

def isCustomMountPath (path : Text) : Bool :=
  c.getCustomMounts.any fun m => covers m.containerPath path

/-- The mount with the longest container path over the path. -/
def getCustomMountForPath (path : Text) : Option VolumeMount :=
  c.getCustomMounts.foldl (fun best m =>
    if covers m.containerPath path ∧ best.all (fun n =>
        n.containerPath.length < m.containerPath.length) then some m
    else best) none

def validateLocalToolPath (path : Text) (td : Option ThreadData) (readOnly : Bool) :
    Except ToolPathError Unit :=
  if td.isNone then
    .error (.sandboxRuntime "Thread data not available for local sandbox".toList)
  else if hasTraversal path then
    .error (.permission "Access denied: path traversal detected".toList)
  else if c.isSkillsPath path then
    if readOnly then .ok ()
    else .error (.permission ("Write access to skills path is not allowed: ".toList ++ path))
  else if isAcpWorkspacePath path then
    if readOnly then .ok ()
    else .error (.permission ("Write access to ACP workspace is not allowed: ".toList ++ path))
  else if (virtualPathPrefix ++ ['/']).isPrefixOf path then .ok ()
  else if c.isCustomMountPath path then
    if (c.getCustomMountForPath path).any (·.readOnly) ∧ readOnly = false then
      .error (.permission ("Write access to read-only mount is not allowed: ".toList ++ path))
    else .ok ()
  else
    .error (.permission ("Only paths under ".toList ++ virtualPathPrefix ++ "/, ".toList ++
      c.skillsContainerPath ++ "/, ".toList ++ acpWorkspaceVirtualPath ++
      "/, or configured mount paths are allowed".toList))

def directories (td : ThreadData) : List Text :=
  [td.workspacePath, td.uploadsPath, td.outputsPath].filterMap id

/-- `relative_to` of two resolved paths. -/
def relativeTo (resolved root : Text) : Bool :=
  (Posix.comps root).isPrefixOf (Posix.comps resolved)

def validateResolvedUserDataPath (resolved : Text) (td : ThreadData) : Except ToolPathError Unit :=
  let allowedRoots := (directories td).map c.resolve
  if allowedRoots = [] then
    .error (.sandboxRuntime "No allowed local sandbox directories configured".toList)
  else if allowedRoots.any (relativeTo resolved) then .ok ()
  else .error (.permission "Access denied: path traversal detected".toList)

/-- A null character makes `Path.resolve` raise a `ValueError`. -/
def resolveAndValidateUserDataPath (path : Text) (td : ThreadData) : Except ToolPathError Text := do
  let replaced := replaceVirtualPath path (some td)
  if '\x00' ∈ replaced then .error .valueError
  else
    let resolved := c.resolve replaced
    c.validateResolvedUserDataPath resolved td
    .ok resolved

end ToolHost

section Provider

/-- The host directories of the skills, of a user and of a thread; whether there are public skills,
and whether the user sees the legacy ones. -/
structure ThreadLayout where
  publicSkills : Text
  hasPublicSkills : Bool
  legacySkills : Text
  seesLegacySkills : Bool
  userCustomSkills : Text
  userData : Text
  workDir : Text
  uploads : Text
  outputs : Text
  acpWorkspace : Text

variable (c : ToolHost) (l : ThreadLayout)

def reservedContainerPrefixes : List Text :=
  [c.skillsContainerPath ++ "/public".toList, c.skillsContainerPath ++ "/custom".toList,
    c.skillsContainerPath ++ "/legacy".toList, acpWorkspaceVirtualPath, virtualPathPrefix]

def mountMapping (m : VolumeMount) : Option PathMapping :=
  let container := if rstripSlash m.containerPath = [] then ['/'] else rstripSlash m.containerPath
  if ¬ Posix.isAbs m.hostPath then none
  else if ¬ Posix.isAbs container then none
  else if (reservedContainerPrefixes c).any (covers · container) then none
  else if c.pathExists m.hostPath then some ⟨container, c.resolve m.hostPath, m.readOnly⟩
  else none

def setupPathMappings : List PathMapping :=
  (if l.hasPublicSkills then
    [⟨c.skillsContainerPath ++ "/public".toList, l.publicSkills, true⟩] else []) ++
  c.mounts.filterMap (mountMapping c)

def userDataMappings : List PathMapping :=
  [⟨virtualPathPrefix, l.userData, false⟩,
    ⟨virtualPathPrefix ++ "/workspace".toList, l.workDir, false⟩,
    ⟨virtualPathPrefix ++ "/uploads".toList, l.uploads, false⟩,
    ⟨virtualPathPrefix ++ "/outputs".toList, l.outputs, false⟩]

def buildThreadPathMappings : List PathMapping :=
  userDataMappings l ++ [⟨acpWorkspaceVirtualPath, l.acpWorkspace, false⟩,
    ⟨c.skillsContainerPath ++ "/custom".toList, l.userCustomSkills, true⟩] ++
  if l.seesLegacySkills then [⟨c.skillsContainerPath ++ "/legacy".toList, l.legacySkills, true⟩]
  else []

/-- The sandbox that is acquired for a thread. -/
def acquire (isWord : Char → Bool) : LocalSandbox where
  pathMappings := setupPathMappings c l ++ buildThreadPathMappings c l
  resolve := c.resolve
  isWord := isWord

/-- The host path that an accepted path leads to: the sandbox resolves a mount's path. -/
def LeadsTo (isWord : Char → Bool) (td : ThreadData) (path host : Text) : Prop :=
  if c.isCustomMountPath path then (acquire c l isWord).resolvePath path = .ok host
  else c.resolveAndValidateUserDataPath path td = .ok host

end Provider

end DeerFlow.Sandbox
