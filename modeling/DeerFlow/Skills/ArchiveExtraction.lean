import DeerFlow.Lib.FileTree

/-! Unpacking a skill archive under a destination: which members are refused and which are left
out, and the loop that reads, checks and writes the others chunk by chunk. -/

namespace DeerFlow.Skills
open FileTree

/-- A member of an archive. Its `content` is what its data unpacks to, of which no more is read
than its header declares; `failedRead` is the call of `read` that raises. -/
structure ZipInfo where
  filename : Text
  externalAttr : Nat
  fileSize : Nat
  content : Bytes
  opens : Bool
  failedRead : Option Nat
  noNull : '\x00' ∉ filename

namespace ZipInfo

def delivered (info : ZipInfo) : Bytes := info.content.take info.fileSize

def isDir (info : ZipInfo) : Bool := info.filename.getLast? = some '/'

end ZipInfo

inductive ExtractError
  | value (message : Text)
  | symlinkLoop
  | os (e : OsError)
  | zipfile
  deriving DecidableEq, Repr

def executableMagicPrefixes : List Bytes :=
  [[0x7f, 0x45, 0x4c, 0x46],  -- ELF
    [0x4d, 0x5a],  -- PE/DOS
    -- Mach-O, in both byte orders and both widths, then its fat variants
    [0xfe, 0xed, 0xfa, 0xce],
    [0xfe, 0xed, 0xfa, 0xcf],
    [0xce, 0xfa, 0xed, 0xfe],
    [0xcf, 0xfa, 0xed, 0xfe],
    [0xca, 0xfe, 0xba, 0xbe],
    [0xbe, 0xba, 0xfe, 0xca],
    [0xca, 0xfe, 0xba, 0xbf],
    [0xbf, 0xba, 0xfe, 0xca]]

/-- `name.replace("\\", "/")`. -/
def slashed (name : Text) : Text := name.map fun c => if c = '\\' then '/' else c

/-- `PureWindowsPath.is_absolute` of a name that does not begin with a separator. -/
def isDriveAbsolute : Text → Bool
  | _ :: ':' :: sep :: _ => sep = '/' || sep = '\\'
  | _ => false

def isUnsafeZipMember (info : ZipInfo) : Bool :=
  let normalized := slashed info.filename
  if info.filename = [] then false
  else if Posix.isAbs normalized then true
  else if isDriveAbsolute info.filename then true
  else decide ("..".toList ∈ Posix.comps normalized)

/-- `stat.S_ISLNK` of the upper half of the attributes. -/
def isSymlinkMember (info : ZipInfo) : Bool :=
  (info.externalAttr >>> 16) &&& 0o170000 = 0o120000

def isExecutableBinaryPrefix (start : Bytes) : Bool :=
  executableMagicPrefixes.any fun magic => magic.isPrefixOf start

/-- Where a member goes. Its name is relative here: an absolute one is refused before. -/
def memberPath (destRoot : Path) (info : ZipInfo) : Path :=
  destRoot ++ Posix.comps (Posix.normpath (slashed info.filename))

def chunkSize : Nat := 65536

section Extract
variable (repr : Text → Text)

/-- The rounds of `while chunk := src.read(65536)`, where `rest` has not been read. -/
def copyChunks (info : ZipInfo) (dst : Path) (maxTotalSize reads : Nat) (rest : Bytes)
    (firstChunk : Bool) (totalWritten : Nat) : Fallible Disk ExtractError Nat :=
  if info.failedRead = some reads then throw .zipfile
  else if _ : rest = [] then pure totalWritten
  else
    let chunk := rest.take chunkSize
    if firstChunk && isExecutableBinaryPrefix chunk then
      throw (.value ("Archive contains executable binary member: ".toList ++ repr info.filename))
    else if maxTotalSize < totalWritten + chunk.length then
      throw (.value "Skill archive is too large or appears highly compressed.".toList)
    else do
      perform (.write dst chunk)
      copyChunks info dst maxTotalSize (reads + 1) (rest.drop chunkSize) false
        (totalWritten + chunk.length)
termination_by rest.length
decreasing_by
  have hlength := List.length_pos_iff.mpr ‹rest ≠ []›
  rw [List.length_drop, chunkSize]
  omega

/-- One round of the loop over `infolist`. -/
def extractMember (destRoot : Path) (maxTotalSize totalWritten : Nat) (info : ZipInfo) :
    Fallible Disk ExtractError Nat :=
  if isUnsafeZipMember info then
    throw (.value ("Archive contains unsafe member path: ".toList ++ repr info.filename))
  else if isSymlinkMember info then pure totalWritten
  else do
    let path := memberPath destRoot info
    let d ← get
    match realpath d.tree path with
    | none => throw .symlinkLoop
    | some resolved =>
      if destRoot <+: resolved then do
        (mkdir path.dropLast).adapt .os
        if info.isDir then do
          (mkdir path).adapt .os
          pure totalWritten
        else if info.opens then do
          let dst ← (openWb path).adapt .os
          copyChunks repr info dst maxTotalSize 0 info.delivered true totalWritten
        else throw .zipfile
      else throw (.value ("Zip entry escapes destination: ".toList ++ repr info.filename))

def safeExtractSkillArchive (cwd : Path) (infolist : List ZipInfo) (destPath : Text)
    (maxTotalSize : Nat := 512 * 1024 * 1024) : Fallible Disk ExtractError Unit := do
  let d ← get
  match resolve d.tree cwd destPath with
  | none => throw .symlinkLoop
  | some destRoot => do
    let _ ← infolist.foldlM (extractMember repr destRoot maxTotalSize) 0
    pure ()

end Extract

section Names
variable {info : ZipInfo} {destRoot : Path}

theorem isExecutableBinaryPrefix_take (content : Bytes) :
    isExecutableBinaryPrefix (content.take chunkSize) = isExecutableBinaryPrefix content := by
  have hlength : ∀ magic ∈ executableMagicPrefixes, magic.length ≤ chunkSize := by decide
  rw [Bool.eq_iff_iff, isExecutableBinaryPrefix, isExecutableBinaryPrefix, List.any_eq_true,
    List.any_eq_true]
  refine exists_congr fun magic => and_congr_right fun hmagic => ?_
  rw [List.isPrefixOf_iff_prefix, List.isPrefixOf_iff_prefix, List.prefix_take_iff]
  exact ⟨fun h => h.1, fun h => ⟨h, hlength magic hmagic⟩⟩

/-- A name that is not refused is normalized without leading anywhere else. -/
theorem comps_of_not_unsafe (h : isUnsafeZipMember info = false) :
    Posix.comps (Posix.normpath (slashed info.filename)) = Posix.comps (slashed info.filename) ∧
      "..".toList ∉ Posix.comps (slashed info.filename) := by
  unfold isUnsafeZipMember at h
  simp only at h
  split_ifs at h with hnil habs _
  · rw [hnil]
    exact ⟨rfl, by decide⟩
  · have hup := of_decide_eq_false h
    exact ⟨Posix.comps_normpath (Bool.eq_false_iff.mpr habs) hup, hup⟩

theorem notUp_memberPath (hroot : "..".toList ∉ destRoot) (h : isUnsafeZipMember info = false) :
    "..".toList ∉ memberPath destRoot info := by
  obtain ⟨hcomps, hup⟩ := comps_of_not_unsafe h
  rw [memberPath, hcomps, List.mem_append]
  exact not_or.mpr ⟨hroot, hup⟩

theorem prefix_memberPath (destRoot : Path) (info : ZipInfo) :
    destRoot <+: memberPath destRoot info :=
  List.prefix_append ..

end Names

end DeerFlow.Skills
