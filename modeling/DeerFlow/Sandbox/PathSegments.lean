import DeerFlow.Lib.Rewriting
import DeerFlow.Sandbox.PathRewriting

/-! Which paths the four rewriters change. None of them looks at what is before a root, and three do
not look at what is behind it, so a root inside of a longer name is rewritten as well. Where their
matches are inside of the paths that stand in the text, they change these paths only. -/

namespace DeerFlow.Sandbox
open Rewriting Scan

namespace LocalSandbox
variable (b : LocalSandbox)

def IsLocalRoot (root : Text) : Prop := root ∈ b.pathMappings.map b.resolvedLocalPath

def IsContainerRoot (root : Text) : Prop := root ∈ b.pathMappings.map (·.containerPath)

def outputPasses : List (Pattern × (Text → Except Failure Text)) :=
  b.mappingsByLocalSpecificity.map fun m =>
    (matchRoot (b.resolvedLocalPath m), b.reverseResolvePath)

def commandPass : Pattern × (Text → Except Failure Text) :=
  (b.commandPattern, fun path => (b.resolvePath path).map toSlashes)

end LocalSandbox

/-- A spelling of one of the host directories that are masked. -/
def MaskHost.IsMaskedRoot (h : MaskHost) (td : Option ThreadData) (root : Text) : Prop :=
  ∃ p ∈ h.maskPatterns td, root.length = p.1.length ∧ spells p.1 root = true

def MaskHost.maskPasses (h : MaskHost) (td : Option ThreadData) :
    List (Pattern × (Text → Except Failure Text)) :=
  (h.maskPatterns td).map fun p => (maskPattern p.1, fun t => .ok (maskMatch p.1 p.2 t))

def userDataPass (td : Option ThreadData) : Pattern × (Text → Except Failure Text) :=
  (userDataPattern, fun path => .ok (toSlashes (replaceVirtualPath path td)))

section Rewriters
variable {inPath : Char → Bool} {parts : List Part} {out : Text}

theorem output_rewritten {b : LocalSandbox}
    (hlaid : Laid inPath pathChar ['/', '\\'] b.IsLocalRoot none parts)
    (hinside : Inside b.outputPasses parts)
    (h : b.reverseResolvePathsInOutput (sourceText parts) = .ok out) :
    Rewritten inPath pathChar ['/', '\\'] b.IsLocalRoot none (sourceText parts) out := by
  refine rewritten_of_inside hlaid hinside ?_
  rw [LocalSandbox.outputPasses, List.foldlM_map]
  exact h

theorem command_rewritten {b : LocalSandbox}
    (hlaid : Laid inPath pathChar ['/'] b.IsContainerRoot none parts)
    (hinside : Inside [b.commandPass] parts)
    (h : b.resolvePathsInCommand (sourceText parts) = .ok out) :
    Rewritten inPath pathChar ['/'] b.IsContainerRoot none (sourceText parts) out := by
  refine rewritten_of_inside hlaid hinside ?_
  rw [List.foldlM_cons]
  exact bind_eq_ok.mpr ⟨out, h, rfl⟩

theorem mask_rewritten {h : MaskHost} {td : Option ThreadData}
    (hlaid : Laid inPath pathChar ['/', '\\'] (h.IsMaskedRoot td) none parts)
    (hinside : Inside (h.maskPasses td) parts) :
    Rewritten inPath pathChar ['/', '\\'] (h.IsMaskedRoot td) none (sourceText parts)
      (h.maskLocalPathsInOutput (sourceText parts) td) := by
  refine rewritten_of_inside hlaid hinside ?_
  rw [MaskHost.maskPasses, List.foldlM_map]
  simp only [sub_ok]
  exact List.foldlM_pure

theorem userData_rewritten {td : Option ThreadData}
    (hlaid : Laid inPath pathChar ['/'] (· = virtualPathPrefix) none parts)
    (hinside : td.isSome = true → Inside [userDataPass td] parts) :
    Rewritten inPath pathChar ['/'] (· = virtualPathPrefix) none (sourceText parts)
      (replaceVirtualPathsInCommand (sourceText parts) td) := by
  unfold replaceVirtualPathsInCommand
  split_ifs with hdata
  · refine rewritten_of_inside hlaid (hinside hdata.2) ?_
    rw [List.foldlM_cons]
    exact bind_eq_ok.mpr ⟨_, sub_ok _ _ _, rfl⟩
  · have hkept : Rewritten inPath pathChar ['/'] (· = virtualPathPrefix) none
        (sourceText parts ++ []) (sourceText parts ++ []) := .append (sourceText parts) (.done _)
    rw [List.append_nil] at hkept
    exact hkept

end Rewriters

section Siblings

def dataSandbox : LocalSandbox where
  pathMappings := [⟨"/mnt/data".toList, "/srv/data".toList, false⟩]
  resolve := Posix.resolve ⟨[], List.forall_mem_nil _⟩
  isWord := fun _ => false

def skillsHost : MaskHost where
  skillsHostPath := some "/srv/skills".toList
  skillsContainerPath := "/mnt/skills".toList
  userCustomDir := none
  acpWorkspaceHostPath := fun _ => none
  resolve := Posix.resolve ⟨[], List.forall_mem_nil _⟩

def threadDirs : ThreadData where
  workspacePath := some "/srv/t/workspace".toList
  uploadsPath := some "/srv/t/uploads".toList
  outputsPath := some "/srv/t/outputs".toList

/-- The directory on the host has a blank in its name. -/
def blankSandbox : LocalSandbox :=
  { dataSandbox with pathMappings := [⟨"/mnt/data".toList, "/srv/my data".toList, false⟩] }

theorem laid_pair {separators : List Char} {IsRoot : Text → Prop} {root : Text} (u rest : Text)
    (hroot : IsRoot root) (hne : root ≠ []) (hslash : '/' ∈ separators)
    (hbefore : u.getLast?.any pathChar = false) (hrest : ('/' :: rest).all pathChar = true) :
    Laid pathChar pathChar separators IsRoot none
      [.kept u, .path (root ++ '/' :: rest) [.hit (root ++ '/' :: rest)]] := by
  have hpath : IsPath pathChar separators IsRoot (root ++ '/' :: rest) := by
    refine ⟨root, '/' :: rest, hroot, hne, rfl, fun c hc => ?_, List.all_eq_true.mp hrest⟩
    obtain rfl : '/' = c := Option.some.inj hc
    exact hslash
  refine ⟨List.append_nil _, fun c hc => ?_, hpath, fun c hc => (by cases hc), trivial⟩
  have hlast : u.getLast? = some c := by
    rw [Option.or_none] at hc
    exact hc
  rw [hlast] at hbefore
  exact hbefore

theorem inside_pair {find : Pattern} {f : Text → Except Failure Text} {u p : Text}
    {ps : List Piece} {passes : List (Pattern × (Text → Except Failure Text))} (qs : List Piece)
    (hscan : scan find (u ++ render ps) = u.map .char ++ ps)
    (hnext : (ps.mapM (Piece.replace f)).map List.flatten = .ok (render qs))
    (hrest : Inside passes [.kept u, .path p qs]) :
    Inside ((find, f) :: passes) [.kept u, .path p ps] := by
  refine ⟨?_, [.kept u, .path p qs], .cons rfl (.cons ⟨rfl, hnext⟩ .nil), hrest⟩
  have hpieces : piecesOf [.kept u, .path p ps] = u.map .char ++ ps :=
    congrArg (u.map Piece.char ++ ·) (List.append_nil ps)
  have htext : render (u.map .char ++ ps) = u ++ render ps := by
    unfold render
    rw [List.flatMap_append]
    exact congrArg (· ++ _) (render_chars u)
  rw [hpieces, htext]
  exact hscan

theorem spells_of_prefix {base root s : Text} (h : spells base root = true) (hs : root <+: s) :
    spells base s = true := by
  induction base generalizing root s with
  | nil => rfl
  | cons v vs ih =>
    cases root with
    | nil => cases h
    | cons c root =>
      obtain ⟨rest, rfl⟩ := hs
      rw [spells, Bool.and_eq_true] at h
      rw [List.cons_append, spells, Bool.and_eq_true]
      exact ⟨h.1, ih h.2 (List.prefix_append root rest)⟩

end Siblings

end DeerFlow.Sandbox
