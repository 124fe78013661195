import DeerFlow.Lib.Longest
import DeerFlow.Sandbox.PathInverse
import DeerFlow.Sandbox.ToolPaths

/-! Where the paths that the file tools accept lead. The mount a path is classified under is the one
the sandbox resolves it with, and a path for writing stays below a directory that may be
written. -/

namespace DeerFlow.Sandbox
open Longest Posix
open ToolHost (isAcpWorkspacePath directories)

def Within (dir host : Text) : Prop := comps dir <+: comps host

instance (dir host : Text) : Decidable (Within dir host) := inferInstanceAs (Decidable (_ <+: _))

/-- The mapping is one for the path. -/
def claimsPath (path : Text) (m : PathMapping) : Bool :=
  if m.container = ['/'] then isAbs path else covers m.container path

section Covering
variable {a b path : Text}

theorem covers_iff : covers a path = true ↔ path = a ∨ a ++ ['/'] <+: path := by
  unfold covers
  rw [decide_eq_true_eq, List.isPrefixOf_iff_prefix]

theorem prefix_of_covers (h : covers a path = true) : a <+: path := by
  rcases covers_iff.mp h with rfl | hslash
  · exact List.prefix_refl path
  · exact (List.prefix_append a ['/']).trans hslash

theorem covers_of_length_le (ha : covers a path = true) (hb : covers b path = true)
    (hle : a.length ≤ b.length) : covers a b = true := by
  have hab : a <+: b :=
    List.prefix_of_prefix_length_le (prefix_of_covers ha) (prefix_of_covers hb) hle
  rw [covers_iff]
  by_cases heq : a = b
  · exact .inl heq.symm
  · refine .inr ?_
    have hlt : a.length < b.length := by
      refine Nat.lt_of_le_of_ne hle fun hlength => heq ?_
      exact hab.eq_of_length hlength
    have hslash : a ++ ['/'] <+: path := by
      refine (covers_iff.mp ha).resolve_left fun hpath => ?_
      have hshort := (prefix_of_covers hb).length_le
      rw [hpath] at hshort
      exact absurd hlt (Nat.not_lt_of_le hshort)
    refine List.prefix_of_prefix_length_le hslash (prefix_of_covers hb) ?_
    rw [List.length_append]
    exact hlt

theorem isAbs_of_covers (habs : isAbs a = true) (h : covers a path = true) :
    isAbs path = true := by
  unfold isAbs at habs ⊢
  rw [List.isPrefixOf_iff_prefix] at habs ⊢
  exact habs.trans (prefix_of_covers h)

theorem covers_append_of_covers {rest : Text} (h : covers (a ++ '/' :: rest) path = true) :
    covers a path = true := by
  have htext : a ++ '/' :: rest = (a ++ ['/']) ++ rest := by
    rw [List.append_assoc]
    rfl
  refine covers_iff.mpr (.inr ?_)
  rw [htext] at h
  exact (List.prefix_append _ _).trans (prefix_of_covers h)

end Covering

section Finding
variable {b : LocalSandbox} {path relative host : Text} {m n : PathMapping}

theorem isLongest_of_find (h : b.findPathMapping path = some (m, relative)) :
    IsLongest (fun m => m.container.length) (claimsPath path) b.pathMappings m := by
  obtain ⟨before, n, after, hsplit, hn, hbefore⟩ := List.findSome?_eq_some_iff.mp h
  have hclaims : ∀ n : PathMapping, claimsPath path n = false ↔
      (if n.container = ['/'] then
        if isAbs path then some (n, lstripSlash path) else none
      else if covers n.container path then
        some (n, lstripSlash (path.drop n.container.length))
      else none) = none := by
    intro n
    unfold claimsPath
    split_ifs with hroot habs hcovers
    · simp [habs]
    · simp [habs]
    · simp [hcovers]
    · simp [hcovers]
  have hmn : n = m ∧ claimsPath path n = true := by
    unfold claimsPath
    split_ifs at hn ⊢ with hroot habs hcovers
    · exact ⟨(Prod.mk.inj (Option.some.inj hn)).1, habs⟩
    · exact ⟨(Prod.mk.inj (Option.some.inj hn)).1, hcovers⟩
  obtain ⟨rfl, hclaim⟩ := hmn
  rw [← longest_eq_some, ← find?_insertionSort, List.find?_eq_some_iff_append]
  refine ⟨hclaim, before, after, hsplit, fun x hx => ?_⟩
  rw [(hclaims x).mpr (hbefore x hx)]
  rfl

theorem claims_of_find_none (h : b.findPathMapping path = none) (hm : m ∈ b.pathMappings) :
    claimsPath path m = false := by
  have hsorted : m ∈ b.mappingsByContainerSpecificity := (List.mem_insertionSort _).mpr hm
  have hnone := List.findSome?_eq_none_iff.mp h m hsorted
  unfold claimsPath
  split_ifs at hnone ⊢ with hroot
  all_goals simp_all

theorem isLongest_unique {xs : List PathMapping} {key : PathMapping → Nat}
    {p : PathMapping → Bool} (hm : IsLongest key p xs m) (hn : IsLongest key p xs n) : m = n := by
  rw [← longest_eq_some] at hm hn
  exact Option.some.inj (hm.symm.trans hn)

theorem resolvePath_cases (h : b.resolvePath path = .ok host) :
    b.findPathMapping path = none ∨
      ∃ m, IsLongest (fun m => m.container.length) (claimsPath path) b.pathMappings m ∧
        Within (b.resolvedLocalPath m) host := by
  obtain ⟨⟨host', mapping⟩, hres, rfl⟩ := map_eq_ok.mp h
  rw [LocalSandbox.resolvePathWithMapping] at hres
  split at hres
  · next hfind => exact .inl hfind
  · next m relative hfind =>
    obtain ⟨resolved, -, hres⟩ := bind_eq_ok.mp hres
    split_ifs at hres with hbelow
    cases hres
    exact .inr ⟨m, isLongest_of_find hfind, hbelow⟩

end Finding

/-- The provider keeps the mount, under the container path it is written with. -/
structure PlainMount (c : ToolHost) (m : VolumeMount) : Prop where
  host : isAbs m.hostPath = true
  container : isAbs m.containerPath = true
  written : m.containerPath = ['/'] ∨ m.containerPath.getLast? ≠ some '/'
  free : ∀ p ∈ reservedContainerPrefixes c, covers p m.containerPath = false

section Mounts
variable {c : ToolHost} {l : ThreadLayout} {path : Text} {m : PathMapping} {M : VolumeMount}

def plainMapping (c : ToolHost) (m : VolumeMount) : PathMapping :=
  ⟨m.containerPath, c.resolve m.hostPath, m.readOnly⟩

theorem PlainMount.container_eq (h : PlainMount c M) :
    (plainMapping c M).container = M.containerPath ∧
      (if rstripSlash M.containerPath = [] then ['/'] else rstripSlash M.containerPath) =
        M.containerPath := by
  rcases h.written with hroot | hlast
  · rw [PathMapping.container, plainMapping, hroot]
    exact ⟨rfl, rfl⟩
  · have hne : M.containerPath ≠ [] := by
      intro hnil
      have habs := h.container
      rw [hnil] at habs
      cases habs
    rw [PathMapping.container, plainMapping, rstripSlash_eq hlast]
    exact ⟨if_neg hne, if_neg hne⟩

theorem PlainMount.mountMapping_eq (h : PlainMount c M) (hexists : c.pathExists M.hostPath = true) :
    mountMapping c M = some (plainMapping c M) := by
  have hfree : (reservedContainerPrefixes c).any (covers · M.containerPath) = false := by
    rw [List.any_eq_false]
    intro p hp
    rw [h.free p hp]
    exact Bool.false_ne_true
  unfold mountMapping
  rw [h.container_eq.2]
  simp only [h.host, h.container, hfree, hexists, not_true_eq_false, if_false, if_true,
    Bool.false_eq_true]
  rfl

theorem mountMapping_eq_none (hmissing : c.pathExists M.hostPath = false) :
    mountMapping c M = none := by
  unfold mountMapping
  simp only [hmissing, if_false, ite_self, Bool.false_eq_true]

theorem filterMap_mounts {Ms : List VolumeMount}
    (h : ∀ m ∈ Ms.filter fun m => c.pathExists m.hostPath, PlainMount c m) :
    Ms.filterMap (mountMapping c) =
      (Ms.filter fun m => c.pathExists m.hostPath).map (plainMapping c) := by
  induction Ms with
  | nil => rfl
  | cons M Ms ih =>
    have hrest : ∀ m ∈ Ms.filter fun m => c.pathExists m.hostPath, PlainMount c m := by
      intro m hm
      obtain ⟨hmem, hexists⟩ := List.mem_filter.mp hm
      exact h m (List.mem_filter.mpr ⟨List.mem_cons_of_mem M hmem, hexists⟩)
    cases hexists : c.pathExists M.hostPath with
    | true =>
      have hM := h M (List.mem_filter.mpr ⟨List.mem_cons_self, hexists⟩)
      rw [List.filterMap_cons_some (hM.mountMapping_eq hexists), ih hrest,
        List.filter_cons, if_pos hexists, List.map_cons]
    | false =>
      rw [List.filterMap_cons_none (mountMapping_eq_none hexists), ih hrest, List.filter_cons,
        if_neg (by rw [hexists]; exact Bool.false_ne_true)]

theorem filterMap_customMounts (h : ∀ m ∈ c.getCustomMounts, PlainMount c m) :
    c.mounts.filterMap (mountMapping c) = c.getCustomMounts.map (plainMapping c) :=
  filterMap_mounts h

theorem isLongest_customMount (h : c.getCustomMountForPath path = some M) :
    IsLongest (fun m => m.containerPath.length) (fun m => covers m.containerPath path)
      c.getCustomMounts M := by
  rw [← longest_eq_some, ← foldl_better_none]
  exact h

theorem claims_plain (h : PlainMount c M) : claimsPath path (plainMapping c M) =
    if M.containerPath = ['/'] then isAbs path else covers M.containerPath path := by
  unfold claimsPath
  rw [h.container_eq.1]

theorem claims_of_covers (h : PlainMount c M) (hcovers : covers M.containerPath path = true) :
    claimsPath path (plainMapping c M) = true := by
  rw [claims_plain h]
  split_ifs
  · exact isAbs_of_covers h.container hcovers
  · exact hcovers

end Mounts

section Accepted
variable {c : ToolHost} {l : ThreadLayout} {isWord : Char → Bool} {td : ThreadData}
  {path host : Text} {m : PathMapping} {M N : VolumeMount}

/-- A path that is accepted for writing is under the thread's directories or a writable mount, by
its text. -/
theorem accepted_for_writing (h : c.validateLocalToolPath path (some td) false = .ok ()) :
    c.isSkillsPath path = false ∧ isAcpWorkspacePath path = false ∧
      (covers virtualPathPrefix path = true ∨
        ∀ M, c.getCustomMountForPath path = some M → M.readOnly = false) := by
  unfold ToolHost.validateLocalToolPath at h
  split_ifs at h with hdata htraversal hskills hskillsRead hacp hacpRead huser hcustom hread
  · exact hskillsRead.elim
  · exact hacpRead.elim
  · refine ⟨by simpa using hskills, by simpa using hacp, .inl ?_⟩
    exact covers_iff.mpr (.inr (List.isPrefixOf_iff_prefix.mp huser))
  · refine ⟨by simpa using hskills, by simpa using hacp, .inr fun M hM => ?_⟩
    rw [hM] at hread
    simpa using hread

theorem container_eq_self (hlast : m.containerPath.getLast?.any (· ≠ '/') = true) :
    m.container = m.containerPath := by
  have hne : m.containerPath ≠ [] := by
    intro hnil
    rw [hnil] at hlast
    cases hlast
  have hslash : m.containerPath.getLast? ≠ some '/' := by
    intro hslash
    rw [hslash] at hlast
    exact absurd hlast (by decide)
  rw [PathMapping.container, rstripSlash_eq hslash]
  exact if_neg hne

theorem covers_of_claims (hlast : m.containerPath.getLast?.any (· ≠ '/') = true)
    (h : claimsPath path m = true) : covers m.containerPath path = true := by
  unfold claimsPath at h
  rw [container_eq_self hlast] at h
  split_ifs at h with hroot
  · rw [hroot] at hlast
    exact absurd hlast (by decide)
  · exact h

theorem skills_of_claims {name : Text} (hname : name.getLast?.any (· ≠ '/') = true)
    (hm : m.containerPath = c.skillsContainerPath ++ '/' :: name) (h : claimsPath path m = true) :
    c.isSkillsPath path = true := by
  have hlast : m.containerPath.getLast?.any (· ≠ '/') = true := by
    obtain ⟨x, hx, hslash⟩ := (Option.any_eq_true _ _).mp hname
    rw [hm, List.getLast?_append, List.getLast?_cons, hx]
    exact hslash
  have hcovers := covers_of_claims hlast h
  rw [hm] at hcovers
  exact covers_append_of_covers hcovers

theorem mem_userData_of_claims (hskills : c.isSkillsPath path = false)
    (hacp : isAcpWorkspacePath path = false) (hm : m ∈ buildThreadPathMappings c l)
    (h : claimsPath path m = true) : m ∈ userDataMappings l := by
  have hnotSkills : ∀ name : Text, name.getLast?.any (· ≠ '/') = true →
      m.containerPath ≠ c.skillsContainerPath ++ '/' :: name := by
    intro name hname hpath
    rw [skills_of_claims hname hpath h] at hskills
    cases hskills
  unfold buildThreadPathMappings at hm
  rcases List.mem_append.mp hm with hm | hm
  · rcases List.mem_append.mp hm with hm | hm
    · exact hm
    · rcases List.mem_cons.mp hm with rfl | hm
      · have hcovers := covers_of_claims rfl h
        rw [isAcpWorkspacePath, hcovers] at hacp
        cases hacp
      · rw [List.mem_singleton.mp hm] at hnotSkills
        exact absurd rfl (hnotSkills "custom".toList (by decide))
  · split_ifs at hm
    · rw [List.mem_singleton.mp hm] at hnotSkills
      exact absurd rfl (hnotSkills "legacy".toList (by decide))
    · cases hm

theorem not_claims_public (hskills : c.isSkillsPath path = false)
    (hm : m ∈ if l.hasPublicSkills then
      [⟨c.skillsContainerPath ++ "/public".toList, l.publicSkills, true⟩] else []) :
    claimsPath path m = false := by
  by_contra hclaims
  rw [Bool.not_eq_false] at hclaims
  split_ifs at hm
  · rw [List.mem_singleton.mp hm] at hclaims
    have hlast : "public".toList.getLast?.any (· ≠ '/') = true := by
      decide
    rw [skills_of_claims hlast rfl hclaims] at hskills
    cases hskills
  · cases hm

theorem exists_customMount (h : c.isCustomMountPath path = true) :
    ∃ M, c.getCustomMountForPath path = some M := by
  obtain ⟨M, hM, hcovers⟩ := List.any_eq_true.mp h
  cases hbest : c.getCustomMountForPath path with
  | some best => exact ⟨best, rfl⟩
  | none =>
    have hnone : longest (fun m : VolumeMount => m.containerPath.length)
        (fun m => covers m.containerPath path) c.getCustomMounts = none := by
      rw [← foldl_better_none]
      exact hbest
    rw [longest_eq_none.mp hnone M hM] at hcovers
    cases hcovers

theorem claims_userData (h : covers virtualPathPrefix path = true) :
    claimsPath path ⟨virtualPathPrefix, l.userData, false⟩ = true := by
  have hcontainer : (⟨virtualPathPrefix, l.userData, false⟩ : PathMapping).container =
      virtualPathPrefix := container_eq_self rfl
  unfold claimsPath
  rw [hcontainer, if_neg (by decide)]
  exact h

theorem not_mount_of_userData (huser : covers virtualPathPrefix path = true)
    (hplain : PlainMount c M) (hle : virtualPathPrefix.length ≤ M.containerPath.length) :
    claimsPath path (plainMapping c M) = false := by
  by_contra hclaims
  rw [Bool.not_eq_false, claims_plain hplain] at hclaims
  split_ifs at hclaims with hroot
  · rw [hroot] at hle
    exact absurd hle (by decide)
  · have hreserved := hplain.free virtualPathPrefix (by simp [reservedContainerPrefixes])
    rw [covers_of_length_le huser hclaims hle] at hreserved
    cases hreserved

/-- A mount that claims the path is over it, or it is a root mount and shorter. -/
theorem covers_of_mount (hplain : PlainMount c N) (hplainM : PlainMount c M)
    (hcovers : covers M.containerPath path = true)
    (hclaims : claimsPath path (plainMapping c N) = true) :
    covers N.containerPath path = true ∨ N.containerPath.length < M.containerPath.length := by
  rw [claims_plain hplain] at hclaims
  split_ifs at hclaims with hroot
  · by_cases hMroot : M.containerPath = ['/']
    · left
      rw [hroot, ← hMroot]
      exact hcovers
    · right
      rw [hroot, List.length_singleton]
      have habs := hplainM.container
      cases hpath : M.containerPath with
      | nil =>
        rw [hpath] at habs
        cases habs
      | cons x xs =>
        cases xs with
        | nil =>
          rw [hpath] at habs hMroot
          have hslash : '/' = x := by
            simpa [isAbs] using habs
          rw [← hslash] at hMroot
          exact absurd rfl hMroot
        | cons y ys => simp
  · exact .inl hclaims

theorem length_le_of_claims (hplain : ∀ m ∈ c.getCustomMounts, PlainMount c m)
    (hM : c.getCustomMountForPath path = some M) (hN : N ∈ c.getCustomMounts)
    (hclaims : claimsPath path (plainMapping c N) = true) :
    N.containerPath.length ≤ M.containerPath.length := by
  have hbest := isLongest_customMount hM
  have hplainM := hplain M hbest.mem.1
  rcases covers_of_mount (hplain N hN) hplainM hbest.mem.2 hclaims with hcovers | hlt
  · exact hbest.le hN hcovers
  · exact Nat.le_of_lt hlt

/-- The mount that the path is classified under is the one the sandbox finds, unless the mapping it
finds is one of the thread's directories. -/
theorem isLongest_mount (hplain : ∀ m ∈ c.getCustomMounts, PlainMount c m)
    (hskills : c.isSkillsPath path = false) (hacp : isAcpWorkspacePath path = false)
    (hM : c.getCustomMountForPath path = some M)
    (hshort : ∀ m ∈ userDataMappings l, claimsPath path m = true →
      m.container.length ≤ M.containerPath.length) :
    IsLongest (fun m => m.container.length) (claimsPath path) (acquire c l isWord).pathMappings
      (plainMapping c M) := by
  obtain ⟨before, after, hsplit, hcovers, hbefore, hafter⟩ := isLongest_customMount hM
  have hmem : ∀ N ∈ c.getCustomMounts, PlainMount c N := hplain
  rw [hsplit] at hmem
  have hplainM := hmem M (List.mem_append_right before List.mem_cons_self)
  have hlength : ∀ N ∈ before ++ M :: after,
      (plainMapping c N).container.length = N.containerPath.length := by
    intro N hN
    rw [(hmem N hN).container_eq.1]
  have hclaimed : ∀ N ∈ before ++ M :: after, claimsPath path (plainMapping c N) = true →
      covers N.containerPath path = true ∨ N.containerPath.length < M.containerPath.length :=
    fun N hN hclaims => covers_of_mount (hmem N hN) hplainM hcovers hclaims
  refine ⟨(if l.hasPublicSkills then
      [⟨c.skillsContainerPath ++ "/public".toList, l.publicSkills, true⟩] else []) ++
        before.map (plainMapping c),
    after.map (plainMapping c) ++ buildThreadPathMappings c l, ?_, claims_of_covers hplainM hcovers,
    ?_, ?_⟩
  · show setupPathMappings c l ++ buildThreadPathMappings c l = _
    rw [setupPathMappings, filterMap_customMounts hplain, hsplit]
    simp only [List.map_append, List.map_cons, List.append_assoc, List.cons_append]
  · intro m hm hclaims
    rcases List.mem_append.mp hm with hm | hm
    · rw [not_claims_public hskills hm] at hclaims
      cases hclaims
    · obtain ⟨N, hN, rfl⟩ := List.mem_map.mp hm
      have hNall := List.mem_append_left (M :: after) hN
      show (plainMapping c N).container.length < (plainMapping c M).container.length
      rw [hlength N hNall, hplainM.container_eq.1]
      exact (hclaimed N hNall hclaims).elim (hbefore N hN) id
  · intro m hm hclaims
    show m.container.length ≤ (plainMapping c M).container.length
    rw [hplainM.container_eq.1]
    rcases List.mem_append.mp hm with hm | hm
    · obtain ⟨N, hN, rfl⟩ := List.mem_map.mp hm
      have hNall := List.mem_append_right before (List.mem_cons_of_mem M hN)
      rw [hlength N hNall]
      exact (hclaimed N hNall hclaims).elim (hafter N hN) Nat.le_of_lt
    · exact hshort m (mem_userData_of_claims hskills hacp hm hclaims) hclaims

/-- The sandbox resolves a path that is accepted for writing with a mapping that may be written. -/
theorem writable_mapping (hplain : ∀ m ∈ c.getCustomMounts, PlainMount c m)
    (haccepted : c.validateLocalToolPath path (some td) false = .ok ())
    (hcustom : c.isCustomMountPath path = true)
    (hlong : IsLongest (fun m => m.container.length) (claimsPath path)
      (acquire c l isWord).pathMappings m) :
    m ∈ userDataMappings l ∨
      ∃ M ∈ c.getCustomMounts, M.readOnly = false ∧ m = plainMapping c M := by
  obtain ⟨hskills, hacp, hwritable⟩ := accepted_for_writing haccepted
  obtain ⟨M, hM⟩ := exists_customMount hcustom
  have hbest := isLongest_customMount hM
  have hplainM := hplain M hbest.mem.1
  by_cases hshort : ∀ u ∈ userDataMappings l, claimsPath path u = true →
      u.container.length ≤ M.containerPath.length
  · have hmount : IsLongest (fun m => m.container.length) (claimsPath path)
        (acquire c l isWord).pathMappings (plainMapping c M) :=
      isLongest_mount hplain hskills hacp hM hshort
    obtain rfl := isLongest_unique hlong hmount
    refine .inr ⟨M, hbest.mem.1, ?_, rfl⟩
    rcases hwritable with huser | hwritable
    · -- the mapping of the thread's directories would be the longer one
      have hclaims : claimsPath path ⟨virtualPathPrefix, l.userData, false⟩ = true :=
        claims_userData huser
      have hle := hshort _ List.mem_cons_self hclaims
      have hnot := not_mount_of_userData huser hplainM hle
      rw [hlong.mem.2] at hnot
      cases hnot
    · exact hwritable M hM
  · left
    push Not at hshort
    obtain ⟨u, hu, hclaims, hlonger⟩ := hshort
    have humem : u ∈ (acquire c l isWord).pathMappings :=
      List.mem_append_right _ (List.mem_append_left _ (List.mem_append_left _ hu))
    have hlength : M.containerPath.length < m.container.length :=
      hlonger.trans_le (hlong.le humem hclaims)
    rcases List.mem_append.mp hlong.mem.1 with hm | hm
    · rcases List.mem_append.mp hm with hm | hm
      · have hnot := not_claims_public hskills hm
        rw [hlong.mem.2] at hnot
        cases hnot
      · rw [filterMap_customMounts hplain] at hm
        obtain ⟨N, hN, rfl⟩ := List.mem_map.mp hm
        have hle := length_le_of_claims hplain hM hN hlong.mem.2
        rw [(hplain N hN).container_eq.1] at hlength
        exact absurd hlength (Nat.not_lt_of_le hle)
    · exact mem_userData_of_claims hskills hacp hm hlong.mem.2

end Accepted

section Roots
variable (c : ToolHost) (l : ThreadLayout)

/-- The directories that may be written: those of the thread, and the mounts that are not
read-only. -/
def writableRoots (td : ThreadData) : List Text :=
  (directories td).map c.resolve ++ (userDataMappings l).map (fun m => c.resolve m.localPath) ++
    (c.getCustomMounts.filter fun m => m.readOnly = false).map fun m => c.resolve m.hostPath

/-- The skills, the ACP workspace and the read-only mounts. -/
def protectedRoots : List Text :=
  [l.publicSkills, l.userCustomSkills, l.legacySkills, l.acpWorkspace].map c.resolve ++
    (c.getCustomMounts.filter fun m => m.readOnly).map fun m => c.resolve m.hostPath

/-- Neither directory is below the other. -/
def Apart (dir root : Text) : Prop := ¬ Within dir root ∧ ¬ Within root dir

variable {c l} {isWord : Char → Bool} {td : ThreadData} {path host dir root : Text}

theorem not_within_of_apart (hroot : Within root host) (h : Apart dir root) :
    ¬ Within dir host := by
  intro hdir
  rcases List.prefix_or_prefix_of_prefix hdir hroot with hbelow | habove
  · exact h.1 hbelow
  · exact h.2 habove

theorem within_directories (h : c.resolveAndValidateUserDataPath path td = .ok host) :
    host = c.resolve (replaceVirtualPath path (some td)) ∧
      ∃ dir ∈ directories td, Within (c.resolve dir) host := by
  unfold ToolHost.resolveAndValidateUserDataPath at h
  simp only at h
  split_ifs at h with hnull
  obtain ⟨⟨⟩, hvalid, hhost⟩ := bind_eq_ok.mp h
  cases hhost
  refine ⟨rfl, ?_⟩
  unfold ToolHost.validateResolvedUserDataPath at hvalid
  simp only at hvalid
  split_ifs at hvalid with hnone hany
  obtain ⟨root, hroot, hbelow⟩ := List.any_eq_true.mp hany
  obtain ⟨dir, hdir, rfl⟩ := List.mem_map.mp hroot
  exact ⟨dir, hdir, List.isPrefixOf_iff_prefix.mp hbelow⟩

/-- A mount's path that is accepted for writing leads below a directory that may be written. -/
theorem mount_within_writable (hc : Resolves c.resolve)
    (hplain : ∀ m ∈ c.getCustomMounts, PlainMount c m)
    (haccepted : c.validateLocalToolPath path (some td) false = .ok ())
    (hcustom : c.isCustomMountPath path = true)
    (h : (acquire c l isWord).resolvePath path = .ok host) :
    ∃ root ∈ writableRoots c l td, Within root host := by
  rcases resolvePath_cases h with hnone | ⟨m, hlong, hwithin⟩
  · -- the mount that the path is classified under has a mapping that claims it
    obtain ⟨M, hM⟩ := exists_customMount hcustom
    have hbest := isLongest_customMount hM
    have hmem : plainMapping c M ∈ (acquire c l isWord).pathMappings := by
      refine List.mem_append_left _ (List.mem_append_right _ ?_)
      rw [filterMap_customMounts hplain]
      exact List.mem_map_of_mem hbest.mem.1
    have hclaims := claims_of_find_none hnone hmem
    rw [claims_of_covers (hplain M hbest.mem.1) hbest.mem.2] at hclaims
    cases hclaims
  · rcases writable_mapping hplain haccepted hcustom hlong with huser | ⟨M, hM, hwrite, rfl⟩
    · refine ⟨c.resolve m.localPath, ?_, hwithin⟩
      refine List.mem_append_left _ (List.mem_append_right _ ?_)
      exact List.mem_map_of_mem huser
    · refine ⟨c.resolve M.hostPath, ?_, ?_⟩
      · refine List.mem_append_right _ (List.mem_map_of_mem (List.mem_filter.mpr ⟨hM, ?_⟩))
        exact decide_eq_true hwrite
      · have hroot : (acquire c l isWord).resolvedLocalPath (plainMapping c M) =
            c.resolve M.hostPath := hc.idem M.hostPath
        rw [← hroot]
        exact hwithin

end Roots

section Writes
variable {b : LocalSandbox} {path host content : Text} {append : Bool} {s t : SandboxState}
  {m : PathMapping}

/-- Where a read-only mapping is over a path that is not read-only, one that is at least as close
may be written. -/
theorem exists_writable_of_not_readOnly (h : b.isReadOnlyPath host = false)
    (hm : m ∈ b.pathMappings) (hcovers : covers (b.resolvedLocalPath m) (b.resolve host) = true) :
    ∃ n ∈ b.pathMappings, n.readOnly = false ∧
      covers (b.resolvedLocalPath n) (b.resolve host) = true ∧
      (b.resolvedLocalPath m).length ≤ (b.resolvedLocalPath n).length := by
  have hlongest : b.isReadOnlyPath host = (longest (fun m => (b.resolvedLocalPath m).length)
      (fun m => covers (b.resolvedLocalPath m) (b.resolve host)) b.pathMappings).any
        (·.readOnly) := by
    rw [← foldl_better_none]
    rfl
  rw [hlongest] at h
  cases hbest : longest (fun m => (b.resolvedLocalPath m).length)
      (fun m => covers (b.resolvedLocalPath m) (b.resolve host)) b.pathMappings with
  | none =>
    rw [longest_eq_none.mp hbest m hm] at hcovers
    cases hcovers
  | some n =>
    rw [hbest] at h
    have hn := longest_eq_some.mp hbest
    exact ⟨n, hn.mem.1, h, hn.mem.2, hn.le hm hcovers⟩

/-- A write changes the file that the path resolves to, and only if it is not read-only. -/
theorem writeFile_target (h : b.writeFile s path content append = .ok t) :
    ∃ host mapping, b.resolvePathWithMapping path = .ok (host, mapping) ∧
      b.isResolvedPathReadOnly (host, mapping) = false ∧
      ∀ file, file ≠ host → t.disk.file file = s.disk.file file := by
  unfold LocalSandbox.writeFile at h
  obtain ⟨⟨host, mapping⟩, hres, hwrite⟩ := bind_eq_ok.mp h
  refine ⟨host, mapping, hres, ?_⟩
  simp only at hwrite
  by_cases hreadOnly : b.isResolvedPathReadOnly (host, mapping) = true
  · rw [if_pos hreadOnly] at hwrite
    cases hwrite
  · rw [if_neg hreadOnly] at hwrite
    refine ⟨Bool.eq_false_iff.mpr hreadOnly, fun file hfile => ?_⟩
    split at hwrite
    · cases hwrite
    · obtain ⟨resolvedContent, -, hput⟩ := bind_eq_ok.mp hwrite
      split at hput
      · cases hput
      · cases hput
        exact if_neg hfile

end Writes

/-- A path of the thread's directories stays within them. A path that is accepted for writing leads
below a directory that may be written, and into no protected directory that is apart from it. What
the sandbox writes is not read-only by the closest mapping over it. -/
theorem local_tool_paths_contained (c : ToolHost) (l : ThreadLayout) (isWord : Char → Bool)
    (td : ThreadData) (hc : Resolves c.resolve) :
    (∀ path host, c.resolveAndValidateUserDataPath path td = .ok host →
      host = c.resolve (replaceVirtualPath path (some td)) ∧ c.resolve host = host ∧
        ∃ dir ∈ directories td, Within (c.resolve dir) host) ∧
    ((∀ m ∈ c.getCustomMounts, PlainMount c m) → ∀ path host,
      c.validateLocalToolPath path (some td) false = .ok () → LeadsTo c l isWord td path host →
        ∃ root ∈ writableRoots c l td, Within root host ∧
          ∀ dir ∈ protectedRoots c l, Apart dir root → ¬ Within dir host) ∧
    ∀ s t path content append, (acquire c l isWord).writeFile s path content append = .ok t →
      ∃ host mapping, (acquire c l isWord).resolvePathWithMapping path = .ok (host, mapping) ∧
        mapping.any (·.readOnly) = false ∧
        (∀ file, file ≠ host → t.disk.file file = s.disk.file file) ∧
        ∀ m ∈ (acquire c l isWord).pathMappings, m.readOnly = true →
          covers (c.resolve m.localPath) (c.resolve host) = true →
          ∃ n ∈ (acquire c l isWord).pathMappings, n.readOnly = false ∧
            covers (c.resolve n.localPath) (c.resolve host) = true ∧
            (c.resolve m.localPath).length ≤ (c.resolve n.localPath).length := by
  refine ⟨fun path host h => ?_, fun hplain path host haccepted hleads => ?_,
    fun s t path content append h => ?_⟩
  · obtain ⟨hhost, hdir⟩ := within_directories h
    refine ⟨hhost, ?_, hdir⟩
    rw [hhost, hc.idem]
  · have hroot : ∃ root ∈ writableRoots c l td, Within root host := by
      unfold LeadsTo at hleads
      split_ifs at hleads with hcustom
      · exact mount_within_writable hc hplain haccepted hcustom hleads
      · obtain ⟨-, dir, hdir, hwithin⟩ := within_directories hleads
        refine ⟨c.resolve dir, ?_, hwithin⟩
        exact List.mem_append_left _ (List.mem_append_left _ (List.mem_map_of_mem hdir))
    obtain ⟨root, hmem, hwithin⟩ := hroot
    exact ⟨root, hmem, hwithin, fun dir _ hapart => not_within_of_apart hwithin hapart⟩
  · obtain ⟨host, mapping, hres, hreadOnly, hfile⟩ := writeFile_target h
    obtain ⟨hmapping, hpath⟩ := Bool.or_eq_false_iff.mp hreadOnly
    refine ⟨host, mapping, hres, hmapping, hfile, fun m hm _ hcovers => ?_⟩
    exact exists_writable_of_not_readOnly hpath hm hcovers

section Nested

/-- A writable mount whose host directory holds the ACP workspace and a read-only mount. -/
def nestedHost : ToolHost where
  skillsContainerPath := "/mnt/skills".toList
  mounts := [⟨"/srv/state".toList, "/mnt/state".toList, false⟩,
    ⟨"/srv/state/docs".toList, "/mnt/docs".toList, true⟩]
  resolve := Posix.resolve ⟨[], List.forall_mem_nil _⟩
  pathExists := fun _ => true

def nestedLayout : ThreadLayout where
  publicSkills := "/srv/skills/public".toList
  hasPublicSkills := true
  legacySkills := "/srv/skills/custom".toList
  seesLegacySkills := false
  userCustomSkills := "/srv/users/u/skills/custom".toList
  userData := "/srv/users/u/threads/t/user-data".toList
  workDir := "/srv/users/u/threads/t/user-data/workspace".toList
  uploads := "/srv/users/u/threads/t/user-data/uploads".toList
  outputs := "/srv/users/u/threads/t/user-data/outputs".toList
  acpWorkspace := "/srv/state/acp".toList

def nestedThread : ThreadData where
  workspacePath := some nestedLayout.workDir
  uploadsPath := some nestedLayout.uploads
  outputsPath := some nestedLayout.outputs

theorem resolves_nestedHost : Resolves nestedHost.resolve :=
  resolves_resolve (List.forall_mem_nil _)

theorem plain_nestedHost : ∀ m ∈ nestedHost.getCustomMounts, PlainMount nestedHost m := by
  have hmounts : nestedHost.getCustomMounts =
      [⟨"/srv/state".toList, "/mnt/state".toList, false⟩,
        ⟨"/srv/state/docs".toList, "/mnt/docs".toList, true⟩] := rfl
  rw [hmounts]
  intro m hm
  simp only [List.mem_cons, List.not_mem_nil, or_false] at hm
  rcases hm with rfl | rfl
  · exact ⟨rfl, rfl, .inr (by decide), by decide⟩
  · exact ⟨rfl, rfl, .inr (by decide), by decide⟩

theorem leadsTo_notes : LeadsTo nestedHost nestedLayout (fun _ => true) nestedThread
    "/mnt/state/notes".toList "/srv/state/notes".toList := by
  have hcustom : nestedHost.isCustomMountPath "/mnt/state/notes".toList = true := by
    decide
  unfold LeadsTo
  rw [if_pos hcustom]
  rfl

/-- The notes of the mount are written in the mount. -/
theorem mount_notes_contained :
    ∃ root ∈ writableRoots nestedHost nestedLayout nestedThread,
      Within root "/srv/state/notes".toList ∧
        ∀ dir ∈ protectedRoots nestedHost nestedLayout, Apart dir root →
          ¬ Within dir "/srv/state/notes".toList :=
  (local_tool_paths_contained nestedHost nestedLayout (fun _ => true) nestedThread
    resolves_nestedHost).2.1 plain_nestedHost "/mnt/state/notes".toList _ rfl leadsTo_notes

/-- A path of the mount that is accepted for writing leads into the ACP workspace, and another one
into the read-only mount. -/
theorem nested_directories_reached :
    nestedHost.validateLocalToolPath "/mnt/state/acp/notes".toList (some nestedThread) false =
        .ok () ∧
      LeadsTo nestedHost nestedLayout (fun _ => true) nestedThread
        "/mnt/state/acp/notes".toList "/srv/state/acp/notes".toList ∧
      Within (nestedHost.resolve nestedLayout.acpWorkspace) "/srv/state/acp/notes".toList ∧
    nestedHost.validateLocalToolPath "/mnt/state/docs/a".toList (some nestedThread) false =
        .ok () ∧
      LeadsTo nestedHost nestedLayout (fun _ => true) nestedThread
        "/mnt/state/docs/a".toList "/srv/state/docs/a".toList ∧
      Within (nestedHost.resolve "/srv/state/docs".toList) "/srv/state/docs/a".toList := by
  refine ⟨rfl, ?_, by decide, rfl, ?_, by decide⟩
  · have hcustom : nestedHost.isCustomMountPath "/mnt/state/acp/notes".toList = true := by
      decide
    unfold LeadsTo
    rw [if_pos hcustom]
    rfl
  · have hcustom : nestedHost.isCustomMountPath "/mnt/state/docs/a".toList = true := by
      decide
    unfold LeadsTo
    rw [if_pos hcustom]
    rfl

end Nested

end DeerFlow.Sandbox
