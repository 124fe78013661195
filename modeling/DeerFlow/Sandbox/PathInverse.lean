import DeerFlow.Sandbox.ContentLoss

/-! Host paths by their names in the container and back. The name comes from the mapping with
the longest local path, and the way back goes through the mapping with the most specific
container path; the two lead to one file where the second is mounted on the directory that
the first shows there. -/

namespace DeerFlow.Sandbox
open Posix

section Texts
variable {s : Text}

theorem comps_nil : comps [] = [] := rfl

theorem comps_slash (s : Text) : comps ('/' :: s) = comps s := comps_append_slash [] s

theorem comps_lstripSlash (s : Text) : comps (lstripSlash s) = comps s := by
  induction s with
  | nil => rfl
  | cons c s ih =>
    by_cases hc : c = '/'
    · rw [hc, comps_slash, ← ih]
      rfl
    · rw [lstripSlash, List.dropWhile_cons_of_neg (by simpa using hc)]

theorem exists_rstripSlash (s : Text) :
    ∃ slashes, s = rstripSlash s ++ slashes ∧ ∀ c ∈ slashes, c = '/' := by
  refine ⟨(s.reverse.takeWhile (· = '/')).reverse, ?_, ?_⟩
  · rw [rstripSlash, ← List.reverse_append, List.takeWhile_append_dropWhile, List.reverse_reverse]
  · intro c hc
    have hslash := List.mem_takeWhile_imp (List.mem_reverse.mp hc)
    simpa using hslash

theorem getLast?_rstripSlash (s : Text) : (rstripSlash s).getLast? ≠ some '/' := by
  rw [rstripSlash, List.getLast?_reverse]
  intro h
  have hnot := List.head?_dropWhile_not (fun c => decide (c = '/')) s.reverse
  rw [h] at hnot
  simp at hnot

theorem comps_append_slashes {slashes : Text} (h : ∀ c ∈ slashes, c = '/') (s : Text) :
    comps (s ++ slashes) = comps s := by
  cases slashes with
  | nil => rw [List.append_nil]
  | cons c slashes =>
    have hrest : comps slashes = [] := by
      induction slashes with
      | nil => rfl
      | cons d slashes ih =>
        rw [h d (by simp), comps_slash]
        exact ih fun e he => h e (by simp only [List.mem_cons] at he ⊢; tauto)
    rw [h c List.mem_cons_self, comps_append_slash, hrest, List.append_nil]

theorem comps_container (m : PathMapping) : comps m.container = comps m.containerPath := by
  obtain ⟨slashes, hpath, hslashes⟩ := exists_rstripSlash m.containerPath
  have hstrip : comps m.containerPath = comps (rstripSlash m.containerPath) := by
    conv_lhs => rw [hpath]
    exact comps_append_slashes hslashes _
  rw [PathMapping.container, hstrip]
  split_ifs with hempty
  · rw [hempty]
    rfl
  · rfl

theorem exists_of_covers {root path : Text} (h : covers root path = true) :
    ∃ rest, path = root ++ rest ∧ (rest = [] ∨ ∃ below, rest = '/' :: below) := by
  rw [covers, decide_eq_true_iff, List.isPrefixOf_iff_prefix] at h
  rcases h with rfl | ⟨rest, rfl⟩
  · exact ⟨[], (List.append_nil _).symm, .inl rfl⟩
  · exact ⟨'/' :: rest, by simp, .inr ⟨rest, rfl⟩⟩

theorem covers_append {root rest : Text} (h : rest = [] ∨ ∃ below, rest = '/' :: below) :
    covers root (root ++ rest) = true := by
  rw [covers, decide_eq_true_iff, List.isPrefixOf_iff_prefix]
  refine h.imp ?_ ?_
  · rintro rfl
    exact List.append_nil _
  · rintro ⟨below, rfl⟩
    exact ⟨below, by simp⟩

end Texts

section Names
variable {b : LocalSandbox} {m n : PathMapping} {path relative : Text}

/-- What the mapping adds to its root to reach a host path. -/
def LocalSandbox.relativeTo (b : LocalSandbox) (m : PathMapping) (resolved : Text) : Text :=
  lstripSlash (resolved.drop (b.resolvedLocalPath m).length)

/-- The container path that the mapping gives a host path. -/
def LocalSandbox.nameUnder (b : LocalSandbox) (m : PathMapping) (resolved : Text) : Text :=
  let relative := b.relativeTo m resolved
  if relative = [] then m.containerPath else m.containerPath ++ '/' :: relative

/-- The mapping that a resolved host path is named after. -/
def LocalSandbox.namingMapping (b : LocalSandbox) (resolved : Text) : Option PathMapping :=
  b.mappingsByLocalSpecificity.find? fun m => covers (b.resolvedLocalPath m) resolved

theorem containerName?_eq (b : LocalSandbox) (m : PathMapping) (resolved : Text) :
    b.containerName? m resolved =
      if covers (b.resolvedLocalPath m) resolved then some (b.nameUnder m resolved) else none := rfl

theorem findSome?_containerName (ms : List PathMapping) (resolved : Text) :
    ms.findSome? (fun m => b.containerName? m resolved) =
      (ms.find? fun m => covers (b.resolvedLocalPath m) resolved).map
        fun m => b.nameUnder m resolved := by
  induction ms with
  | nil => rfl
  | cons m ms ih =>
    rw [List.findSome?_cons, List.find?_cons, containerName?_eq]
    cases covers (b.resolvedLocalPath m) resolved with
    | true => rfl
    | false => exact ih

theorem reverseResolvePath_eq (hnull : '\x00' ∉ path) (hm : b.namingMapping
    (b.resolve (toSlashes path)) = some m) :
    b.reverseResolvePath path = .ok (b.nameUnder m (b.resolve (toSlashes path))) := by
  have hslashes : '\x00' ∉ toSlashes path := not_mem_toSlashes (by decide) hnull
  rw [LocalSandbox.reverseResolvePath, LocalSandbox.tryResolve, if_neg hslashes]
  unfold LocalSandbox.namingMapping at hm
  refine congrArg Except.ok ?_
  show (b.mappingsByLocalSpecificity.findSome? fun m => b.containerName? m _).getD _ = _
  rw [findSome?_containerName, hm]
  rfl

theorem comps_nameUnder (b : LocalSandbox) (m : PathMapping) (resolved : Text) :
    comps (b.nameUnder m resolved) = comps m.containerPath ++ comps (b.relativeTo m resolved) := by
  rw [LocalSandbox.nameUnder]
  split_ifs with hempty
  · rw [hempty, comps_nil, List.append_nil]
  · exact comps_append_slash _ _

/-- The mapping is looked at for a container path. -/
def PathMapping.Holds (m : PathMapping) (path : Text) : Prop :=
  if m.container = ['/'] then isAbs path = true else covers m.container path = true

theorem container_ne_nil (m : PathMapping) : m.container ≠ [] := by
  unfold PathMapping.container
  extract_lets path
  split_ifs with hempty
  · exact List.cons_ne_nil _ _
  · exact hempty

theorem PathMapping.Holds.ne_nil (h : m.Holds path) : path ≠ [] := by
  rintro rfl
  unfold PathMapping.Holds at h
  split_ifs at h
  · cases h
  · obtain ⟨rest, hpath, -⟩ := exists_of_covers h
    exact container_ne_nil m (List.append_eq_nil_iff.mp hpath.symm).1

theorem findSome?_sortedReverse {α β : Type} {key : α → Nat} {f : α → Option β} {xs : List α}
    {v : β} (h : (sortedReverse key xs).findSome? f = some v) :
    ∃ x ∈ xs, f x = some v ∧ ∀ y ∈ xs, (f y).isSome → key y ≤ key x := by
  obtain ⟨front, x, back, hsplit, hx, hfront⟩ := List.findSome?_eq_some_iff.mp h
  have htotal : Std.Total fun a c : α => key c ≤ key a := ⟨fun a c => Nat.le_total _ _⟩
  have htrans : IsTrans α fun a c => key c ≤ key a := ⟨fun _ _ _ hab hbc => hbc.trans hab⟩
  have hsorted : (sortedReverse key xs).Pairwise fun a c => key c ≤ key a :=
    List.pairwise_insertionSort _ xs
  have hmem : ∀ y, y ∈ sortedReverse key xs ↔ y ∈ xs := fun y => List.mem_insertionSort _
  rw [hsplit] at hsorted hmem
  refine ⟨x, (hmem x).mp (by simp), hx, fun y hy hsome => ?_⟩
  rcases List.mem_append.mp ((hmem y).mpr hy) with hbefore | hafter
  · rw [hfront y hbefore] at hsome
    cases hsome
  · rcases List.mem_cons.mp hafter with rfl | hafter
    · exact Nat.le_refl _
    · exact List.rel_of_pairwise_cons (List.pairwise_append.mp hsorted).2.1 hafter

theorem holds_of_find (h : b.findPathMapping path = some (n, relative)) :
    n ∈ b.pathMappings ∧ n.Holds path ∧ comps path = comps n.container ++ comps relative ∧
      ∀ m ∈ b.pathMappings, m.Holds path → m.container.length ≤ n.container.length := by
  obtain ⟨x, hx, hfound, hfirst⟩ := findSome?_sortedReverse h
  have hholds : x = n ∧ n.Holds path ∧ comps path = comps n.container ++ comps relative := by
    split_ifs at hfound with htop habs hcovers
    · cases hfound
      rw [PathMapping.Holds, if_pos htop, htop, comps_lstripSlash]
      exact ⟨rfl, habs, rfl⟩
    · cases hfound
      refine ⟨rfl, by rwa [PathMapping.Holds, if_neg htop], ?_⟩
      rw [comps_lstripSlash]
      obtain ⟨rest, rfl, hrest⟩ := exists_of_covers hcovers
      rw [List.drop_left]
      rcases hrest with rfl | ⟨below, rfl⟩
      · rw [List.append_nil, comps_nil, List.append_nil]
      · rw [comps_append_slash, comps_slash]
  obtain ⟨rfl, hholds, hcomps⟩ := hholds
  refine ⟨hx, hholds, hcomps, fun m hm hmholds => hfirst m hm ?_⟩
  unfold PathMapping.Holds at hmholds
  split_ifs at hmholds ⊢ <;> rfl

theorem find_of_holds (hm : m ∈ b.pathMappings) (h : m.Holds path) :
    b.findPathMapping path ≠ none := by
  intro hnone
  have hm' : m ∈ b.mappingsByContainerSpecificity := (List.mem_insertionSort _).mpr hm
  have hskip := List.findSome?_eq_none_iff.mp hnone m hm'
  unfold PathMapping.Holds at h
  split_ifs at h hskip

theorem holds_nameUnder {resolved : Text} (h : b.nameUnder m resolved ≠ []) :
    m.Holds (b.nameUnder m resolved) := by
  obtain ⟨slashes, hpath, hslashes⟩ := exists_rstripSlash m.containerPath
  have hname : ∃ rest, b.nameUnder m resolved = rstripSlash m.containerPath ++ rest ∧
      (rest = [] ∨ ∃ below, rest = '/' :: below) := by
    have hstarts : slashes = [] ∨ ∃ below, slashes = '/' :: below := by
      cases slashes with
      | nil => exact .inl rfl
      | cons c slashes => exact .inr ⟨slashes, by rw [hslashes c List.mem_cons_self]⟩
    unfold LocalSandbox.nameUnder
    extract_lets relative
    split_ifs
    · exact ⟨slashes, hpath, hstarts⟩
    · refine ⟨slashes ++ '/' :: relative, by rw [← List.append_assoc, ← hpath], .inr ?_⟩
      rcases hstarts with rfl | ⟨below, rfl⟩
      · exact ⟨relative, rfl⟩
      · exact ⟨below ++ '/' :: relative, rfl⟩
  obtain ⟨rest, hname, hrest⟩ := hname
  rw [hname] at h ⊢
  unfold PathMapping.Holds PathMapping.container
  extract_lets container
  by_cases hempty : container = []
  · rw [if_pos hempty, if_pos rfl]
    have hcontainer : rstripSlash m.containerPath = [] := hempty
    rw [hcontainer, List.nil_append] at h ⊢
    obtain ⟨below, rfl⟩ := hrest.resolve_left h
    rfl
  · have htop : container ≠ ['/'] := fun he =>
      getLast?_rstripSlash m.containerPath (congrArg List.getLast? he)
    rw [if_neg hempty, if_neg htop]
    exact covers_append hrest

theorem comps_container_prefix (hm : m.Holds path) (hn : n.Holds path)
    (hlength : m.container.length ≤ n.container.length) :
    ∃ below, comps n.container = comps m.container ++ below := by
  unfold PathMapping.Holds at hm hn
  split_ifs at hm with hmtop
  · exact ⟨comps n.container, by rw [hmtop]; rfl⟩
  obtain ⟨rest, hpath, hrest⟩ := exists_of_covers hm
  split_ifs at hn with hntop
  · -- a container path of one character is no prefix of a path that starts with a slash
    rw [hntop] at hlength
    have hshort : comps m.container = [] := by
      rcases hcontainer : m.container with _ | ⟨c, _ | ⟨d, more⟩⟩
      · rfl
      · rw [hpath, hcontainer] at hn
        have hc : '/' = c := by simpa [isAbs] using hn
        exact absurd (hcontainer.trans (by rw [hc])) hmtop
      · simp [hcontainer] at hlength
    exact ⟨comps n.container, by rw [hshort]; rfl⟩
  · obtain ⟨rest', hpath', -⟩ := exists_of_covers hn
    have hprefix : m.container <+: n.container :=
      List.prefix_of_prefix_length_le ⟨rest, hpath.symm⟩ ⟨rest', hpath'.symm⟩ hlength
    obtain ⟨more, hmore⟩ := hprefix
    have hsplit : rest = more ++ rest' := by
      rw [← hmore, List.append_assoc] at hpath'
      exact List.append_cancel_left (hpath.symm.trans hpath')
    rw [← hmore]
    cases more with
    | nil => exact ⟨[], by simp⟩
    | cons c more =>
      obtain ⟨below, hbelow⟩ := hrest.resolve_left (by rw [hsplit]; exact List.cons_ne_nil _ _)
      rw [hbelow] at hsplit
      obtain ⟨rfl, -⟩ := List.cons.inj hsplit
      exact ⟨comps more, comps_append_slash _ _⟩

/-- The mapping that holds the name of a host path lies at or below the one that named it. -/
theorem exists_below {resolved : Text} (hm : m ∈ b.pathMappings)
    (hfind : b.findPathMapping (b.nameUnder m resolved) = some (n, relative)) :
    ∃ below, comps n.containerPath = comps m.containerPath ++ below ∧
      comps (b.relativeTo m resolved) = below ++ comps relative := by
  obtain ⟨-, hn, hcomps, hlongest⟩ := holds_of_find hfind
  have hne : b.nameUnder m resolved ≠ [] := hn.ne_nil
  have hholds := holds_nameUnder hne
  obtain ⟨below, hbelow⟩ := comps_container_prefix hholds hn (hlongest m hm hholds)
  rw [comps_nameUnder, hbelow, comps_container, List.append_assoc] at hcomps
  exact ⟨below, by rw [← comps_container, ← comps_container, hbelow],
    List.append_cancel_left hcomps⟩

end Names

section Inverse
variable {b : LocalSandbox} {m n : PathMapping} {path relative resolved : Text}

theorem mem_comps_of_mem {c : Char} {s : Text} (hc : c ∈ s) (hslash : c ≠ '/') (hdot : c ≠ '.') :
    ∃ comp ∈ comps s, c ∈ comp := by
  have hbelow : c ∈ below (s.splitOn '/') := by
    rw [below_splitOn]
    exact List.mem_cons_of_mem _ hc
  obtain ⟨part, hpart, hc⟩ := List.mem_flatMap.mp hbelow
  have hmem := (List.mem_cons.mp hc).resolve_left hslash
  refine ⟨part, List.mem_filter.mpr ⟨hpart, decide_eq_true ⟨List.ne_nil_of_mem hmem, ?_⟩⟩, hmem⟩
  rintro rfl
  exact hdot (List.mem_singleton.mp hmem)

theorem noNull_of_comps {s t : Text} (hsub : comps s ⊆ comps t) (ht : '\x00' ∉ t) : '\x00' ∉ s := by
  intro hs
  obtain ⟨comp, hcomp, hnull⟩ := mem_comps_of_mem hs (by decide) (by decide)
  exact ht ((mem_of_mem_comps (hsub hcomp)).2.2.2 hnull)

theorem comps_under (hm : covers (b.resolvedLocalPath m) resolved = true) :
    comps resolved = comps (b.resolvedLocalPath m) ++ comps (b.relativeTo m resolved) := by
  obtain ⟨rest, hpath, hrest⟩ := exists_of_covers hm
  have hrelative : comps (b.relativeTo m resolved) = comps rest := by
    rw [LocalSandbox.relativeTo, comps_lstripSlash, hpath, List.drop_left]
  rw [hrelative, hpath]
  rcases hrest with rfl | ⟨below, rfl⟩
  · rw [List.append_nil, comps_nil, List.append_nil]
  · rw [comps_append_slash, comps_slash]

theorem comps_resolved (hb : Resolves b.resolve) (path : Text) :
    (∀ c ∈ comps (b.resolve path), Proper c) ∧
      b.resolve path = absolute (comps (b.resolve path)) := by
  obtain ⟨cs, hcs, hpath⟩ := hb.clean path
  rw [hpath, comps_absolute hcs]
  exact ⟨hcs, rfl⟩

theorem comps_join (hb : Resolves b.resolve) (path relative : Text) :
    isAbs (join (b.resolve path) relative) = true ∧
      comps (join (b.resolve path) relative) = comps (b.resolve path) ++ comps relative := by
  obtain ⟨cs, hcs, hpath⟩ := hb.clean path
  rw [hpath, comps_absolute hcs, join]
  by_cases hempty : cs = []
  · rw [hempty]
    exact ⟨rfl, comps_slash relative⟩
  · have habsolute : absolute cs = below cs := if_neg hempty
    rw [habsolute, if_neg (getLast?_below hcs), comps_append_slash, comps_below hcs]
    exact ⟨isAbs_below hempty _, rfl⟩

theorem underRoot_eq (hb : Resolves b.resolve) (hnull : '\x00' ∉ b.resolve path)
    (hcomps : comps (b.resolve path) = comps (b.resolvedLocalPath n) ++ comps relative) :
    b.underRoot (b.resolvedLocalPath n) relative = .ok (b.resolve path) := by
  obtain ⟨hproper, hclean⟩ := comps_resolved hb path
  obtain ⟨habs, hjoin⟩ := comps_join hb n.localPath relative
  change comps (join (b.resolvedLocalPath n) relative) = comps (b.resolvedLocalPath n) ++ _ at hjoin
  rw [LocalSandbox.underRoot]
  split_ifs with hempty
  · rw [hempty, comps_nil, List.append_nil] at hcomps
    rw [hclean, hcomps, LocalSandbox.resolvedLocalPath, ← (comps_resolved hb n.localPath).2]
  · have hnull' : '\x00' ∉ join (b.resolvedLocalPath n) relative :=
      noNull_of_comps (by rw [hjoin, hcomps]; exact List.Subset.refl _) hnull
    rw [LocalSandbox.tryResolve, if_neg hnull']
    have habs' : isAbs (b.resolve path) = true := hclean ▸ isAbs_absolute _
    have hsame : b.resolve (join (b.resolvedLocalPath n) relative) = b.resolve (b.resolve path) :=
      hb.congr _ _ habs habs' (hjoin.trans hcomps.symm)
    rw [hsame, hb.idem]

/-- Without symbolic links the way back leads to the root and what lies below it. -/
theorem comps_of_underRoot (hb : Resolves b.resolve)
    (hlinks : b.resolve (absolute (comps (b.resolvedLocalPath n) ++ comps relative)) =
      absolute (comps (b.resolvedLocalPath n) ++ comps relative))
    (hrelative : ∀ c ∈ comps relative, Proper c)
    (h : b.underRoot (b.resolvedLocalPath n) relative = .ok resolved) :
    comps resolved = comps (b.resolvedLocalPath n) ++ comps relative := by
  rw [LocalSandbox.underRoot] at h
  split_ifs at h with hempty
  · cases h
    rw [hempty, comps_nil, List.append_nil]
  · rw [LocalSandbox.tryResolve] at h
    split_ifs at h
    cases h
    have hall : ∀ c ∈ comps (b.resolvedLocalPath n) ++ comps relative, Proper c := by
      intro c hc
      exact (List.mem_append.mp hc).elim ((comps_resolved hb n.localPath).1 c) (hrelative c)
    obtain ⟨habs, hjoin⟩ := comps_join hb n.localPath relative
    have hsame : b.resolve (join (b.resolvedLocalPath n) relative) =
        b.resolve (absolute (comps (b.resolvedLocalPath n) ++ comps relative)) :=
      hb.congr _ _ habs (isAbs_absolute _) (hjoin.trans (comps_absolute hall).symm)
    rw [hsame, hlinks, comps_absolute hall]

end Inverse

section Mounts
variable (b : LocalSandbox)

/-- `n` is mounted on the directory that `m` shows at the container path of `n`. -/
def LocalSandbox.MountedIn (m n : PathMapping) : Prop :=
  comps (b.resolvedLocalPath n) = comps (b.resolvedLocalPath m) ++
    (comps n.containerPath).drop (comps m.containerPath).length

/-- The mapping that the way back goes through shows the directory that the name comes from. -/
def LocalSandbox.NamedWithin (host : Text) : Prop :=
  b.resolve (toSlashes host) = b.resolve host ∧ ∃ m n relative,
    b.namingMapping (b.resolve host) = some m ∧
    b.findPathMapping (b.nameUnder m (b.resolve host)) = some (n, relative) ∧ b.MountedIn m n

/-- The container path of the host path leads back to it. -/
def LocalSandbox.ComesBack (host : Text) : Prop :=
  ∃ path, b.reverseResolvePath host = .ok path ∧ b.resolvePath path = .ok (b.resolve host)

/-- Below the mapped roots there is no symbolic link. -/
def LocalSandbox.LinkFree : Prop :=
  ∀ m ∈ b.pathMappings, ∀ cs, (∀ c ∈ cs, Proper c) →
    b.resolve (absolute (comps (b.resolvedLocalPath m) ++ cs)) =
      absolute (comps (b.resolvedLocalPath m) ++ cs)

variable {b} {m n : PathMapping} {host relative : Text}

theorem mountedIn_iff {below : List Text}
    (hbelow : comps n.containerPath = comps m.containerPath ++ below) :
    b.MountedIn m n ↔ comps (b.resolvedLocalPath n) = comps (b.resolvedLocalPath m) ++ below := by
  rw [LocalSandbox.MountedIn, hbelow, List.drop_left]

theorem covers_of_naming (h : b.namingMapping path = some m) :
    m ∈ b.pathMappings ∧ covers (b.resolvedLocalPath m) path = true :=
  ⟨mem_mappingsByLocal.mp (List.mem_of_find?_eq_some h),
    List.find?_some (p := fun m => covers (b.resolvedLocalPath m) path) h⟩

theorem comesBack_of_namedWithin (hb : Resolves b.resolve) (hnull : '\x00' ∉ host)
    (h : b.NamedWithin host) : b.ComesBack host := by
  obtain ⟨hsame, m, n, relative, hm, hfind, hmounted⟩ := h
  obtain ⟨hmem, hcovers⟩ := covers_of_naming hm
  obtain ⟨below, hbelow, hrelative⟩ := exists_below hmem hfind
  have hcomps : comps (b.resolve host) = comps (b.resolvedLocalPath n) ++ comps relative := by
    rw [comps_under hcovers, hrelative, (mountedIn_iff hbelow).mp hmounted, List.append_assoc]
  rw [← hsame] at hm
  refine ⟨_, reverseResolvePath_eq hnull hm, ?_⟩
  have hprefix : comps (b.resolvedLocalPath n) <+: comps (b.resolve host) := ⟨_, hcomps.symm⟩
  rw [hsame, LocalSandbox.resolvePath, LocalSandbox.resolvePathWithMapping, hfind]
  dsimp only
  rw [underRoot_eq hb (hb.noNull _ hnull) hcomps]
  show Except.map Prod.fst (if _ then _ else _) = _
  rw [if_pos hprefix]
  rfl

theorem exists_namingMapping (hmem : m ∈ b.pathMappings)
    (hcovers : covers (b.resolvedLocalPath m) path = true) :
    ∃ m', b.namingMapping path = some m' := by
  rw [← Option.isSome_iff_exists, LocalSandbox.namingMapping, List.find?_isSome]
  exact ⟨m, mem_mappingsByLocal.mpr hmem, hcovers⟩

theorem namedWithin_of_comesBack (hb : Resolves b.resolve) (hnull : '\x00' ∉ host)
    (hlinks : b.LinkFree) (hsame : b.resolve (toSlashes host) = b.resolve host)
    (hmem : m ∈ b.pathMappings) (hcovers : covers (b.resolvedLocalPath m) (b.resolve host) = true)
    (h : b.ComesBack host) : b.NamedWithin host := by
  obtain ⟨m, hm⟩ := exists_namingMapping hmem hcovers
  obtain ⟨hmem, hcovers⟩ := covers_of_naming hm
  obtain ⟨path, hpath, hback⟩ := h
  rw [reverseResolvePath_eq hnull (by rwa [hsame]), hsame] at hpath
  cases hpath
  obtain ⟨hproper, hclean⟩ := comps_resolved hb host
  rw [LocalSandbox.resolvePath, LocalSandbox.resolvePathWithMapping] at hback
  cases hfind : b.findPathMapping (b.nameUnder m (b.resolve host)) with
  | none =>
    rw [hfind] at hback
    have hname : b.nameUnder m (b.resolve host) = b.resolve host := Except.ok.inj hback
    have hne : b.nameUnder m (b.resolve host) ≠ [] := by
      have habs := isAbs_absolute (comps (b.resolve host))
      rw [hname]
      intro hempty
      rw [← hclean, hempty] at habs
      cases habs
    exact absurd hfind (find_of_holds hmem (holds_nameUnder hne))
  | some found =>
    obtain ⟨n, relative⟩ := found
    refine ⟨hsame, m, n, relative, hm, hfind, ?_⟩
    obtain ⟨below, hbelow, hrelative⟩ := exists_below hmem hfind
    have hunder := comps_under hcovers
    rw [hrelative] at hunder
    have hproper' : ∀ c ∈ comps relative, Proper c := fun c hc =>
      hproper c (hunder ▸ List.mem_append_right _ (List.mem_append_right _ hc))
    rw [hfind] at hback
    obtain ⟨x, hback, hx⟩ := map_eq_ok.mp hback
    obtain ⟨resolved, hresolved, hback⟩ := bind_eq_ok.mp hback
    split_ifs at hback
    cases hback
    have hcomps := comps_of_underRoot hb
      (hlinks n (holds_of_find hfind).1 _ hproper') hproper' hresolved
    change resolved = b.resolve host at hx
    rw [hx, hunder, ← List.append_assoc] at hcomps
    rw [mountedIn_iff hbelow]
    exact (List.append_cancel_right hcomps).symm

end Mounts

/-- A name leads back wherever the mapping of the way back is mounted on the directory that the
name comes from; without symbolic links below the roots, and where a backslash does not
change the host path, it leads back nowhere else. -/
theorem container_paths_lead_back (b : LocalSandbox) (hb : Resolves b.resolve) (host : Text)
    (hnull : '\x00' ∉ host)
    (hunder : ∃ m ∈ b.pathMappings, covers (b.resolvedLocalPath m) (b.resolve host) = true) :
    (b.NamedWithin host → b.ComesBack host) ∧
      (b.LinkFree → b.resolve (toSlashes host) = b.resolve host →
        b.ComesBack host → b.NamedWithin host) := by
  obtain ⟨m, hmem, hcovers⟩ := hunder
  exact ⟨comesBack_of_namedWithin hb hnull,
    fun hlinks hsame => namedWithin_of_comesBack hb hnull hlinks hsame hmem hcovers⟩

namespace MountExample

def cwd : AbsPath := ⟨[], proper_nil⟩

def sandbox : LocalSandbox := lexical cwd (fun _ => false)
  [⟨"/mnt/d".toList, "/srv/d".toList, false⟩, ⟨"/mnt/d/s".toList, "/srv/o".toList, false⟩]

theorem resolves : Resolves sandbox.resolve := resolves_resolve fun _ hc => by cases hc

end MountExample

open MountExample in
theorem mounted_file_leads_back : sandbox.ComesBack "/srv/o/x".toList := by
  refine (container_paths_lead_back sandbox resolves "/srv/o/x".toList (by decide)
    ⟨⟨"/mnt/d/s".toList, "/srv/o".toList, false⟩, by decide +kernel, by decide +kernel⟩).1
    ⟨by decide +kernel, ⟨"/mnt/d/s".toList, "/srv/o".toList, false⟩,
      ⟨"/mnt/d/s".toList, "/srv/o".toList, false⟩, "x".toList, by decide +kernel,
      by decide +kernel, ?_⟩
  unfold LocalSandbox.MountedIn
  decide +kernel

open MountExample in
/-- A file behind a mount has the name of another one. -/
theorem covered_file_leads_elsewhere :
    ¬ ∀ (b : LocalSandbox) (host : Text), Resolves b.resolve → '\x00' ∉ host →
      (∃ m ∈ b.pathMappings, covers (b.resolvedLocalPath m) (b.resolve host) = true) →
      b.ComesBack host := by
  intro hall
  obtain ⟨path, hpath, hback⟩ := hall sandbox "/srv/d/s/x".toList resolves (by decide)
    ⟨⟨"/mnt/d".toList, "/srv/d".toList, false⟩, by decide +kernel, by decide +kernel⟩
  have hname : sandbox.reverseResolvePath "/srv/d/s/x".toList = .ok "/mnt/d/s/x".toList := by
    decide +kernel
  rw [hname] at hpath
  obtain rfl := Except.ok.inj hpath
  revert hback
  decide +kernel

end DeerFlow.Sandbox
