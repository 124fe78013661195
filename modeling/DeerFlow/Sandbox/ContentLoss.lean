import DeerFlow.Sandbox.ContentRoundTrip

/-! The converse. With well-formed mappings, a content that comes back although no host root
arises at a seam has no carriage returns, and spells its container paths plainly. -/

namespace DeerFlow.Sandbox

section Containers
variable {b : LocalSandbox} {m : PathMapping} {path relative : Text} {s : Text}

theorem rstripSlash_eq (h : path.getLast? ≠ some '/') : rstripSlash path = path := by
  unfold rstripSlash
  rcases List.eq_nil_or_concat path with rfl | ⟨init, c, rfl⟩
  · rfl
  · rw [List.concat_eq_append] at h ⊢
    have hc : c ≠ '/' := by
      rintro rfl
      exact h (List.getLast?_concat)
    have hstop : (c :: init.reverse).dropWhile (· = '/') = c :: init.reverse :=
      List.dropWhile_cons_of_neg fun he => hc (of_decide_eq_true he)
    rw [List.reverse_append, List.reverse_singleton, List.singleton_append, hstop,
      List.reverse_cons, List.reverse_reverse]

namespace LocalSandbox

theorem WellFormed.container_eq (hwf : b.WellFormed) (hm : m ∈ b.pathMappings) :
    m.container = m.containerPath ∧ m.containerPath ≠ ['/'] := by
  obtain ⟨hne, hlast, -⟩ := hwf.container m hm
  refine ⟨?_, fun he => hlast (by rw [he]; rfl)⟩
  unfold PathMapping.container
  rw [rstripSlash_eq hlast]
  exact if_neg hne

/-- What the mapping of a path was found by. -/
theorem WellFormed.find_spec (hwf : b.WellFormed)
    (h : b.findPathMapping path = some (m, relative)) :
    m ∈ b.pathMappings ∧ ∃ rest, path = m.containerPath ++ rest ∧ relative = lstripSlash rest ∧
      (rest = [] ∨ ∃ below, rest = '/' :: below) := by
  obtain ⟨n, hn, hfound⟩ := List.exists_of_findSome?_eq_some h
  have hmem : n ∈ b.pathMappings := (List.perm_insertionSort _ _).mem_iff.mp hn
  obtain ⟨hcontainer, htop⟩ := hwf.container_eq hmem
  rw [hcontainer, if_neg htop] at hfound
  split at hfound
  · next hcovers =>
    cases hfound
    refine ⟨hmem, path.drop m.containerPath.length, ?_, rfl, ?_⟩
    · rcases of_decide_eq_true hcovers with he | hprefix
      · rw [he, List.drop_length, List.append_nil]
      · obtain ⟨below, rfl⟩ := List.isPrefixOf_iff_prefix.mp hprefix
        rw [List.append_assoc, List.drop_left]
    · rcases of_decide_eq_true hcovers with he | hprefix
      · exact .inl (by rw [he, List.drop_length])
      · obtain ⟨below, rfl⟩ := List.isPrefixOf_iff_prefix.mp hprefix
        refine .inr ⟨below, ?_⟩
        rw [List.append_assoc, List.drop_left]
        rfl
  · cases hfound

/-- A mention has a mapping. -/
theorem WellFormed.find_of_hit (hwf : b.WellFormed) (h : b.contentPattern s = some path) :
    ∃ m relative, b.findPathMapping path = some (m, relative) := by
  obtain ⟨-, m, hm, hpath⟩ := contentPattern_spec h
  obtain ⟨hcontainer, htop⟩ := hwf.container_eq hm
  cases hfind : b.findPathMapping path with
  | some found => exact ⟨found.1, found.2, rfl⟩
  | none =>
    have hnone := List.findSome?_eq_none_iff.mp hfind m
      ((List.perm_insertionSort _ _).mem_iff.mpr hm)
    have hcovers : covers m.containerPath path = true := by
      refine decide_eq_true (hpath.imp_right fun hprefix => ?_)
      exact List.isPrefixOf_iff_prefix.mpr hprefix
    rw [hcontainer, if_neg htop, if_pos hcovers] at hnone
    cases hnone

end LocalSandbox
end Containers

section Resolution
variable {cwd : Posix.AbsPath} {isWord : Char → Bool} {mappings : List PathMapping}
  {m : PathMapping} {path relative resolved s : Text}

theorem underRoot_eq_ok {cs : List Text} (hcs : ∀ c ∈ cs, Posix.Proper c) (hne : cs ≠ [])
    (h : (lexical cwd isWord mappings).underRoot (Posix.below cs) relative = .ok resolved) :
    resolved = Posix.absolute (Posix.walk cs (Posix.comps relative)) ∧ '\x00' ∉ relative := by
  unfold LocalSandbox.underRoot at h
  split at h
  · next hnil =>
    cases h
    subst hnil
    have hwalk : Posix.walk cs (Posix.comps []) = cs := by
      have hcomps : Posix.comps [] = [] := rfl
      rw [hcomps, Posix.walk_of_proper cs fun c hc => (by cases hc), List.append_nil]
    exact ⟨by rw [hwalk]; exact (if_neg hne).symm, List.not_mem_nil⟩
  · have hjoin : Posix.join (Posix.below cs) relative = Posix.below cs ++ '/' :: relative :=
      if_neg (Posix.getLast?_below hcs)
    unfold LocalSandbox.tryResolve at h
    rw [hjoin] at h
    split at h
    · cases h
    · next hnull =>
      cases h
      refine ⟨Posix.resolve_below hcs hne cwd relative, fun hmem => hnull ?_⟩
      exact List.mem_append_right _ (List.mem_cons_of_mem _ hmem)

/-- How a container path that resolves lies below the root of its mapping. -/
structure Lies (b : LocalSandbox) (path : Text) (m : PathMapping) (rest : Text)
    (segs : List Text) : Prop where
  mapping : m ∈ b.pathMappings
  find : b.findPathMapping path = some (m, lstripSlash rest)
  text : path = m.containerPath ++ rest
  resolves : b.resolvePath path = .ok (b.resolvedLocalPath m ++ Posix.below segs)
  proper : ∀ seg ∈ segs, Posix.Proper seg
  noNull : ∀ seg ∈ segs, '\x00' ∉ seg
  /-- The segments are made of characters of the root and of the path. -/
  chars : ∀ c, c ∉ b.resolvedLocalPath m → c ∉ path → ∀ seg ∈ segs, c ∉ seg
  length : (Posix.below segs).length ≤ rest.length

theorem length_below_relative {rest : Text} (h : rest = [] ∨ ∃ below, rest = '/' :: below) :
    (Posix.below (Posix.comps (lstripSlash rest))).length ≤ rest.length := by
  rcases h with rfl | ⟨below, rfl⟩
  · exact Nat.le_refl 0
  · have hstrip : lstripSlash ('/' :: below) = lstripSlash below := rfl
    have hshort : (lstripSlash below).length ≤ below.length :=
      (List.dropWhile_sublist _).length_le
    have hcomps := Posix.length_below_comps (lstripSlash below)
    rw [hstrip, List.length_cons]
    omega

theorem lies_of_resolves (hwf : (lexical cwd isWord mappings).WellFormed)
    (hhit : (lexical cwd isWord mappings).contentPattern s = some path)
    (h : (lexical cwd isWord mappings).resolvePath path = .ok resolved) :
    ∃ m rest segs, Lies (lexical cwd isWord mappings) path m rest segs := by
  obtain ⟨m, relative, hfind⟩ := hwf.find_of_hit hhit
  obtain ⟨hm, rest, htext, hrel, hrest⟩ := hwf.find_spec hfind
  have hclean := hwf.root m hm
  obtain ⟨cs, hne, hcs, hroot⟩ := root_below hclean
  have hfound := h
  unfold LocalSandbox.resolvePath LocalSandbox.resolvePathWithMapping at hfound
  rw [hfind] at hfound
  obtain ⟨found, hresolve, rfl⟩ := map_eq_ok.mp hfound
  obtain ⟨under, hunder, hinside⟩ := bind_eq_ok.mp hresolve
  rw [hroot] at hunder hinside
  obtain ⟨rfl, hnull⟩ := underRoot_eq_ok hcs hne hunder
  have hwalk : ∀ c ∈ Posix.walk cs (Posix.comps relative), Posix.Proper c := by
    refine Posix.walk_proper hcs fun c hc => ?_
    obtain ⟨h₁, h₂, h₃, -⟩ := Posix.mem_of_mem_comps hc
    exact ⟨h₁, h₂, h₃⟩
  -- where `relative_to` raises, the path leads out of the mount and nothing resolves
  split at hinside
  · next hprefix =>
    cases hinside
    rw [Posix.comps_below hcs, Posix.comps_absolute hwalk] at hprefix
    obtain ⟨segs, hsegs⟩ := hprefix
    have hunderSegs : Posix.absolute (Posix.walk cs (Posix.comps relative)) =
        (lexical cwd isWord mappings).resolvedLocalPath m ++ Posix.below segs := by
      rw [← hsegs, hroot, ← Posix.below_append]
      exact if_neg fun he => hne (List.append_eq_nil_iff.mp he).1
    -- where the walk leads is the root and then segments of the root or of the path
    have hseg : ∀ seg ∈ segs, seg ∈ cs ∨ seg ∈ Posix.comps relative := fun seg hs =>
      Posix.mem_walk (hsegs ▸ List.mem_append_right cs hs)
    have hchars : ∀ c, c ∉ (lexical cwd isWord mappings).resolvedLocalPath m → c ∉ relative →
        ∀ seg ∈ segs, c ∉ seg := by
      intro c hcroot hcrel seg hs hmem
      rcases hseg seg hs with hin | hin
      · rw [hroot] at hcroot
        exact hcroot (List.mem_flatMap.mpr ⟨seg, hin, List.mem_cons_of_mem _ hmem⟩)
      · exact hcrel ((Posix.mem_of_mem_comps hin).2.2.2 hmem)
    refine ⟨m, rest, segs, hm, hrel ▸ hfind, htext, h.trans (congrArg Except.ok hunderSegs),
      fun seg hs => ?_, ?_, ?_, ?_⟩
    · exact hwalk seg (hsegs ▸ List.mem_append_right cs hs)
    · exact hchars _ hclean.noNull hnull
    · exact fun c hcroot hcpath => hchars c hcroot fun hmem => hcpath (relative_subset hfind hmem)
    · have hlength := Posix.length_below_walk cs (Posix.comps relative)
      rw [← hsegs, Posix.below_append, List.length_append] at hlength
      have hrelative := length_below_relative hrest
      rw [← hrel] at hrelative
      omega
  · cases hinside

/-- A character that is in no container path is in a name only if it was in the host path. -/
theorem not_mem_name {c : Char} {host name : Text} (hc : c ≠ '/')
    (hcontainer : ∀ m ∈ mappings, c ∉ m.containerPath) (habs : Posix.isAbs (toSlashes host) = true)
    (hhost : c ∉ toSlashes host)
    (h : (lexical cwd isWord mappings).reverseResolvePath host = .ok name) : c ∉ name := by
  obtain ⟨resolved, hresolved, rfl⟩ := map_eq_ok.mp h
  have hfree : c ∉ resolved := by
    unfold LocalSandbox.tryResolve at hresolved
    split at hresolved
    · cases hresolved
    · cases hresolved
      intro hmem
      rcases Posix.mem_resolve habs hmem with he | hmem
      · exact hc he
      · exact hhost hmem
  cases hfind : (lexical cwd isWord mappings).mappingsByLocalSpecificity.findSome? fun m =>
      (lexical cwd isWord mappings).containerName? m resolved with
  | none => exact hfree
  | some name =>
    obtain ⟨m, hm, hname⟩ := List.exists_of_findSome?_eq_some hfind
    have hfreeContainer := hcontainer m (mem_mappingsByLocal.mp hm)
    unfold LocalSandbox.containerName? at hname
    simp only at hname
    split at hname
    · cases hname
      rw [Option.getD_some]
      split
      · exact hfreeContainer
      · intro hmem
        rcases List.mem_append.mp hmem with hmem | hmem
        · exact hfreeContainer hmem
        · rcases List.mem_cons.mp hmem with he | hmem
          · exact hc he
          · exact hfree (List.drop_subset _ _ (List.dropWhile_subset _ hmem))
    · cases hname

theorem toSlashes_append (s t : Text) : toSlashes (s ++ t) = toSlashes s ++ toSlashes t :=
  List.map_append

theorem not_mem_toSlashes {c : Char} {t : Text} (hc : c ≠ '/') (h : c ∉ t) : c ∉ toSlashes t := by
  intro hmem
  obtain ⟨d, hd, he⟩ := List.mem_map.mp hmem
  split at he
  · exact hc he.symm
  · exact h (he ▸ hd)

theorem isAbs_under (h : CleanRoot ((lexical cwd isWord mappings).resolvedLocalPath m))
    (t : Text) : Posix.isAbs
      (toSlashes ((lexical cwd isWord mappings).resolvedLocalPath m ++ t)) = true := by
  obtain ⟨cs, hne, -, hroot⟩ := root_below h
  rw [toSlashes_append, toSlashes_of_not_mem h.noBackslash, hroot]
  exact Posix.isAbs_below hne _

theorem not_mem_output (hwf : (lexical cwd isWord mappings).WellFormed) {output out : Text}
    (hlines : '\r' ∉ output)
    (h : (lexical cwd isWord mappings).reverseResolvePathsInOutput output = .ok out) :
    '\r' ∉ out := by
  refine foldlM_invariant (motive := fun _ text => '\r' ∉ text) hlines ?_ h
  intro done m text out hdone htext hsub hmem
  have hm : m ∈ mappings := mem_mappingsByLocal.mp
    (hdone.subset (List.mem_append_right done List.mem_cons_self))
  rcases Scan.mem_of_sub (matchRoot_lawful _) hsub hmem with hin | ⟨t, u, rest, hfind, ht, hu, hin⟩
  · exact htext hin
  · have habs : Posix.isAbs (toSlashes t) = true := by
      unfold matchRoot at hfind
      split at hfind
      · cases hfind
        exact isAbs_under (hwf.root m hm) _
      · cases hfind
    refine not_mem_name (by decide) (fun n hn => (hwf.container n hn).2.2.2) habs ?_ hu hin
    exact not_mem_toSlashes (by decide) fun hret => htext (ht hret)

end Resolution

section Converse
variable {cwd : Posix.AbsPath} {isWord : Char → Bool} {mappings : List PathMapping}
  {m : PathMapping} {path s : Text} {segs : List Text} {slot : Slot}

/-- How a piece of the content and its slot belong together. -/
inductive Stands (b : LocalSandbox) : Scan.Piece → Slot → Prop
  | plain (c : Char) : Stands b (.char c) (.plain c)
  | host {path : Text} {m : PathMapping} {rest : Text} {segs : List Text} :
      Lies b path m rest segs →
      Stands b (.hit path) (.host (b.resolvedLocalPath m ++ toSlashes (Posix.below segs)))

theorem stands_of_slotOf (hwf : (lexical cwd isWord mappings).WellFormed) {p : Scan.Piece}
    (hp : p ∈ Scan.scan (lexical cwd isWord mappings).contentPattern s)
    (h : (lexical cwd isWord mappings).slotOf p = .ok slot) :
    Stands (lexical cwd isWord mappings) p slot := by
  cases p with
  | char c =>
    cases h
    exact .plain c
  | hit path =>
    rw [slotOf_hit] at h
    obtain ⟨text, htext, rfl⟩ := map_eq_ok.mp h
    obtain ⟨resolved, hresolved, rfl⟩ := map_eq_ok.mp htext
    obtain ⟨rest, hhit⟩ := Scan.hit_of_mem_scanFrom hp
    obtain ⟨m, rest, segs, hlies⟩ := lies_of_resolves hwf hhit hresolved
    obtain rfl := Except.ok.inj (hresolved.symm.trans hlies.resolves)
    have hclean := hwf.root m hlies.mapping
    rw [toSlashes_append, toSlashes_of_not_mem hclean.noBackslash]
    exact .host hlies

theorem not_mem_toSlashes_backslash (t : Text) : '\\' ∉ toSlashes t := by
  intro hmem
  obtain ⟨d, -, he⟩ := List.mem_map.mp hmem
  split at he
  · cases he
  · next hd => exact hd he

theorem nameOf_eq {b : LocalSandbox} {host name : Text} (h : b.reverseResolvePath host = .ok name) :
    b.nameOf host = name := by
  unfold LocalSandbox.nameOf
  rw [h]

theorem named_of_noNull {b : LocalSandbox} {host : Text} (h : '\x00' ∉ toSlashes host) :
    b.reverseResolvePath host = .ok (b.nameOf host) := by
  have hok : ∃ name, b.reverseResolvePath host = .ok name := by
    unfold LocalSandbox.reverseResolvePath LocalSandbox.tryResolve
    rw [if_neg h]
    exact ⟨_, rfl⟩
  obtain ⟨name, hname⟩ := hok
  rw [hname, nameOf_eq hname]

/-- The host path of a mention has only characters of the root and of the mention. -/
theorem Lies.not_mem {b : LocalSandbox} {rest : Text} (h : Lies b path m rest segs) {c : Char}
    (hc : c ≠ '/') (hroot : c ∉ b.resolvedLocalPath m) (hpath : c ∉ path) :
    c ∉ b.resolvedLocalPath m ++ toSlashes (Posix.below segs) := by
  intro hmem
  rcases List.mem_append.mp hmem with hmem | hmem
  · exact hroot hmem
  · exact not_mem_toSlashes hc (not_mem_below hc (h.chars c hroot hpath)) hmem

theorem Lies.claims {b : LocalSandbox} {rest : Text} (h : Lies b path m rest segs) :
    ∃ n ∈ b.pathMappings, b.claims n (b.resolvedLocalPath m ++ toSlashes (Posix.below segs)) = true := by
  refine ⟨m, h.mapping, claims_under ?_⟩
  rcases below_cases segs with he | ⟨below, he⟩
  · exact .inl (by rw [he]; rfl)
  · exact .inr ⟨toSlashes below, by rw [he]; rfl⟩

theorem Lies.reverse_eq (hwf : (lexical cwd isWord mappings).WellFormed) {rest : Text}
    (h : Lies (lexical cwd isWord mappings) path m rest segs) :
    (lexical cwd isWord mappings).reverseResolvePath
      ((lexical cwd isWord mappings).resolvedLocalPath m ++ toSlashes (Posix.below segs)) =
      .ok ((lexical cwd isWord mappings).nameOf
        ((lexical cwd isWord mappings).resolvedLocalPath m ++ toSlashes (Posix.below segs))) := by
  refine named_of_noNull (not_mem_toSlashes (by decide) fun hmem => ?_)
  rcases List.mem_append.mp hmem with hmem | hmem
  · exact (hwf.root m h.mapping).noNull hmem
  · exact not_mem_toSlashes (by decide) (not_mem_below (by decide) h.noNull) hmem

/-- Without backslashes the name of the host path is the container path and the segments. -/
theorem Lies.name (hwf : (lexical cwd isWord mappings).WellFormed) {rest : Text}
    (h : Lies (lexical cwd isWord mappings) path m rest segs) (hpath : '\\' ∉ path) :
    (∀ seg ∈ segs, PlainSegment seg) ∧
      toSlashes (Posix.below segs) = Posix.below segs ∧
      (lexical cwd isWord mappings).reverseResolvePath
        ((lexical cwd isWord mappings).resolvedLocalPath m ++ Posix.below segs) =
        .ok (m.containerPath ++ Posix.below segs) := by
  have hback := h.chars '\\' (hwf.root m h.mapping).noBackslash hpath
  have hplain : ∀ seg ∈ segs, PlainSegment seg := fun seg hs =>
    ⟨h.proper seg hs, hback seg hs, h.noNull seg hs⟩
  exact ⟨hplain, toSlashes_of_not_mem (not_mem_below (by decide) hback),
    hwf.named m h.mapping segs hplain⟩

theorem splitOn_below {seg : Text} (h : ∀ t ∈ seg :: segs, '/' ∉ t) :
    (seg ++ Posix.below segs).splitOn '/' = seg :: segs := by
  induction segs generalizing seg with
  | nil =>
    have htext : seg ++ Posix.below [] = seg := List.append_nil seg
    rw [htext, List.splitOn_eq_singleton (h seg List.mem_cons_self)]
  | cons t segs ih =>
    have htext : seg ++ Posix.below (t :: segs) = seg ++ '/' :: (t ++ Posix.below segs) := rfl
    rw [htext, List.splitOn_append_cons_self_of_not_mem (h seg List.mem_cons_self),
      ih fun u hu => h u (List.mem_cons_of_mem seg hu)]

theorem lstripSlash_below {seg : Text} (h : Posix.Proper seg) (segs : List Text) :
    lstripSlash (Posix.below (seg :: segs)) = seg ++ Posix.below segs ∧
      seg ++ Posix.below segs ≠ [] := by
  obtain ⟨c, rest, hseg⟩ := List.exists_cons_of_ne_nil h.nonempty
  have hc : c ≠ '/' := by
    rintro rfl
    exact h.noSlash (by rw [hseg]; exact List.mem_cons_self)
  have htext : lstripSlash (Posix.below (seg :: segs)) = lstripSlash (seg ++ Posix.below segs) := rfl
  rw [htext, hseg]
  exact ⟨List.dropWhile_cons_of_neg fun he => hc (of_decide_eq_true he), List.cons_ne_nil _ _⟩

theorem segments_below (h : ∀ seg ∈ segs, Posix.Proper seg) :
    segments (lstripSlash (Posix.below segs)) = segs := by
  cases segs with
  | nil => rfl
  | cons seg segs =>
    obtain ⟨hstrip, hne⟩ := lstripSlash_below (h seg List.mem_cons_self) segs
    unfold segments
    rw [hstrip, if_neg hne, splitOn_below fun t ht => (h t ht).noSlash]

/-- A mention that is the name of its host path is spelled plainly. -/
theorem Lies.restored (hwf : (lexical cwd isWord mappings).WellFormed) {rest : Text}
    (h : Lies (lexical cwd isWord mappings) path m rest segs) (hpath : '\\' ∉ path)
    (hname : path = m.containerPath ++ Posix.below segs) :
    (lexical cwd isWord mappings).Restored path := by
  obtain ⟨hplain, -, hreverse⟩ := h.name hwf hpath
  have hrest : rest = Posix.below segs := List.append_cancel_left (h.text.symm.trans hname)
  have hsegs : segments (lstripSlash rest) = segs := by
    rw [hrest]
    exact segments_below h.proper
  refine ⟨(m, lstripSlash rest), h.find, ?_, hwf.root m h.mapping, ?_⟩
  · rw [hsegs]
    exact hplain
  · rw [hsegs, hname]
    exact hreverse

end Converse

section Apart
variable {cwd : Posix.AbsPath} {isWord : Char → Bool} {mappings : List PathMapping}

theorem findSome?_unique {α β : Type} {f : α → Option β} {xs : List α} {x : α} {v : β}
    (hx : x ∈ xs) (hf : f x = some v) (hothers : ∀ y ∈ xs, y ≠ x → f y = none) :
    xs.findSome? f = some v := by
  cases hfind : xs.findSome? f with
  | none => exact absurd (List.findSome?_eq_none_iff.mp hfind x hx) (by rw [hf]; exact nofun)
  | some w =>
    obtain ⟨y, hy, hw⟩ := List.exists_of_findSome?_eq_some hfind
    have hyx : y = x := Classical.not_not.mp fun hne => by
      rw [hothers y hy hne] at hw
      cases hw
    rw [hyx, hf] at hw
    exact hw.symm

/-- Mappings with roots of which none lies under another are well formed. -/
theorem wellFormed_of_apart
    (hcontainer : ∀ m ∈ mappings, m.containerPath ≠ [] ∧ m.containerPath.getLast? ≠ some '/' ∧
      '\\' ∉ m.containerPath ∧ '\r' ∉ m.containerPath)
    (hroot : ∀ m ∈ mappings, CleanRoot ((lexical cwd isWord mappings).resolvedLocalPath m))
    (hapart : ∀ m ∈ mappings, ∀ n ∈ mappings,
      Posix.comps ((lexical cwd isWord mappings).resolvedLocalPath m) <+:
        Posix.comps ((lexical cwd isWord mappings).resolvedLocalPath n) → m = n) :
    (lexical cwd isWord mappings).WellFormed := by
  refine ⟨hcontainer, hroot, fun m hm segs hsegs => ?_⟩
  obtain ⟨cs, hne, hcs, hcsroot⟩ := root_below (hroot m hm)
  have hall : ∀ c ∈ cs ++ segs, Posix.Proper c := by
    intro c hc
    rcases List.mem_append.mp hc with hc | hc
    · exact hcs c hc
    · exact (hsegs c hc).proper
  have hfree : ∀ {c : Char}, c ≠ '/' → c ∉ Posix.below cs → (∀ seg ∈ segs, c ∉ seg) →
      c ∉ Posix.below cs ++ Posix.below segs := by
    intro c hc hcroot hcsegs hmem
    rcases List.mem_append.mp hmem with hmem | hmem
    · exact hcroot hmem
    · exact not_mem_below hc hcsegs hmem
  have hclean := hroot m hm
  rw [hcsroot] at hclean
  have hslashes : toSlashes (Posix.below cs ++ Posix.below segs) =
      Posix.below cs ++ Posix.below segs :=
    toSlashes_of_not_mem (hfree (by decide) hclean.noBackslash fun seg hs => (hsegs seg hs).noBackslash)
  have hnull : '\x00' ∉ Posix.below cs ++ Posix.below segs :=
    hfree (by decide) hclean.noNull fun seg hs => (hsegs seg hs).noNull
  have hresolve : Posix.resolve cwd (Posix.below cs ++ Posix.below segs) =
      Posix.below cs ++ Posix.below segs := by
    rw [← Posix.below_append]
    exact Posix.resolve_of_proper hall (fun he => hne (List.append_eq_nil_iff.mp he).1) cwd
  unfold LocalSandbox.reverseResolvePath LocalSandbox.tryResolve
  rw [hcsroot, hslashes, if_neg hnull, show (lexical cwd isWord mappings).resolve = Posix.resolve cwd
    from rfl, hresolve]
  refine congrArg Except.ok ?_
  have hname : (lexical cwd isWord mappings).containerName? m
      (Posix.below cs ++ Posix.below segs) = some (m.containerPath ++ Posix.below segs) := by
    have hclaims : covers (Posix.below cs) (Posix.below cs ++ Posix.below segs) = true := by
      have hunder := claims_under (b := lexical cwd isWord mappings) (m := m) (below_cases segs)
      unfold LocalSandbox.claims at hunder
      rw [hcsroot] at hunder
      exact hunder
    unfold LocalSandbox.containerName?
    simp only
    rw [hcsroot, if_pos hclaims, List.drop_left]
    cases segs with
    | nil => exact congrArg some (List.append_nil _).symm
    | cons seg segs =>
      obtain ⟨hstrip, hnil⟩ := lstripSlash_below (hsegs seg List.mem_cons_self).proper segs
      rw [hstrip, if_neg hnil]
      rfl
  have hothers : ∀ n ∈ (lexical cwd isWord mappings).mappingsByLocalSpecificity, n ≠ m →
      (lexical cwd isWord mappings).containerName? n (Posix.below cs ++ Posix.below segs) = none := by
    intro n hn hnm
    have hnmem := mem_mappingsByLocal.mp hn
    obtain ⟨ds, hdne, hds, hdsroot⟩ := root_below (hroot n hnmem)
    refine if_neg fun hcovers => hnm ?_
    rw [hdsroot, ← Posix.below_append] at hcovers
    have hprefix := (Posix.below_prefix_iff hds hall).mp
      ((of_decide_eq_true hcovers).imp_right List.isPrefixOf_iff_prefix.mp)
    -- the roots lie on one path, so one of them lies under the other
    rcases List.prefix_or_prefix_of_prefix hprefix (List.prefix_append cs segs) with hle | hle
    · exact hapart n hnmem m hm (by rw [hdsroot, hcsroot, Posix.comps_below hds, Posix.comps_below hcs]; exact hle)
    · exact (hapart m hm n hnmem
        (by rw [hdsroot, hcsroot, Posix.comps_below hds, Posix.comps_below hcs]; exact hle)).symm
  exact congrArg (fun found => Option.getD found _)
    (findSome?_unique (mem_mappingsByLocal.mpr hm) hname hothers)

end Apart

section Loss
variable {cwd : Posix.AbsPath} {isWord : Char → Bool} {mappings : List PathMapping}
  {s : SandboxState} {path content : Text} {slots : List Slot}

/-- The slots that a content was written with, piece by piece. -/
def Corresponds (b : LocalSandbox) (content : Text) (slots : List Slot) : Prop :=
  List.Forall₂ (fun p slot => p ∈ Scan.scan b.contentPattern content ∧ Stands b p slot)
    (Scan.scan b.contentPattern content) slots

theorem slots_of_roundTrips (hwf : (lexical cwd isWord mappings).WellFormed)
    (hw : Writable (lexical cwd isWord mappings) s path)
    (h : RoundTrips (lexical cwd isWord mappings) s path content) :
    ∃ slots, (lexical cwd isWord mappings).slots content = .ok slots ∧
      Corresponds (lexical cwd isWord mappings) content slots ∧
      (lexical cwd isWord mappings).reverseResolvePathsInOutput
        (universalNewlines (textOf slots)) = .ok content := by
  obtain ⟨t, hwrite, hread⟩ := h
  obtain ⟨text, htext⟩ := resolves_of_writeFile hw hwrite
  obtain ⟨r, hr, hwrite'⟩ := writeFile_eq_ok hw htext
  obtain rfl := Except.ok.inj (hwrite.symm.trans hwrite')
  rw [readFile_put hr] at hread
  rw [resolvePathsInContent_eq] at htext
  obtain ⟨slots, hslots, rfl⟩ := map_eq_ok.mp htext
  refine ⟨slots, hslots, ?_, hread⟩
  have hall := (List.forall₂_and_left _ _).mpr ⟨fun _ hp => hp, mapM_eq_ok.mp hslots⟩
  exact hall.imp fun p slot hp => ⟨hp.1, stands_of_slotOf hwf hp.1 hp.2⟩

/-- A slot has only characters that its piece or a root has. -/
theorem Stands.not_mem {p : Scan.Piece} {slot : Slot} (h : Stands (lexical cwd isWord mappings) p slot)
    {c : Char} (hc : c ≠ '/') (hroot : ∀ m ∈ mappings, c ∉ (lexical cwd isWord mappings).resolvedLocalPath m)
    (hp : c ∉ p.text) : c ∉ slot.text := by
  cases h with
  | plain d => exact hp
  | host hlies => exact hlies.not_mem hc (hroot _ hlies.mapping) hp

theorem text_subset {p : Scan.Piece}
    (hp : p ∈ Scan.scan (lexical cwd isWord mappings).contentPattern content) :
    p.text ⊆ content := by
  intro c hc
  rw [← Scan.render_scan (contentPattern_lawful (lexical cwd isWord mappings)) content]
  exact List.mem_flatMap.mpr ⟨p, hp, hc⟩

/-- What is read is the content with the names of its host paths. -/
theorem names_of_seamless (hwf : (lexical cwd isWord mappings).WellFormed)
    (hseamless : (lexical cwd isWord mappings).Seamless content) (hlines : '\r' ∉ content)
    (hslots : (lexical cwd isWord mappings).slots content = .ok slots)
    (hall : Corresponds (lexical cwd isWord mappings) content slots)
    (hread : (lexical cwd isWord mappings).reverseResolvePathsInOutput
      (universalNewlines (textOf slots)) = .ok content) :
    slots.flatMap (lexical cwd isWord mappings).nameText = content := by
  have hslot : ∀ slot ∈ slots, ∃ p ∈ Scan.scan (lexical cwd isWord mappings).contentPattern content,
      Stands (lexical cwd isWord mappings) p slot := by
    intro slot hs
    obtain ⟨p, hp, -, hstands⟩ := exists_of_forall₂_right hall hs
    exact ⟨p, hp, hstands⟩
  -- neither the content nor a root has a carriage return, so reading changes none
  have hreturn : '\r' ∉ textOf slots := by
    intro hmem
    obtain ⟨slot, hs, hmem⟩ := List.mem_flatMap.mp hmem
    obtain ⟨p, hp, hstands⟩ := hslot slot hs
    exact hstands.not_mem (by decide) (fun m hm => (hwf.root m hm).noReturn)
      (fun hret => hlines (text_subset hp hret)) hmem
  have hhost : ∀ host, .host host ∈ slots → ∃ path m rest segs,
      Lies (lexical cwd isWord mappings) path m rest segs ∧
        host = (lexical cwd isWord mappings).resolvedLocalPath m ++ toSlashes (Posix.below segs) := by
    intro host hs
    obtain ⟨p, -, hstands⟩ := hslot _ hs
    cases hstands with
    | host hlies => exact ⟨_, _, _, _, hlies, rfl⟩
  have hstages := @LocalSandbox.foldlM_stages (lexical cwd isWord mappings)
    (lexical cwd isWord mappings).mappingsByLocalSpecificity slots
    (fun host hs => ?_) (hseamless slots (congrArg Except.toOption hslots)) fun host hs => ?_
  · rw [universalNewlines_of_not_mem hreturn] at hread
    exact Except.ok.inj (hstages.symm.trans hread)
  · obtain ⟨path, m, rest, segs, hlies, rfl⟩ := hhost host hs
    exact hlies.reverse_eq hwf
  · obtain ⟨path, m, rest, segs, hlies, rfl⟩ := hhost host hs
    obtain ⟨n, hn, hclaims⟩ := hlies.claims
    exact ⟨n, mem_mappingsByLocal.mpr hn, hclaims⟩

/-- No name has a backslash, so no mention had one. -/
theorem noBackslash_of_names (hwf : (lexical cwd isWord mappings).WellFormed)
    (hall : Corresponds (lexical cwd isWord mappings) content slots)
    (hnames : slots.flatMap (lexical cwd isWord mappings).nameText = content) :
    ∀ path, .hit path ∈ Scan.scan (lexical cwd isWord mappings).contentPattern content →
      '\\' ∉ path := by
  have hrender := Scan.render_scan (contentPattern_lawful (lexical cwd isWord mappings)) content
  have hnone : ∀ {p : Scan.Piece} {slot : Slot}, Stands (lexical cwd isWord mappings) p slot →
      ∀ path, p = .hit path → ((lexical cwd isWord mappings).nameText slot).count '\\' = 0 := by
    intro p slot hstands path he
    cases hstands with
    | plain c => cases he
    | host hlies =>
      refine List.count_eq_zero.mpr (not_mem_name (by decide) (fun n hn => (hwf.container n hn).2.2.1)
        (isAbs_under (hwf.root _ hlies.mapping) _) (not_mem_toSlashes_backslash _)
        (hlies.reverse_eq hwf))
  -- piece by piece the backslashes can only get fewer, and in all there are as many
  have hcounts : List.Forall₂ (fun p slot =>
      ((lexical cwd isWord mappings).nameText slot).count '\\' ≤ p.text.count '\\')
      (Scan.scan (lexical cwd isWord mappings).contentPattern content) slots := by
    refine hall.imp fun p slot hp => ?_
    cases hp.2 with
    | plain c => exact Nat.le_refl _
    | host hlies =>
      rw [hnone hp.2 _ rfl]
      exact Nat.zero_le _
  have hsum : ((Scan.scan (lexical cwd isWord mappings).contentPattern content).map
      fun p => p.text.count '\\').sum =
      (slots.map fun slot => ((lexical cwd isWord mappings).nameText slot).count '\\').sum := by
    have htotal := congrArg (List.count '\\') (hrender.trans hnames.symm)
    unfold Scan.render at htotal
    rw [List.count_flatMap, List.count_flatMap] at htotal
    exact htotal
  intro path hpath
  have hboth := (eq_of_sum_eq hcounts hsum).mp (fun _ _ he hp => And.intro he hp.2) hall
  obtain ⟨slot, -, he, hstands⟩ := exists_of_forall₂_right (List.Forall₂.flip hboth) hpath
  exact List.count_eq_zero.mp (he.trans (hnone hstands path rfl))

/-- No name is longer than its mention, so each mention is the name of its host path. -/
theorem names_eq (hwf : (lexical cwd isWord mappings).WellFormed)
    (hall : Corresponds (lexical cwd isWord mappings) content slots)
    (hnames : slots.flatMap (lexical cwd isWord mappings).nameText = content)
    (hback : ∀ path, .hit path ∈ Scan.scan (lexical cwd isWord mappings).contentPattern content →
      '\\' ∉ path) :
    List.Forall₂ (fun p slot => p.text = (lexical cwd isWord mappings).nameText slot)
      (Scan.scan (lexical cwd isWord mappings).contentPattern content) slots := by
  have hrender := Scan.render_scan (contentPattern_lawful (lexical cwd isWord mappings)) content
  -- piece by piece the text can only get shorter, and in all it is as long
  have hlengths : List.Forall₂ (fun (p : Scan.Piece) slot =>
      ((lexical cwd isWord mappings).nameText slot).length ≤ p.text.length)
      (Scan.scan (lexical cwd isWord mappings).contentPattern content) slots := by
    refine hall.imp fun p slot hp => ?_
    obtain ⟨hmem, hstands⟩ := hp
    cases hstands with
    | plain c => exact Nat.le_refl _
    | @host path m rest segs hlies =>
      obtain ⟨-, hslashes, hname⟩ := hlies.name hwf (hback path hmem)
      have hlength := hlies.length
      have htext : (Scan.Piece.hit path).text = m.containerPath ++ rest := hlies.text
      unfold LocalSandbox.nameText
      simp only [hslashes, nameOf_eq hname, htext, List.length_append]
      omega
  refine eq_of_flatMap_eq (eq_of_sum_eq hlengths ?_) (hrender.trans hnames.symm)
  have htotal := congrArg List.length (hrender.trans hnames.symm)
  unfold Scan.render at htotal
  rw [List.length_flatMap, List.length_flatMap] at htotal
  exact htotal

/-- A content that comes back is restorable. -/
theorem restorable_of_roundTrips (hwf : (lexical cwd isWord mappings).WellFormed)
    (hseamless : (lexical cwd isWord mappings).Seamless content)
    (hw : Writable (lexical cwd isWord mappings) s path)
    (h : RoundTrips (lexical cwd isWord mappings) s path content) :
    (lexical cwd isWord mappings).Restorable content := by
  obtain ⟨slots, hslots, hall, hread⟩ := slots_of_roundTrips hwf hw h
  have hlines := not_mem_output hwf (not_mem_universalNewlines _) hread
  have hnames := names_of_seamless hwf hseamless hlines hslots hall hread
  have hback := noBackslash_of_names hwf hall hnames
  refine ⟨hlines, fun path hpath => ?_, hseamless⟩
  have hboth := (names_eq hwf hall hnames hback).mp (fun _ _ he hp => And.intro he hp.2) hall
  obtain ⟨slot, -, he, hstands⟩ := exists_of_forall₂_right (List.Forall₂.flip hboth) hpath
  cases hstands with
  | host hlies =>
    obtain ⟨-, hslashes, hname⟩ := hlies.name hwf (hback path hpath)
    refine hlies.restored hwf (hback path hpath) ?_
    have hsame : path = (lexical cwd isWord mappings).nameOf _ := he
    rw [hslashes, nameOf_eq hname] at hsame
    exact hsame

end Loss

namespace Notes

def cwd : Posix.AbsPath := ⟨[], Posix.proper_nil⟩

def mappings : List PathMapping :=
  [⟨"/mnt/user-data".toList, "/srv/t1".toList, false⟩, ⟨"/mnt/skills".toList, "/srv/skills".toList, true⟩]

def sandbox : LocalSandbox := lexical cwd (fun c => c.isAlphanum || c = '_') mappings

def state : SandboxState where
  disk := ⟨fun _ => .error (.enoent, "No such file or directory"), fun _ => none, fun _ => none⟩
  agentWritten := []

def path : Text := "/mnt/user-data/notes.md".toList

def content : Text := "See /mnt/skills/pdf/SKILL.md, then ls /mnt/user-data; old".toList

/-- A slash at the end, a full stop after a slash, a newline escape, a step up and a carriage
return. -/
def lost : List Text :=
  ["ls /mnt/skills/ all".toList, "See /mnt/skills/.".toList, "printf '/mnt/skills\\n'".toList,
    "cd /mnt/skills/..".toList, "a\r\nb".toList]

theorem writable : Writable sandbox state path :=
  ⟨("/srv/t1/notes.md".toList, some ⟨"/mnt/user-data".toList, "/srv/t1".toList, false⟩),
    by decide +kernel, by decide +kernel, rfl, rfl⟩

def comesBack (content : Text) : Bool :=
  match sandbox.writeFile state path content false with
  | .error _ => false
  | .ok t =>
    match sandbox.readFile t path with
    | .error _ => false
    | .ok read => read = content

theorem comesBack_of_roundTrips {content : Text} (h : RoundTrips sandbox state path content) :
    comesBack content = true := by
  obtain ⟨t, hwrite, hread⟩ := h
  unfold comesBack
  rw [hwrite]
  simp only [hread, decide_true]

/-- What is read after `str_replace` on the written file. -/
def afterReplace (content old new : Text) : Option Text :=
  (sandbox.writeFile state path content false).toOption.bind fun t =>
    (sandbox.strReplace t path old new false).toOption.bind fun reply =>
      (sandbox.readFile reply.2 path).toOption

theorem afterReplace_of_strReplaces {content old new : Text}
    (h : StrReplaces sandbox state path content old new false) :
    afterReplace content old new = some (replaceFirst old new content) := by
  obtain ⟨t, u, hwrite, hreplace, hread⟩ := h
  unfold afterReplace
  rw [hwrite]
  simp only [Except.toOption, Option.bind_some, hreplace, hread]
  rfl

end Notes

end DeerFlow.Sandbox
