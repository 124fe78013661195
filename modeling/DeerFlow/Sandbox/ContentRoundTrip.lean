import DeerFlow.Sandbox.LocalSandbox

/-! Which contents a file of the sandbox gives back as they were written: those without carriage
returns whose container paths are spelled plainly, where no host root arises at a seam between
the text and the host path that was put into it. -/

namespace DeerFlow.Sandbox

/-- The sandbox on a host without symbolic links. -/
def lexical (cwd : Posix.AbsPath) (isWord : Char → Bool) (mappings : List PathMapping) :
    LocalSandbox := ⟨mappings, Posix.resolve cwd, isWord⟩

section Property
variable (b : LocalSandbox) (s : SandboxState) (path content : Text)

/-- The path leads into its mapping and nothing keeps its file from being written. -/
def Writable : Prop :=
  ∃ resolved, b.resolvePathWithMapping path = .ok resolved ∧
    b.isResolvedPathReadOnly resolved = false ∧
    s.disk.mkdirError (Posix.dirname resolved.1) = none ∧ s.disk.openError resolved.1 = none

def RoundTrips : Prop :=
  ∃ t, b.writeFile s path content false = .ok t ∧ b.readFile t path = .ok content

/-- `str_replace` on the written file leaves the content with the occurrence replaced. -/
def StrReplaces (old new : Text) (all : Bool) : Prop :=
  ∃ t u, b.writeFile s path content false = .ok t ∧
    b.strReplace t path old new all = .ok (.ok, u) ∧
    b.readFile u path = .ok (replaced old new all content)

end Property

section Restorable

/-- The segments of a path relative to a mapping, the empty ones too. -/
def segments (relative : Text) : List Text :=
  if relative = [] then [] else relative.splitOn '/'

structure PlainSegment (seg : Text) : Prop where
  proper : Posix.Proper seg
  noBackslash : '\\' ∉ seg
  noNull : '\x00' ∉ seg

structure CleanRoot (root : Text) : Prop where
  notTop : root ≠ ['/']
  noBackslash : '\\' ∉ root
  noReturn : '\r' ∉ root
  noNull : '\x00' ∉ root

instance (seg : Text) : Decidable (PlainSegment seg) :=
  decidable_of_iff (Posix.Proper seg ∧ '\\' ∉ seg ∧ '\x00' ∉ seg)
    ⟨fun ⟨h₁, h₂, h₃⟩ => ⟨h₁, h₂, h₃⟩, fun ⟨h₁, h₂, h₃⟩ => ⟨h₁, h₂, h₃⟩⟩

instance (root : Text) : Decidable (CleanRoot root) :=
  decidable_of_iff (root ≠ ['/'] ∧ '\\' ∉ root ∧ '\r' ∉ root ∧ '\x00' ∉ root)
    ⟨fun ⟨h₁, h₂, h₃, h₄⟩ => ⟨h₁, h₂, h₃, h₄⟩, fun ⟨h₁, h₂, h₃, h₄⟩ => ⟨h₁, h₂, h₃, h₄⟩⟩

/-- A character of a text, or a host path that was put into it. -/
inductive Slot where
  | plain (c : Char)
  | host (path : Text)
  deriving DecidableEq

def Slot.text : Slot → Text
  | plain c => [c]
  | host path => path

def textOf (slots : List Slot) : Text := slots.flatMap Slot.text

namespace LocalSandbox
variable (b : LocalSandbox)

/-- A container path below its mapping's root, segment by plain segment, that is also the name
which its host path has for the mappings in the order of their local paths. -/
def Restored (path : Text) : Prop :=
  ∃ found ∈ b.findPathMapping path, (∀ seg ∈ segments found.2, PlainSegment seg) ∧
    CleanRoot (b.resolvedLocalPath found.1) ∧
    b.reverseResolvePath (b.resolvedLocalPath found.1 ++ Posix.below (segments found.2)) = .ok path

instance (path : Text) : Decidable (b.Restored path) := by
  unfold Restored
  infer_instance

def claims (m : PathMapping) (host : Text) : Bool := covers (b.resolvedLocalPath m) host

def nameOf (host : Text) : Text :=
  match b.reverseResolvePath host with
  | .ok name => name
  | .error _ => host

/-- The slots as the pattern of a mapping should find them. -/
def marked (m : PathMapping) : Slot → List Scan.Piece
  | .plain c => [.char c]
  | .host path => if b.claims m path then [.hit path] else path.map .char

/-- The host paths under a mapping get their names back. -/
def putBack (m : PathMapping) : Slot → List Slot
  | .plain c => [.plain c]
  | .host path => if b.claims m path then (b.nameOf path).map .plain else [.host path]

/-- Each pattern in turn finds the host paths of its mapping as they were put in, and nothing
else. -/
def SeamlessFrom : List PathMapping → List Slot → Prop
  | [], _ => True
  | m :: ms, slots =>
    Scan.Reads (matchRoot (b.resolvedLocalPath m)) (slots.flatMap (b.marked m)) ∧
      SeamlessFrom ms (slots.flatMap (b.putBack m))

instance (ms : List PathMapping) (slots : List Slot) : Decidable (b.SeamlessFrom ms slots) := by
  induction ms generalizing slots with
  | nil => exact .isTrue trivial
  | cons m ms ih =>
    have := ih (slots.flatMap (b.putBack m))
    exact inferInstanceAs (Decidable (_ ∧ _))

def slotOf : Scan.Piece → Except Failure Slot
  | .char c => .ok (.plain c)
  | .hit path => ((b.resolvePath path).map toSlashes).map .host

/-- The content with the host paths of the container paths that it mentions. -/
def slots (content : Text) : Except Failure (List Slot) :=
  (Scan.scan b.contentPattern content).mapM b.slotOf

def Seamless (content : Text) : Prop :=
  ∀ slots ∈ (b.slots content).toOption, b.SeamlessFrom b.mappingsByLocalSpecificity slots

instance (content : Text) : Decidable (b.Seamless content) := by
  unfold Seamless
  infer_instance

structure Restorable (content : Text) : Prop where
  lines : '\r' ∉ content
  restored : ∀ path, .hit path ∈ Scan.scan b.contentPattern content → b.Restored path
  seamless : b.Seamless content

def PieceRestored : Scan.Piece → Prop
  | .char _ => True
  | .hit path => b.Restored path

instance (p : Scan.Piece) : Decidable (b.PieceRestored p) := by
  unfold PieceRestored
  rcases p with _ | _ <;> infer_instance

instance (content : Text) : Decidable (b.Restorable content) :=
  decidable_of_iff ('\r' ∉ content ∧
      (∀ p ∈ Scan.scan b.contentPattern content, b.PieceRestored p) ∧ b.Seamless content)
    ⟨fun ⟨hlines, hrestored, hseamless⟩ => ⟨hlines, fun _ hp => hrestored _ hp, hseamless⟩,
      fun h => ⟨h.lines, fun p hp => match p with
        | .char _ => trivial
        | .hit path => h.restored path hp, h.seamless⟩⟩

/-- Container paths do not end in a slash, host roots are ordinary, and a host path has the same
name from every mapping that it lies under. -/
structure WellFormed : Prop where
  container : ∀ m ∈ b.pathMappings, m.containerPath ≠ [] ∧
    m.containerPath.getLast? ≠ some '/' ∧ '\\' ∉ m.containerPath ∧ '\r' ∉ m.containerPath
  root : ∀ m ∈ b.pathMappings, CleanRoot (b.resolvedLocalPath m)
  named : ∀ m ∈ b.pathMappings, ∀ segs : List Text, (∀ seg ∈ segs, PlainSegment seg) →
    b.reverseResolvePath (b.resolvedLocalPath m ++ Posix.below segs) =
      .ok (m.containerPath ++ Posix.below segs)

end LocalSandbox
end Restorable

section Patterns
variable {b : LocalSandbox} {s t : Text}

theorem prefix_of_tail (separators : List Char) (s : Text) : tail separators s <+: s := by
  unfold tail
  split
  · exact List.nil_prefix
  · next c rest =>
    split
    · exact (List.prefix_cons_inj c).mpr (List.takeWhile_prefix _)
    · exact List.nil_prefix

theorem prefix_of_append_tail {start : Text} (h : start.isPrefixOf s = true) (separators : List Char) :
    start ++ tail separators (s.drop start.length) <+: s := by
  obtain ⟨rest, rfl⟩ := List.isPrefixOf_iff_prefix.mp h
  rw [List.drop_left, List.prefix_append_right_inj]
  exact prefix_of_tail separators rest

theorem matchRoot_lawful (root : Text) : Scan.Pattern.Lawful (matchRoot root) := by
  intro s t h
  unfold matchRoot at h
  split at h
  · next hroot =>
    cases h
    exact prefix_of_append_tail hroot _
  · cases h

/-- A match of the content pattern is a container path, or one with a slash after it. -/
theorem contentPattern_spec (h : b.contentPattern s = some t) : t <+: s ∧
    ∃ m ∈ b.pathMappings, t = m.containerPath ∨ m.containerPath ++ ['/'] <+: t := by
  obtain ⟨m, hm, hmatch⟩ := List.exists_of_findSome?_eq_some h
  unfold matchContainer at hmatch
  split at hmatch
  · next hcontainer =>
    cases hmatch
    refine ⟨prefix_of_append_tail hcontainer.1 _, m, ?_, ?_⟩
    · exact (List.perm_insertionSort _ _).mem_iff.mp hm
    · cases htail : tail ['/'] (s.drop m.containerPath.length) with
      | nil => exact .inl (List.append_nil _)
      | cons c rest =>
        -- the tail is taken only if a slash comes first
        have hc : c = '/' := by
          unfold tail at htail
          split at htail
          · cases htail
          · split at htail
            · next hmem =>
              rw [← (List.cons.inj htail).1]
              exact List.mem_singleton.mp hmem
            · cases htail
        rw [hc]
        exact .inr ⟨rest, List.append_assoc _ _ _⟩
  · cases hmatch

theorem contentPattern_lawful (b : LocalSandbox) : b.contentPattern.Lawful :=
  fun _ _ h => (contentPattern_spec h).1

end Patterns

section Stages
variable {b : LocalSandbox} {m : PathMapping} {ms : List PathMapping} {slots : List Slot}

namespace LocalSandbox

/-- A slot with the name of its host path. -/
def nameText (b : LocalSandbox) : Slot → Text
  | .plain c => [c]
  | .host path => b.nameOf path

/-- Every host path has a name. -/
def Named (b : LocalSandbox) (slots : List Slot) : Prop :=
  ∀ path, .host path ∈ slots → b.reverseResolvePath path = .ok (b.nameOf path)

theorem marked_host (path : Text) : b.marked m (.host path) =
    if b.claims m path then [.hit path] else path.map .char := rfl

theorem putBack_host (path : Text) : b.putBack m (.host path) =
    if b.claims m path then (b.nameOf path).map .plain else [.host path] := rfl

theorem render_marked (b : LocalSandbox) (m : PathMapping) (slots : List Slot) :
    Scan.render (slots.flatMap (b.marked m)) = textOf slots := by
  unfold Scan.render textOf
  rw [List.flatMap_assoc]
  refine List.flatMap_congr fun slot _ => ?_
  cases slot with
  | plain c => rfl
  | host path =>
    rw [marked_host]
    split
    · exact List.append_nil path
    · rw [List.flatMap_map]
      exact List.flatMap_singleton' path

theorem mem_putBack {path : Text} (h : .host path ∈ slots.flatMap (b.putBack m)) :
    .host path ∈ slots ∧ b.claims m path = false := by
  obtain ⟨slot, hslot, h⟩ := List.mem_flatMap.mp h
  cases slot with
  | plain c =>
    cases List.mem_singleton.mp h
  | host path' =>
    rw [putBack_host] at h
    split at h
    · obtain ⟨c, -, he⟩ := List.mem_map.mp h
      cases he
    · next hclaims =>
      cases List.mem_singleton.mp h
      exact ⟨hslot, Bool.eq_false_iff.mpr hclaims⟩

/-- One pattern gives its host paths their names back. -/
theorem sub_stage (hnamed : b.Named slots)
    (h : Scan.Reads (matchRoot (b.resolvedLocalPath m)) (slots.flatMap (b.marked m))) :
    Scan.sub (matchRoot (b.resolvedLocalPath m)) b.reverseResolvePath (textOf slots) =
      .ok (textOf (slots.flatMap (b.putBack m))) := by
  let text : Scan.Piece → Text
    | .char c => [c]
    | .hit path => b.nameOf path
  have hpieces : ∀ p ∈ slots.flatMap (b.marked m),
      Scan.Piece.replace b.reverseResolvePath p = .ok (text p) := by
    intro p hp
    cases p with
    | char c => rfl
    | hit path =>
      refine hnamed path ?_
      obtain ⟨slot, hslot, hp⟩ := List.mem_flatMap.mp hp
      cases slot with
      | plain c => cases List.mem_singleton.mp hp
      | host path' =>
        rw [marked_host] at hp
        split at hp
        · cases List.mem_singleton.mp hp
          exact hslot
        · obtain ⟨c, -, he⟩ := List.mem_map.mp hp
          cases he
  have hsub := Scan.sub_render h text hpieces
  rw [render_marked] at hsub
  rw [hsub]
  unfold textOf
  rw [List.flatMap_assoc, List.flatMap_assoc]
  refine congrArg Except.ok (List.flatMap_congr fun slot _ => ?_)
  cases slot with
  | plain c => rfl
  | host path =>
    rw [marked_host, putBack_host]
    split
    · rw [List.flatMap_map]
      exact (List.append_nil _).trans (List.flatMap_singleton' _).symm
    · rw [List.flatMap_map]
      exact (List.flatMap_singleton' path).trans (List.append_nil path).symm

theorem nameText_putBack (b : LocalSandbox) (m : PathMapping) (slots : List Slot) :
    (slots.flatMap (b.putBack m)).flatMap b.nameText = slots.flatMap b.nameText := by
  rw [List.flatMap_assoc]
  refine List.flatMap_congr fun slot _ => ?_
  cases slot with
  | plain c => rfl
  | host path =>
    rw [putBack_host]
    split
    · rw [List.flatMap_map]
      exact List.flatMap_singleton' _
    · exact List.append_nil _

/-- After all patterns every host path that one of them claims has its name back. -/
theorem foldlM_stages (hnamed : b.Named slots) (h : b.SeamlessFrom ms slots)
    (hclaimed : ∀ path, .host path ∈ slots → ∃ m ∈ ms, b.claims m path = true) :
    ms.foldlM (fun text m =>
      Scan.sub (matchRoot (b.resolvedLocalPath m)) b.reverseResolvePath text) (textOf slots) =
      .ok (slots.flatMap b.nameText) := by
  -- the slots vary: each pattern turns those it claims into plain text
  induction ms generalizing slots with
  | nil =>
    refine congrArg Except.ok (List.flatMap_congr fun slot hslot => ?_)
    cases slot with
    | plain c => rfl
    | host path =>
      obtain ⟨m, hm, -⟩ := hclaimed path hslot
      cases hm
  | cons m ms ih =>
    obtain ⟨hreads, hrest⟩ := h
    rw [List.foldlM_cons, sub_stage hnamed hreads]
    have hlater := @ih (slots.flatMap (b.putBack m))
      (fun path hpath => hnamed path (mem_putBack hpath).1) hrest fun path hpath => by
        obtain ⟨hslot, hfree⟩ := mem_putBack hpath
        obtain ⟨n, hn, hclaims⟩ := hclaimed path hslot
        rcases List.mem_cons.mp hn with rfl | hn
        · rw [hfree] at hclaims
          cases hclaims
        · exact ⟨n, hn, hclaims⟩
    rw [nameText_putBack] at hlater
    exact hlater

end LocalSandbox
end Stages

section Mentions
variable {cwd : Posix.AbsPath} {isWord : Char → Bool} {mappings : List PathMapping}
  {m : PathMapping} {path relative content : Text}

theorem toSlashes_of_not_mem {t : Text} (h : '\\' ∉ t) : toSlashes t = t := by
  unfold toSlashes
  refine (List.map_congr_left fun c hc => if_neg ?_).trans (List.map_id t)
  rintro rfl
  exact h hc

theorem below_segments (relative : Text) :
    Posix.below (segments relative) = if relative = [] then [] else '/' :: relative := by
  unfold segments
  split
  · rfl
  · exact Posix.below_splitOn relative

theorem comps_of_segments (h : ∀ seg ∈ segments relative, PlainSegment seg) :
    Posix.comps relative = segments relative := by
  unfold segments at h ⊢
  split
  · next he => rw [he]; rfl
  · next hne =>
    rw [if_neg hne] at h
    refine List.filter_eq_self.mpr fun seg hseg => decide_eq_true ?_
    exact ⟨(h seg hseg).proper.nonempty, (h seg hseg).proper.notDot⟩

/-- A character in a text of segments is a slash or in one of them. -/
theorem not_mem_below {c : Char} {segs : List Text} (hc : c ≠ '/') (h : ∀ seg ∈ segs, c ∉ seg) :
    c ∉ Posix.below segs := by
  intro hmem
  obtain ⟨seg, hseg, hmem⟩ := List.mem_flatMap.mp hmem
  rcases List.mem_cons.mp hmem with he | hmem
  · exact hc he
  · exact h seg hseg hmem

theorem findPathMapping_mem {b : LocalSandbox} {found : PathMapping × Text}
    (h : b.findPathMapping path = some found) : found.1 ∈ b.pathMappings := by
  obtain ⟨n, hn, hfound⟩ := List.exists_of_findSome?_eq_some h
  have hmem : n ∈ b.pathMappings := (List.perm_insertionSort _ _).mem_iff.mp hn
  split at hfound
  · split at hfound
    · cases hfound
      exact hmem
    · cases hfound
  · split at hfound
    · cases hfound
      exact hmem
    · cases hfound

theorem mem_mappingsByLocal {b : LocalSandbox} : m ∈ b.mappingsByLocalSpecificity ↔
    m ∈ b.pathMappings := (List.perm_insertionSort _ _).mem_iff

/-- An ordinary root by its components. -/
theorem root_below (h : CleanRoot ((lexical cwd isWord mappings).resolvedLocalPath m)) :
    ∃ cs : List Text, cs ≠ [] ∧ (∀ c ∈ cs, Posix.Proper c) ∧
      (lexical cwd isWord mappings).resolvedLocalPath m = Posix.below cs := by
  obtain ⟨cs, hcs, hresolve⟩ := Posix.resolve_proper cwd m.localPath
  have hroot : (lexical cwd isWord mappings).resolvedLocalPath m = Posix.absolute cs := hresolve
  have hne : cs ≠ [] := by
    rintro rfl
    exact h.notTop hroot
  exact ⟨cs, hne, hcs, hroot.trans (if_neg hne)⟩

theorem underRoot_of_plain {cs : List Text} (hcs : ∀ c ∈ cs, Posix.Proper c) (hne : cs ≠ [])
    (hnull : '\x00' ∉ Posix.below cs) (hsegs : ∀ seg ∈ segments relative, PlainSegment seg) :
    (lexical cwd isWord mappings).underRoot (Posix.below cs) relative =
      .ok (Posix.below (cs ++ segments relative)) := by
  have htext := below_segments relative
  unfold LocalSandbox.underRoot
  split
  · next hnil =>
    rw [if_pos hnil] at htext
    rw [Posix.below_append, htext, List.append_nil]
  · next hrel =>
    rw [if_neg hrel] at htext
    have hfree : '\x00' ∉ Posix.below cs ++ '/' :: relative := by
      rw [← htext]
      intro hmem
      rcases List.mem_append.mp hmem with hmem | hmem
      · exact hnull hmem
      · exact not_mem_below (by decide) (fun seg hseg => (hsegs seg hseg).noNull) hmem
    have hjoin : Posix.join (Posix.below cs) relative = Posix.below cs ++ '/' :: relative :=
      if_neg (Posix.getLast?_below hcs)
    -- plain segments lead neither up nor nowhere, so walking them appends them
    have hwalk : Posix.walk cs (Posix.comps relative) = cs ++ segments relative := by
      rw [comps_of_segments hsegs]
      exact Posix.walk_of_proper cs fun c hc => (hsegs c hc).proper.notUp
    have hne' : cs ++ segments relative ≠ [] := fun he => hne (List.append_eq_nil_iff.mp he).1
    unfold LocalSandbox.tryResolve
    rw [hjoin, if_neg hfree]
    refine congrArg Except.ok ?_
    rw [show (lexical cwd isWord mappings).resolve = Posix.resolve cwd from rfl,
      Posix.resolve_below hcs hne, hwalk]
    exact if_neg hne'

theorem resolvePath_of_plain
    (hfind : (lexical cwd isWord mappings).findPathMapping path = some (m, relative))
    (hsegs : ∀ seg ∈ segments relative, PlainSegment seg)
    (hclean : CleanRoot ((lexical cwd isWord mappings).resolvedLocalPath m)) :
    (lexical cwd isWord mappings).resolvePath path =
      .ok ((lexical cwd isWord mappings).resolvedLocalPath m ++ Posix.below (segments relative)) := by
  obtain ⟨cs, hne, hcs, hroot⟩ := root_below hclean
  have hall : ∀ c ∈ cs ++ segments relative, Posix.Proper c := by
    intro c hc
    rcases List.mem_append.mp hc with hc | hc
    · exact hcs c hc
    · exact (hsegs c hc).proper
  have hinside : Posix.comps (Posix.below cs) <+: Posix.comps (Posix.below (cs ++ segments relative)) := by
    rw [Posix.comps_below hcs, Posix.comps_below hall]
    exact List.prefix_append cs _
  have hresolved : (lexical cwd isWord mappings).underRoot (Posix.below cs) relative =
      .ok (Posix.below (cs ++ segments relative)) :=
    underRoot_of_plain hcs hne (hroot ▸ hclean.noNull) hsegs
  rw [Posix.below_append] at hinside hresolved
  unfold LocalSandbox.resolvePath LocalSandbox.resolvePathWithMapping
  rw [hfind]
  simp only [hroot, hresolved, bind, Except.bind, if_pos hinside, Except.map]

theorem claims_under {b : LocalSandbox} {rest : Text} (h : rest = [] ∨ ∃ below, rest = '/' :: below) :
    b.claims m (b.resolvedLocalPath m ++ rest) = true := by
  refine decide_eq_true ?_
  rcases h with rfl | ⟨below, rfl⟩
  · exact .inl (List.append_nil _)
  · refine .inr (List.isPrefixOf_iff_prefix.mpr ⟨below, ?_⟩)
    rw [List.append_assoc]
    rfl

theorem below_cases (segs : List Text) :
    Posix.below segs = [] ∨ ∃ below, Posix.below segs = '/' :: below := by
  cases segs with
  | nil => exact .inl rfl
  | cons seg segs => exact .inr ⟨_, rfl⟩

theorem segments_subset : ∀ seg ∈ segments relative, seg ⊆ relative := by
  intro seg hseg
  unfold segments at hseg
  split at hseg
  · cases hseg
  · exact (Posix.splitOn_part hseg).2

theorem relative_subset {b : LocalSandbox} (h : b.findPathMapping path = some (m, relative)) :
    relative ⊆ path := by
  obtain ⟨n, hn, hfound⟩ := List.exists_of_findSome?_eq_some h
  split at hfound
  · split at hfound
    · cases hfound
      exact List.dropWhile_subset _
    · cases hfound
  · split at hfound
    · cases hfound
      exact fun c hc => List.drop_subset _ _ (List.dropWhile_subset _ hc)
    · cases hfound

/-- What a mention becomes: a host path that a mapping claims and whose name is the mention. -/
structure Becomes (b : LocalSandbox) (piece : Scan.Piece) (slot : Slot) : Prop where
  named : b.nameText slot = piece.text
  host : ∀ path, slot = .host path → b.reverseResolvePath path = .ok (b.nameOf path) ∧
    ∃ m ∈ b.pathMappings, b.claims m path = true
  lines : '\r' ∉ piece.text → '\r' ∉ slot.text

theorem slotOf_hit (b : LocalSandbox) (path : Text) :
    b.slotOf (.hit path) = ((b.resolvePath path).map toSlashes).map .host := rfl

theorem becomes_of_restored (h : (lexical cwd isWord mappings).Restored path) :
    ∃ slot, (lexical cwd isWord mappings).slotOf (.hit path) = .ok slot ∧
      Becomes (lexical cwd isWord mappings) (.hit path) slot := by
  obtain ⟨⟨m, relative⟩, hfind, hsegs, hclean, hname⟩ := h
  have hresolve := resolvePath_of_plain hfind hsegs hclean
  -- neither the root nor a plain segment has a backslash that `toSlashes` would change
  have hback : '\\' ∉ (lexical cwd isWord mappings).resolvedLocalPath m ++
      Posix.below (segments relative) := by
    intro hmem
    rcases List.mem_append.mp hmem with hmem | hmem
    · exact hclean.noBackslash hmem
    · exact not_mem_below (by decide) (fun seg hseg => (hsegs seg hseg).noBackslash) hmem
  refine ⟨.host ((lexical cwd isWord mappings).resolvedLocalPath m ++
    Posix.below (segments relative)), ?_, ?_, ?_, ?_⟩
  · rw [slotOf_hit, hresolve]
    exact congrArg (fun t => Except.ok (Slot.host t)) (toSlashes_of_not_mem hback)
  · unfold LocalSandbox.nameText LocalSandbox.nameOf
    simp only [hname]
    rfl
  · rintro host he
    cases he
    refine ⟨?_, m, findPathMapping_mem hfind, claims_under (below_cases _)⟩
    unfold LocalSandbox.nameOf
    simp only [hname]
  · intro hlines hmem
    rcases List.mem_append.mp hmem with hmem | hmem
    · exact hclean.noReturn hmem
    · refine not_mem_below (by decide) (fun seg hseg hret => ?_) hmem
      exact hlines (relative_subset hfind (segments_subset seg hseg hret))

theorem resolvePathsInContent_eq (b : LocalSandbox) (content : Text) :
    b.resolvePathsInContent content = (b.slots content).map textOf := by
  have hpiece : Scan.Piece.replace (fun path => (b.resolvePath path).map toSlashes) =
      fun p => (b.slotOf p).map Slot.text := by
    funext p
    cases p with
    | char c => rfl
    | hit path =>
      rw [slotOf_hit]
      change (b.resolvePath path).map toSlashes = _
      cases b.resolvePath path with
      | error e | ok host => rfl
  unfold LocalSandbox.resolvePathsInContent Scan.sub LocalSandbox.slots
  rw [hpiece, mapM_map]
  cases (Scan.scan b.contentPattern content).mapM b.slotOf with
  | error e => rfl
  | ok slots => exact congrArg Except.ok List.flatMap_def.symm

/-- Written with its container paths resolved, a restorable content is read as it was. -/
theorem restored_of_restorable (h : (lexical cwd isWord mappings).Restorable content) :
    ∃ text, (lexical cwd isWord mappings).resolvePathsInContent content = .ok text ∧
      (lexical cwd isWord mappings).reverseResolvePathsInOutput (universalNewlines text) =
        .ok content := by
  have hrender := Scan.render_scan (contentPattern_lawful (lexical cwd isWord mappings)) content
  have hpieces : ∀ p ∈ Scan.scan (lexical cwd isWord mappings).contentPattern content,
      ∃ slot, (lexical cwd isWord mappings).slotOf p = .ok slot ∧
        Becomes (lexical cwd isWord mappings) p slot := by
    intro p hp
    cases p with
    | char c => exact ⟨.plain c, rfl, rfl, fun path he => (by cases he), fun hlines => hlines⟩
    | hit path => exact becomes_of_restored (h.restored path hp)
  obtain ⟨slots, hslots, hall⟩ := exists_mapM_eq_ok hpieces
  have hslot : ∀ slot ∈ slots, ∃ p ∈ Scan.scan (lexical cwd isWord mappings).contentPattern content,
      Becomes (lexical cwd isWord mappings) p slot := fun slot hs => exists_of_forall₂_right hall hs
  have hnames : slots.flatMap (lexical cwd isWord mappings).nameText = content := by
    refine Eq.trans (Eq.symm (flatMap_eq_of_forall₂ (f := Scan.Piece.text) ?_)) hrender
    exact hall.imp fun p slot hb => hb.named.symm
  -- reading turns carriage returns into newlines, so the written text may have none
  have hlines : '\r' ∉ textOf slots := by
    intro hmem
    obtain ⟨slot, hs, hmem⟩ := List.mem_flatMap.mp hmem
    obtain ⟨p, hp, hb⟩ := hslot slot hs
    refine hb.lines (fun hret => h.lines ?_) hmem
    rw [← hrender]
    exact List.mem_flatMap.mpr ⟨p, hp, hret⟩
  refine ⟨textOf slots, ?_, ?_⟩
  · rw [resolvePathsInContent_eq]
    exact congrArg (Except.map textOf) hslots
  · rw [universalNewlines_of_not_mem hlines]
    have hstages := @LocalSandbox.foldlM_stages (lexical cwd isWord mappings)
      (lexical cwd isWord mappings).mappingsByLocalSpecificity slots
      (fun path hpath => ?_) (h.seamless slots ?_) fun path hpath => ?_
    · rw [hnames] at hstages
      exact hstages
    · obtain ⟨p, -, hb⟩ := hslot _ hpath
      exact (hb.host path rfl).1
    · exact congrArg Except.toOption hslots
    · obtain ⟨p, -, hb⟩ := hslot _ hpath
      obtain ⟨m, hm, hclaims⟩ := (hb.host path rfl).2
      exact ⟨m, mem_mappingsByLocal.mpr hm, hclaims⟩

end Mentions

section Files
variable {b : LocalSandbox} {s t : SandboxState} {path content text : Text}
  {resolved : Text × Option PathMapping}

theorem writeFile_eq_ok (hw : Writable b s path) (hc : b.resolvePathsInContent content = .ok text) :
    ∃ r, b.resolvePath path = .ok r ∧ b.writeFile s path content false = .ok (s.put r text) := by
  obtain ⟨resolved, hresolved, hreadOnly, hmkdir, hopen⟩ := hw
  refine ⟨resolved.1, ?_, ?_⟩
  · unfold LocalSandbox.resolvePath
    rw [hresolved]
    rfl
  · have hdir : (if Posix.dirname resolved.1 = [] then none
        else s.disk.mkdirError (Posix.dirname resolved.1)) = none := by
      split
      · rfl
      · exact hmkdir
    unfold LocalSandbox.writeFile
    simp only [hresolved, hreadOnly, hdir, hc, hopen, bind, Except.bind, Except.mapError,
      Bool.false_eq_true, if_false, List.nil_append]

/-- A write that succeeds has resolved the container paths of its content. -/
theorem resolves_of_writeFile (hw : Writable b s path)
    (h : b.writeFile s path content false = .ok t) :
    ∃ text, b.resolvePathsInContent content = .ok text := by
  obtain ⟨resolved, hresolved, hreadOnly, hmkdir, -⟩ := hw
  have hdir : (if Posix.dirname resolved.1 = [] then none
      else s.disk.mkdirError (Posix.dirname resolved.1)) = none := by
    split
    · rfl
    · exact hmkdir
  cases hc : b.resolvePathsInContent content with
  | ok text => exact ⟨text, rfl⟩
  | error e =>
    unfold LocalSandbox.writeFile at h
    simp only [hresolved, hreadOnly, hdir, hc, bind, Except.bind, Except.mapError,
      Bool.false_eq_true, if_false] at h
    cases h

theorem readFile_put {r : Text} (hr : b.resolvePath path = .ok r) :
    b.readFile (s.put r text) path = b.reverseResolvePathsInOutput (universalNewlines text) := by
  have hmem : r ∈ (s.put r text).agentWritten := by
    unfold SandboxState.put
    simp only
    split
    · next hin => exact hin
    · exact List.mem_cons_self
  unfold LocalSandbox.readFile
  simp only [hr, bind, Except.bind, SandboxState.put, if_true, Except.mapError]
  exact if_pos hmem

theorem Writable.put (hw : Writable b s path) (r text : Text) : Writable b (s.put r text) path := by
  obtain ⟨resolved, hresolved, hreadOnly, hmkdir, hopen⟩ := hw
  exact ⟨resolved, hresolved, hreadOnly, hmkdir, hopen⟩

theorem replaceFirst_spec {old : Text} (new : Text) {s : Text} (h : old <:+: s) :
    ∃ before after, s = before ++ old ++ after ∧
      replaceFirst old new s = before ++ new ++ after := by
  induction s with
  | nil =>
    have hold : old = [] := List.infix_nil.mp h
    subst hold
    exact ⟨[], [], rfl, (List.append_nil new).symm⟩
  | cons c s ih =>
    rw [replaceFirst]
    split
    · next hhere =>
      obtain ⟨after, hafter⟩ := List.isPrefixOf_iff_prefix.mp hhere
      refine ⟨[], after, hafter.symm, ?_⟩
      rw [← hafter, List.drop_left]
      rfl
    · next hhere =>
      -- it is not here, so it is in the rest
      have hlater : old <:+: s := by
        rcases List.infix_cons_iff.mp h with hprefix | hlater
        · exact absurd (List.isPrefixOf_iff_prefix.mpr hprefix) hhere
        · exact hlater
      obtain ⟨before, after, hs, hreplaced⟩ := ih hlater
      refine ⟨c :: before, after, ?_, ?_⟩
      · rw [hs]
        rfl
      · rw [hreplaced]
        rfl

end Files

section Restores
variable {cwd : Posix.AbsPath} {isWord : Char → Bool} {mappings : List PathMapping}
  {s : SandboxState} {path content old new : Text} {all : Bool}

theorem roundTrips_of_restorable (hw : Writable (lexical cwd isWord mappings) s path)
    (h : (lexical cwd isWord mappings).Restorable content) :
    RoundTrips (lexical cwd isWord mappings) s path content := by
  obtain ⟨text, htext, hback⟩ := restored_of_restorable h
  obtain ⟨r, hr, hwrite⟩ := writeFile_eq_ok hw htext
  exact ⟨_, hwrite, (readFile_put hr).trans hback⟩

/-- Where the content and the replaced content come back, only the occurrence is replaced. -/
theorem strReplaces_of_restorable (hw : Writable (lexical cwd isWord mappings) s path)
    (h : (lexical cwd isWord mappings).Restorable content)
    (h' : (lexical cwd isWord mappings).Restorable (replaced old new all content))
    (hne : content ≠ []) (hold : old <:+: content) :
    StrReplaces (lexical cwd isWord mappings) s path content old new all := by
  obtain ⟨text, htext, hback⟩ := restored_of_restorable h
  obtain ⟨r, hr, hwrite⟩ := writeFile_eq_ok hw htext
  obtain ⟨text', htext', hback'⟩ := restored_of_restorable h'
  obtain ⟨r', hr', hwrite'⟩ := writeFile_eq_ok (hw.put r text) htext'
  have hread := (readFile_put (s := s) hr).trans hback
  have hlast := (readFile_put (s := s.put r text) hr').trans hback'
  refine ⟨_, _, hwrite, ?_, hlast⟩
  unfold LocalSandbox.strReplace
  simp only [hread, bind, Except.bind, if_neg hne, if_pos hold, hwrite']

end Restores

end DeerFlow.Sandbox
