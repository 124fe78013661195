import DeerFlow.Skills.ArchiveExtraction

/-! What unpacking a skill archive leaves behind. At every moment the changes keep to the
destination and to the limit, and an archive that is unpacked to its end has its files there. -/

namespace DeerFlow.Skills
open FileTree

/-- A member that is written to `p`. -/
def isFileAt (destRoot p : Path) (info : ZipInfo) : Bool :=
  !isSymlinkMember info && !info.isDir && memberPath destRoot info = p

/-- The last of the members that are written to `p`. -/
def lastFile (destRoot : Path) (infolist : List ZipInfo) (p : Path) : Option ZipInfo :=
  infolist.reverse.find? (isFileAt destRoot p)

structure Safe (start : Tree) (destRoot : Path) (maxTotalSize totalWritten : Nat) (d : Disk) : Prop
    extends Confined start destRoot d where
  counted : written d.log = totalWritten
  bounded : totalWritten ≤ maxTotalSize

/-- The members `done` have been unpacked. -/
structure Extracted (destRoot : Path) (done : List ZipInfo) (d : Disk) : Prop where
  files : ∀ p info, lastFile destRoot done p = some info →
    d.tree p = some (.file info.delivered) ∧ isExecutableBinaryPrefix info.delivered = false
  created : ∀ p, .create p ∈ d.log → (lastFile destRoot done p).isSome

/-- A file is being written at `p`, on a disk that was `before`. -/
structure Copying (before : Disk) (p : Path) (sofar : Bytes) (d : Disk) : Prop where
  file : d.tree p = some (.file sofar)
  others : ∀ q, q ≠ p → d.tree q = before.tree q
  created : ∀ q, .create q ∈ d.log → .create q ∈ before.log ∨ q = p

section Steps
variable {start : Tree} {destRoot p : Path} {maxTotalSize totalWritten : Nat} {d before : Disk}
  {done : List ZipInfo} {info : ZipInfo} {sofar : Bytes}

theorem lastFile_append (destRoot : Path) (done : List ZipInfo) (info : ZipInfo) (p : Path) :
    lastFile destRoot (done ++ [info]) p =
      if isFileAt destRoot p info then some info else lastFile destRoot done p := by
  unfold lastFile
  rw [List.reverse_append, List.reverse_singleton, List.singleton_append, List.find?_cons]
  cases isFileAt destRoot p info <;> rfl

theorem exists_lastFile {infolist : List ZipInfo} (hmem : info ∈ infolist)
    (hlink : isSymlinkMember info = false) (hdir : info.isDir = false) :
    ∃ last, lastFile destRoot infolist (memberPath destRoot info) = some last := by
  refine Option.isSome_iff_exists.mp (List.find?_isSome.mpr ⟨info, List.mem_reverse.mpr hmem, ?_⟩)
  simp [isFileAt, hlink, hdir]

namespace Safe

theorem mkdir (h : Safe start destRoot maxTotalSize totalWritten d) (hp : Near destRoot p)
    (hnone : d.tree p = none) :
    Safe start destRoot maxTotalSize totalWritten (d.after (.mkdir p)) where
  toConfined := h.toConfined.mkdir hp hnone
  counted := by
    rw [Disk.log_after, written_append, h.counted]
    rfl
  bounded := h.bounded

theorem create (h : Safe start destRoot maxTotalSize totalWritten d) (hp : destRoot <+: p) :
    Safe start destRoot maxTotalSize totalWritten (d.after (.create p)) where
  toConfined := h.toConfined.after hp
  counted := by
    rw [Disk.log_after, written_append, h.counted]
    rfl
  bounded := h.bounded

theorem write {chunk : Bytes} (h : Safe start destRoot maxTotalSize totalWritten d)
    (hp : destRoot <+: p) (hbound : totalWritten + chunk.length ≤ maxTotalSize) :
    Safe start destRoot maxTotalSize (totalWritten + chunk.length) (d.after (.write p chunk)) where
  toConfined := h.toConfined.after hp
  counted := by
    rw [Disk.log_after, written_append, h.counted]
    rfl
  bounded := hbound

end Safe

namespace Extracted

theorem mkdir (h : Extracted destRoot done d) (hnone : d.tree p = none) :
    Extracted destRoot done (d.after (.mkdir p)) where
  files q info hlast := by
    obtain ⟨hfile, hmagic⟩ := h.files q info hlast
    have hne : q ≠ p := by
      rintro rfl
      rw [hnone] at hfile
      cases hfile
    exact ⟨(Change.apply_of_ne (c := .mkdir p) hne.symm d.tree).trans hfile, hmagic⟩
  created q hq := by
    rcases List.mem_append.mp hq with hq | hq
    · exact h.created q hq
    · cases List.mem_singleton.mp hq

theorem skip (h : Extracted destRoot done d) (hskip : ∀ p, isFileAt destRoot p info = false) :
    Extracted destRoot (done ++ [info]) d where
  files p last hlast := by
    rw [lastFile_append, hskip p] at hlast
    exact h.files p last hlast
  created p hp := by
    rw [lastFile_append, hskip p]
    exact h.created p hp

theorem copied (h : Extracted destRoot done before)
    (hfile : isFileAt destRoot (memberPath destRoot info) info = true)
    (hmagic : isExecutableBinaryPrefix info.delivered = false)
    (hcopied : Copying before (memberPath destRoot info) info.delivered d) :
    Extracted destRoot (done ++ [info]) d where
  files p last hlast := by
    rw [lastFile_append] at hlast
    by_cases hp : p = memberPath destRoot info
    · subst hp
      rw [if_pos hfile] at hlast
      cases hlast
      exact ⟨hcopied.file, hmagic⟩
    · have hother : isFileAt destRoot p info = false := by simp [isFileAt, Ne.symm hp]
      rw [if_neg (Bool.eq_false_iff.mp hother)] at hlast
      rw [hcopied.others p hp]
      exact h.files p last hlast
  created p hp := by
    rw [lastFile_append]
    split
    · rfl
    · next hother =>
      rcases hcopied.created p hp with hp | rfl
      · exact h.created p hp
      · exact absurd hfile hother

end Extracted

theorem Copying.write (h : Copying before p sofar d) (chunk : Bytes) :
    Copying before p (sofar ++ chunk) (d.after (.write p chunk)) where
  file := by
    rw [Disk.tree_after, Change.apply_write h.file]
    exact Function.update_self ..
  others q hq :=
    (Change.apply_of_ne (c := .write p chunk) hq.symm d.tree).trans (h.others q hq)
  created q hq := by
    rcases List.mem_append.mp hq with hq | hq
    · exact h.created q hq
    · cases List.mem_singleton.mp hq

theorem Copying.create (before : Disk) (p : Path) :
    Copying before p [] (before.after (.create p)) where
  file := Function.update_self ..
  others q hq := Change.apply_of_ne (c := .create p) hq.symm before.tree
  created q hq := by
    rcases List.mem_append.mp hq with hq | hq
    · exact .inl hq
    · cases List.mem_singleton.mp hq
      exact .inr rfl

/-- The loop over the chunks keeps what each write within the limit keeps, and it returns with
the member written to its end. -/
theorem copyChunks_ends (repr : Text → Text) (inv : Bytes → Nat → Disk → Prop)
    (hwrite : ∀ sofar total d chunk, inv sofar total d → total + chunk.length ≤ maxTotalSize →
      inv (sofar ++ chunk) (total + chunk.length) (d.after (.write p chunk)))
    {reads : Nat} {rest : Bytes} {firstChunk : Bool} (h : inv sofar totalWritten d) :
    EndsIn (copyChunks repr info p maxTotalSize reads rest firstChunk totalWritten) d
      (fun d' => ∃ sofar total, inv sofar total d')
      fun total d' => inv (sofar ++ rest) total d' ∧
        (firstChunk = true → isExecutableBinaryPrefix rest = false) := by
  induction hn : rest.length using Nat.strongRecOn generalizing reads rest firstChunk totalWritten
    sofar d with
  | ind n ih =>
  rw [copyChunks]
  split
  · exact .throw ⟨sofar, totalWritten, h⟩
  split
  · next hrest =>
    rw [hrest, List.append_nil]
    exact .pure ⟨h, fun _ => by decide⟩
  next hrest =>
  simp only
  split
  · exact .throw ⟨sofar, totalWritten, h⟩
  next hmagic =>
  split
  · exact .throw ⟨sofar, totalWritten, h⟩
  next hlimit =>
  refine perform_bind ?_
  have hshort : (rest.drop chunkSize).length < n := by
    have hpos := List.length_pos_iff.mpr hrest
    rw [← hn, List.length_drop, chunkSize]
    omega
  have hchunk := hwrite sofar totalWritten d (rest.take chunkSize) h (by omega)
  refine (ih _ hshort hchunk rfl).mono (fun d' h' => h') fun total d' ⟨hinv, _⟩ =>
    ⟨?_, fun hfirst => ?_⟩
  · rwa [List.append_assoc, List.take_append_drop] at hinv
  · rw [hfirst, Bool.true_and, isExecutableBinaryPrefix_take] at hmagic
    exact Bool.eq_false_iff.mpr hmagic

theorem extractMember_ends (repr : Text → Text) (hroot : "..".toList ∉ destRoot)
    (hsafe : Safe start destRoot maxTotalSize totalWritten d) (hdone : Extracted destRoot done d) :
    EndsIn (extractMember repr destRoot maxTotalSize totalWritten info) d
      (fun d' => ∃ total, Safe start destRoot maxTotalSize total d')
      fun total d' => Safe start destRoot maxTotalSize total d' ∧
        Extracted destRoot (done ++ [info]) d' := by
  have hraised : ∃ total, Safe start destRoot maxTotalSize total d := ⟨totalWritten, hsafe⟩
  unfold extractMember
  split
  · exact .throw hraised
  next hname =>
  split
  · next hlink => exact .pure ⟨hsafe, hdone.skip fun p => by simp [isFileAt, hlink]⟩
  next hlink =>
  have hup := notUp_memberPath hroot (Bool.eq_false_iff.mpr hname)
  have hbelow := prefix_memberPath destRoot info
  have hallows : Allows destRoot fun d' =>
      Safe start destRoot maxTotalSize totalWritten d' ∧ Extracted destRoot done d' :=
    ⟨fun d' h => h.1.linkFree, fun d' p h hp hnone => ⟨h.1.mkdir hp hnone, h.2.mkdir hnone⟩⟩
  refine .get_bind ?_
  split
  · exact .throw hraised
  split
  swap
  · exact .throw hraised
  have hparent := mkdir_ends hallows (Near.of_prefix (.inr hbelow) (List.dropLast_prefix _))
    (fun hmem => hup (List.mem_of_mem_dropLast hmem)) ⟨hsafe, hdone⟩
  refine EndsIn.bind ((hparent.adapt ExtractError.os).mono (fun d' h => ⟨_, h.1⟩) fun _ _ h => h) ?_
  intro _ d₁ h₁
  split
  · next hdir =>
    have hmade := mkdir_ends hallows (.inr hbelow) hup h₁
    refine EndsIn.bind ((hmade.adapt ExtractError.os).mono (fun d' h => ⟨_, h.1⟩) fun _ _ h => h) ?_
    exact fun _ d₂ h₂ => .pure ⟨h₂.1, h₂.2.skip fun p => by simp [isFileAt, hdir]⟩
  next hdir =>
  split
  swap
  · exact .throw ⟨_, h₁.1⟩
  have hopened := openWb_ends (d := d₁) h₁.1.linkFree (.inr hbelow) hup
  refine EndsIn.bind ((hopened.adapt ExtractError.os).mono (fun d' h => ⟨_, h ▸ h₁.1⟩) fun _ _ h => h) ?_
  rintro _ _ ⟨rfl, rfl, -⟩
  -- what the loop over the chunks keeps: the limit, and the file as far as it is written
  refine (copyChunks_ends repr (fun sofar total d' =>
      Safe start destRoot maxTotalSize total d' ∧ Copying d₁ (memberPath destRoot info) sofar d')
    (fun sofar total d' chunk h hlimit => ⟨h.1.write hbelow hlimit, h.2.write chunk⟩)
    ⟨h₁.1.create hbelow, Copying.create d₁ _⟩).mono
    (fun d' ⟨_, total, h⟩ => ⟨total, h.1⟩) fun total d' ⟨h, hmagic⟩ => ⟨h.1, ?_⟩
  have hfile : isFileAt destRoot (memberPath destRoot info) info = true := by
    simp [isFileAt, hlink, hdir]
  exact h₁.2.copied hfile (hmagic rfl) h.2

end Steps

section Archive
variable {start : Tree} {cwd destRoot : Path} {destPath : Text} {maxTotalSize : Nat}

theorem safeExtractSkillArchive_ends (repr : Text → Text) (infolist : List ZipInfo)
    (maxTotalSize : Nat) (hroot : resolve start cwd destPath = some destRoot)
    (hfree : LinkFree start destRoot) :
    EndsIn (safeExtractSkillArchive repr cwd infolist destPath maxTotalSize) (.fresh start)
      (fun d => ∃ total, Safe start destRoot maxTotalSize total d)
      fun _ d => (∃ total, Safe start destRoot maxTotalSize total d) ∧
        Extracted destRoot infolist d := by
  have hnone : Extracted destRoot [] (.fresh start) := ⟨nofun, nofun⟩
  have hsafe : Safe start destRoot maxTotalSize 0 (.fresh start) :=
    ⟨.fresh hfree, rfl, Nat.zero_le _⟩
  unfold safeExtractSkillArchive
  refine .get_bind ?_
  have hresolve : resolve (Disk.fresh start).tree cwd destPath = some destRoot := hroot
  rw [hresolve]
  refine EndsIn.bind (EndsIn.foldlM (f := extractMember repr destRoot maxTotalSize)
    (fun done total d => Safe start destRoot maxTotalSize total d ∧ Extracted destRoot done d)
    (fun done info total d _ h => extractMember_ends repr (notUp_of_resolve hroot) h.1 h.2)
    ⟨hsafe, hnone⟩) ?_
  exact fun total d h => .pure ⟨⟨total, h.1⟩, h.2⟩

/-- At every moment of the run the changes keep to the destination, to its own missing parents
and to the limit, and none of them makes a symbolic link. When it returns, no file it made begins
with the mark of an executable, and every member that is a file is where its normalized name
leads, the last of those with one name. -/
theorem safeExtractSkillArchive_confined (repr : Text → Text) (infolist : List ZipInfo)
    (maxTotalSize : Nat) (hroot : resolve start cwd destPath = some destRoot)
    (hfree : LinkFree start destRoot) :
    let ran := (safeExtractSkillArchive repr cwd infolist destPath maxTotalSize).run.run
      (.fresh start)
    ran.2.tree = replay start ran.2.log ∧
    (∀ moment, moment <+: ran.2.log →
      written moment ≤ maxTotalSize ∧
      (∀ c ∈ moment, Within start destRoot c) ∧
      (∀ p, replay start moment p ≠ start p →
        destRoot <+: p ∧ (replay start moment p = some .dir ∨
          ∃ content, replay start moment p = some (.file content)) ∨
        p <+: destRoot ∧ start p = none ∧ replay start moment p = some .dir) ∧
      ∀ p target, replay start moment p = some (.symlink target) →
        start p = some (.symlink target)) ∧
    (ran.1 = .ok () →
      (∀ p, .create p ∈ ran.2.log → ∃ content, ran.2.tree p = some (.file content) ∧
        isExecutableBinaryPrefix content = false) ∧
      ∀ info ∈ infolist, isSymlinkMember info = false → info.isDir = false →
        ∃ last, lastFile destRoot infolist (memberPath destRoot info) = some last ∧
          ran.2.tree (memberPath destRoot info) = some (.file last.delivered)) := by
  have hends := safeExtractSkillArchive_ends repr infolist maxTotalSize hroot hfree
  intro ran
  obtain ⟨total, hsafe⟩ := hends.always fun _ _ h => h.1
  refine ⟨hsafe.replays, fun moment hmoment => ?_, fun hok => ?_⟩
  · have hwithin : ∀ c ∈ moment, Within start destRoot c := fun c hc =>
      hsafe.within c (hmoment.subset hc)
    have hwritten : written moment ≤ maxTotalSize :=
      (written_mono hmoment).trans (hsafe.counted.trans_le hsafe.bounded)
    exact ⟨hwritten, hwithin, fun p hp => replay_of_within hwithin hp,
      fun p target htarget => replay_symlink htarget⟩
  · obtain ⟨-, hdone⟩ := hends.of_ok hok
    refine ⟨fun p hp => ?_, fun info hinfo hlink hdir => ?_⟩
    · obtain ⟨last, hlast⟩ := Option.isSome_iff_exists.mp (hdone.created p hp)
      exact ⟨last.delivered, hdone.files p last hlast⟩
    · obtain ⟨last, hlast⟩ := exists_lastFile hinfo hlink hdir
      exact ⟨last, hlast, (hdone.files _ last hlast).1⟩

def bareTree : Tree := fun p => if p = [] then some .dir else none

theorem linkFree_bareTree (root : Path) : LinkFree bareTree root := by
  intro p _ target h
  unfold bareTree at h
  split at h <;> cases h

def plainMember (filename : Text) (content : Bytes) (noNull : '\x00' ∉ filename) : ZipInfo :=
  { filename, externalAttr := 0, fileSize := content.length, content, opens := true,
    failedRead := none, noNull }

def demoArchive : List ZipInfo :=
  [plainMember "a/".toList [] (by decide), plainMember "a\\b".toList [1, 2] (by decide)]

theorem safeExtractSkillArchive_confined_demo :
    let ran := (safeExtractSkillArchive id [] demoArchive "/x".toList 8).run.run (.fresh bareTree)
    ran.1 = .ok () ∧ written ran.2.log ≤ 8 ∧
      ran.2.tree ["x".toList, "a".toList, "b".toList] = some (.file [1, 2]) := by
  obtain ⟨-, hmoments, hreturned⟩ := safeExtractSkillArchive_confined id demoArchive 8
    (show resolve bareTree [] "/x".toList = some ["x".toList] by decide +kernel)
    (linkFree_bareTree _)
  have hok : ((safeExtractSkillArchive id [] demoArchive "/x".toList 8).run.run
      (.fresh bareTree)).1 = .ok () := by
    decide +kernel
  obtain ⟨last, hlast, htree⟩ := (hreturned hok).2 _ (List.mem_cons_of_mem _ List.mem_cons_self)
    (by decide) (by decide)
  have hdelivered : (lastFile ["x".toList] demoArchive
      (memberPath ["x".toList] (plainMember "a\\b".toList [1, 2] (by decide)))).map
        ZipInfo.delivered = some [1, 2] := by
    decide +kernel
  rw [hlast] at hdelivered
  refine ⟨hok, (hmoments _ (List.prefix_refl _)).1, ?_⟩
  rw [Option.some.inj hdelivered] at htree
  exact htree

/-- The destination is missing, and so is the directory it would be in: that one is made too. -/
theorem safeExtractSkillArchive_makes_parents :
    ¬ ∀ (infolist : List ZipInfo) (destPath : Text) (maxTotalSize : Nat) (start : Tree)
      (destRoot : Path), resolve start [] destPath = some destRoot → LinkFree start destRoot →
      ∀ c ∈ ((safeExtractSkillArchive id [] infolist destPath maxTotalSize).run.run
        (.fresh start)).2.log, destRoot <+: c.path := by
  intro h
  have hbelow := h [plainMember "a/".toList [] (by decide)] "/x/y".toList 8 bareTree
    ["x".toList, "y".toList] (by decide +kernel) (linkFree_bareTree _) (.mkdir ["x".toList])
    (by decide +kernel)
  exact absurd hbelow (by decide)

end Archive

end DeerFlow.Skills
