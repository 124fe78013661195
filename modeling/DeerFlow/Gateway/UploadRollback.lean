import DeerFlow.Gateway.Uploads

/-! A rejected upload and the files of its thread. The clean-up unlinks what the
request has recorded as written. That restores the directory where those names
were free before, and where the request has written nothing else. -/

namespace DeerFlow.Gateway
open Transition

section Frames
variable {d d' : Dir} {name source target : Text} {content : Bytes} {n : Text}

theorem Dir.get_replace (hsource : n ≠ source) (htarget : n ≠ target) :
    (d.replace source target).get n = d.get n := by
  unfold Dir.replace
  split
  · rfl
  · rw [Table.get_put, if_neg htarget, Table.get_erase, if_neg hsource]

theorem Dir.get_overwrite {group : Nat} (h : n ∉ (d.rows.filter fun x =>
    x.node.group = some group).map DirEntry.name) : (d.overwrite group content).get n = d.get n := by
  unfold Dir.overwrite
  rw [Table.get_mapRows]
  rcases hx : d.get n with _ | x
  · rfl
  · have hgroup : x.node.group ≠ some group := by
      intro hgroup
      apply h
      rw [← Table.key_of_get hx]
      apply List.mem_map_of_mem
      exact List.mem_filter.mpr ⟨Table.mem_of_get hx, decide_eq_true hgroup⟩
    rw [Option.map_some, if_neg hgroup]

theorem Dir.get_writeText (h : d.writeText name content = some d') (hn : n ∉ d.touched name) :
    d'.get n = d.get n := by
  unfold Dir.writeText at h
  unfold Dir.touched at hn
  split at h
  · next target hfollow =>
    rw [hfollow] at hn
    dsimp only at hn
    rcases hx : d.get target with _ | ⟨name, node⟩
    · rw [hx] at h hn
      cases h
      rw [Option.bind_none, List.mem_singleton] at hn
      rw [Table.get_put, if_neg hn]
    · rw [hx] at h hn
      rcases node with ⟨old, _ | group⟩ | link | _
      · cases h
        rw [Option.bind_some, Node.group, List.mem_singleton] at hn
        rw [Table.get_put, if_neg hn]
      · cases h
        exact Dir.get_overwrite hn
      · cases h
      · cases h
  · cases h
    rfl
  · cases h

theorem Dir.get_foldl_erase (names : List Text) (d : Dir) (n : Text) :
    (names.foldl Table.erase d).get n = if n ∈ names then none else d.get n := by
  induction names generalizing d with
  | nil => simp
  | cons m names ih =>
    rw [List.foldl_cons, ih, Table.get_erase]
    by_cases hn : n ∈ names
    · rw [if_pos hn, if_pos (List.mem_cons_of_mem m hn)]
    · rw [if_neg hn]
      by_cases hm : n = m
      · rw [if_pos hm, hm, if_pos List.mem_cons_self]
      · rw [if_neg hm, if_neg (List.not_mem_cons_of_ne_of_not_mem hm hn)]

end Frames

namespace Upload
variable {config : UploadConfig} {before : Dir} {s t : Upload}

def Restored (before : Dir) (s : Upload) : Prop := ∀ n, s.dir.get n = before.get n

def Rejected (s : Upload) : Prop := ∃ r, s.pc = .ended r ∧ r ≠ .finished

/-- What is removed was not there before, and what else was written holds what it held. -/
def Kept (before : Dir) (s : Upload) (removed : List Text) : Prop :=
  (∀ p ∈ removed, before.get p = none) ∧
    ∀ p ∈ s.wrote, p ∉ removed → s.dir.get p = before.get p

instance (s : Upload) (removed : List Text) : Decidable (s.Kept before removed) :=
  inferInstanceAs (Decidable (_ ∧ _))

def Undone (before : Dir) (s : Upload) : UploadEvent → Prop
  | .cancel => s.Kept before []
  | .cleanup unlinks _ => s.Kept before (s.removed unlinks)
  | _ => True

instance (s : Upload) : (e : UploadEvent) → Decidable (s.Undone before e)
  | .cancel => inferInstanceAs (Decidable (s.Kept before []))
  | .cleanup unlinks _ => inferInstanceAs (Decidable (s.Kept before (s.removed unlinks)))
  | .next _ | .chunk .. | .readRaises _ | .commit _ | .abort _ | .convert _ => isTrue trivial

def staging : UploadPc → Option Text
  | .writing _ _ temp _ | .aborting _ temp _ => some temp
  | _ => none

structure Framed (before : Dir) (s : Upload) : Prop where
  frame : ∀ n ∉ s.wrote, s.dir.get n = before.get n
  staged : ∀ temp ∈ staging s.pc, temp ∈ s.wrote

theorem framed_start (files : List (Option Text)) :
    Framed before (start config files before) := by
  refine ⟨fun _ _ => rfl, ?_⟩
  intro temp htemp
  unfold start at htemp
  dsimp only at htemp
  split_ifs at htemp <;> cases htemp

section Steps

theorem Framed.write (h : s.Framed before) {names : List Text} (hwrote : t.wrote = s.wrote ++ names)
    (hdir : ∀ n ∉ t.wrote, t.dir.get n = s.dir.get n)
    (hstaged : ∀ temp ∈ staging t.pc, temp ∈ t.wrote) : t.Framed before := by
  refine ⟨?_, hstaged⟩
  intro n hn
  rw [hdir n hn]
  apply h.frame
  intro hs
  apply hn
  rw [hwrote]
  exact List.mem_append_left names hs

theorem Framed.prepareNext (h : s.Framed before) (file : UploadFile) (p : Prepare) :
    (s.prepareNext file p).Framed before := by
  have hprepare : ∀ temp result, prepareUploadDestination s.dir file.name p = (temp, result) →
      ∀ dest x, result = .ok (dest, x) → temp = some x := by
    intro temp result hp dest x hresult
    unfold prepareUploadDestination at hp
    repeat' split at hp
    all_goals
      obtain ⟨rfl, rfl⟩ := Prod.mk.inj hp
      cases hresult
    rfl
  unfold Upload.prepareNext
  rcases hp : prepareUploadDestination s.dir file.name p with ⟨temp, result⟩
  have hstaged := hprepare temp result hp
  rcases temp with _ | temp
  · rcases result with exc | ⟨dest, x⟩
    · rcases exc with ⟨status, detail⟩ | message | message
      · exact h.write (List.append_nil _).symm (fun _ _ => rfl) nofun
      · exact h.write (List.append_nil _).symm (fun _ _ => rfl) nofun
      · exact h.write (List.append_nil _).symm (fun _ _ => rfl) nofun
    · cases hstaged dest x rfl
  · have hput : ∀ n ∉ s.wrote ++ [temp],
        (s.dir.put ⟨temp, .file [] none⟩).get n = s.dir.get n := by
      intro n hn
      rw [Table.get_put, if_neg]
      rintro rfl
      exact hn (List.mem_append_right _ (List.mem_singleton_self _))
    rcases result with exc | ⟨dest, x⟩
    · rcases exc with ⟨status, detail⟩ | message | message
      · exact h.write rfl hput nofun
      · exact h.write rfl hput nofun
      · exact h.write rfl hput nofun
    · obtain rfl := Option.some.inj (hstaged dest x rfl)
      refine h.write rfl hput ?_
      intro x hx
      cases hx
      exact List.mem_append_right _ (List.mem_singleton_self _)

theorem Framed.nextFile (h : s.Framed before) (p : Prepare) :
    (s.nextFile p).Framed before := by
  have hstaged : ∀ temp ∈ staging s.pc, temp ∈ s.wrote := h.staged
  unfold Upload.nextFile
  split
  · exact ⟨h.frame, nofun⟩
  · next file files hfiles =>
    rcases file with _ | filename
    · exact ⟨h.frame, hstaged⟩
    · dsimp only
      split
      · exact ⟨h.frame, hstaged⟩
      · apply prepareNext
        exact ⟨h.frame, hstaged⟩

theorem Framed.writeChunk {file : UploadFile} {dest temp : Text} {size : Nat}
    (h : s.Framed before) (hpc : s.pc = .writing file dest temp size) (data : Bytes)
    (raises : Option Text) :
    (writeChunk config s file dest temp size data raises).Framed before := by
  have htemp : temp ∈ s.wrote := h.staged temp (by rw [hpc]; rfl)
  have hstaged : ∀ x ∈ some temp, x ∈ s.wrote := by
    intro x hx
    cases hx
    exact htemp
  unfold Upload.writeChunk
  dsimp only
  split_ifs
  · exact ⟨h.frame, hstaged⟩
  · exact ⟨h.frame, hstaged⟩
  · split
    · exact ⟨h.frame, hstaged⟩
    · refine ⟨?_, hstaged⟩
      intro n hn
      have hne : n ≠ temp := by
        rintro rfl
        exact hn htemp
      have hkey : ∀ x : DirEntry, ({ x with node := x.node.append data } : DirEntry).name = x.name :=
        fun _ => rfl
      dsimp only
      rw [Table.get_update hkey, if_neg hne]
      exact h.frame n hn

theorem Framed.erase {temp : Text} (h : s.Framed before) (htemp : temp ∈ s.wrote) :
    ∀ n ∉ s.wrote, (s.dir.erase temp).get n = before.get n := by
  intro n hn
  rw [Table.get_erase, if_neg]
  · exact h.frame n hn
  · rintro rfl
    exact hn htemp

theorem Framed.commitUploadTemp {file : UploadFile} {dest temp : Text} {size : Nat}
    (h : s.Framed before) (hpc : s.pc = .writing file dest temp size) (c : Commit) :
    (s.commitUploadTemp file dest temp size c).Framed before := by
  have htemp : temp ∈ s.wrote := h.staged temp (by rw [hpc]; rfl)
  have hstaged : ∀ x ∈ some temp, x ∈ s.wrote := by
    intro x hx
    cases hx
    exact htemp
  rcases c with message | ⟨message, unlinked⟩ | _
  · exact ⟨h.frame, hstaged⟩
  · refine ⟨?_, hstaged⟩
    unfold Upload.commitUploadTemp
    dsimp only
    split_ifs
    · exact h.erase htemp
    · exact h.frame
  · refine h.write rfl ?_ fun x hx => (by cases hx)
    intro n hn
    apply Dir.get_replace
    · rintro rfl
      exact hn (List.mem_append_left _ htemp)
    · rintro rfl
      exact hn (List.mem_append_right _ (List.mem_singleton_self _))

theorem Framed.abortUploadTemp {file : UploadFile} {temp : Text} {exc : UploadExc}
    (h : s.Framed before) (hpc : s.pc = .aborting file temp exc) (a : Abort) :
    (s.abortUploadTemp file temp exc a).Framed before := by
  have htemp : temp ∈ s.wrote := h.staged temp (by rw [hpc]; rfl)
  rcases a with _ | message | message
  · exact ⟨h.erase htemp, nofun⟩
  · exact ⟨h.erase htemp, nofun⟩
  · exact ⟨h.frame, nofun⟩

theorem convertFileToMarkdown_spec {d d' : Dir} {dest : Text} {c : Conversion} {names : List Text}
    {converted : Bool} (h : convertFileToMarkdown d dest c = (some (d', names), converted)) :
    ∀ n ∉ names, d'.get n = d.get n := by
  rcases c with _ | content | content
  · cases h
  · rcases hwrite : d.writeText (markdownName dest) content with _ | d''
    · simp [convertFileToMarkdown, hwrite] at h
    · simp only [convertFileToMarkdown, hwrite] at h
      cases h
      exact fun n hn => Dir.get_writeText hwrite hn
  · rcases hwrite : d.writeText (markdownName dest) content with _ | d''
    · simp [convertFileToMarkdown, hwrite] at h
    · simp only [convertFileToMarkdown, hwrite] at h
      cases h
      exact fun n hn => Dir.get_writeText hwrite hn

theorem Framed.convertFile (h : s.Framed before) (file : UploadFile) (dest : Text) (size : Nat)
    (c : Conversion) : (convertFile config s file dest size c).Framed before := by
  unfold Upload.convertFile
  rcases hc : convertFileToMarkdown s.dir dest c with ⟨opened, converted⟩
  dsimp only
  by_cases hconvert : config.autoConvertDocuments ∧
      (pathSuffix dest).map Char.toLower ∈ convertibleExtensions
  · rw [if_pos hconvert]
    rcases opened with _ | ⟨d, names⟩
    · rcases converted with _ | _
      · exact ⟨h.frame, nofun⟩
      · exact ⟨h.frame, nofun⟩
    · have hdir : ∀ n ∉ s.wrote ++ names, d.get n = s.dir.get n := by
        intro n hn
        apply convertFileToMarkdown_spec hc
        intro hmem
        exact hn (List.mem_append_right _ hmem)
      rcases converted with _ | _
      · exact h.write rfl hdir nofun
      · exact h.write rfl hdir nofun
  · rw [if_neg hconvert]
    exact ⟨h.frame, nofun⟩

theorem Framed.cleanupUploadedPaths (h : s.Framed before) (file : UploadFile) (exc : UploadExc)
    (unlinks : List Bool) (cancelled : Bool) :
    (s.cleanupUploadedPaths file exc unlinks cancelled).Framed before := by
  refine h.write rfl ?_ fun x hx => (by cases hx)
  intro n hn
  change ((s.removed unlinks).foldl Table.erase s.dir).get n = s.dir.get n
  rw [Dir.get_foldl_erase, if_neg]
  intro hmem
  exact hn (List.mem_append_right _ hmem)

theorem Framed.step {e : UploadEvent} (h : s.Framed before) (ht : s.step config e = some t) :
    t.Framed before := by
  unfold Upload.step at ht
  split at ht
  · cases ht
  · cases ht
    exact h.nextFile _
  · next hpc =>
    split_ifs at ht
    cases ht
    exact h.writeChunk hpc _ _
  · next hpc =>
    cases ht
    refine ⟨h.frame, ?_⟩
    intro temp htemp
    apply h.staged
    rw [hpc]
    exact htemp
  · next hpc =>
    cases ht
    exact h.commitUploadTemp hpc _
  · next hpc =>
    cases ht
    exact h.abortUploadTemp hpc _
  · cases ht
    exact h.convertFile _ _ _ _
  · cases ht
    exact h.cleanupUploadedPaths _ _ _ _
  · cases ht
    exact ⟨h.frame, nofun⟩
  · cases ht

theorem prepareNext_pc (s : Upload) (file : UploadFile) (p : Prepare) (r : UploadResult) :
    (s.prepareNext file p).pc ≠ .ended r := by
  unfold Upload.prepareNext
  rcases prepareUploadDestination s.dir file.name p with ⟨temp, exc | ⟨dest, x⟩⟩
  · rcases exc with ⟨status, detail⟩ | message | message
    · exact nofun
    · exact nofun
    · exact nofun
  · exact nofun

theorem nextFile_pc {r : UploadResult} (hpc : s.pc = .next) (p : Prepare)
    (h : (s.nextFile p).pc = .ended r) : r = .finished := by
  unfold Upload.nextFile at h
  split at h
  · cases h
    rfl
  · next file files hfiles =>
    dsimp only at h
    split at h
    · rw [hpc] at h
      cases h
    · split at h
      · dsimp only at h
        rw [hpc] at h
        cases h
      · exact absurd h (prepareNext_pc _ _ p r)

theorem writeChunk_pc (s : Upload) (file : UploadFile) (dest temp : Text) (size : Nat) (data : Bytes)
    (raises : Option Text) (r : UploadResult) :
    (writeChunk config s file dest temp size data raises).pc ≠ .ended r := by
  unfold Upload.writeChunk
  dsimp only
  split_ifs
  · exact nofun
  · exact nofun
  · split
    · exact nofun
    · exact nofun

theorem convertFile_pc (s : Upload) (file : UploadFile) (dest : Text) (size : Nat) (c : Conversion) :
    (convertFile config s file dest size c).pc = .next := by
  unfold Upload.convertFile
  rcases convertFileToMarkdown s.dir dest c with ⟨opened, converted⟩
  dsimp only
  by_cases hconvert : config.autoConvertDocuments ∧
      (pathSuffix dest).map Char.toLower ∈ convertibleExtensions
  · rw [if_pos hconvert]
    rcases converted with _ | _
    · rfl
    · rfl
  · rw [if_neg hconvert]

/-- Only a cancellation and the end of a clean-up reject a request. -/
theorem rejected_step {e : UploadEvent} (ht : s.step config e = some t) (hr : t.Rejected) :
    (e = .cancel ∧ t.dir = s.dir) ∨ ∃ unlinks cancelled, e = .cleanup unlinks cancelled ∧
      t.dir = (s.removed unlinks).foldl Table.erase s.dir := by
  obtain ⟨r, hpc, hfinished⟩ := hr
  unfold Upload.step at ht
  split at ht
  · cases ht
  · next hnext =>
    cases ht
    exact absurd (nextFile_pc hnext _ hpc) hfinished
  · split_ifs at ht
    cases ht
    exact absurd hpc (writeChunk_pc _ _ _ _ _ _ _ r)
  · cases ht
    cases hpc
  · next c _ =>
    cases ht
    rcases c with message | ⟨message, unlinked⟩ | _
    · cases hpc
    · cases hpc
    · cases hpc
  · next a _ =>
    cases ht
    rcases a with _ | message | message
    · cases hpc
    · cases hpc
    · cases hpc
  · cases ht
    rw [convertFile_pc] at hpc
    cases hpc
  · next unlinks cancelled _ =>
    cases ht
    exact .inr ⟨unlinks, cancelled, rfl, rfl⟩
  · cases ht
    exact .inl ⟨rfl, rfl⟩
  · cases ht

theorem Framed.restored_iff (h : s.Framed before) (removed : List Text) :
    (∀ n, (removed.foldl Table.erase s.dir).get n = before.get n) ↔ s.Kept before removed := by
  constructor
  · intro hall
    constructor
    · intro p hp
      rw [← hall p, Dir.get_foldl_erase, if_pos hp]
    · intro p _ hp
      rw [← hall p, Dir.get_foldl_erase, if_neg hp]
  · rintro ⟨hfree, hheld⟩ n
    rw [Dir.get_foldl_erase]
    split_ifs with hn
    · exact (hfree n hn).symm
    · by_cases hwrote : n ∈ s.wrote
      · exact hheld n hwrote hn
      · exact h.frame n hwrote

theorem Framed.undone_iff {e : UploadEvent} (h : s.Framed before)
    (ht : s.step config e = some t) (hr : t.Rejected) :
    t.Restored before ↔ s.Undone before e := by
  unfold Restored
  rcases rejected_step ht hr with ⟨rfl, hdir⟩ | ⟨unlinks, cancelled, rfl, hdir⟩
  · rw [hdir]
    exact h.restored_iff []
  · rw [hdir]
    exact h.restored_iff (s.removed unlinks)

end Steps

theorem framed_of_reachable {files : List (Option Text)}
    (h : Reachable (uploadFiles config files before) s) : s.Framed before := by
  apply h.invariant (I := Framed before)
  · rintro s rfl
    exact framed_start files
  · intro s e t _ hs ht
    exact hs.step ht

end Upload

/-- A rejected upload leaves the files as they were exactly when its last step undoes all writes. -/
theorem rejected_upload_restores (config : UploadConfig) (files : List (Option Text))
    (before : Dir) :
    (∀ s, Reachable ((uploadFiles config files before).when fun s e => s.Undone before e) s →
      s.Rejected → s.Restored before) ∧
    ∀ s e t, Reachable (uploadFiles config files before) s → Upload.step config s e = some t →
      t.Rejected → (t.Restored before ↔ s.Undone before e) := by
  constructor
  · intro s hs
    have hrestored : s.Rejected → s.Restored before := by
      apply hs.invariant (I := fun s => s.Rejected → s.Restored before)
      · rintro s rfl _ n
        rfl
      · rintro s e t hs - ⟨hundone, ht⟩ hr
        exact ((Upload.framed_of_reachable hs.of_when).undone_iff ht hr).mpr hundone
    exact hrestored
  · intro s e t hs ht hr
    exact (Upload.framed_of_reachable hs).undone_iff ht hr

section Examples

private def textUpload (limit : Nat) : UploadConfig := ⟨⟨10, 10, limit⟩, false⟩

private def first : List (Upload → UploadEvent) :=
  [fun _ => .next ⟨["abcd".toList], none, none, none⟩, fun _ => .chunk [1, 2, 3] none,
    fun _ => .commit .replaced, fun _ => .convert .raises]

private def tooLarge : List (Upload → UploadEvent) :=
  [fun _ => .next ⟨["efgh".toList], none, none, none⟩, fun _ => .chunk [4, 5, 6] none,
    fun _ => .abort .unlinked, fun _ => .cleanup [] false]

theorem rejected_upload_restores_new : ∃ s : Upload, s.Rejected ∧ s.Restored Table.empty := by
  have hrun : (runScript (guarded (fun s e => Upload.Undone .empty s e)
      (Upload.step (textUpload 5))) (.start (textUpload 5)
        [some "first.txt".toList, some "second.txt".toList] .empty) (first ++ tooLarge)).any
          (fun s => decide (s.pc = .ended (.raised 413 "Total upload size too large".toList))) =
      true := by
    decide +kernel
  obtain ⟨s, hs, h⟩ := exists_reachable_of_decide _ hrun
  have hr : s.Rejected := ⟨_, h, nofun⟩
  exact ⟨s, hr, (rejected_upload_restores _ _ .empty).1 s (when_of_guarded hs) hr⟩

/-- The file replaces one that there was, and the clean-up removes it. -/
theorem replaced_upload_is_lost : ¬ ∀ config files before s,
    Reachable (uploadFiles config files before) s → s.Rejected → s.Restored before := by
  intro hall
  have hrun : (runScript (Upload.step (textUpload 5)) (.start (textUpload 5)
      [some "first.txt".toList, some "second.txt".toList]
        (Table.empty.put ⟨"first.txt".toList, .file [7] none⟩)) (first ++ tooLarge)).any
          (fun s => decide (s.pc = .ended (.raised 413 "Total upload size too large".toList)) &&
            (s.dir.get "first.txt".toList).isNone) = true := by
    decide +kernel
  obtain ⟨s, hs, h⟩ := exists_reachable_of_runScript _ hrun
  obtain ⟨hpc, hnone⟩ := Bool.and_eq_true_iff.mp h
  have hrestored := hall _ _ _ s hs ⟨_, of_decide_eq_true hpc, nofun⟩ "first.txt".toList
  rw [Option.isNone_iff_eq_none.mp hnone] at hrestored
  cases hrestored

end Examples

end DeerFlow.Gateway
