import DeerFlow.Workspace.ChangeDiff

/-! What a comparison reports. Every changed path is counted and the first ones are listed; the
lines are counted right unless a content line looks like the header of a diff. -/

namespace DeerFlow.Workspace
open DeerFlow.Runtime (utf8Length)

section Lines

/-- An inserted line that, with its mark, does not look like a header. -/
def plainInsertion (line : Text) : Bool := !"++ ".toList.isPrefixOf line

def plainDeletion (line : Text) : Bool := !"-- ".toList.isPrefixOf line

def countsAdded : Text → Bool
  | '+' :: line => plainInsertion line
  | _ => false

def countsDeleted : Text → Bool
  | '-' :: line => plainDeletion line
  | _ => false

theorem countDiffLine_plus (counts : Nat × Nat) (line : Text) :
    countDiffLine counts ('+' :: line) =
      (counts.1 + if plainInsertion line then 1 else 0, counts.2) := by
  have hheader : "+++ ".toList.isPrefixOf ('+' :: line) = !plainInsertion line := by
    rw [plainInsertion, Bool.not_not]
    rfl
  have hother : "--- ".toList.isPrefixOf ('+' :: line) = false := rfl
  have hplus : ['+'].isPrefixOf ('+' :: line) = true := rfl
  rw [countDiffLine, hheader, hother, hplus]
  cases plainInsertion line <;> rfl

theorem countDiffLine_minus (counts : Nat × Nat) (line : Text) :
    countDiffLine counts ('-' :: line) =
      (counts.1, counts.2 + if plainDeletion line then 1 else 0) := by
  have hheader : "--- ".toList.isPrefixOf ('-' :: line) = !plainDeletion line := by
    rw [plainDeletion, Bool.not_not]
    rfl
  have hother : "+++ ".toList.isPrefixOf ('-' :: line) = false := rfl
  have hplus : ['+'].isPrefixOf ('-' :: line) = false := rfl
  have hminus : ['-'].isPrefixOf ('-' :: line) = true := rfl
  rw [countDiffLine, hheader, hother, hplus, hminus]
  cases plainDeletion line <;> rfl

theorem countDiffLine_eq (counts : Nat × Nat) (line : Text) :
    countDiffLine counts line = (counts.1 + if countsAdded line then 1 else 0,
      counts.2 + if countsDeleted line then 1 else 0) := by
  cases line with
  | nil => rfl
  | cons c line =>
    by_cases hadd : c = '+'
    · subst hadd
      exact countDiffLine_plus counts line
    · by_cases hdel : c = '-'
      · subst hdel
        exact countDiffLine_minus counts line
      · have hadd' : ('+' == c) = false := by simpa using Ne.symm hadd
        have hdel' : ('-' == c) = false := by simpa using Ne.symm hdel
        have hcounts : countsAdded (c :: line) = false ∧ countsDeleted (c :: line) = false := by
          constructor
          · unfold countsAdded
            split
            · next heq => exact absurd (List.cons.inj heq).1 hadd
            · rfl
          · unfold countsDeleted
            split
            · next heq => exact absurd (List.cons.inj heq).1 hdel
            · rfl
        rw [hcounts.1, hcounts.2]
        simp only [countDiffLine, List.isPrefixOf, hadd', hdel', Bool.false_and]
        simp

theorem countDiffLines_eq (lines : List Text) :
    countDiffLines lines = (lines.countP countsAdded, lines.countP countsDeleted) := by
  have hfold (counts : Nat × Nat) : lines.foldl countDiffLine counts =
      (counts.1 + lines.countP countsAdded, counts.2 + lines.countP countsDeleted) := by
    induction lines generalizing counts with
    | nil => rfl
    | cons line lines ih =>
      rw [List.foldl_cons, ih, countDiffLine_eq, List.countP_cons, List.countP_cons]
      ext
      · change _ + _ + _ = _ + (_ + _)
        omega
      · change _ + _ + _ = _ + (_ + _)
        omega
  rw [countDiffLines, hfold]
  simp

theorem countsAdded_renderEdit (e : LineEdit Text) :
    countsAdded (renderEdit e) = (e.inserted?.map plainInsertion).getD false := by
  cases e with
  | keep line | delete line | insert line => rfl

theorem countsDeleted_renderEdit (e : LineEdit Text) :
    countsDeleted (renderEdit e) = (e.deleted?.map plainDeletion).getD false := by
  cases e with
  | keep line | insert line | delete line => rfl

theorem countP_render (h : Hunk) :
    h.render.countP countsAdded = (insertedBy h.edits).countP plainInsertion ∧
      h.render.countP countsDeleted = (deletedBy h.edits).countP plainDeletion := by
  unfold Hunk.render insertedBy deletedBy
  constructor
  · rw [List.countP_cons_of_neg (by simp [countsAdded]), List.countP_map, List.countP_filterMap]
    congr 1
    funext e
    exact countsAdded_renderEdit e
  · rw [List.countP_cons_of_neg (by simp [countsDeleted]), List.countP_map,
      List.countP_filterMap]
    congr 1
    funext e
    exact countsDeleted_renderEdit e

/-- The line diff of two texts. -/
def Difflib.edits (difflib : Difflib) (a b : List Text) : List (LineEdit Text) :=
  ((difflib.hunks a b).map (·.edits)).flatten

theorem counts_fromHeader (t : Text) :
    countsAdded ("--- ".toList ++ t) = false ∧ countsDeleted ("--- ".toList ++ t) = false := by
  refine ⟨rfl, ?_⟩
  change (!"-- ".toList.isPrefixOf ("-- ".toList ++ t)) = false
  simp

theorem counts_toHeader (t : Text) :
    countsAdded ("+++ ".toList ++ t) = false ∧ countsDeleted ("+++ ".toList ++ t) = false := by
  refine ⟨?_, rfl⟩
  change (!"++ ".toList.isPrefixOf ("++ ".toList ++ t)) = false
  simp

theorem countDiffLines_unifiedDiff (difflib : Difflib) (a b : List Text)
    (fromfile tofile : Text) :
    countDiffLines (difflib.unifiedDiff a b fromfile tofile) =
      ((insertedBy (difflib.edits a b)).countP plainInsertion,
        (deletedBy (difflib.edits a b)).countP plainDeletion) := by
  have hrender (hs : List Hunk) :
      (hs.flatMap Hunk.render).countP countsAdded =
          (insertedBy (hs.map (·.edits)).flatten).countP plainInsertion ∧
        (hs.flatMap Hunk.render).countP countsDeleted =
          (deletedBy (hs.map (·.edits)).flatten).countP plainDeletion := by
    induction hs with
    | nil => exact ⟨rfl, rfl⟩
    | cons h hs ih =>
      rw [List.flatMap_cons, List.map_cons, List.flatten_cons, insertedBy_append, deletedBy_append]
      simp only [List.countP_append, countP_render, ih, and_self]
  rw [countDiffLines_eq, Difflib.unifiedDiff, Difflib.edits]
  split
  · next hnil =>
    rw [hnil]
    rfl
  · obtain ⟨hadded, hdeleted⟩ := hrender (difflib.hunks a b)
    simp only [List.countP_cons, counts_fromHeader, counts_toHeader, hadded, hdeleted]
    simp

end Lines

section Files
variable (env : DiffEnv) (before after : WorkspaceSnapshot)

/-- The texts of a path before and after, if both can be had. -/
def availableTexts (path : String) : Option (Text × Text) :=
  match diffUnavailableReason (before.files.find path) (after.files.find path),
    snapshotText env (before.files.find path), snapshotText env (after.files.find path) with
  | none, some beforeText, some afterText => some (beforeText, afterText)
  | _, _, _ => none

def insertedLines (texts : Text × Text) : List Text :=
  insertedBy (env.difflib.edits (splitlines texts.1) (splitlines texts.2))

def deletedLines (texts : Text × Text) : List Text :=
  deletedBy (env.difflib.edits (splitlines texts.1) (splitlines texts.2))

def lineCounts (path : String) : Nat × Nat :=
  match availableTexts env before after path with
  | none => (0, 0)
  | some texts => ((insertedLines env texts).countP plainInsertion,
      (deletedLines env texts).countP plainDeletion)

def changedLines (path : String) : Nat × Nat :=
  match availableTexts env before after path with
  | none => (0, 0)
  | some texts => ((insertedLines env texts).length, (deletedLines env texts).length)

variable {env before after} {path : String}

theorem lineCounts_le :
    (lineCounts env before after path).1 ≤ (changedLines env before after path).1 ∧
    (lineCounts env before after path).2 ≤ (changedLines env before after path).2 := by
  unfold lineCounts changedLines
  split
  · exact ⟨le_rfl, le_rfl⟩
  · exact ⟨List.countP_le_length, List.countP_le_length⟩

theorem changedLines_eq {texts : Text × Text}
    (h : availableTexts env before after path = some texts) :
    changedLines env before after path =
      ((insertedLines env texts).length, (deletedLines env texts).length) := by
  rw [changedLines, h]

theorem changedLines_sub {texts : Text × Text}
    (h : availableTexts env before after path = some texts) :
    ((changedLines env before after path).1 : Int) - (changedLines env before after path).2 =
      (splitlines texts.2).length - (splitlines texts.1).length := by
  have hpatches := env.difflib.patches (splitlines texts.1) (splitlines texts.2)
  have hlength := hpatches.length_eq
  rw [changedLines_eq h]
  change ((insertedBy (env.difflib.edits _ _)).length : Int) -
    (deletedBy (env.difflib.edits _ _)).length = _
  unfold Difflib.edits
  omega

theorem counts_buildDiff (env : DiffEnv) (before after : WorkspaceSnapshot) (path : String)
    (remainingBytes : Nat) :
    let built := buildDiff env path (before.files.find path) (after.files.find path) remainingBytes
    (built.additions, built.deletions) = lineCounts env before after path := by
  unfold buildDiff lineCounts availableTexts
  rcases diffUnavailableReason (before.files.find path) (after.files.find path) with _ | reason
  · rcases snapshotText env (before.files.find path) with _ | beforeText
    · rfl
    · rcases snapshotText env (after.files.find path) with _ | afterText
      · rfl
      · simp only [countDiffLines_unifiedDiff]
        split_ifs <;> rfl
  · rfl

theorem utf8Length_buildDiff_le (env : DiffEnv) (path : String)
    (beforeFile afterFile : Option FileSnapshot) (remainingBytes : Nat) :
    utf8Length (buildDiff env path beforeFile afterFile remainingBytes).diff ≤ remainingBytes := by
  unfold buildDiff
  split
  · exact Nat.zero_le _
  · split
    · dsimp only
      split_ifs with hlong
      · exact Nat.zero_le _
      · exact Nat.le_of_not_lt hlong
    · exact Nat.zero_le _

end Files

section Run
variable (env : DiffEnv) (limits : WorkspaceChangeLimits) (before after : WorkspaceSnapshot)

/-- What the comparison has when the changed paths `done` are behind it. -/
structure Compared (done : List String) (s : Comparison) : Prop where
  counted : s.created + s.modified + s.deleted = done.length
  listed : s.changes.map (·.path) = done.take limits.maxFiles
  truncated : limits.maxFiles < done.length → s.truncated = true
  bytes : (s.changes.map fun c => utf8Length c.diff).sum ≤ s.totalDiffBytes
  bounded : s.totalDiffBytes ≤ limits.maxTotalDiffBytes
  additions : s.additions = (done.map fun p => (lineCounts env before after p).1).sum
  deletions : s.deletions = (done.map fun p => (lineCounts env before after p).2).sum
  lines : ∀ c ∈ s.changes, (c.additions, c.deletions) = lineCounts env before after c.path

variable {env limits before after} {done : List String} {s : Comparison}

theorem status_counts (beforeFile afterFile : Option FileSnapshot) :
    ((if status beforeFile afterFile = .created then 1 else 0) +
      (if status beforeFile afterFile = .modified then 1 else 0) +
      if status beforeFile afterFile = .deleted then 1 else 0) = 1 := by
  cases status beforeFile afterFile <;> rfl

theorem Compared.comparePath (h : Compared env limits before after done s) {path : String}
    (hpath : unchanged before after path = false) :
    Compared env limits before after (done ++ [path])
      (comparePath env limits before after s path) := by
  have hcounts := counts_buildDiff env before after path
    (limits.maxTotalDiffBytes - s.totalDiffBytes)
  have hstatus := status_counts (before.files.find path) (after.files.find path)
  have hsize := utf8Length_buildDiff_le env path (before.files.find path) (after.files.find path)
    (limits.maxTotalDiffBytes - s.totalDiffBytes)
  have hlength : s.changes.length = min limits.maxFiles done.length := by
    rw [← List.length_map (·.path), h.listed, List.length_take]
  unfold Workspace.comparePath
  rw [if_neg (by simp [hpath])]
  dsimp only at hcounts ⊢
  generalize buildDiff env path (before.files.find path) (after.files.find path)
    (limits.maxTotalDiffBytes - s.totalDiffBytes) = built at hcounts hsize ⊢
  obtain ⟨hadditions, hdeletions⟩ := Prod.ext_iff.mp hcounts
  by_cases hfits : s.changes.length < limits.maxFiles
  · have hall : done.length < limits.maxFiles := by omega
    refine ⟨?_, ?_, ?_, ?_, ?_, ?_, ?_, ?_⟩
    · have hcounted := h.counted
      rw [List.length_append, List.length_singleton]
      dsimp only
      omega
    · rw [if_pos hfits, List.map_append, h.listed, List.take_of_length_le hall.le,
        List.take_of_length_le (by rw [List.length_append]; exact hall)]
      rfl
    · intro hmore
      rw [List.length_append, List.length_singleton] at hmore
      omega
    · rw [if_pos hfits, List.map_append, List.sum_append]
      exact Nat.add_le_add h.bytes (by simp [fileChange])
    · have hbounded := h.bounded
      dsimp only
      omega
    · rw [List.map_append, List.sum_append, ← h.additions, List.map_singleton,
        List.sum_singleton, ← hadditions]
    · rw [List.map_append, List.sum_append, ← h.deletions, List.map_singleton,
        List.sum_singleton, ← hdeletions]
    · rw [if_pos hfits]
      intro c hc
      rcases List.mem_append.mp hc with hc | hc
      · exact h.lines c hc
      · rw [List.mem_singleton.mp hc]
        exact hcounts
  · have hall : limits.maxFiles ≤ done.length := by omega
    refine ⟨?_, ?_, ?_, ?_, ?_, ?_, ?_, ?_⟩
    · have hcounted := h.counted
      rw [List.length_append, List.length_singleton]
      dsimp only
      omega
    · rw [if_neg hfits, h.listed, List.take_append_of_le_length hall]
    · intro _
      simp [hfits]
    · rw [if_neg hfits]
      exact h.bytes.trans (Nat.le_add_right _ _)
    · have hbounded := h.bounded
      dsimp only
      omega
    · rw [List.map_append, List.sum_append, ← h.additions, List.map_singleton,
        List.sum_singleton, ← hadditions]
    · rw [List.map_append, List.sum_append, ← h.deletions, List.map_singleton,
        List.sum_singleton, ← hdeletions]
    · rw [if_neg hfits]
      exact h.lines

theorem Compared.foldl (h : Compared env limits before after done s) (ps : List String) :
    Compared env limits before after (done ++ ps.filter fun p => !unchanged before after p)
      (ps.foldl (Workspace.comparePath env limits before after) s) := by
  induction ps generalizing done s with
  | nil => rwa [List.filter_nil, List.append_nil]
  | cons p ps ih =>
    rw [List.foldl_cons]
    by_cases hp : unchanged before after p = true
    · rw [List.filter_cons_of_neg (by simp [hp]), Workspace.comparePath, if_pos hp]
      exact ih h
    · have hstep := h.comparePath (eq_false_of_ne_true hp)
      rw [List.filter_cons_of_pos (by simp [hp]), ← List.singleton_append, ← List.append_assoc]
      exact ih hstep

theorem sort_getChangedPaths (before after : WorkspaceSnapshot) :
    (getChangedPaths before after).sort (· ≤ ·) =
      (allPaths before after).filter fun p => !unchanged before after p := by
  have hsorted : (allPaths before after).Pairwise (· ≤ ·) := List.pairwise_insertionSort _ _
  have hnodup : (allPaths before after).Nodup :=
    (List.perm_insertionSort _ _).nodup_iff.mpr (List.nodup_dedup _)
  have hset : getChangedPaths before after =
      ((allPaths before after).filter fun p => !unchanged before after p).toFinset := by
    ext p
    simp [getChangedPaths, allPaths, sorted]
  rw [hset]
  exact (List.toFinset_sort (· ≤ ·) (hnodup.filter _)).mpr (hsorted.filter _)

end Run

section Report
variable (env : DiffEnv) (limits : WorkspaceChangeLimits) (before after : WorkspaceSnapshot)

/-- The files that are reported, however their lines are counted. -/
structure ChangesListed (result : WorkspaceChangeResult) : Prop where
  counted : result.summary.created + result.summary.modified + result.summary.deleted =
    (getChangedPaths before after).card
  listed : result.files.map (·.path) =
    ((getChangedPaths before after).sort (· ≤ ·)).take limits.maxFiles
  truncated : limits.maxFiles < (getChangedPaths before after).card →
    result.summary.truncated = true
  bytes : (result.files.map fun c => utf8Length c.diff).sum ≤ limits.maxTotalDiffBytes

def LinesCounted (c : WorkspaceFileChange) : Prop :=
  ∀ texts, availableTexts env before after c.path = some texts →
    c.additions = (insertedLines env texts).length ∧
    c.deletions = (deletedLines env texts).length ∧
    (c.additions : Int) - c.deletions = (splitlines texts.2).length - (splitlines texts.1).length

structure ChangesReported (result : WorkspaceChangeResult) : Prop extends
    ChangesListed limits before after result where
  lines : ∀ c ∈ result.files, LinesCounted env before after c
  additions : result.summary.additions =
    ∑ p ∈ getChangedPaths before after, (changedLines env before after p).1
  deletions : result.summary.deletions =
    ∑ p ∈ getChangedPaths before after, (changedLines env before after p).2

/-- No line that was inserted or deleted looks like the header of a diff once it has its mark. -/
def NoHeaderLine (texts : Text × Text) : Prop :=
  (∀ line ∈ insertedLines env texts, ¬"++ ".toList <+: line) ∧
    ∀ line ∈ deletedLines env texts, ¬"-- ".toList <+: line

variable {env limits before after}

theorem lineCounts_eq_iff (p : String) :
    lineCounts env before after p = changedLines env before after p ↔
      ∀ texts, availableTexts env before after p = some texts → NoHeaderLine env texts := by
  unfold lineCounts changedLines
  rcases availableTexts env before after p with _ | texts
  · simp
  · simp only [Prod.mk.injEq, List.countP_eq_length, Option.some.injEq, forall_eq', NoHeaderLine]
    simp [plainInsertion, plainDeletion, ← List.isPrefixOf_iff_prefix]

theorem compared_compareSnapshots (env : DiffEnv) (limits : WorkspaceChangeLimits)
    (before after : WorkspaceSnapshot) :
    ∃ s, Compared env limits before after ((getChangedPaths before after).sort (· ≤ ·)) s ∧
      (compareSnapshots env limits before after).files = s.changes ∧
      (compareSnapshots env limits before after).summary =
        ⟨s.created, s.modified, s.deleted, s.additions, s.deletions, s.truncated⟩ := by
  have hstart : Compared env limits before after []
      ⟨[], 0, 0, 0, 0, 0, 0, before.truncated || after.truncated⟩ := by
    refine ⟨rfl, ?_, ?_, le_rfl, Nat.zero_le _, rfl, rfl, fun _ h => absurd h List.not_mem_nil⟩
    · rw [List.take_nil]
      rfl
    · intro hmore
      cases hmore
  have hrun := hstart.foldl (allPaths before after)
  rw [List.nil_append, ← sort_getChangedPaths] at hrun
  exact ⟨_, hrun, rfl, rfl⟩

theorem sum_sort (f : String → Nat) (ps : Finset String) :
    ((ps.sort (· ≤ ·)).map f).sum = ∑ p ∈ ps, f p := by
  rw [← List.sum_toFinset f (ps.sort_nodup (· ≤ ·)), Finset.sort_toFinset]

/-- The report lists what changed, and it is right about the lines exactly when no line that was
inserted or deleted can be taken for the header of its diff. -/
theorem changes_reported_iff (env : DiffEnv) (limits : WorkspaceChangeLimits)
    (before after : WorkspaceSnapshot) :
    ChangesListed limits before after (compareSnapshots env limits before after) ∧
      (ChangesReported env limits before after (compareSnapshots env limits before after) ↔
        ∀ p ∈ getChangedPaths before after, ∀ texts,
          availableTexts env before after p = some texts → NoHeaderLine env texts) := by
  obtain ⟨s, hs, hfiles, hsummary⟩ :=
    compared_compareSnapshots env limits before after
  have hcard : ((getChangedPaths before after).sort (· ≤ ·)).length =
      (getChangedPaths before after).card := Finset.length_sort _
  have hadditions := hs.additions
  have hdeletions := hs.deletions
  rw [sum_sort] at hadditions hdeletions
  have hlisted : ChangesListed limits before after (compareSnapshots env limits before after) := by
    refine ⟨?_, ?_, ?_, ?_⟩
    · rw [hsummary, ← hcard]
      exact hs.counted
    · rw [hfiles]
      exact hs.listed
    · rw [hsummary, ← hcard]
      exact hs.truncated
    · rw [hfiles]
      exact hs.bytes.trans hs.bounded
  refine ⟨hlisted, ?_, ?_⟩
  · intro h p hp
    have hadded := h.additions
    have hdeleted := h.deletions
    rw [hsummary] at hadded hdeleted
    have hfst := (Finset.sum_eq_sum_iff_of_le fun _ _ => lineCounts_le.1).mp
      (hadditions.symm.trans hadded) p hp
    have hsnd := (Finset.sum_eq_sum_iff_of_le fun _ _ => lineCounts_le.2).mp
      (hdeletions.symm.trans hdeleted) p hp
    exact (lineCounts_eq_iff p).mp (Prod.ext hfst hsnd)
  · intro hplain
    have hcounts : ∀ p ∈ getChangedPaths before after,
        lineCounts env before after p = changedLines env before after p :=
      fun p hp => (lineCounts_eq_iff p).mpr (hplain p hp)
    refine ⟨hlisted, ?_, ?_, ?_⟩
    · rw [hfiles]
      intro c hc texts htexts
      have hmem : c.path ∈ getChangedPaths before after := by
        have hpath : c.path ∈ s.changes.map (·.path) := List.mem_map_of_mem hc
        rw [hs.listed] at hpath
        exact (Finset.mem_sort _).mp (List.mem_of_mem_take hpath)
      have hlines := (hs.lines c hc).trans (hcounts c.path hmem)
      have hsub := changedLines_sub htexts
      rw [← hlines] at hsub
      rw [changedLines_eq htexts, Prod.mk.injEq] at hlines
      exact ⟨hlines.1, hlines.2, hsub⟩
    · rw [hsummary]
      exact hadditions.trans (Finset.sum_congr rfl fun p hp => congrArg Prod.fst (hcounts p hp))
    · rw [hsummary]
      exact hdeletions.trans (Finset.sum_congr rfl fun p hp => congrArg Prod.snd (hcounts p hp))

end Report

namespace ChangeRun

/-- The range of the first `n` lines, in a hunk. -/
def range (n : Nat) : Text :=
  if n = 0 then "0,0".toList
  else if n = 1 then "1".toList
  else "1,".toList ++ (toString n).toList

/-- Everything is replaced in one hunk, as it is when no line is kept. -/
def replaceAll (a b : List Text) : List Hunk :=
  if a = [] ∧ b = [] then []
  else
    let ranges := '-' :: range a.length ++ " +".toList ++ range b.length
    [⟨ranges, a.map .delete ++ b.map .insert⟩]

theorem old_replace (a b : List Text) :
    (a.map LineEdit.delete ++ b.map LineEdit.insert).filterMap LineEdit.old? = a := by
  rw [List.filterMap_append, List.filterMap_map, List.filterMap_map]
  have ha : List.filterMap (LineEdit.old? ∘ LineEdit.delete) a = a := List.filterMap_some
  have hb : List.filterMap (LineEdit.old? ∘ LineEdit.insert) b = [] := by simp [LineEdit.old?]
  rw [ha, hb, List.append_nil]

theorem new_replace (a b : List Text) :
    (a.map LineEdit.delete ++ b.map LineEdit.insert).filterMap LineEdit.new? = b := by
  rw [List.filterMap_append, List.filterMap_map, List.filterMap_map]
  have ha : List.filterMap (LineEdit.new? ∘ LineEdit.delete) a = [] := by simp [LineEdit.new?]
  have hb : List.filterMap (LineEdit.new? ∘ LineEdit.insert) b = b := List.filterMap_some
  rw [ha, hb, List.nil_append]

def difflib : Difflib where
  hunks := replaceAll
  patches a b := by
    unfold replaceAll
    split_ifs with hnil
    · rw [hnil.1, hnil.2]
      exact .same []
    · have hpatch := Patches.hunk [] (a.map LineEdit.delete ++ b.map LineEdit.insert)
        (.same ([] : List Text))
      rw [old_replace, new_replace, List.append_nil, List.append_nil] at hpatch
      exact hpatch

def env : DiffEnv := ⟨difflib, fun _ => none⟩

def file (text : String) (sha256 : String) : FileSnapshot where
  root := "workspace"
  size := text.length
  mtimeNs := 0
  sha256 := some sha256
  text := some text.toList

def withFile (text : String) : WorkspaceSnapshot where
  files := Assoc.set .empty "/mnt/user-data/workspace/q.sql" (file text "1")

def noFiles : WorkspaceSnapshot where
  files := .empty

def report : WorkspaceChangeResult := compareSnapshots env {} (withFile "-- users") noFiles

end ChangeRun

/-- A file whose only line is an SQL comment is deleted, and the deleted line is not counted. -/
theorem deleted_comment_not_counted :
    ChangeRun.report.files.map (fun c => (c.status, String.ofList c.diff, c.deletions)) =
        [(.deleted, "--- a/mnt/user-data/workspace/q.sql\n" ++
          "+++ b/mnt/user-data/workspace/q.sql\n@@ -1 +0,0 @@\n--- users", 0)] ∧
      ChangeRun.report.summary.deletions = 0 ∧
      ¬ChangesReported ChangeRun.env {} (ChangeRun.withFile "-- users") ChangeRun.noFiles
        ChangeRun.report := by
  have hreported : ChangeRun.report.summary.deletions = 0 := by decide
  refine ⟨by decide, hreported, fun h => ?_⟩
  have hexact : ∑ p ∈ getChangedPaths (ChangeRun.withFile "-- users") ChangeRun.noFiles,
      (changedLines ChangeRun.env (ChangeRun.withFile "-- users") ChangeRun.noFiles p).2 = 1 := by
    decide
  rw [h.deletions, hexact] at hreported
  cases hreported

end DeerFlow.Workspace
