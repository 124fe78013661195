import DeerFlow.Lib.Newest
import DeerFlow.Runtime.RunRegistry

/-! The runs of a thread as `RunManager.list_by_thread` lists them: the records in memory, and
rows of the store for the others. -/

namespace DeerFlow.Runtime
open Transition Newest

section Rows

def RunStatus.ofText : String → Option RunStatus
  | "pending" => some .pending
  | "running" => some .running
  | "success" => some .success
  | "error" => some .error
  | "timeout" => some .timeout
  | "interrupted" => some .interrupted
  | _ => none

def DisconnectMode.ofText : String → Option DisconnectMode
  | "cancel" => some .cancel
  | "continue" => some .continue_
  | _ => none

def MultitaskStrategy.ofText : String → MultitaskStrategy
  | "reject" => .reject
  | "interrupt" => .interrupt
  | "rollback" => .rollback
  | name => .unsupported name

/-- A row as the store returns it. -/
structure RunRow where
  runId : String
  threadId : String
  assistantId : Option String
  status : Option String
  onDisconnect : Option String
  multitaskStrategy : Option String
  metadata : Option (Dict Value)
  kwargs : Option (Dict Value)
  userId : Option String
  createdAt : Option String
  updatedAt : Option String
  error : Option String
  modelName : Option String
  usage : UsageUpdate

/-- `value or default` of a text. -/
def textOr (value : Option String) (default : String) : String :=
  match value with
  | some text => if text = "" then default else text
  | none => default

def RunRow.created (row : RunRow) : String := textOr row.createdAt ""

/-- `_record_from_store`, which raises on a status or a disconnect mode it does not know. -/
def RunRow.toRecord (row : RunRow) : Option RunRecord :=
  (RunStatus.ofText (textOr row.status "pending")).bind fun status =>
    (DisconnectMode.ofText (textOr row.onDisconnect "cancel")).map fun onDisconnect =>
      { runId := row.runId
        threadId := row.threadId
        assistantId := row.assistantId
        status := status
        onDisconnect := onDisconnect
        multitaskStrategy := .ofText (textOr row.multitaskStrategy "reject")
        metadata := row.metadata.getD []
        kwargs := row.kwargs.getD []
        userId := row.userId
        createdAt := row.created
        updatedAt := textOr row.updatedAt ""
        abortEvent := false
        abortAction := .interrupt
        error := row.error
        modelName := row.modelName
        usage := RunUsage.zero.update row.usage
        finalizing := false }

/-- The store's `list_by_thread`; it may raise. -/
abbrev RunRowQuery := String → Option String → Nat → Option (List RunRow)

end Rows

/-- The record a row stands for, unless its run is one of `ids`. -/
def RunRow.beside (ids : List String) (row : RunRow) : Option RunRecord :=
  if row.runId ≠ "" ∧ row.runId ∉ ids then row.toRecord else none

namespace RunManager
variable (m : RunManager)

/-- A row goes into the records unless a record of its run is there. -/
def addRow (records : Dict RunRecord) (row : RunRow) : Dict RunRecord :=
  if row.runId ≠ "" ∧ records.contains row.runId = false then
    match row.toRecord with
    | some record => records.set row.runId record
    | none => records
  else records

def recordsById (records : List RunRecord) : Dict RunRecord :=
  records.foldl (fun d r => d.set r.runId r) []

def listByThread (store : Option RunRowQuery) (threadId : String) (userId : Option String)
    (limit : Nat) : List RunRecord :=
  let memoryRecords := m.threadRecords threadId
  match store.bind fun query => query threadId userId (limit - memoryRecords.length) with
  | none => newest RunRecord.createdAt limit memoryRecords
  | some rows =>
    newest RunRecord.createdAt limit (rows.foldl addRow (recordsById memoryRecords)).values

/-- The record a row of the store stands for, unless the run has one in memory. -/
def storeOnly (threadId : String) (row : RunRow) : Option RunRecord :=
  row.beside ((m.threadRecords threadId).map (·.runId))

/-- The runs of a thread: those in memory, and the rows of the store for the others. -/
def threadRuns (rows : List RunRow) (threadId : String) : List RunRecord :=
  m.threadRecords threadId ++ rows.filterMap (m.storeOnly threadId)

end RunManager

section Listing
variable {m : RunManager} {rows : List RunRow} {threadId : String} {limit : Nat}

theorem RunRow.toRecord_runId {row : RunRow} {r : RunRecord} (h : row.toRecord = some r) :
    r.runId = row.runId := by
  obtain ⟨status, -, h⟩ := Option.bind_eq_some_iff.mp h
  obtain ⟨mode, -, rfl⟩ := Option.map_eq_some_iff.mp h
  rfl

theorem RunManager.Indexed.nodup_threadRecords (h : m.Indexed) (threadId : String) :
    ((m.threadRecords threadId).map (·.runId)).Nodup := by
  have hkeys : m.runs.values.map (·.runId) = m.runs.keys := by
    unfold Dict.values Dict.keys
    rw [List.map_map]
    exact List.map_congr_left h.key
  rw [h.threadRecords]
  refine List.Nodup.sublist ((List.filter_sublist ..).map _) ?_
  rw [hkeys]
  exact h.nodup

theorem values_recordsById {records : List RunRecord} (h : (records.map (·.runId)).Nodup) :
    RunManager.recordsById records = records.map fun r => (r.runId, r) := by
  induction records using List.reverseRecOn with
  | nil => rfl
  | append_singleton records r ih =>
    rw [List.map_append, List.nodup_append'] at h
    have hnone : Dict.get (records.map fun r => (r.runId, r)) r.runId = none := by
      rw [← Option.not_isSome_iff_eq_none, ← Dict.mem_keys]
      unfold Dict.keys
      rw [List.map_map]
      intro hmem
      exact h.2.2 hmem (List.mem_singleton_self _)
    unfold RunManager.recordsById at ih ⊢
    rw [List.foldl_concat, ih h.1, Dict.set_of_get_none hnone, List.map_append]
    rfl

/-- The rows that are taken follow the records that were there. -/
theorem values_addRow (hrows : (rows.map (·.runId)).Nodup) (d : Dict RunRecord) :
    (rows.foldl RunManager.addRow d).values = d.values ++ rows.filterMap (·.beside d.keys) := by
  induction rows generalizing d with
  | nil => simp
  | cons row rows ih =>
    rw [List.map_cons, List.nodup_cons] at hrows
    have hcontains : d.contains row.runId = false ↔ row.runId ∉ d.keys := by
      rw [Dict.mem_keys, Dict.contains, Bool.not_eq_true]
    have hadd : RunManager.addRow d row = match row.beside d.keys with
        | some r => d.set row.runId r
        | none => d := by
      unfold RunManager.addRow RunRow.beside
      by_cases htake : row.runId ≠ "" ∧ row.runId ∉ d.keys
      · rw [if_pos htake, if_pos ⟨htake.1, hcontains.mpr htake.2⟩]
      · rw [if_neg htake, if_neg fun hnew => htake ⟨hnew.1, hcontains.mp hnew.2⟩]
    rw [List.foldl_cons, ih hrows.2, hadd]
    rcases hr : row.beside d.keys with _ | r
    · rw [List.filterMap_cons_none hr]
    · have hnew : row.runId ∉ d.keys := by
        unfold RunRow.beside at hr
        split_ifs at hr with htake
        exact htake.2
      have hnone : d.get row.runId = none := by
        rw [← Option.not_isSome_iff_eq_none, ← Dict.mem_keys]
        exact hnew
      have hkeys : Dict.keys (d ++ [(row.runId, r)]) = d.keys ++ [row.runId] := List.map_append ..
      have hvalues : Dict.values (d ++ [(row.runId, r)]) = d.values ++ [r] := List.map_append ..
      have hrest : rows.filterMap (·.beside (d.keys ++ [row.runId])) =
          rows.filterMap (·.beside d.keys) := by
        refine List.filterMap_congr fun other hother => ?_
        have hne : other.runId ≠ row.runId := by
          intro he
          exact hrows.1 (he ▸ List.mem_map_of_mem hother)
        simp [RunRow.beside, hne]
      dsimp only
      rw [Dict.set_of_get_none hnone, hkeys, hvalues, hrest, List.filterMap_cons_some hr,
        List.append_assoc, List.singleton_append]

theorem listByThread_eq (hm : m.Indexed) {query : RunRowQuery} {userId : Option String}
    (hquery : query threadId userId (limit - (m.threadRecords threadId).length) = some rows)
    (hrows : (rows.map (·.runId)).Nodup) :
    m.listByThread (some query) threadId userId limit =
      newest RunRecord.createdAt limit (m.threadRuns rows threadId) := by
  have hkeys : (RunManager.recordsById (m.threadRecords threadId)).keys =
      (m.threadRecords threadId).map (·.runId) := by
    rw [values_recordsById (hm.nodup_threadRecords threadId)]
    unfold Dict.keys
    rw [List.map_map]
    rfl
  have hvalues : (RunManager.recordsById (m.threadRecords threadId)).values =
      m.threadRecords threadId := by
    rw [values_recordsById (hm.nodup_threadRecords threadId)]
    unfold Dict.values
    rw [List.map_map]
    exact List.map_id _
  unfold RunManager.listByThread
  simp only [Option.bind_some, hquery]
  rw [values_addRow hrows, hkeys, hvalues]
  rfl

theorem mem_storeOnly {row : RunRow} {r : RunRecord} (h : m.storeOnly threadId row = some r) :
    r.runId = row.runId ∧ r.runId ∉ (m.threadRecords threadId).map (·.runId) := by
  unfold RunManager.storeOnly RunRow.beside at h
  split_ifs at h with hnew
  have hid := RunRow.toRecord_runId h
  exact ⟨hid, hid ▸ hnew.2⟩

theorem threadRuns_subperm {part : List RunRow} (h : part.Subperm rows) :
    (m.threadRuns part threadId).Subperm (m.threadRuns rows threadId) := by
  obtain ⟨mid, hperm, hsub⟩ := h
  refine List.Subperm.append (List.Subperm.refl _) ?_
  exact (hperm.filterMap _).symm.subperm.trans (hsub.filterMap _).subperm

theorem mem_threadRuns_newest (hids : (rows.map (·.runId)).Nodup)
    (htimes : (rows.map RunRow.created).Nodup) {k : Nat} {row : RunRow} (hrow : row ∈ rows)
    {r : RunRecord} (hr : m.storeOnly threadId row = some r) :
    r ∈ m.threadRuns (newest RunRow.created k rows) threadId ↔
      (newer RunRow.created rows row).length < k := by
  obtain ⟨hid, hnew⟩ := mem_storeOnly hr
  have hmem : r ∈ m.threadRuns (newest RunRow.created k rows) threadId ↔
      row ∈ newest RunRow.created k rows := by
    unfold RunManager.threadRuns
    rw [List.mem_append, List.mem_filterMap]
    constructor
    · rintro (hmemory | ⟨other, hother, hro⟩)
      · exact absurd (List.mem_map_of_mem hmemory) hnew
      · -- two rows of one run are one row
        have hsame : other.runId = row.runId := (mem_storeOnly hro).1.symm.trans hid
        rwa [← List.inj_on_of_nodup_map hids (newest_subset hother) hrow hsame]
    · intro hnewest
      exact .inr ⟨row, hnewest, hr⟩
  rw [hmem, mem_newest htimes]
  exact and_iff_right hrow

end Listing

section Runs
variable {c : Registry} {query : RunRowQuery} {rows : List RunRow} {threadId : String}
variable {userId : Option String}

theorem newest_runs_listed_iff (hc : Reachable registry c)
    (hquery : ∀ k, query threadId userId k = some (newest RunRow.created k rows))
    (hids : (rows.map (·.runId)).Nodup) (htimes : (rows.map RunRow.created).Nodup)
    (hruns : ((c.manager.threadRuns rows threadId).map RunRecord.createdAt).Nodup) (limit : Nat) :
    c.manager.listByThread (some query) threadId userId limit =
        newest RunRecord.createdAt limit (c.manager.threadRuns rows threadId) ↔
      ∀ row ∈ rows, ∀ r ∈ c.manager.storeOnly threadId row,
        (newer RunRecord.createdAt (c.manager.threadRuns rows threadId) r).length < limit →
          (newer RunRow.created rows row).length <
            limit - (c.manager.threadRecords threadId).length := by
  have hsub : List.Subperm
      (newest RunRow.created (limit - (c.manager.threadRecords threadId).length) rows) rows :=
    newest_subperm _ rows
  have hpart : ((newest RunRow.created (limit - (c.manager.threadRecords threadId).length)
      rows).map (·.runId)).Nodup := by
    obtain ⟨mid, hperm, hsublist⟩ := hsub
    exact (hperm.map _).nodup_iff.mp ((hsublist.map _).nodup hids)
  rw [listByThread_eq (locked_of_reachable hc).indexed (hquery _) hpart,
    newest_eq_iff hruns (threadRuns_subperm hsub)]
  constructor
  · intro hall row hrow r hr hlt
    have hmem : r ∈ c.manager.threadRuns rows threadId :=
      List.mem_append_right _ (List.mem_filterMap.mpr ⟨row, hrow, hr⟩)
    exact (mem_threadRuns_newest hids htimes hrow hr).mp (hall r hmem hlt)
  · intro hall r hmem hlt
    rcases List.mem_append.mp hmem with hmemory | hstored
    · exact List.mem_append_left _ hmemory
    · obtain ⟨row, hrow, hr⟩ := List.mem_filterMap.mp hstored
      exact (mem_threadRuns_newest hids htimes hrow hr).mpr (hall row hrow r hr hlt)

private def storedRow (runId createdAt : String) : RunRow where
  runId := runId
  threadId := "t"
  assistantId := none
  status := some "success"
  onDisconnect := none
  multitaskStrategy := none
  metadata := none
  kwargs := none
  userId := none
  createdAt := some createdAt
  updatedAt := none
  error := none
  modelName := none
  usage := {}

private def storedRows : List RunRow :=
  [storedRow "a" "1", storedRow "b" "2", storedRow "c" "3"]

private def storeQuery : RunRowQuery := fun _ _ k => some (newest RunRow.created k storedRows)

/-- The run `c` was created in this process, and its row is stored; the others are older. -/
private def listingScript : List (Registry → RegistryEvent) :=
  [fun _ => .create { threadId := "t" } "c" "3", fun _ => .written []]

private theorem listing_run (p : Registry → Bool)
    (h : (runScript RegistryEvent.step .empty listingScript).any p = true) :
    ∃ c, Reachable registry c ∧ p c = true := exists_reachable_of_runScript listingScript h

/-- With a limit of one run the newest is in memory, and it is listed. -/
theorem newest_run_listed : ∃ c : Registry, Reachable registry c ∧
    c.manager.listByThread (some storeQuery) "t" none 1 =
      newest RunRecord.createdAt 1 (c.manager.threadRuns storedRows "t") := by
  obtain ⟨c, hc, h⟩ := listing_run (fun c => decide
    (((c.manager.threadRuns storedRows "t").map RunRecord.createdAt).Nodup ∧
      ∀ row ∈ storedRows, ∀ r ∈ c.manager.storeOnly "t" row,
        (newer RunRecord.createdAt (c.manager.threadRuns storedRows "t") r).length < 1 →
          (newer RunRow.created storedRows row).length <
            1 - (c.manager.threadRecords "t").length)) (by decide +kernel)
  obtain ⟨hruns, hall⟩ := of_decide_eq_true h
  exact ⟨c, hc, (newest_runs_listed_iff hc (fun _ => rfl) (by decide) (by decide) hruns 1).mpr
    hall⟩

/-- Asked for two runs, the store is asked for one, which is the one in memory. -/
theorem second_run_not_listed : ∃ c : Registry, Reachable registry c ∧
    (∀ r ∈ c.manager.threadRecords "t", ∃ row ∈ storedRows, row.runId = r.runId) ∧
      (c.manager.listByThread (some storeQuery) "t" none 2).map (·.runId) = ["c"] ∧
        (newest RunRecord.createdAt 2 (c.manager.threadRuns storedRows "t")).map (·.runId) =
          ["c", "b"] := by
  obtain ⟨c, hc, h⟩ := listing_run (fun c => decide
    ((∀ r ∈ c.manager.threadRecords "t", ∃ row ∈ storedRows, row.runId = r.runId) ∧
      (c.manager.listByThread (some storeQuery) "t" none 2).map (·.runId) = ["c"] ∧
        (newest RunRecord.createdAt 2 (c.manager.threadRuns storedRows "t")).map (·.runId) =
          ["c", "b"])) (by decide +kernel)
  exact ⟨c, hc, of_decide_eq_true h⟩

end Runs

end DeerFlow.Runtime
