import DeerFlow.Persistence.ThreadStores

/-! The two stores keep the same threads, and give the same answers only as long as there is
none. What `get` of the key-value store returns has a field more than a row has, and its search
reads a metadata filter as one on the fields of the thread itself. -/

namespace DeerFlow.Persistence
open Transition

section Property

/-- Two answers of `get` that a caller cannot tell apart by `==`. -/
def SameAnswer : Option (Dict Value) → Option (Dict Value) → Prop
  | none, none => True
  | some d, some e => Value.eq (.dict d) (.dict e) = true
  | _, _ => False

/-- A filter with distinct keys in `[A-Za-z0-9_-]+` and integers of 64 bits. -/
structure SearchArgs.Valid (q : SearchArgs) : Prop where
  nodup : q.metadata.keys.Nodup
  keys : ∀ item ∈ q.metadata, item.1.toList ≠ [] ∧ ∀ c ∈ item.1.toList, filterKeyChar c = true
  values : ∀ item ∈ q.metadata, validateMetadataFilterValue item.2 = true

namespace ThreadStores
variable (order : MemoryThreadMetaStore.ItemOrder)

def searchSql (s : ThreadStores) (q : SearchArgs) : Except String (List String) :=
  (ThreadMetaRepository.search s.sql q).map fun rows => rows.map (·.threadId)

def searchMemory (s : ThreadStores) (q : SearchArgs) : List String :=
  (MemoryThreadMetaStore.search order s.memory q).keys

structure Agree (s : ThreadStores) : Prop where
  get : ∀ threadId user, SameAnswer (ThreadMetaRepository.get s.sql threadId user)
    (MemoryThreadMetaStore.get s.memory threadId user)
  access : ∀ threadId user requireExisting,
    ThreadMetaRepository.checkAccess s.sql threadId user requireExisting =
      MemoryThreadMetaStore.checkAccess s.memory threadId user requireExisting
  search : ∀ q : SearchArgs, q.Valid → s.searchSql q = .ok (s.searchMemory order q)

end ThreadStores

end Property

section Records
variable {r : ThreadMetaRow} {t : ThreadMetaRepository.Rows}

/-- The dictionary that the key-value store keeps for the thread of a row. -/
def ThreadMetaRow.toRecord (r : ThreadMetaRow) : Dict Value :=
  [("thread_id", .str r.threadId), ("assistant_id", optionalText r.assistantId),
    ("user_id", optionalText r.userId), ("display_name", optionalText r.displayName),
    ("status", .str r.status), ("metadata", .dict r.metadataJson), ("values", .dict []),
    ("created_at", .str r.createdAt.isoformat), ("updated_at", .str r.updatedAt.isoformat)]

def ThreadMetaRow.toItem (r : ThreadMetaRow) : String × Dict Value := (r.threadId, r.toRecord)

theorem validKey {key : String}
    (h : key.toList ≠ [] ∧ ∀ c ∈ key.toList, filterKeyChar c = true) :
    validateMetadataFilterKey key = true := by
  have hlast : key.toList.getLast? ≠ some '\n' := by
    intro hnewline
    exact absurd (h.2 _ (List.mem_of_getLast? hnewline)) (by decide)
  unfold validateMetadataFilterKey
  simp only [hlast, if_false]
  rw [Bool.and_eq_true, List.all_eq_true]
  refine ⟨?_, h.2⟩
  simpa using h.1

theorem SearchArgs.Valid.applied {q : SearchArgs} (h : q.Valid) :
    (q.metadata.filter fun item => validateMetadataFilterKey item.1 &&
      validateMetadataFilterValue item.2) = q.metadata := by
  rw [List.filter_eq_self]
  intro item hitem
  rw [Bool.and_eq_true]
  exact ⟨validKey (h.keys item hitem), h.values item hitem⟩

theorem optionalText_inj {a b : Option String} (h : optionalText a = optionalText b) : a = b := by
  cases a with
  | none =>
    cases b with
    | none => rfl
    | some y => cases h
  | some x =>
    cases b with
    | none => cases h
    | some y => rw [Value.str.inj h]

theorem get_user_id (r : ThreadMetaRow) : r.toRecord.get "user_id" = some (optionalText r.userId) := by
  simp [ThreadMetaRow.toRecord, Dict.get_cons]

theorem setColumn_toRecord (r : ThreadMetaRow) (c : Column) (now : DateTime) :
    MemoryThreadMetaStore.setColumn r.toRecord c now = (r.setColumn c now).toRecord := by
  cases c <;> simp [MemoryThreadMetaStore.setColumn, ThreadMetaRow.toRecord,
    ThreadMetaRow.setColumn, Dict.set, upsert, optionalText]

theorem setMetadata_toRecord (r : ThreadMetaRow) (metadata : Dict Value) (now : DateTime) :
    MemoryThreadMetaStore.setMetadata r.toRecord metadata now =
      (r.setMetadata (r.metadataJson.update metadata) now).toRecord := by
  simp [MemoryThreadMetaStore.setMetadata, ThreadMetaRow.toRecord, ThreadMetaRow.setMetadata,
    Dict.get_cons, Dict.set, upsert]

theorem get_toItem (t : ThreadMetaRepository.Rows) (threadId : String) :
    Dict.get (t.rows.map (·.toItem)) threadId = (t.get threadId).map (·.toRecord) := by
  unfold Dict.get Table.get
  rw [List.find?_map, Option.map_map]
  rfl

theorem set_toItem (t : ThreadMetaRepository.Rows) (r : ThreadMetaRow) :
    Dict.set (t.rows.map (·.toItem)) r.threadId r.toRecord = (t.put r).rows.map (·.toItem) := by
  have hkey : ∀ r : ThreadMetaRow, r.toItem.1 = r.threadId := fun _ => rfl
  have hmap := map_upsert ThreadMetaRow.threadId Prod.fst hkey r t.rows
  exact hmap.symm

theorem pop_toItem (t : ThreadMetaRepository.Rows) (threadId : String) :
    Dict.pop (t.rows.map (·.toItem)) threadId = (t.erase threadId).rows.map (·.toItem) := by
  unfold Dict.pop Table.erase
  rw [List.filter_map]
  rfl

theorem getOwnedRecord_toItem (t : ThreadMetaRepository.Rows) (threadId : String)
    (user : Option String) :
    MemoryThreadMetaStore.getOwnedRecord (t.rows.map (·.toItem)) threadId user =
      (ThreadMetaRepository.getOwned (t.get threadId) user).map (·.toRecord) := by
  unfold MemoryThreadMetaStore.getOwnedRecord ThreadMetaRepository.getOwned
  rw [get_toItem]
  rcases t.get threadId with _ | r
  · rfl
  · rw [Option.map_some]
    simp only [get_user_id]
    by_cases hown : r.ownedBy user = true
    · have howned : user = none ∨ r.userId = user := by
        simpa [ThreadMetaRow.ownedBy] using hown
      rw [Option.filter_some, if_pos hown, Option.map_some, if_neg]
      rintro ⟨hne, hother⟩
      rcases howned with rfl | rfl
      · exact hne rfl
      · exact hother rfl
    · have hother : user ≠ none ∧ r.userId ≠ user := by
        simpa [ThreadMetaRow.ownedBy] using hown
      rw [Option.filter_some, if_neg hown, Option.map_none, if_pos]
      refine ⟨hother.1, fun hsame => hother.2 ?_⟩
      exact optionalText_inj (Option.some.inj hsame)

end Records

namespace ThreadStores
variable {s t : ThreadStores} {event : ThreadMetaCall × DateTime}
variable {order : MemoryThreadMetaStore.ItemOrder}

/-- The key-value store has, in the same order, the item of each row. -/
def Mirrored (s : ThreadStores) : Prop := s.memory = s.sql.rows.map (·.toItem)

section Steps
variable {rows : ThreadMetaRepository.Rows} {threadId : String} {user : Option String}

theorem put_update {f : ThreadMetaRow → ThreadMetaRow} {r : ThreadMetaRow}
    (hr : rows.get threadId = some r) (hf : (f r).threadId = r.threadId) :
    Dict.set (rows.rows.map (·.toItem)) threadId (f r).toRecord =
      (rows.update threadId f).rows.map (·.toItem) := by
  have hid : (f r).threadId = threadId := hf.trans (Table.key_of_get hr)
  rw [Table.update, hr, ← set_toItem, hid]

theorem row_of_owned {r : ThreadMetaRow}
    (h : ThreadMetaRepository.getOwned (rows.get threadId) user = some r) :
    rows.get threadId = some r := (Option.filter_eq_some_iff.mp h).1

theorem memory_create (args : ThreadMetaArgs) (now : DateTime) :
    MemoryThreadMetaStore.create (rows.rows.map (·.toItem)) threadId args now =
      (rows.put (.create threadId args now)).rows.map (·.toItem) := by
  rw [← set_toItem]
  rfl

/-- A write that the ownership check lets through finds the row in both stores. -/
theorem memory_updateColumn (column : Column) (now : DateTime) :
    MemoryThreadMetaStore.call (rows.rows.map (·.toItem)) now
        (.updateColumn threadId column user) =
      (if ThreadMetaRepository.checkOwnership (rows.get threadId) user then
        rows.update threadId fun r => r.setColumn column now else rows).rows.map (·.toItem) := by
  rw [MemoryThreadMetaStore.call, getOwnedRecord_toItem]
  rcases howned : ThreadMetaRepository.getOwned (rows.get threadId) user with _ | r
  · -- the bypassed check looks at no row, and then there is none to update
    have hsame : (if ThreadMetaRepository.checkOwnership (rows.get threadId) user = true then
        rows.update threadId fun r => r.setColumn column now else rows) = rows := by
      split_ifs with hcheck
      · have huser : user = none := by
          simpa [ThreadMetaRepository.checkOwnership, howned] using hcheck
        subst huser
        have hrow : rows.get threadId = none := by
          rcases hrow : rows.get threadId with _ | r
          · rfl
          · rw [hrow] at howned
            cases howned
        rw [Table.update, hrow]
      · rfl
    rw [hsame]
    rfl
  · have hcheck : ThreadMetaRepository.checkOwnership (rows.get threadId) user = true := by
      simp [ThreadMetaRepository.checkOwnership, howned]
    rw [if_pos hcheck, Option.map_some]
    simp only [setColumn_toRecord]
    exact put_update (f := fun r => r.setColumn column now) (row_of_owned howned)
      (ThreadMetaRow.setColumn_threadId r column now)

theorem mirrored_step (h : s.Mirrored) (ht : s.step event = some t) : t.Mirrored := by
  obtain ⟨call, now⟩ := event
  obtain ⟨sql, memory⟩ := s
  change memory = sql.rows.map (·.toItem) at h
  subst h
  obtain ⟨next, hnext, rfl⟩ := Option.map_eq_some_iff.mp ht
  unfold Mirrored
  cases call with
  | create threadId args =>
    simp only [ThreadMetaRepository.call] at hnext
    split at hnext
    · cases hnext
    · cases hnext
      exact memory_create args now
  | updateColumn threadId column user =>
    have hrows : next = if ThreadMetaRepository.checkOwnership (sql.get threadId) user then
        sql.update threadId fun r => r.setColumn column now else sql := by
      simp only [ThreadMetaRepository.call] at hnext
      split_ifs at hnext with hcheck
      · rw [if_pos hcheck, ← Option.some.inj hnext]
      · rw [if_neg hcheck, ← Option.some.inj hnext]
    subst hrows
    exact memory_updateColumn column now
  | updateMetadata threadId metadata user =>
    simp only [ThreadMetaRepository.call, ThreadMetaRepository.readMetadata] at hnext
    simp only [MemoryThreadMetaStore.call, getOwnedRecord_toItem]
    rcases howned : ThreadMetaRepository.getOwned (sql.get threadId) user with _ | r
    · rw [howned] at hnext
      cases hnext
      rfl
    · rw [howned] at hnext
      cases hnext
      simp only [Option.map_some, setMetadata_toRecord]
      exact put_update (f := fun x => x.setMetadata (r.metadataJson.update metadata) now)
        (row_of_owned howned) (ThreadMetaRow.setMetadata_threadId r _ now)
  | delete threadId user =>
    simp only [ThreadMetaRepository.call] at hnext
    simp only [MemoryThreadMetaStore.call, getOwnedRecord_toItem]
    rcases howned : ThreadMetaRepository.getOwned (sql.get threadId) user with _ | r
    · rw [howned] at hnext
      cases hnext
      rfl
    · rw [howned] at hnext
      cases hnext
      exact pop_toItem sql threadId

theorem mirrored (h : Reachable threadStores s) : s.Mirrored := by
  refine h.invariant (I := Mirrored) ?_ ?_
  · rintro s rfl
    rfl
  · intro s event t _ hs ht
    exact mirrored_step hs ht

end Steps

section Answers

theorem access_agrees (h : s.Mirrored) (threadId user : String) (requireExisting : Bool) :
    ThreadMetaRepository.checkAccess s.sql threadId user requireExisting =
      MemoryThreadMetaStore.checkAccess s.memory threadId user requireExisting := by
  unfold ThreadMetaRepository.checkAccess MemoryThreadMetaStore.checkAccess
  rw [show s.memory = _ from h, get_toItem]
  rcases s.sql.get threadId with _ | r
  · rfl
  · simp only [Option.map_some, get_user_id]
    cases howner : r.userId with
    | none => rfl
    | some owner => simp [optionalText]

theorem get_memory (h : s.Mirrored) (threadId : String) (user : Option String) :
    MemoryThreadMetaStore.get s.memory threadId user =
      (ThreadMetaRepository.getOwned (s.sql.get threadId) user).map (·.toRecord) := by
  rw [show s.memory = _ from h]
  exact getOwnedRecord_toItem s.sql threadId user

/-- The field `values` makes the difference. -/
theorem ne_toRecord (r : ThreadMetaRow) :
    ¬ SameAnswer (some (ThreadMetaRepository.rowToDict r)) (some r.toRecord) := by
  have hlength (d e : Dict Value) (h : SameAnswer (some d) (some e)) : d.length = e.length := by
    rw [SameAnswer, Value.eq.eq_def] at h
    simp only [Bool.and_eq_true, decide_eq_true_eq] at h
    exact h.1
  intro h
  have hne : (8 : Nat) = 9 := hlength _ _ h
  exact absurd hne (by decide)

/-- A thread that is stored is one of which `get` answers differently. -/
theorem get_differs (h : s.Mirrored) {r : ThreadMetaRow} (hr : r ∈ s.sql.rows) :
    ¬ SameAnswer (ThreadMetaRepository.get s.sql r.threadId none)
      (MemoryThreadMetaStore.get s.memory r.threadId none) := by
  have hrow : ThreadMetaRepository.getOwned (s.sql.get r.threadId) none = some r := by
    rw [Table.mem_rows.mp hr]
    rfl
  rw [get_memory h, ThreadMetaRepository.get, hrow]
  exact ne_toRecord r

theorem agree_of_empty (h : s.Mirrored) (hrows : s.sql.rows = []) : s.Agree order := by
  have hmemory : s.memory = [] := by rw [show s.memory = _ from h, hrows, List.map_nil]
  have hget (threadId : String) : s.sql.get threadId = none := by
    unfold Table.get
    rw [hrows, List.find?_nil]
  refine ⟨?_, access_agrees h, ?_⟩
  · intro threadId user
    rw [get_memory h, ThreadMetaRepository.get, hget]
    exact trivial
  · intro q hq
    have hlist : order.list s.memory = [] := by
      rw [hmemory]
      exact List.perm_nil.mp (order.perm [])
    have hsql : ThreadMetaRepository.search s.sql q = .ok [] := by
      unfold ThreadMetaRepository.search
      simp only [hq.applied]
      rw [if_neg fun hbad => hbad.1 hbad.2, hrows]
      simp only [List.filter_nil, List.insertionSort_nil, List.drop_nil, List.take_nil]
      rfl
    unfold searchSql searchMemory MemoryThreadMetaStore.search
    rw [hsql, hlist, List.filter_nil, List.drop_nil, List.take_nil]
    rfl

end Answers

section Searches

/-- A filter that the nested metadata of the row does not meet. -/
def otherStatus (r : ThreadMetaRow) : String :=
  match r.metadataJson.get "status" with
  | some (.str text) => text ++ "x"
  | _ => ""

theorem jsonMatch_otherStatus (r : ThreadMetaRow) :
    jsonMatch (r.metadataJson.get "status") (.str (otherStatus r)) = false := by
  unfold otherStatus
  split
  · next text hget =>
    have hne : text ≠ text ++ "x" := by
      intro he
      have hlength := congrArg String.length he
      rw [String.length_append] at hlength
      exact absurd hlength (by simp)
    rw [hget]
    exact decide_eq_false hne
  · next hget =>
    rcases hstored : r.metadataJson.get "status" with _ | v
    · rfl
    · cases v with
      | str text => exact absurd hstored (hget text)
      | none | bool | int | float | list | dict => rfl

/-- The search for the status of a thread together with a `status` in its metadata. -/
def statusSearch (s : ThreadStores) (r : ThreadMetaRow) : SearchArgs where
  metadata := [("status", .str (otherStatus r))]
  status := some r.status
  limit := s.memory.length
  offset := 0
  user := none

theorem statusSearch_valid (r : ThreadMetaRow) : (s.statusSearch r).Valid := by
  refine ⟨by simp [statusSearch, Dict.keys], ?_, ?_⟩
  · intro item hitem
    obtain rfl := List.mem_singleton.mp hitem
    have hkey : "status".toList ≠ [] ∧ ∀ c ∈ "status".toList, filterKeyChar c = true :=
      ⟨by decide, List.all_eq_true.mp (by decide)⟩
    exact hkey
  · intro item hitem
    obtain rfl := List.mem_singleton.mp hitem
    rfl

/-- The row does not have that status in its metadata. -/
theorem searchSql_statusSearch {r : ThreadMetaRow} (hr : r ∈ s.sql.rows) {ids : List String}
    (h : s.searchSql (s.statusSearch r) = .ok ids) : r.threadId ∉ ids := by
  unfold searchSql ThreadMetaRepository.search at h
  simp only [(statusSearch_valid r).applied] at h
  rw [if_neg fun hbad => hbad.1 hbad.2] at h
  intro hmem
  cases h
  obtain ⟨r', hr', hid⟩ := List.mem_map.mp hmem
  have hr' := List.mem_of_mem_drop (List.mem_of_mem_take hr')
  rw [List.mem_insertionSort, List.mem_filter, Bool.and_eq_true] at hr'
  have hsame : r' = r := List.inj_on_of_nodup_map s.sql.nodup hr'.1 hr hid
  subst hsame
  have hfits := hr'.2.2
  simp [ThreadMetaRepository.matchesFilter, statusSearch, jsonMatch_otherStatus] at hfits

/-- The status takes the place of the metadata filter's entry. -/
theorem searchMemory_statusSearch (h : s.Mirrored) {r : ThreadMetaRow} (hr : r ∈ s.sql.rows)
    (hstatus : r.status ≠ "") : r.threadId ∈ s.searchMemory order (s.statusSearch r) := by
  have hfilter : MemoryThreadMetaStore.filterDict (s.statusSearch r) =
      [("status", .str r.status)] := by
    simp [MemoryThreadMetaStore.filterDict, SearchArgs.statusFilter, statusSearch,
      Option.filter_some, hstatus, Dict.set, upsert]
  have hfits : MemoryThreadMetaStore.matchesFilter [("status", .str r.status)] r.toRecord = true := by
    simp [MemoryThreadMetaStore.matchesFilter, ThreadMetaRow.toRecord, Dict.get_cons, Value.eq]
  have hitem : r.toItem ∈ order.list s.memory := by
    rw [(order.perm s.memory).mem_iff, show s.memory = _ from h]
    exact List.mem_map_of_mem hr
  have hshort : ((order.list s.memory).filter fun item =>
      MemoryThreadMetaStore.matchesFilter [("status", .str r.status)] item.2).length ≤
        s.memory.length :=
    (List.length_filter_le _ _).trans_eq (order.perm s.memory).length_eq
  unfold searchMemory MemoryThreadMetaStore.search
  rw [hfilter, show (s.statusSearch r).offset = 0 from rfl, List.drop_zero,
    show (s.statusSearch r).limit = s.memory.length from rfl, List.take_of_length_le hshort]
  refine List.mem_map.mpr ⟨r.toItem, ?_, rfl⟩
  exact List.mem_filter.mpr ⟨hitem, hfits⟩

end Searches

end ThreadStores

section Runs
variable {order : MemoryThreadMetaStore.ItemOrder} {s : ThreadStores}

theorem thread_stores_agree_iff (h : Reachable threadStores s) :
    s.Agree order ↔ s.sql.rows = [] := by
  have hmirrored := ThreadStores.mirrored h
  constructor
  · intro hagree
    rw [List.eq_nil_iff_forall_not_mem]
    intro r hr
    exact ThreadStores.get_differs hmirrored hr (hagree.get r.threadId none)
  · exact ThreadStores.agree_of_empty hmirrored

/-- The searches disagree as well, whatever order the key-value store has: by its status and a
metadata entry `status` only the memory store finds a thread. -/
theorem searches_differ (h : Reachable threadStores s) {r : ThreadMetaRow} (hr : r ∈ s.sql.rows)
    (hstatus : r.status ≠ "") :
    ∃ q : SearchArgs, q.Valid ∧ q.status = some r.status ∧ q.metadata.keys = ["status"] ∧
      r.threadId ∈ s.searchMemory order q ∧ s.searchSql q ≠ .ok (s.searchMemory order q) := by
  have hfound : r.threadId ∈ s.searchMemory order (s.statusSearch r) :=
    ThreadStores.searchMemory_statusSearch (ThreadStores.mirrored h) hr hstatus
  refine ⟨s.statusSearch r, ThreadStores.statusSearch_valid r, rfl, rfl, hfound, fun hsame => ?_⟩
  exact ThreadStores.searchSql_statusSearch hr hsame hfound

private def morning : DateTime := ⟨2026, 1, 2, 9, 30, 0, 0⟩

private def creationOf (threadId : String) : ThreadMetaCall × DateTime :=
  (.create threadId ⟨none, some "alice", none, some [("env", .str "prod")]⟩, morning)

private def insertionOrder : MemoryThreadMetaStore.ItemOrder where
  list items := items
  perm items := .refl items

/-- A thread is created, renamed and deleted again. -/
theorem thread_stores_agree_deleted : ∃ s : ThreadStores, Reachable threadStores s ∧
    s.Agree insertionOrder := by
  have hrun : (runScript ThreadStores.step .init ([creationOf "t",
      (.updateColumn "t" (.displayName "x") (some "alice"), morning),
      (.delete "t" (some "alice"), morning)].map fun event _ => event)).any
        (fun s => decide (s.sql.rows = [])) = true := by
    decide +kernel
  obtain ⟨s, hs, h⟩ := exists_reachable_of_decide _ hrun
  exact ⟨s, hs, (thread_stores_agree_iff hs).mpr h⟩

theorem searches_differ_created : ∃ s : ThreadStores, Reachable threadStores s ∧
    ∃ r ∈ s.sql.rows, ∃ q : SearchArgs, q.Valid ∧ q.status = some r.status ∧
      q.metadata.keys = ["status"] ∧ r.threadId ∈ s.searchMemory insertionOrder q ∧
        s.searchSql q ≠ .ok (s.searchMemory insertionOrder q) := by
  have hrun : (runScript ThreadStores.step .init ([creationOf "t"].map fun event _ => event)).any
      (fun s => s.sql.rows.any fun r => decide (r.status ≠ "")) = true := by
    decide +kernel
  obtain ⟨s, hs, h⟩ := exists_reachable_of_runScript _ hrun
  obtain ⟨r, hr, hstatus⟩ := List.any_eq_true.mp h
  exact ⟨s, hs, r, hr, searches_differ hs hr (of_decide_eq_true hstatus)⟩

/-- The thread's metadata has the environment that is searched for, and only the SQL search finds
it; nor do the two `get` return the same. -/
theorem thread_stores_differ : ∃ s : ThreadStores, Reachable threadStores s ∧
    (∃ q : SearchArgs, q.Valid ∧ s.searchSql q = .ok ["t"] ∧
      s.searchMemory insertionOrder q = []) ∧ ¬ s.Agree insertionOrder := by
  have hrun : (runScript ThreadStores.step .init ([creationOf "t"].map fun event _ => event)).any
      (fun s => decide ((s.searchSql ⟨[("env", .str "prod")], none, 100, 0, none⟩).toOption =
        some ["t"] ∧ s.searchMemory insertionOrder ⟨[("env", .str "prod")], none, 100, 0, none⟩ =
          [])) = true := by
    decide +kernel
  obtain ⟨s, hs, hsql, hmemory⟩ := exists_reachable_of_decide _ hrun
  have hok : s.searchSql ⟨[("env", .str "prod")], none, 100, 0, none⟩ = .ok ["t"] := by
    rcases hsearch : s.searchSql ⟨[("env", .str "prod")], none, 100, 0, none⟩ with e | ids
    · rw [hsearch] at hsql
      cases hsql
    · rw [hsearch] at hsql
      rw [Option.some.inj hsql]
  have hvalid : (⟨[("env", .str "prod")], none, 100, 0, none⟩ : SearchArgs).Valid := by
    refine ⟨by decide, ?_, ?_⟩
    · intro item hitem
      obtain rfl := List.mem_singleton.mp hitem
      exact ⟨by decide, List.all_eq_true.mp (by decide)⟩
    · intro item hitem
      obtain rfl := List.mem_singleton.mp hitem
      rfl
  refine ⟨s, hs, ⟨_, hvalid, hok, hmemory⟩, fun hagree => ?_⟩
  have hsame := hagree.search _ hvalid
  rw [hok, hmemory] at hsame
  cases hsame

end Runs

end DeerFlow.Persistence
