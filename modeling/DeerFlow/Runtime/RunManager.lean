import DeerFlow.Lib.GroupIndex
import DeerFlow.Lib.Transition
import DeerFlow.Runtime.Value

/-! The in-memory run registry: the records of `RunManager`, their index by
thread, and what each method does to them while it holds the lock. -/

namespace DeerFlow.Runtime

inductive RunStatus where
  | pending
  | running
  | success
  | error
  | timeout
  | interrupted
  deriving DecidableEq

inductive DisconnectMode where
  | cancel
  | continue_
  deriving DecidableEq

/-- What becomes of the checkpoint of a run that is aborted. -/
inductive AbortAction where
  | interrupt
  | rollback
  deriving DecidableEq

inductive MultitaskStrategy where
  | reject
  | interrupt
  | rollback
  /-- A name that `create_or_reject` does not know, such as `enqueue`. -/
  | unsupported (name : String)
  deriving DecidableEq

/-- What a strategy does to the runs in its way. -/
def MultitaskStrategy.aborts : MultitaskStrategy → Option AbortAction
  | .interrupt => some .interrupt
  | .rollback => some .rollback
  | .reject | .unsupported _ => none

structure RunUsage where
  totalInputTokens : Int
  totalOutputTokens : Int
  totalTokens : Int
  llmCallCount : Int
  leadAgentTokens : Int
  subagentTokens : Int
  middlewareTokens : Int
  tokenUsageByModel : Dict (Dict Int)
  messageCount : Int
  lastAiMessage : Option String
  firstHumanMessage : Option String
  deriving DecidableEq

def RunUsage.zero : RunUsage := ⟨0, 0, 0, 0, 0, 0, 0, [], 0, none, none⟩

/-- The keyword arguments of `update_run_progress`; `None` leaves a field alone. -/
structure UsageUpdate where
  totalInputTokens : Option Int := none
  totalOutputTokens : Option Int := none
  totalTokens : Option Int := none
  llmCallCount : Option Int := none
  leadAgentTokens : Option Int := none
  subagentTokens : Option Int := none
  middlewareTokens : Option Int := none
  tokenUsageByModel : Option (Dict (Dict Int)) := none
  messageCount : Option Int := none
  lastAiMessage : Option String := none
  firstHumanMessage : Option String := none

def RunUsage.update (u : RunUsage) (kwargs : UsageUpdate) : RunUsage where
  totalInputTokens := kwargs.totalInputTokens.getD u.totalInputTokens
  totalOutputTokens := kwargs.totalOutputTokens.getD u.totalOutputTokens
  totalTokens := kwargs.totalTokens.getD u.totalTokens
  llmCallCount := kwargs.llmCallCount.getD u.llmCallCount
  leadAgentTokens := kwargs.leadAgentTokens.getD u.leadAgentTokens
  subagentTokens := kwargs.subagentTokens.getD u.subagentTokens
  middlewareTokens := kwargs.middlewareTokens.getD u.middlewareTokens
  tokenUsageByModel := kwargs.tokenUsageByModel.getD u.tokenUsageByModel
  messageCount := kwargs.messageCount.getD u.messageCount
  lastAiMessage := kwargs.lastAiMessage.or u.lastAiMessage
  firstHumanMessage := kwargs.firstHumanMessage.or u.firstHumanMessage

/-- The arguments of `create` and `create_or_reject` that go into the record as they are. -/
structure NewRun where
  threadId : String
  assistantId : Option String := none
  onDisconnect : DisconnectMode := .cancel
  metadata : Dict Value := []
  kwargs : Dict Value := []
  multitaskStrategy : MultitaskStrategy := .reject
  modelName : Option String := none
  userId : Option String := none

/-- The task of a run is kept beside its record, by whoever runs it. -/
structure RunRecord where
  runId : String
  threadId : String
  assistantId : Option String
  status : RunStatus
  onDisconnect : DisconnectMode
  multitaskStrategy : MultitaskStrategy
  metadata : Dict Value
  kwargs : Dict Value
  userId : Option String
  createdAt : String
  updatedAt : String
  abortEvent : Bool
  abortAction : AbortAction
  error : Option String
  modelName : Option String
  usage : RunUsage
  finalizing : Bool
  deriving DecidableEq

namespace RunRecord

def new (args : NewRun) (runId now : String) : RunRecord where
  runId := runId
  threadId := args.threadId
  assistantId := args.assistantId
  status := .pending
  onDisconnect := args.onDisconnect
  multitaskStrategy := args.multitaskStrategy
  metadata := args.metadata
  kwargs := args.kwargs
  userId := args.userId
  createdAt := now
  updatedAt := now
  abortEvent := false
  abortAction := .interrupt
  error := none
  modelName := args.modelName
  usage := .zero
  finalizing := false

/-- `status in (RunStatus.pending, RunStatus.running)`. -/
def Busy (r : RunRecord) : Prop := r.status = .pending ∨ r.status = .running

instance (r : RunRecord) : Decidable r.Busy := inferInstanceAs (Decidable (_ ∨ _))

def Inflight (r : RunRecord) : Prop := r.Busy ∨ r.finalizing = true

instance (r : RunRecord) : Decidable r.Inflight := inferInstanceAs (Decidable (_ ∨ _))

/-- Abort a run whose task, if `taskActive`, is cancelled with it. -/
def abort (r : RunRecord) (action : AbortAction) (taskActive : Bool) (now : String) : RunRecord :=
  { r with
    abortAction := action, abortEvent := true, finalizing := taskActive
    status := .interrupted, updatedAt := now }

end RunRecord

inductive CreateError where
  | conflict (message : String)
  | unsupportedStrategy (message : String)
  /-- The store raised, or the call was cancelled. -/
  | notPersisted
  | cancelled
  deriving DecidableEq

structure RunManager where
  runs : Dict RunRecord
  runsByThread : GroupIndex String String
  deriving DecidableEq

namespace RunManager

def empty : RunManager := ⟨[], []⟩

def indexRun (m : RunManager) (record : RunRecord) : RunManager :=
  { m with runsByThread := m.runsByThread.add record.threadId record.runId }

def unindexRun (m : RunManager) (runId threadId : String) : RunManager :=
  { m with runsByThread := m.runsByThread.remove threadId runId }

def threadRecords (m : RunManager) (threadId : String) : List RunRecord :=
  ((m.runsByThread.bucket? threadId).getD []).filterMap fun runId => m.runs.get runId

def insert (m : RunManager) (record : RunRecord) : RunManager :=
  indexRun { m with runs := m.runs.set record.runId record } record

/-- `_runs.pop(run_id)` and, if it was there, out of the index. -/
def drop (m : RunManager) (runId : String) : RunManager :=
  match m.runs.get runId with
  | none => m
  | some record => unindexRun { m with runs := m.runs.pop runId } runId record.threadId

/-- The record under `runId` changes in place. -/
def modify (m : RunManager) (runId : String) (f : RunRecord → RunRecord) : RunManager :=
  match m.runs.get runId with
  | none => m
  | some record => { m with runs := m.runs.set runId (f record) }

/-- The check of `create_or_reject` on a thread, and the runs in flight that it may have to
abort. -/
def admission (m : RunManager) (args : NewRun) : Except CreateError (List String) :=
  let inflight := (m.threadRecords args.threadId).filter fun r => r.Inflight
  match args.multitaskStrategy with
  | .unsupported name => .error (.unsupportedStrategy
      ("Multitask strategy '" ++ name ++ "' is not yet supported. " ++
        "Supported strategies: reject, interrupt, rollback"))
  | .reject =>
    if inflight.isEmpty then .ok []
    else .error (.conflict ("Thread " ++ args.threadId ++ " already has an active run"))
  | .interrupt | .rollback => .ok (inflight.map RunRecord.runId)

/-- The runs among `inflight` that an admission aborts, once the new run is stored. -/
def abortable (m : RunManager) (inflight : List String) : List String :=
  inflight.filter fun runId => (m.runs.get runId).any fun r => !r.finalizing

def abortAll (m : RunManager) (action : AbortAction) (active : List String) (now : String)
    (runIds : List String) : RunManager :=
  runIds.foldl (fun m runId => m.modify runId fun r => r.abort action (active.contains runId) now) m

def setStatus (m : RunManager) (runId : String) (status : RunStatus) (error : Option String)
    (now : String) : RunManager :=
  m.modify runId fun r => { r with status := status, updatedAt := now, error := error.or r.error }

def setFinalizing (m : RunManager) (runId : String) (finalizing : Bool) (now : String) :
    RunManager :=
  m.modify runId fun r => { r with finalizing := finalizing, updatedAt := now }

def updateModelName (m : RunManager) (runId : String) (modelName : Option String)
    (now : String) : RunManager :=
  m.modify runId fun r => { r with modelName := modelName, updatedAt := now }

/-- Whether `cancel` aborts the run: one that is interrupted or has ended is left alone. -/
def cancels (m : RunManager) (runId : String) : Bool :=
  (m.runs.get runId).any fun r => r.Busy

def cancel (m : RunManager) (runId : String) (action : AbortAction) (taskActive : Bool)
    (now : String) : RunManager × Bool :=
  match m.runs.get runId with
  | none => (m, false)
  | some r =>
    if r.status = .interrupted then (m, true)
    else if r.Busy then (m.modify runId fun r => r.abort action taskActive now, true)
    else (m, false)

def updateRunCompletion (m : RunManager) (runId : String) (kwargs : UsageUpdate)
    (error : Option String) (now : String) : RunManager :=
  m.modify runId fun r =>
    { r with usage := r.usage.update kwargs, error := error.or r.error, updatedAt := now }

def updateRunProgress (m : RunManager) (runId : String) (kwargs : UsageUpdate)
    (now : String) : RunManager :=
  m.modify runId fun r =>
    if r.status = .running then { r with usage := r.usage.update kwargs, updatedAt := now } else r

/-- The records of the thread that stand before `runId`; all of them if it is not there. -/
def earlier (m : RunManager) (threadId runId : String) : List RunRecord :=
  (m.threadRecords threadId).takeWhile fun r => r.runId ≠ runId

/-- `wait_for_prior_finalizing` returns. -/
def priorFinalized (m : RunManager) (threadId runId : String) : Bool :=
  !(m.threadRecords threadId).any (fun r => r.runId = runId) ||
    !(m.earlier threadId runId).any fun r => r.finalizing

end RunManager

section Index
variable {m : RunManager} {runId : String}

/-- The index and the registry agree, and a record stands under its own id. -/
structure RunManager.Indexed (m : RunManager) : Prop where
  nodup : m.runs.keys.Nodup
  key : ∀ x ∈ m.runs, x.2.runId = x.1
  index : GroupIndex.Indexes RunRecord.threadId m.runs m.runsByThread

theorem RunManager.indexed_empty : RunManager.empty.Indexed := by
  refine ⟨List.nodup_nil, ?_, List.nodup_nil, fun _ => rfl⟩
  intro x hx
  cases hx

theorem RunManager.Indexed.threadRecords (h : m.Indexed) (threadId : String) :
    m.threadRecords threadId = m.runs.values.filter fun r => r.threadId = threadId := by
  unfold RunManager.threadRecords
  rw [h.index.keys]
  have hsome : ∀ x ∈ m.runs.filter (fun x => x.2.threadId = threadId), x ∈ m.runs :=
    fun x hx => (List.mem_filter.mp hx).1
  have hkeys := Dict.filterMap_get h.nodup hsome
  unfold Dict.values at hkeys ⊢
  rw [List.filter_map]
  exact hkeys

theorem RunManager.Indexed.runId_of_get (h : m.Indexed) {r : RunRecord}
    (hr : m.runs.get runId = some r) : r.runId = runId := by
  exact h.key (runId, r) (Dict.mem_of_get hr)

theorem RunManager.Indexed.get_of_mem (h : m.Indexed) {r : RunRecord} (hr : r ∈ m.runs.values) :
    m.runs.get r.runId = some r := by
  obtain ⟨x, hx, rfl⟩ := List.mem_map.mp hr
  rw [h.key x hx]
  exact Dict.get_of_mem h.nodup hx

theorem RunManager.Indexed.mem_threadRecords (h : m.Indexed) {r : RunRecord} {threadId : String} :
    r ∈ m.threadRecords threadId ↔ m.runs.get r.runId = some r ∧ r.threadId = threadId := by
  rw [h.threadRecords, List.mem_filter]
  constructor
  · rintro ⟨hr, hthread⟩
    exact ⟨h.get_of_mem hr, by simpa using hthread⟩
  · rintro ⟨hr, hthread⟩
    exact ⟨List.mem_map_of_mem (Dict.mem_of_get hr), by simpa using hthread⟩

theorem RunManager.Indexed.insert (h : m.Indexed) {record : RunRecord}
    (hnew : m.runs.get record.runId = none) : (m.insert record).Indexed := by
  have hfresh : record.runId ∉ m.runs.map Prod.fst := by
    intro hmem
    have hsome := Dict.mem_keys.mp hmem
    rw [hnew] at hsome
    cases hsome
  unfold RunManager.insert RunManager.indexRun
  refine ⟨nodup_upsert Prod.fst h.nodup, ?_, ?_⟩
  · intro x hx
    simp only [Dict.set_of_get_none hnew] at hx
    rcases List.mem_append.mp hx with hx | hx
    · exact h.key x hx
    · obtain rfl := List.mem_singleton.mp hx
      rfl
  · simp only [Dict.set_of_get_none hnew]
    exact h.index.add hfresh record

theorem RunManager.Indexed.drop (h : m.Indexed) (runId : String) : (m.drop runId).Indexed := by
  unfold RunManager.drop
  rcases hr : m.runs.get runId with _ | record
  · exact h
  · refine ⟨h.nodup.sublist (List.filter_sublist.map _), ?_, ?_⟩
    · intro x hx
      exact h.key x (List.mem_of_mem_filter hx)
    · exact h.index.remove h.nodup (Dict.mem_of_get hr)

theorem RunManager.Indexed.modify (h : m.Indexed) (runId : String) {f : RunRecord → RunRecord}
    (hf : ∀ r, (f r).runId = r.runId ∧ (f r).threadId = r.threadId) :
    (m.modify runId f).Indexed := by
  unfold RunManager.modify
  rcases hr : m.runs.get runId with _ | record
  · exact h
  · have hview : (m.runs.set runId (f record)).map (fun x => (x.1, x.2.threadId)) =
        m.runs.map fun x => (x.1, x.2.threadId) :=
      Dict.map_set_of_get hr (by rw [(hf record).2])
    refine ⟨?_, ?_, h.index.congr hview⟩
    · rw [Dict.keys_set_of_get hr]
      exact h.nodup
    · intro x hx
      have hmem : (x.1, x.2.runId) ∈ (m.runs.set runId (f record)).map fun x => (x.1, x.2.runId) :=
        List.mem_map_of_mem hx
      rw [Dict.map_set_of_get hr (by rw [(hf record).1])] at hmem
      obtain ⟨y, hy, heq⟩ := List.mem_map.mp hmem
      obtain ⟨h1, h2⟩ := Prod.mk.inj heq
      rw [← h1, ← h2]
      exact h.key y hy

/-- A new record that is dropped again leaves no trace. -/
theorem RunManager.Indexed.drop_insert (h : m.Indexed) {record : RunRecord}
    (hnew : m.runs.get record.runId = none) : (m.insert record).drop record.runId = m := by
  have hfresh : ∀ x ∈ m.runs, x.1 ≠ record.runId := by
    intro x hx he
    have hsome := Dict.mem_keys.mp (List.mem_map_of_mem hx : x.1 ∈ m.runs.keys)
    rw [he, hnew] at hsome
    cases hsome
  have hkey : record.runId ∉ groupKeys RunRecord.threadId m.runs record.threadId := by
    intro hmem
    obtain ⟨x, hx, he⟩ := List.mem_map.mp hmem
    exact hfresh x (List.mem_filter.mp hx).1 he
  have hpop : (m.runs.set record.runId record).pop record.runId = m.runs := by
    have hself : m.runs.filter (fun x => x.1 ≠ record.runId) = m.runs := by
      rw [List.filter_eq_self]
      intro x hx
      have hne := hfresh x hx
      simpa using hne
    unfold Dict.pop
    rw [Dict.set_of_get_none hnew, List.filter_append, hself]
    simp
  unfold RunManager.drop RunManager.insert RunManager.indexRun RunManager.unindexRun
  simp only [Dict.get_set_self, hpop, h.index.remove_add hkey]

end Index

section Records
variable {m : RunManager} {runId k : String} {f : RunRecord → RunRecord}

theorem RunManager.get_modify (m : RunManager) (runId k : String) (f : RunRecord → RunRecord) :
    (m.modify runId f).runs.get k =
      if k = runId then (m.runs.get runId).map f else m.runs.get k := by
  unfold RunManager.modify
  rcases hr : m.runs.get runId with _ | r
  · split_ifs with hk
    · rw [hk, hr, Option.map_none]
    · rfl
  · rw [Dict.get_set]
    rfl

theorem RunManager.get_modify_none (h : m.runs.get k = none) :
    (m.modify runId f).runs.get k = none := by
  rw [RunManager.get_modify]
  split_ifs with hk
  · rw [← hk, h, Option.map_none]
  · exact h

theorem RunManager.get_drop (m : RunManager) (runId k : String) :
    (m.drop runId).runs.get k = if k = runId then none else m.runs.get k := by
  unfold RunManager.drop
  rcases hr : m.runs.get runId with _ | record
  · split_ifs with hk
    · rw [hk, hr]
    · rfl
  · show (m.runs.pop runId).get k = _
    unfold Dict.pop
    rw [Dict.get_filter m.runs (fun key => decide (key ≠ runId)) k]
    by_cases hk : k = runId
    · simp [hk]
    · simp [hk]

theorem RunManager.cancel_fst (m : RunManager) (runId : String) (action : AbortAction)
    (taskActive : Bool) (now : String) :
    (m.cancel runId action taskActive now).1 =
      if m.cancels runId then m.modify runId fun r => r.abort action taskActive now else m := by
  unfold RunManager.cancel RunManager.cancels
  rcases m.runs.get runId with _ | r
  · rfl
  · simp only [Option.any_some]
    by_cases hi : r.status = .interrupted
    · have hbusy : ¬ r.Busy := by simp [RunRecord.Busy, hi]
      simp [hi, hbusy]
    · by_cases hb : r.Busy
      · simp [hi, hb]
      · simp [hi, hb]

/-- A thread turns a run away only while it has another one in flight. -/
theorem RunManager.inflight_of_conflict {args : NewRun} {message : String}
    (h : m.admission args = .error (.conflict message)) :
    ∃ r ∈ m.threadRecords args.threadId, r.Inflight := by
  unfold RunManager.admission at h
  rcases hs : args.multitaskStrategy with _ | _ | _ | name
  · rw [hs] at h
    simp only at h
    split_ifs at h with hempty
    obtain ⟨r, hr⟩ := List.exists_mem_of_ne_nil _ (mt List.isEmpty_iff.mpr hempty)
    obtain ⟨hmem, hflight⟩ := List.mem_filter.mp hr
    exact ⟨r, hmem, of_decide_eq_true hflight⟩
  · rw [hs] at h
    cases h
  · rw [hs] at h
    cases h
  · rw [hs] at h
    cases h

theorem RunManager.finalizing_of_waiting {threadId : String}
    (h : m.priorFinalized threadId runId = false) :
    ∃ r ∈ m.threadRecords threadId, r.finalizing = true := by
  unfold RunManager.priorFinalized at h
  rw [Bool.or_eq_false_iff, Bool.not_eq_false', Bool.not_eq_false', List.any_eq_true] at h
  rw [List.any_eq_true] at h
  obtain ⟨-, r, hr, hfinal⟩ := h
  exact ⟨r, List.takeWhile_subset _ hr, hfinal⟩

end Records

end DeerFlow.Runtime
