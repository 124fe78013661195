import DeerFlow.Runtime.Value

/-! Checkpoints of a thread. The checkpointer is not part of the repository: what
the code relies on is that a checkpoint put under a new id is the latest one and
that writes put under it are read back. -/

namespace DeerFlow.Runtime

structure Checkpoint where
  id : Option String
  ts : String
  channelValues : Dict Value
  channelVersions : Dict Value
  versionsSeen : Dict Value
  deriving DecidableEq

structure PendingWrite where
  taskId : String
  channel : String
  value : Value
  deriving DecidableEq

/-- What `aget_tuple` returns, and what a run keeps of it. -/
structure CheckpointTuple where
  checkpointNs : String
  checkpointId : Option String
  checkpoint : Checkpoint
  metadata : Dict Value
  pendingWrites : List PendingWrite
  deriving DecidableEq

/-- A task's writes, as `aput_writes` takes them. -/
abbrev Writes := List (String × Value)

def writesByTask (pendingWrites : List PendingWrite) : List (String × String × Value) :=
  pendingWrites.map fun w => (w.taskId, w.channel, w.value)

def CheckpointTuple.writesOf (t : CheckpointTuple) (taskId : String) : Writes :=
  Dict.valuesOf (writesByTask t.pendingWrites) taskId

/-- Two checkpoints that stand for one state of the thread. The order of the pending writes is
that of each task. -/
structure CheckpointTuple.SameState (t u : CheckpointTuple) : Prop where
  channelValues : t.checkpoint.channelValues = u.checkpoint.channelValues
  channelVersions : t.checkpoint.channelVersions = u.checkpoint.channelVersions
  metadata : t.metadata = u.metadata
  pendingWrites : ∀ taskId, t.writesOf taskId = u.writesOf taskId

theorem CheckpointTuple.SameState.refl (t : CheckpointTuple) : t.SameState t :=
  ⟨rfl, rfl, rfl, fun _ => rfl⟩

/-- The id and the time of a new checkpoint. -/
structure Marker where
  id : String
  ts : String
  nonempty : id ≠ ""

/-- The calls on one thread. `newest` tells whether an id is later than those of the thread;
`put` and `putWrites` take the namespace first, and `put` returns the id of the checkpoint in the
new config. -/
structure Checkpointer (σ : Type*) where
  getTuple : σ → Option CheckpointTuple
  newest : σ → Marker → Bool
  put : σ → String → Checkpoint → Dict Value → Dict Value → σ × Option String
  putWrites : σ → String → String → Writes → String → σ
  deleteThread : σ → σ

/-- The calls succeed and are atomic. Writes that some checkpoint was read with are read back
under the one they are put under. -/
structure Checkpointer.Lawful {σ : Type*} (ck : Checkpointer σ) : Prop where
  root : ∀ {s t}, ck.getTuple s = some t → t.checkpointNs = "" ∧ t.checkpoint.id.isSome
  deleted : ∀ s, ck.getTuple (ck.deleteThread s) = none
  put : ∀ {s m c} metadata, ck.newest s m = true → c.id = some m.id →
    (ck.put s "" c metadata c.channelVersions).2 = some m.id ∧
      ck.getTuple (ck.put s "" c metadata c.channelVersions).1 =
        some ⟨"", some m.id, c, metadata, []⟩
  putWrites : ∀ {s t id taskId s₀ t₀}, ck.getTuple s = some t → t.checkpointId = some id →
    t.writesOf taskId = [] → ck.getTuple s₀ = some t₀ →
    ∃ u, ck.getTuple (ck.putWrites s "" id (t₀.writesOf taskId) taskId) = some u ∧
      u.checkpointId = some id ∧ u.checkpoint = t.checkpoint ∧ u.metadata = t.metadata ∧
      ∀ k, u.writesOf k = if k = taskId then t₀.writesOf taskId else t.writesOf k

/-! A checkpointer in memory: the checkpoints of the thread, latest first. -/

structure SavedCheckpoint where
  id : String
  ts : String
  channelValues : Dict Value
  channelVersions : Dict Value
  versionsSeen : Dict Value
  metadata : Dict Value
  pendingWrites : List PendingWrite
  deriving DecidableEq

def SavedCheckpoint.tuple (s : SavedCheckpoint) : CheckpointTuple where
  checkpointNs := ""
  checkpointId := some s.id
  checkpoint := ⟨some s.id, s.ts, s.channelValues, s.channelVersions, s.versionsSeen⟩
  metadata := s.metadata
  pendingWrites := s.pendingWrites

def MemorySaver.put (saved : List SavedCheckpoint) (checkpoint : Checkpoint)
    (metadata : Dict Value) : List SavedCheckpoint × Option String :=
  match checkpoint.id with
  | none => (saved, none)
  | some id =>
    let new := ⟨id, checkpoint.ts, checkpoint.channelValues, checkpoint.channelVersions,
      checkpoint.versionsSeen, metadata, []⟩
    (saved.filter (fun s => id < s.id) ++ new :: saved.filter (fun s => s.id < id), some id)

/-- The writes of a task are put once. -/
def SavedCheckpoint.putWrites (s : SavedCheckpoint) (writes : Writes) (taskId : String) :
    SavedCheckpoint :=
  if s.pendingWrites.any fun w => w.taskId = taskId then s
  else { s with pendingWrites := s.pendingWrites ++ writes.map fun w => ⟨taskId, w.1, w.2⟩ }

def memorySaver : Checkpointer (List SavedCheckpoint) where
  getTuple saved := saved.head?.map SavedCheckpoint.tuple
  newest saved marker := saved.all fun s => s.id < marker.id
  put saved _ checkpoint metadata _ := MemorySaver.put saved checkpoint metadata
  putWrites saved _ checkpointId writes taskId :=
    saved.map fun s => if s.id = checkpointId then s.putWrites writes taskId else s
  deleteThread _ := []

theorem SavedCheckpoint.writesOf_putWrites {s : SavedCheckpoint} {taskId : String}
    (h : s.tuple.writesOf taskId = []) (writes : Writes) (k : String) :
    (s.putWrites writes taskId).tuple.writesOf k =
      if k = taskId then writes else s.tuple.writesOf k := by
  have hnone : s.pendingWrites.any (fun w => w.taskId = taskId) = false := by
    rw [List.any_eq_false]
    intro w hw htask
    have hmem : (w.channel, w.value) ∈ s.tuple.writesOf taskId := by
      refine List.mem_filterMap.mpr ⟨(w.taskId, w.channel, w.value), List.mem_map_of_mem hw, ?_⟩
      exact if_pos (of_decide_eq_true htask)
    rw [h] at hmem
    cases hmem
  have hnew : Dict.valuesOf (writesByTask (writes.map fun w => ⟨taskId, w.1, w.2⟩)) k =
      if k = taskId then writes else [] := by
    unfold writesByTask Dict.valuesOf
    rw [List.map_map, List.filterMap_map]
    by_cases hk : k = taskId
    · subst hk
      simp [Function.comp_def]
    · have hne : taskId ≠ k := fun he => hk he.symm
      simp [Function.comp_def, hk, hne]
  have happend : (s.putWrites writes taskId).tuple.writesOf k = s.tuple.writesOf k ++
      Dict.valuesOf (writesByTask (writes.map fun w => ⟨taskId, w.1, w.2⟩)) k := by
    unfold putWrites
    rw [hnone]
    show Dict.valuesOf (writesByTask (s.pendingWrites ++ _)) k = _
    unfold writesByTask Dict.valuesOf
    rw [List.map_append, List.filterMap_append]
    rfl
  rw [happend, hnew]
  split_ifs with hk
  · rw [hk, h, List.nil_append]
  · rw [List.append_nil]

theorem memorySaver_lawful : memorySaver.Lawful := by
  refine ⟨?_, fun _ => rfl, ?_, ?_⟩
  · intro saved t ht
    obtain ⟨s, -, rfl⟩ := Option.map_eq_some_iff.mp ht
    exact ⟨rfl, rfl⟩
  · intro saved m c metadata hnewest hid
    have hlt : ∀ s ∈ saved, s.id < m.id := by simpa [memorySaver] using hnewest
    have hafter : saved.filter (fun s => m.id < s.id) = [] := by
      rw [List.filter_eq_nil_iff]
      intro s hs hgt
      exact String.lt_asymm (hlt s hs) (of_decide_eq_true hgt)
    obtain ⟨id, ts, channelValues, channelVersions, versionsSeen⟩ := c
    obtain rfl : id = some m.id := hid
    refine ⟨rfl, ?_⟩
    simp only [memorySaver, MemorySaver.put, hafter]
    rfl
  · intro saved t id taskId s₀ t₀ ht hid hnil _
    obtain ⟨s, hs, rfl⟩ := Option.map_eq_some_iff.mp ht
    obtain rfl : s.id = id := Option.some.inj hid
    refine ⟨(s.putWrites (t₀.writesOf taskId) taskId).tuple, ?_, ?_, ?_, ?_, ?_⟩
    · simp [memorySaver, hs]
    · unfold SavedCheckpoint.putWrites
      split_ifs <;> rfl
    · unfold SavedCheckpoint.putWrites
      split_ifs <;> rfl
    · unfold SavedCheckpoint.putWrites
      split_ifs <;> rfl
    · exact SavedCheckpoint.writesOf_putWrites hnil _

end DeerFlow.Runtime
