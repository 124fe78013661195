import DeerFlow.Runtime.RunRollback

/-! What a run that is rolled back leaves behind. Until it has looked for the checkpoint
of the thread, a rollback takes the thread for an empty one; a request that comes later
puts the checkpoint back with the writes of each task. -/

namespace DeerFlow.Runtime
open Transition

variable {σ : Type*}

section Rollback
variable {ck : Checkpointer σ} {before : Option CheckpointTuple} {s t : AgentRun σ}

/-- The thread is in the state in which the run found it. -/
def Checkpointer.Restores (ck : Checkpointer σ) (before : Option CheckpointTuple) (store : σ) :
    Prop :=
  match before with
  | none => ck.getTuple store = none
  | some c => ∃ t, ck.getTuple store = some t ∧ t.SameState c

theorem Checkpointer.restores_self (ck : Checkpointer σ) (store : σ) :
    ck.Restores (ck.getTuple store) store := by
  unfold Checkpointer.Restores
  split
  · assumption
  · exact ⟨_, ‹_›, .refl _⟩

namespace AgentRun

/-- The run was cancelled or aborted with `rollback`. -/
def Requested (s : AgentRun σ) : Prop :=
  s.control.abortEvent = true ∧ s.control.abortAction = .rollback

instance (s : AgentRun σ) : Decidable s.Requested := inferInstanceAs (Decidable (_ ∧ _))

/-- When `run_agent` has finished, a rollback that was requested has been done. -/
def RollsBack (ck : Checkpointer σ) (before : Option CheckpointTuple) (s : AgentRun σ) : Prop :=
  s.pc = .at_ .done → s.Requested → ck.Restores before s.store

/-- No checkpoint has been read or written. -/
structure Untouched (ck : Checkpointer σ) (before : Option CheckpointTuple) (s : AgentRun σ) :
    Prop where
  store : ck.getTuple s.store = before
  snapshot : s.preRunSnapshot = none
  checkpointId : s.preRunCheckpointId = none
  captured : s.snapshotCaptureFailed = false

/-- The run has looked for the checkpoint of the thread. -/
def Taken (before : Option CheckpointTuple) (s : AgentRun σ) : Prop :=
  s.snapshotCaptureFailed = true ∨ s.preRunSnapshot = before

/-- The checkpoint is back; the writes of the tasks in `writes` are not. -/
def Putting (ck : Checkpointer σ) (before : Option CheckpointTuple) (store : σ) (id : String)
    (writes : Dict Writes) : Prop :=
  ∃ c t, before = some c ∧ ck.getTuple store = some t ∧ t.checkpointId = some id ∧
    t.checkpoint.channelValues = c.checkpoint.channelValues ∧
    t.checkpoint.channelVersions = c.checkpoint.channelVersions ∧ t.metadata = c.metadata ∧
    writes.keys.Nodup ∧ (∀ x ∈ writes, x.2 = c.writesOf x.1) ∧
    ∀ taskId, t.writesOf taskId = if taskId ∈ writes.keys then [] else c.writesOf taskId

/-- What holds at each await: until the snapshot the thread is untouched; afterwards a rollback
that was requested is ahead, or a cancellation is that will lead to it, or it has been done. -/
def Inv (ck : Checkpointer σ) (before : Option CheckpointTuple) (s : AgentRun σ) : Prop :=
  match s.pc with
  | .at_ .created | .at_ .waitPrior | .at_ .markRunning | .workspaceSnapshot |
    .checkpointSnapshot => s.Untouched ck before
  | .at_ .body => s.Taken before
  | .at_ (.markFinalizing block) => (block = .tryBlock → s.Taken before) ∧
      (s.Requested → s.cancelling = true ∨ s.Taken before)
  | .at_ (.settle block outcome) => (block = .tryBlock → s.Taken before) ∧
      (s.Requested → s.cancelling = true ∨ outcome = .rolledBack ∧ s.Taken before)
  | .rollback block => (block = .tryBlock → s.Taken before) ∧ s.control.status = .error ∧
      (s.Requested → s.cancelling = true ∨ s.Taken before)
  | .rollbackWrites block id writes => (block = .tryBlock → s.Taken before) ∧
      s.control.status = .error ∧
      (s.Requested → s.cancelling = true ∨
        s.preRunSnapshot = before ∧ Putting ck before s.store id writes)
  | .at_ (.rest block) => (block = .tryBlock → s.Taken before) ∧ ¬ s.control.Busy ∧
      (s.Requested → ck.Restores before s.store ∧ s.control.status ≠ .interrupted)
  | .at_ .finallyBlock =>
      s.Requested → ck.Restores before s.store ∧ s.control.status ≠ .interrupted
  | .at_ .clearFinalizing | .at_ .publishEnd | .at_ .done =>
      s.Requested → ck.Restores before s.store

end AgentRun

/-- Before the run has looked for the checkpoint of the thread. -/
def AgentPc.BeforeSnapshot : AgentPc → Prop
  | .at_ .waitPrior | .at_ .markRunning | .workspaceSnapshot | .checkpointSnapshot => True
  | _ => False

instance (pc : AgentPc) : Decidable pc.BeforeSnapshot := by
  unfold AgentPc.BeforeSnapshot
  split <;> infer_instance

/-- In an except handler that has still to set the status or to roll back. -/
def AgentPc.InHandler : AgentPc → Prop
  | .at_ (.markFinalizing block) | .at_ (.settle block _) | .rollback block |
    .rollbackWrites block _ _ => block ≠ .tryBlock
  | _ => False

instance (pc : AgentPc) : Decidable pc.InHandler := by
  unfold AgentPc.InHandler
  split <;> infer_instance

def RunPc.InFinally : RunPc → Prop
  | .finallyBlock | .clearFinalizing | .publishEnd | .done => True
  | _ => False

instance (pc : RunPc) : Decidable pc.InFinally := by
  unfold RunPc.InFinally
  split <;> infer_instance

/-- A rollback that is requested can be done: the request is raised in the try block, and only
when the checkpoint of the thread has been looked for or there is none; the agent does not
answer it with another exception; it is not made when the run is past its handlers; and the
checkpoint was read without an exception. -/
def RollsBackInTime (ck : Checkpointer σ) (s : AgentRun σ) : AgentEvent σ → Prop
  | .task .deliver => s.Requested →
      (s.pc.BeforeSnapshot → (ck.getTuple s.store).isNone) ∧ ¬ s.pc.InHandler
  | .task (.raise _) => ¬ s.Requested
  | .cancel .rollback => ¬ s.pc.pc.InFinally
  | .rolledBack _ => s.snapshotCaptureFailed = false
  | _ => True

instance (s : AgentRun σ) (e : AgentEvent σ) : Decidable (RollsBackInTime ck s e) := by
  unfold RollsBackInTime
  split <;> infer_instance

namespace AgentRun

theorem task_step {move : TaskMove} (ht : (AgentEvent.task move).step ck s = some t) :
    ∃ task call, (move = .deliver ∨ s.pc = .at_ s.pc.pc) ∧
      s.task.next (some s.control) move = some (task, call) ∧ t = { s with
        control := call.apply s.control
        pc := .enter s.pc.pc task.pc
        cancelling := task.cancelling } := by
  simp only [AgentEvent.step] at ht
  split_ifs at ht with hg
  split at ht
  · cases ht
  · exact ⟨_, _, hg, ‹_›, (Option.some.inj ht).symm⟩

end AgentRun

theorem AgentPc.enter_cancelled (pc : RunPc) : AgentPc.enter pc pc.cancelled = .at_ pc.cancelled := by
  cases pc with
  | settle block outcome => cases block <;> cases outcome <;> rfl
  | _ => rfl

namespace AgentRun

theorem Inv.deliver (h : s.Inv ck before)
    (hc : RollsBackInTime ck s (.task .deliver)) :
    Inv ck before { s with pc := .at_ s.pc.pc.cancelled, cancelling := false } := by
  obtain ⟨store, control, pc, cancelling, checkpointId, snapshot, failed⟩ := s
  have htaken : Untouched ck before ⟨store, control, pc, cancelling, checkpointId, snapshot, failed⟩ →
      pc.BeforeSnapshot → Requested ⟨store, control, pc, cancelling, checkpointId, snapshot, failed⟩ →
      snapshot = before := by
    intro hun hbefore hreq
    have hnone := (hc hreq).1 hbefore
    rw [Option.isNone_iff_eq_none, hun.store] at hnone
    exact hun.snapshot.trans hnone.symm
  cases pc with
  | workspaceSnapshot | checkpointSnapshot =>
    exact ⟨nofun, fun hreq => .inr (.inr (htaken h trivial hreq))⟩
  | rollback block | rollbackWrites block id writes =>
    cases block with
    | tryBlock => exact ⟨nofun, fun _ => .inr (h.1 rfl)⟩
    | cancelHandler | errorHandler => exact fun hreq => ((hc hreq).2 nofun).elim
  | at_ pc =>
    cases pc with
    | created =>
      intro _
      have hstore := ck.restores_self store
      rwa [h.store] at hstore
    | waitPrior | markRunning => exact ⟨nofun, fun hreq => .inr (.inr (htaken h trivial hreq))⟩
    | body => exact ⟨nofun, fun _ => .inr h⟩
    | markFinalizing block | settle block outcome =>
      cases block with
      | tryBlock => exact ⟨nofun, fun _ => .inr (h.1 rfl)⟩
      | cancelHandler | errorHandler => exact fun hreq => ((hc hreq).2 nofun).elim
    | rest block =>
      cases block with
      | tryBlock => exact ⟨nofun, fun _ => .inr (h.1 rfl)⟩
      | cancelHandler | errorHandler => exact h.2.2
    | finallyBlock => exact fun hreq => (h hreq).1
    | clearFinalizing | publishEnd | done => exact h

theorem Inv.proceed {task : RunTask} {call : TaskCall} (h : s.Inv ck before)
    (hpc : s.pc = .at_ s.pc.pc)
    (hnext : s.task.next (some s.control) .proceed = some (task, call)) :
    Inv ck before { s with
      control := call.apply s.control
      pc := .enter s.pc.pc task.pc
      cancelling := task.cancelling } := by
  obtain ⟨store, control, pc, cancelling, checkpointId, snapshot, failed⟩ := s
  rcases Bool.eq_false_or_eq_true cancelling with rfl | rfl
  · cases hnext
  replace hnext : RunPc.proceed (some control) pc.pc = some (task, call) := hnext
  cases pc with
  | workspaceSnapshot | checkpointSnapshot | rollback | rollbackWrites => cases hpc
  | at_ pc =>
    cases pc with
    | created | waitPrior | markRunning =>
      cases hnext
      exact ⟨h.store, h.snapshot, h.checkpointId, h.captured⟩
    | markFinalizing block =>
      cases hnext
      refine ⟨h.1, fun hreq => .inr ⟨?_, (h.2 hreq).resolve_left nofun⟩⟩
      exact congrArg RunOutcome.ofAction hreq.2
    | settle block outcome =>
      cases hnext
      have hrolled : ∀ hreq, outcome = .rolledBack ∧ _ := fun hreq => (h.2 hreq).resolve_left nofun
      cases outcome with
      | rolledBack => exact ⟨h.1, rfl, fun hreq => .inr (hrolled hreq).2⟩
      | success | failed | interrupted =>
        refine ⟨h.1, nofun, fun hreq => ?_⟩
        cases (hrolled hreq).1
    | rest block =>
      cases hnext
      exact h.2.2
    | finallyBlock =>
      simp only [AgentPc.pc, RunPc.proceed] at hnext
      split_ifs at hnext
      · cases hnext
        exact fun hreq => (h hreq).1
      · cases hnext
        exact fun hreq => (h hreq).1
    | clearFinalizing | publishEnd =>
      cases hnext
      exact h
    | body | done => cases hnext

theorem Inv.taken_of_body (h : s.Inv ck before) (hpc : s.pc = .at_ .body) : s.Taken before := by
  unfold Inv at h
  rw [hpc] at h
  exact h

theorem Inv.task {move : TaskMove} (h : s.Inv ck before) (hc : RollsBackInTime ck s (.task move))
    (ht : (AgentEvent.task move).step ck s = some t) : t.Inv ck before := by
  obtain ⟨task, call, hg, hnext, rfl⟩ := task_step ht
  cases move with
  | proceed => exact h.proceed (hg.resolve_left nofun) hnext
  | deliver =>
    simp only [RunTask.next] at hnext
    split_ifs at hnext with hactive
    cases hnext
    have hinv := h.deliver hc
    rw [← AgentPc.enter_cancelled] at hinv
    exact hinv
  | absorb =>
    simp only [RunTask.next] at hnext
    split_ifs at hnext with hbody
    cases hnext
    have hpc : s.pc.pc = .body := hbody.2
    have htaken := h.taken_of_body ((hg.resolve_left nofun).trans (congrArg AgentPc.at_ hpc))
    rw [hpc]
    exact htaken
  | abort =>
    simp only [RunTask.next] at hnext
    split_ifs at hnext with hbody
    cases hnext
    have hpc : s.pc.pc = .body := hbody.2.1
    have htaken := h.taken_of_body ((hg.resolve_left nofun).trans (congrArg AgentPc.at_ hpc))
    rw [hpc]
    exact ⟨fun _ => htaken, fun _ => .inr htaken⟩
  | finish error =>
    simp only [RunTask.next] at hnext
    split_ifs at hnext with hbody
    cases hnext
    have hpc : s.pc.pc = .body := hbody.2.1
    have htaken := h.taken_of_body ((hg.resolve_left nofun).trans (congrArg AgentPc.at_ hpc))
    rw [hpc]
    refine ⟨fun _ => htaken, fun hreq => ?_⟩
    -- the agent finishes only while nobody has asked it to stop
    have habort : s.control.abortEvent = true := hreq.1
    have hrunning := hbody.2.2
    rw [Option.all_some, habort] at hrunning
    cases hrunning
  | raise message =>
    simp only [RunTask.next] at hnext
    split_ifs at hnext with hbody
    cases hnext
    have henter : AgentPc.enter s.pc.pc (.settle .errorHandler (.failed message)) =
        .at_ (.settle .errorHandler (.failed message)) := by
      have hpc : s.pc.pc = .waitPrior ∨ s.pc.pc = .body := hbody.2
      rcases hpc with hpc | hpc <;> rw [hpc] <;> rfl
    simp only [henter]
    exact ⟨nofun, fun hreq => (hc hreq).elim⟩

theorem rollback_pc (ck : Checkpointer σ) (s : AgentRun σ) (marker : Marker) (block : Block) :
    (s.rollback ck marker block).2 = .at_ (.rest block) ∨
      ∃ id writes, (s.rollback ck marker block).2 = .rollbackWrites block id writes := by
  unfold rollback
  split_ifs
  · exact .inl rfl
  · split
    · exact .inl rfl
    · split
      · exact .inl rfl
      · simp only
        split
        · exact .inl rfl
        · split
          · exact .inl rfl
          · exact .inr ⟨_, _, rfl⟩

/-- The first call of the rollback puts the checkpoint back, or empties a thread that was
empty. -/
theorem rollback_spec (hck : ck.Lawful) (hbefore : ∃ store, ck.getTuple store = before)
    (hcaptured : s.snapshotCaptureFailed = false) (hsnapshot : s.preRunSnapshot = before)
    {marker : Marker} (hnewest : ck.newest s.store marker = true) (block : Block) :
    (s.rollback ck marker block).2 = .at_ (.rest block) ∧
        ck.Restores before (s.rollback ck marker block).1 ∨
      ∃ id writes, (s.rollback ck marker block).2 = .rollbackWrites block id writes ∧
        Putting ck before (s.rollback ck marker block).1 id writes := by
  obtain ⟨store₀, hstore₀⟩ := hbefore
  cases before with
  | none =>
    left
    simp only [rollback, hcaptured, hsnapshot]
    exact ⟨rfl, hck.deleted _⟩
  | some c =>
    obtain ⟨hns, hid⟩ := hck.root hstore₀
    obtain ⟨checkpoint, hcid, hvalues, hversions, hrestore⟩ : ∃ checkpoint : Checkpoint,
        checkpoint.id = some marker.id ∧ checkpoint.channelValues = c.checkpoint.channelValues ∧
        checkpoint.channelVersions = c.checkpoint.channelVersions ∧
        s.checkpointToRestore c marker = some checkpoint := by
      refine ⟨{ c.checkpoint with id := some marker.id, ts := marker.ts }, rfl, rfl, rfl, ?_⟩
      obtain ⟨id, hid⟩ := Option.isSome_iff_exists.mp hid
      unfold checkpointToRestore
      rw [hid]
      rfl
    obtain ⟨hput, htuple⟩ := hck.put c.metadata hnewest hcid
    have hvalid : (some marker.id).filter (fun id => id ≠ "") = some marker.id := by
      simp [Option.filter, marker.nonempty]
    have hgather : ∀ k, (Dict.gather (writesByTask c.pendingWrites)).get k =
        if c.writesOf k = [] then none else some (c.writesOf k) :=
      Dict.get_gather (writesByTask c.pendingWrites)
    simp only [rollback, hcaptured, hsnapshot, hrestore, hns, hput, hvalid, Bool.false_eq_true,
      if_false]
    split
    · rename_i hnil
      refine .inl ⟨rfl, _, htuple, hvalues, hversions, rfl, fun k => ?_⟩
      have hk := hgather k
      rw [hnil, Dict.get_nil] at hk
      split_ifs at hk with hempty
      exact hempty.symm
    · refine .inr ⟨_, _, rfl, c, _, rfl, htuple, rfl, hvalues, hversions, rfl, ?_, ?_, ?_⟩
      · exact Dict.nodup_keys_gather _
      · intro x hx
        have hget := Dict.get_of_mem (Dict.nodup_keys_gather _) hx
        rw [hgather] at hget
        split_ifs at hget
        exact (Option.some.inj hget).symm
      · intro k
        show [] = _
        split_ifs with hk
        · rfl
        · rw [Dict.mem_keys, hgather] at hk
          split_ifs at hk with hempty
          · exact hempty.symm
          · simp at hk

theorem Inv.rolledBack {marker : Marker} (hck : ck.Lawful)
    (hbefore : ∃ store, ck.getTuple store = before) (h : s.Inv ck before)
    (hc : RollsBackInTime ck s (.rolledBack marker))
    (ht : (AgentEvent.rolledBack marker).step ck s = some t) : t.Inv ck before := by
  simp only [AgentEvent.step] at ht
  split at ht
  · rename_i block hpc
    split_ifs at ht with hg
    cases ht
    unfold Inv at h
    rw [hpc] at h
    obtain ⟨htry, hstatus, hreq⟩ := h
    have hcaptured : s.snapshotCaptureFailed = false := hc
    have hspec := fun hr => rollback_spec hck hbefore hcaptured
      (((hreq hr).resolve_left (by simp [hg.1])).resolve_left (by simp [hcaptured])) hg.2 block
    have hbusy : ¬ s.control.Busy := by simp [RunControl.Busy, hstatus]
    rcases s.rollback_pc ck marker block with hafter | ⟨id, writes, hafter⟩
    · unfold Inv
      simp only [hafter]
      refine ⟨htry, hbusy, fun hr => ⟨?_, by simp [hstatus]⟩⟩
      rcases hspec hr with ⟨-, hrestores⟩ | ⟨_, _, hpc', -⟩
      · exact hrestores
      · cases hafter.symm.trans hpc'
    · unfold Inv
      simp only [hafter]
      refine ⟨htry, hstatus, fun hr => .inr ⟨?_, ?_⟩⟩
      · exact ((hreq hr).resolve_left (by simp [hg.1])).resolve_left (by simp [hcaptured])
      · rcases hspec hr with ⟨hpc', -⟩ | ⟨_, _, hpc', hputting⟩
        · cases hafter.symm.trans hpc'
        · cases hafter.symm.trans hpc'
          exact hputting
  · cases ht

/-- The writes of one more task are back. -/
theorem Putting.writesPut (hck : ck.Lawful) (hbefore : ∃ store, ck.getTuple store = before)
    {store : σ} {id taskId : String} {writes : Writes} {rest : Dict Writes}
    (h : Putting ck before store id ((taskId, writes) :: rest)) :
    Putting ck before (ck.putWrites store "" id writes taskId) id rest := by
  obtain ⟨c, t, rfl, ht, hid, hvalues, hversions, hmetadata, hnodup, hwrites, hall⟩ := h
  obtain ⟨store₀, hstore₀⟩ := hbefore
  have hmine : writes = c.writesOf taskId := hwrites _ (List.mem_cons_self ..)
  rw [Dict.keys, List.map_cons, List.nodup_cons] at hnodup
  have hnil : t.writesOf taskId = [] := (hall taskId).trans (if_pos (List.mem_cons_self ..))
  obtain ⟨u, hu, huid, hcheckpoint, humetadata, hu'⟩ := hck.putWrites ht hid hnil hstore₀
  rw [← hmine] at hu
  refine ⟨c, u, rfl, hu, huid, ?_, ?_, ?_, hnodup.2, ?_, ?_⟩
  · rw [hcheckpoint, hvalues]
  · rw [hcheckpoint, hversions]
  · rw [humetadata, hmetadata]
  · exact fun x hx => hwrites x (List.mem_cons_of_mem _ hx)
  · intro k
    rw [hu', hall]
    by_cases hk : k = taskId
    · subst hk
      have hnot : k ∉ rest.keys := hnodup.1
      rw [if_pos rfl, if_neg hnot]
    · have hmem : k ∈ Dict.keys ((taskId, writes) :: rest) ↔ k ∈ rest.keys := by
        simp [Dict.keys, hk]
      rw [if_neg hk]
      simp only [hmem]

theorem Putting.restores {store : σ} {id : String} (h : Putting ck before store id []) :
    ck.Restores before store := by
  obtain ⟨c, t, rfl, ht, -, hvalues, hversions, hmetadata, -, -, hall⟩ := h
  exact ⟨t, ht, hvalues, hversions, hmetadata, fun k => (hall k).trans (if_neg List.not_mem_nil)⟩

theorem Inv.writesPut (hck : ck.Lawful) (hbefore : ∃ store, ck.getTuple store = before)
    (h : s.Inv ck before) (ht : AgentEvent.writesPut.step ck s = some t) : t.Inv ck before := by
  simp only [AgentEvent.step] at ht
  split at ht
  · rename_i block id taskId writes rest hpc
    unfold Inv at h
    rw [hpc] at h
    obtain ⟨htry, hstatus, hreq⟩ := h
    have hns : s.preRunSnapshot = before →
        s.preRunSnapshot.elim "" CheckpointTuple.checkpointNs = "" := by
      intro hsnapshot
      obtain ⟨store₀, hstore₀⟩ := hbefore
      rw [hsnapshot]
      cases before with
      | none => rfl
      | some c => exact (hck.root hstore₀).1
    have hput : s.cancelling = false → s.Requested → s.preRunSnapshot = before ∧
        Putting ck before (ck.putWrites s.store
          (s.preRunSnapshot.elim "" CheckpointTuple.checkpointNs) id writes taskId) id rest := by
      intro hcancel hr
      obtain ⟨hsnapshot, hputting⟩ := (hreq hr).resolve_left (by simp [hcancel])
      rw [hns hsnapshot]
      exact ⟨hsnapshot, hputting.writesPut hck hbefore⟩
    have hbusy : ¬ s.control.Busy := by simp [RunControl.Busy, hstatus]
    split_ifs at ht with hcancel hlast
    · cases ht
      obtain rfl := List.isEmpty_iff.mp hlast
      exact ⟨htry, hbusy, fun hr => ⟨(hput hcancel hr).2.restores, by simp [hstatus]⟩⟩
    · cases ht
      exact ⟨htry, hstatus, fun hr => .inr (hput hcancel hr)⟩
  · cases ht

/-- Up to the final status a request is raised at the next await; in the finally block there is
none to roll back for. -/
theorem Inv.cancel {action : AbortAction} (h : s.Inv ck before)
    (hc : RollsBackInTime ck s (.cancel action))
    (ht : (AgentEvent.cancel action).step ck s = some t) : t.Inv ck before := by
  simp only [AgentEvent.step] at ht
  split_ifs at ht with hbusy
  cases ht
  have hcancelling : s.pc.pc ≠ .done → (s.abort action).cancelling = true := by
    intro hpc
    have hactive : s.task.Active := hpc
    simp [abort, hactive]
  have hinterrupt : s.pc.pc.InFinally → ¬ (s.abort action).Requested := by
    rintro hpc ⟨-, haction⟩
    obtain rfl : action = .rollback := haction
    exact hc hpc
  have hfinal : s.control.status ≠ .error := by
    intro hstatus
    simp [RunControl.Busy, hstatus] at hbusy
  have hpc : (s.abort action).pc = s.pc := rfl
  unfold Inv at h ⊢
  rw [hpc]
  rcases hs : s.pc with pc | _ | _ | block | ⟨block, id, writes⟩
  · rw [hs] at h hcancelling hinterrupt
    cases pc with
    | created | waitPrior | markRunning => exact ⟨h.store, h.snapshot, h.checkpointId, h.captured⟩
    | body => exact h
    | markFinalizing | settle => exact ⟨h.1, fun _ => .inl (hcancelling nofun)⟩
    | rest => exact absurd hbusy h.2.1
    | finallyBlock | clearFinalizing | publishEnd | done =>
      exact fun hreq => (hinterrupt trivial hreq).elim
  · rw [hs] at h
    exact ⟨h.store, h.snapshot, h.checkpointId, h.captured⟩
  · rw [hs] at h
    exact ⟨h.store, h.snapshot, h.checkpointId, h.captured⟩
  · rw [hs] at h
    exact absurd h.2.1 hfinal
  · rw [hs] at h
    exact absurd h.2.1 hfinal

theorem Inv.cancelTask (h : s.Inv ck before)
    (ht : (AgentEvent.cancelTask).step ck s = some t) : t.Inv ck before := by
  cases ht
  have hcancelling : s.cancelling = true → (s.cancelling || s.task.Active) = true := by
    intro hs
    rw [hs, Bool.true_or]
  unfold Inv at h ⊢
  simp only
  rcases hs : s.pc with pc | _ | _ | block | ⟨block, id, writes⟩
  · rw [hs] at h
    cases pc with
    | created | waitPrior | markRunning => exact ⟨h.store, h.snapshot, h.checkpointId, h.captured⟩
    | markFinalizing | settle => exact ⟨h.1, fun hreq => (h.2 hreq).imp_left hcancelling⟩
    | body | rest | finallyBlock | clearFinalizing | publishEnd | done => exact h
  · rw [hs] at h
    exact ⟨h.store, h.snapshot, h.checkpointId, h.captured⟩
  · rw [hs] at h
    exact ⟨h.store, h.snapshot, h.checkpointId, h.captured⟩
  · rw [hs] at h
    exact ⟨h.1, h.2.1, fun hreq => (h.2.2 hreq).imp_left hcancelling⟩
  · rw [hs] at h
    exact ⟨h.1, h.2.1, fun hreq => (h.2.2 hreq).imp_left hcancelling⟩

theorem Inv.step {e : AgentEvent σ} (hck : ck.Lawful) (hbefore : ∃ store, ck.getTuple store = before)
    (h : s.Inv ck before) (hc : RollsBackInTime ck s e) (ht : e.step ck s = some t) :
    t.Inv ck before := by
  cases e with
  | task => exact h.task hc ht
  | rolledBack => exact h.rolledBack hck hbefore hc ht
  | writesPut => exact h.writesPut hck hbefore ht
  | cancel => exact h.cancel hc ht
  | cancelTask => exact h.cancelTask ht
  | workspaceCaptured =>
    simp only [AgentEvent.step] at ht
    split_ifs at ht with hg
    cases ht
    unfold Inv at h
    rw [hg.1] at h
    exact ⟨h.store, h.snapshot, h.checkpointId, h.captured⟩
  | tupleRead =>
    simp only [AgentEvent.step] at ht
    split_ifs at ht with hg
    cases ht
    unfold Inv at h
    rw [hg.1] at h
    exact .inr h.store
  | tupleRaised =>
    simp only [AgentEvent.step] at ht
    split_ifs at ht with hg
    cases ht
    exact .inl rfl
  | wrote store =>
    simp only [AgentEvent.step] at ht
    split_ifs at ht with hg
    cases ht
    rcases hg with hpc | ⟨hpc, hstatus⟩
    · unfold Inv at h ⊢
      simp only [hpc] at h ⊢
      exact h
    · unfold Inv at h ⊢
      simp only [hpc] at h ⊢
      exact fun hreq => absurd hstatus (h hreq).2

end AgentRun

/-- The thread is as it was before a run that was rolled back. -/
theorem rolls_back_in_time (hck : ck.Lawful) {store : σ} {control : RunControl}
    (h : Reachable ((agentSystem ck store control).when (RollsBackInTime ck)) s) :
    s.RollsBack ck (ck.getTuple store) := by
  have hinv : s.Inv ck (ck.getTuple store) := by
    refine h.invariant (I := AgentRun.Inv ck (ck.getTuple store)) ?_ ?_
    · intro s hs
      obtain rfl : s = .start store control := hs
      exact ⟨rfl, rfl, rfl, rfl⟩
    · exact fun s e t _ hs ht => hs.step hck ⟨store, rfl⟩ ht.1 ht.2
  intro hdone
  unfold AgentRun.Inv at hinv
  rw [hdone] at hinv
  exact hinv

end Rollback

namespace Conversation

/-- A thread with one checkpoint, in which a task has left a write. -/
def saved : List SavedCheckpoint :=
  [⟨"1", "t1", [("title", .str "Trip")], [("title", .int 1)], [], [("step", .int 3)],
    [⟨"task-1", "messages", .str "hello"⟩]⟩]

def control : RunControl := ⟨"thread-1", .pending, false, .interrupt, false⟩

def marker : Marker := ⟨"3", "t3", by decide⟩

/-- The agent is at work and has written a checkpoint of its own. -/
def streaming : List (AgentEvent (List SavedCheckpoint)) :=
  [.task .proceed, .task .proceed, .task .proceed, .workspaceCaptured, .tupleRead,
   .wrote (⟨"2", "t2", [], [], [], [], []⟩ :: saved)]

/-- The run is cancelled with `rollback`. -/
def cancelled : List (AgentEvent (List SavedCheckpoint)) :=
  [.cancel .rollback, .task .deliver, .task .proceed, .task .proceed, .rolledBack marker]

def ending : List (AgentEvent (List SavedCheckpoint)) :=
  [.task .proceed, .task .proceed, .task .proceed, .task .proceed]

end Conversation

theorem rolled_back_after_streaming : ∃ s : AgentRun (List SavedCheckpoint),
    Reachable ((agentSystem memorySaver Conversation.saved Conversation.control).when
      (RollsBackInTime memorySaver)) s ∧
    (s.pc = .at_ .done ∧ s.Requested) ∧ s.store.length = 3 ∧
      s.RollsBack memorySaver (memorySaver.getTuple Conversation.saved) := by
  have hrun : (runScript (guarded (RollsBackInTime memorySaver) (AgentEvent.step memorySaver))
      (.start Conversation.saved Conversation.control)
      ((Conversation.streaming ++ Conversation.cancelled ++ [AgentEvent.writesPut] ++
        Conversation.ending).map fun e _ => e)).any
      (fun s => decide ((s.pc = .at_ .done ∧ s.Requested) ∧ s.store.length = 3)) = true := by
    decide +kernel
  obtain ⟨s, hs, hdone, hlength⟩ := exists_reachable_of_decide _ hrun
  have hreachable := when_of_guarded hs
  exact ⟨s, hreachable, hdone, hlength, rolls_back_in_time memorySaver_lawful hreachable⟩

/-- The run is cancelled while it waits for the one before, and the conversation is deleted. -/
theorem early_rollback_deletes_thread : ¬ ∀ store control s,
    Reachable (agentSystem memorySaver store control) s →
      s.RollsBack memorySaver (memorySaver.getTuple store) := by
  intro hall
  have hrun : (runScript (AgentEvent.step memorySaver)
      (.start Conversation.saved Conversation.control)
      (([AgentEvent.task .proceed] ++ Conversation.cancelled ++ Conversation.ending).map
        fun e _ => e)).any
      (fun s => decide (s.pc = .at_ .done ∧ s.Requested ∧ s.store = [])) = true := by
    decide +kernel
  obtain ⟨s, hs, hdone, hrequested, hempty⟩ := exists_reachable_of_decide _ hrun
  obtain ⟨t, ht, -⟩ := hall Conversation.saved Conversation.control s hs hdone hrequested
  rw [hempty] at ht
  cases ht

end DeerFlow.Runtime
