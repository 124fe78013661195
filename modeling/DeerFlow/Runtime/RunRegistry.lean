import DeerFlow.Runtime.RunManager

/-! Calls of the run manager side by side. A method changes records while it
holds the lock; only a creation keeps the lock across an await, the one in which
its row is stored. An admission stores the aborts it caused after it released
the lock. -/

namespace DeerFlow.Runtime
open Transition

/-- A creation that has inserted its record and waits for the store. -/
structure Creation where
  record : RunRecord
  inflight : List String
  before : RunManager

/-- An admission that has still to store the aborts of `remaining`. -/
structure Trailing where
  runId : String
  remaining : List String
  before : RunManager

/-- A creation that raised: the manager when it took the lock, and when it raised. -/
structure Refusal where
  error : CreateError
  before : RunManager
  after : RunManager

/-- `holder` is the creation that holds the lock, `minted` are the ids ever given out. -/
structure Registry where
  manager : RunManager
  holder : Option Creation
  trailing : List Trailing
  minted : List String
  refusals : List Refusal

def Registry.empty : Registry := ⟨.empty, none, [], [], []⟩

/-- The methods that change one record in place. -/
inductive RecordCall where
  | setStatus (runId : String) (status : RunStatus) (error : Option String) (now : String)
  | setFinalizing (runId : String) (finalizing : Bool) (now : String)
  | cancel (runId : String) (action : AbortAction) (taskActive : Bool) (now : String)
  | updateModelName (runId : String) (modelName : Option String) (now : String)
  | updateRunCompletion (runId : String) (kwargs : UsageUpdate) (error : Option String)
      (now : String)
  | updateRunProgress (runId : String) (kwargs : UsageUpdate) (now : String)

def RecordCall.apply (m : RunManager) : RecordCall → RunManager
  | .setStatus runId status error now => m.setStatus runId status error now
  | .setFinalizing runId finalizing now => m.setFinalizing runId finalizing now
  | .cancel runId action taskActive now => (m.cancel runId action taskActive now).1
  | .updateModelName runId modelName now => m.updateModelName runId modelName now
  | .updateRunCompletion runId kwargs error now => m.updateRunCompletion runId kwargs error now
  | .updateRunProgress runId kwargs now => m.updateRunProgress runId kwargs now

inductive RegistryEvent where
  | create (args : NewRun) (runId now : String)
  | createOrReject (args : NewRun) (runId now : String)
  /-- The row of the new run is stored; `active` are the runs whose task is not done. -/
  | written (active : List String)
  /-- Storing it raised, after any retries, or was cancelled. -/
  | writeFailed (error : CreateError)
  /-- One abort more is stored, or could not be. -/
  | trailed (i : Nat)
  | trailCancelled (i : Nat)
  | returned (i : Nat)
  | record (call : RecordCall)
  | cleanup (runId : String)

namespace Registry

/-- A creation takes the lock, inserts its record and starts storing it. -/
def begin (c : Registry) (record : RunRecord) (inflight : List String) : Registry :=
  { c with
    manager := c.manager.insert record
    holder := some ⟨record, inflight, c.manager⟩
    minted := record.runId :: c.minted }

def refuse (c : Registry) (error : CreateError) (before : RunManager) : Registry :=
  { c with refusals := c.refusals ++ [⟨error, before, c.manager⟩] }

/-- The runs a creation aborts when its row is stored. -/
def aborting (c : Registry) (creation : Creation) : List String :=
  match creation.record.multitaskStrategy.aborts with
  | none => []
  | some _ => c.manager.abortable creation.inflight

def afterAborts (c : Registry) (creation : Creation) (active : List String) : RunManager :=
  match creation.record.multitaskStrategy.aborts with
  | none => c.manager
  | some action => c.manager.abortAll action active creation.record.createdAt (c.aborting creation)

end Registry

def RegistryEvent.step (c : Registry) : RegistryEvent → Option Registry
  | .create args runId now =>
    if c.holder.isNone ∧ runId ∉ c.minted then
      some (c.begin (.new { args with modelName := none } runId now) [])
    else none
  | .createOrReject args runId now =>
    if c.holder.isNone ∧ runId ∉ c.minted then
      match c.manager.admission args with
      | .error e => some (c.refuse e c.manager)
      | .ok inflight => some (c.begin (.new args runId now) inflight)
    else none
  | .written active =>
    match c.holder with
    | none => none
    | some creation => some { c with
        manager := c.afterAborts creation active
        holder := none
        trailing := c.trailing ++
          [⟨creation.record.runId, c.aborting creation, creation.before⟩] }
  | .writeFailed error =>
    match c.holder with
    | none => none
    | some creation => some (Registry.refuse
        { c with manager := c.manager.drop creation.record.runId, holder := none }
        error creation.before)
  | .trailed i =>
    match c.trailing[i]? with
    | none => none
    | some call =>
      if call.remaining = [] then none
      else some { c with
        trailing := c.trailing.set i { call with remaining := call.remaining.tail } }
  | .trailCancelled i =>
    match c.trailing[i]? with
    | none => none
    | some call =>
      if call.remaining = [] then none
      else some (Registry.refuse { c with trailing := c.trailing.eraseIdx i }
        .cancelled call.before)
  | .returned i =>
    match c.trailing[i]? with
    | none => none
    | some call =>
      if call.remaining = [] then some { c with trailing := c.trailing.eraseIdx i } else none
  | .record call =>
    if c.holder.isNone then some { c with manager := call.apply c.manager } else none
  | .cleanup runId =>
    if c.holder.isNone then some { c with manager := c.manager.drop runId } else none

def registry : System Registry RegistryEvent := .ofFn .empty RegistryEvent.step

/-- What an event does to the registry. -/
inductive RegistryStep (c : Registry) : RegistryEvent → Registry → Prop
  | create {args runId now} (hfree : c.holder = none) (hnew : runId ∉ c.minted) :
    RegistryStep c (.create args runId now)
      (c.begin (.new { args with modelName := none } runId now) [])
  | refused {args runId now error} (hfree : c.holder = none)
    (hadm : c.manager.admission args = .error error) :
    RegistryStep c (.createOrReject args runId now) (c.refuse error c.manager)
  | admitted {args runId now inflight} (hfree : c.holder = none) (hnew : runId ∉ c.minted)
    (hadm : c.manager.admission args = .ok inflight) :
    RegistryStep c (.createOrReject args runId now) (c.begin (.new args runId now) inflight)
  | written {creation active} (hholder : c.holder = some creation) :
    RegistryStep c (.written active) { c with
      manager := c.afterAborts creation active
      holder := none
      trailing := c.trailing ++ [⟨creation.record.runId, c.aborting creation, creation.before⟩] }
  | writeFailed {creation error} (hholder : c.holder = some creation) :
    RegistryStep c (.writeFailed error) (Registry.refuse
      { c with manager := c.manager.drop creation.record.runId, holder := none }
      error creation.before)
  | trailed {i call} (hcall : c.trailing[i]? = some call) :
    RegistryStep c (.trailed i)
      { c with trailing := c.trailing.set i { call with remaining := call.remaining.tail } }
  | trailCancelled {i call} (hcall : c.trailing[i]? = some call) :
    RegistryStep c (.trailCancelled i)
      (Registry.refuse { c with trailing := c.trailing.eraseIdx i } .cancelled call.before)
  | returned {i call} (hcall : c.trailing[i]? = some call) :
    RegistryStep c (.returned i) { c with trailing := c.trailing.eraseIdx i }
  | record {call : RecordCall} (hfree : c.holder = none) :
    RegistryStep c (.record call) { c with manager := call.apply c.manager }
  | cleanup {runId} (hfree : c.holder = none) :
    RegistryStep c (.cleanup runId) { c with manager := c.manager.drop runId }

theorem RegistryEvent.cases_step {c d : Registry} {a : RegistryEvent} (h : a.step c = some d) :
    RegistryStep c a d := by
  cases a with
  | create args runId now =>
    simp only [RegistryEvent.step] at h
    split_ifs at h with hg
    cases h
    exact .create (Option.isNone_iff_eq_none.mp hg.1) hg.2
  | createOrReject args runId now =>
    simp only [RegistryEvent.step] at h
    split_ifs at h with hg
    have hfree := Option.isNone_iff_eq_none.mp hg.1
    split at h
    · next hadm =>
      cases h
      exact .refused hfree hadm
    · next hadm =>
      cases h
      exact .admitted hfree hg.2 hadm
  | written active =>
    simp only [RegistryEvent.step] at h
    split at h
    · cases h
    · next hholder =>
      cases h
      exact .written hholder
  | writeFailed error =>
    simp only [RegistryEvent.step] at h
    split at h
    · cases h
    · next hholder =>
      cases h
      exact .writeFailed hholder
  | trailed i | trailCancelled i | returned i =>
    simp only [RegistryEvent.step] at h
    split at h
    · cases h
    · next hcall =>
      split_ifs at h
      cases h
      first | exact .trailed hcall | exact .trailCancelled hcall | exact .returned hcall
  | record call =>
    simp only [RegistryEvent.step] at h
    split_ifs at h with hg
    cases h
    exact .record (Option.isNone_iff_eq_none.mp hg)
  | cleanup runId =>
    simp only [RegistryEvent.step] at h
    split_ifs at h with hg
    cases h
    exact .cleanup (Option.isNone_iff_eq_none.mp hg)

section Modify
variable {m : RunManager}

/-- Every record call changes at most one record, and neither its id nor its thread. -/
theorem RecordCall.apply_eq (call : RecordCall) (m : RunManager) :
    call.apply m = m ∨ ∃ runId f, call.apply m = m.modify runId f ∧
      ∀ r : RunRecord, (f r).runId = r.runId ∧ (f r).threadId = r.threadId := by
  cases call with
  | setStatus | setFinalizing | updateModelName | updateRunCompletion =>
    exact .inr ⟨_, _, rfl, fun r => ⟨rfl, rfl⟩⟩
  | updateRunProgress =>
    refine .inr ⟨_, _, rfl, fun r => ?_⟩
    split_ifs <;> exact ⟨rfl, rfl⟩
  | cancel runId action taskActive now =>
    simp only [RecordCall.apply, RunManager.cancel_fst]
    split_ifs
    · exact .inr ⟨runId, fun r => r.abort action taskActive now, rfl, fun r => ⟨rfl, rfl⟩⟩
    · exact .inl rfl

theorem RunManager.Indexed.apply (h : m.Indexed) (call : RecordCall) : (call.apply m).Indexed := by
  rcases call.apply_eq m with heq | ⟨runId, f, heq, hf⟩
  · rw [heq]
    exact h
  · rw [heq]
    exact h.modify runId hf

theorem RunManager.Indexed.abortAll (h : m.Indexed) (action : AbortAction) (active : List String)
    (now : String) (runIds : List String) : (m.abortAll action active now runIds).Indexed := by
  unfold RunManager.abortAll
  induction runIds generalizing m with
  | nil => exact h
  | cons runId runIds ih => exact ih (h.modify runId fun r => ⟨rfl, rfl⟩)

theorem Registry.indexed_afterAborts {c : Registry} (h : c.manager.Indexed) (creation : Creation)
    (active : List String) : (c.afterAborts creation active).Indexed := by
  unfold Registry.afterAborts
  split
  · exact h
  · exact h.abortAll _ _ _ _

end Modify

section Registry
variable {c d : Registry} {a : RegistryEvent}

/-- What every run keeps. While a creation holds the lock, the manager is the one it took the
lock in, with its record inserted. -/
structure Registry.Locked (c : Registry) : Prop where
  indexed : c.manager.Indexed
  minted : ∀ {runId}, runId ∉ c.minted → c.manager.runs.get runId = none
  holder : ∀ {creation}, c.holder = some creation → creation.before.Indexed ∧
    creation.before.runs.get creation.record.runId = none ∧
    c.manager = creation.before.insert creation.record

theorem Registry.Locked.begin (h : c.Locked) {record : RunRecord}
    (hnew : record.runId ∉ c.minted) (inflight : List String) : (c.begin record inflight).Locked := by
  have hnone := h.minted hnew
  refine ⟨h.indexed.insert hnone, ?_, ?_⟩
  · intro runId hid
    have hid' : runId ≠ record.runId ∧ runId ∉ c.minted := by
      simpa [Registry.begin] using hid
    show ((c.manager.runs.set record.runId record).get runId) = none
    rw [Dict.get_set_ne hid'.1]
    exact h.minted hid'.2
  · intro creation hc
    cases hc
    exact ⟨h.indexed, hnone, rfl⟩

/-- A manager that knows no new id may take the place of the one before. -/
theorem Registry.Locked.release (h : c.Locked) {m : RunManager} (hm : m.Indexed)
    (hget : ∀ runId, c.manager.runs.get runId = none → m.runs.get runId = none)
    (trailing : List Trailing) (refusals : List Refusal) :
    Registry.Locked ⟨m, none, trailing, c.minted, refusals⟩ :=
  ⟨hm, fun hid => hget _ (h.minted hid), nofun⟩

theorem RunManager.get_apply_none {m : RunManager} {k : String} (call : RecordCall)
    (h : m.runs.get k = none) : (call.apply m).runs.get k = none := by
  rcases call.apply_eq m with heq | ⟨runId, f, heq, -⟩
  · rw [heq]
    exact h
  · rw [heq]
    exact get_modify_none h

theorem RunManager.get_abortAll_none {m : RunManager} {k : String} {action : AbortAction}
    {active : List String} {now : String} {runIds : List String} (h : m.runs.get k = none) :
    (m.abortAll action active now runIds).runs.get k = none := by
  unfold RunManager.abortAll
  induction runIds generalizing m with
  | nil => exact h
  | cons runId runIds ih => exact ih (get_modify_none h)

theorem Registry.get_afterAborts_none {k : String} (creation : Creation) (active : List String)
    (h : c.manager.runs.get k = none) : (c.afterAborts creation active).runs.get k = none := by
  unfold Registry.afterAborts
  split
  · exact h
  · exact RunManager.get_abortAll_none h

theorem Registry.Locked.step (h : c.Locked) (ht : registry.step c a d) : d.Locked := by
  cases RegistryEvent.cases_step ht with
  | create hfree hnew | admitted hfree hnew hadm => exact h.begin hnew _
  | refused hfree hadm | trailed | trailCancelled | returned =>
    exact ⟨h.indexed, h.minted, h.holder⟩
  | @written creation active hholder =>
    exact h.release (Registry.indexed_afterAborts h.indexed creation active)
      (fun _ => Registry.get_afterAborts_none creation active) _ _
  | writeFailed hholder =>
    exact h.release (h.indexed.drop _) (fun k hk => by rw [RunManager.get_drop, hk, ite_self]) _ _
  | @record call hfree =>
    rw [hfree]
    exact h.release (h.indexed.apply call) (fun _ => RunManager.get_apply_none call) _ _
  | cleanup hfree =>
    rw [hfree]
    exact h.release (h.indexed.drop _) (fun k hk => by rw [RunManager.get_drop, hk, ite_self]) _ _

theorem locked_of_reachable (h : Reachable registry c) : c.Locked := by
  refine h.invariant (I := Registry.Locked) ?_ fun _ _ _ _ hc ht => hc.step ht
  intro c hc
  obtain rfl : c = .empty := hc
  exact ⟨RunManager.indexed_empty, fun _ => rfl, nofun⟩

/-- No admission is cancelled while it stores the aborts it has caused. -/
def StoresAborts (_ : Registry) : RegistryEvent → Prop
  | .trailCancelled _ => False
  | _ => True

instance (c : Registry) (a : RegistryEvent) : Decidable (StoresAborts c a) :=
  match a with
  | .trailCancelled _ => isFalse id
  | .create .. | .createOrReject .. | .written _ | .writeFailed _ | .trailed _ | .returned _ |
    .record _ | .cleanup _ => isTrue trivial

theorem refusals_step (h : c.Locked) (hr : ∀ r ∈ c.refusals, r.after = r.before)
    (ht : (registry.when StoresAborts).step c a d) : ∀ r ∈ d.refusals, r.after = r.before := by
  obtain ⟨hc, ht⟩ := ht
  have hnew : ∀ {x : Refusal}, x.after = x.before →
      ∀ r ∈ c.refusals ++ [x], r.after = r.before := by
    intro x hx r hmem
    rcases List.mem_append.mp hmem with hmem | hmem
    · exact hr r hmem
    · obtain rfl := List.mem_singleton.mp hmem
      exact hx
  cases RegistryEvent.cases_step ht with
  | refused hfree hadm => exact hnew rfl
  | writeFailed hholder =>
    apply hnew
    -- the lock has kept everyone else out since the record was inserted
    obtain ⟨hindexed, hfresh, hmanager⟩ := h.holder hholder
    show c.manager.drop _ = _
    rw [hmanager]
    exact hindexed.drop_insert hfresh
  | trailCancelled => exact hc.elim
  | create | admitted | written | trailed | returned | record | cleanup => exact hr

/-- The index lists the records of each thread in order and has no empty bucket, and creations
that raised have changed nothing. -/
structure Registry.Sound (c : Registry) : Prop where
  index : c.holder = none → ∀ threadId, c.manager.threadRecords threadId =
    c.manager.runs.values.filter fun r => r.threadId = threadId
  buckets : c.holder = none → ∀ b ∈ c.manager.runsByThread, b.2 ≠ []
  refused : ∀ r ∈ c.refusals, r.after = r.before

theorem registry_sound_while_aborts_stored (h : Reachable (registry.when StoresAborts) c) :
    c.Sound := by
  have hlocked := locked_of_reachable h.of_when
  refine ⟨fun _ => hlocked.indexed.threadRecords, fun _ b hb => ?_, ?_⟩
  · exact hlocked.indexed.index.ne_nil hb
  · refine h.invariant (I := fun c => ∀ r ∈ c.refusals, r.after = r.before) ?_ ?_
    · intro c hc
      obtain rfl : c = .empty := hc
      exact nofun
    · exact fun c a d hc hr ht => refusals_step (locked_of_reachable hc.of_when) hr ht

end Registry

namespace TwoRuns

/-- A first run is admitted; a second one takes the lock to interrupt it. -/
def admitted : List (Registry → RegistryEvent) :=
  [fun _ => .createOrReject { threadId := "thread-1" } "run-1" "1", fun _ => .written [],
   fun _ => .returned 0,
   fun _ => .createOrReject { threadId := "thread-1", multitaskStrategy := .interrupt } "run-2" "2"]

end TwoRuns

theorem registry_sound_after_failed_admission :
    ∃ c : Registry, Reachable (registry.when StoresAborts) c ∧
      (c.refusals.length = 1 ∧ c.manager.runs.keys = ["run-1"]) ∧ c.Sound := by
  have hrun : (runScript (guarded StoresAborts RegistryEvent.step) .empty
      (TwoRuns.admitted ++ [fun _ => .writeFailed .notPersisted])).any
      (fun c => decide (c.refusals.length = 1 ∧ c.manager.runs.keys = ["run-1"])) = true := by
    decide +kernel
  obtain ⟨c, hc, h⟩ := exists_reachable_of_runScript _ hrun
  exact ⟨c, when_of_guarded hc, of_decide_eq_true h,
    registry_sound_while_aborts_stored (when_of_guarded hc)⟩

/-- The second run is stored and the first one interrupted; then the call is cancelled. -/
theorem cancelled_admission_leaves_run :
    ¬ ∀ c, Reachable registry c → c.Sound := by
  intro hall
  have hrun : (runScript RegistryEvent.step .empty
      (TwoRuns.admitted ++ [fun _ => .written [], fun _ => .trailCancelled 0])).any
      (fun c => c.refusals.any fun r => decide (r.before.runs.keys = ["run-1"] ∧
        r.after.runs.keys = ["run-1", "run-2"])) = true := by
    decide +kernel
  obtain ⟨c, hc, h⟩ := exists_reachable_of_runScript _ hrun
  obtain ⟨r, hr, h⟩ := List.any_eq_true.mp h
  obtain ⟨hbefore, hafter⟩ := of_decide_eq_true h
  have hsame := (hall c hc).refused r hr
  rw [hsame, hbefore] at hafter
  exact absurd hafter (by decide)

end DeerFlow.Runtime
