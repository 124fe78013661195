import DeerFlow.Scheduler.TaskOrigins

/-! Who answers for the active rows of the runs: the dispatch that holds the row, or a live
run. One lemma for each thing that a dispatch or a run does to its row. -/

namespace DeerFlow.Scheduler
open Transition DeerFlow.Runtime

section ActiveRows

namespace TaskRunTable

/-- The row is `queued` or `running`. -/
def Active (t : TaskRunTable) (id : String) : Prop := ∃ r ∈ t.get id, r.status.isActive = true

/-- The rows that were terminal still have the status they had. -/
def Fixed (t u : TaskRunTable) : Prop :=
  ∀ id, ∀ r ∈ t.get id, r.status.isActive = false → ∃ r' ∈ u.get id, r'.status = r.status

instance (t : TaskRunTable) (id : String) : Decidable (t.Active id) := by
  unfold Active
  infer_instance

variable {runs : TaskRunTable}

theorem active_updateStatus {id k : String} {u : RunUpdate} (hk : k ≠ id) :
    (runs.updateStatus id u).Active k ↔ runs.Active k := by
  unfold Active
  rw [get_updateStatus, if_neg hk]

theorem active_markStaleActiveRuns {error id : String} {now : Int} :
    ¬ (runs.markStaleActiveRuns error now).Active id := by
  rintro ⟨r, hr, hactive⟩
  obtain ⟨x, -, rfl⟩ := List.mem_map.mp (Table.mem_of_get hr)
  split at hactive
  · cases hactive
  · next hended => exact hended hactive

def activeIds (t : TaskRunTable) : List String :=
  (t.rows.filter fun r => r.status.isActive).map ScheduledTaskRunRow.id

theorem mem_activeIds {id : String} :
    id ∈ runs.activeIds ↔ runs.Active id := by
  unfold activeIds
  rw [List.mem_map]
  constructor
  · rintro ⟨r, hr, rfl⟩
    obtain ⟨hmem, hactive⟩ := List.mem_filter.mp hr
    exact ⟨r, Table.mem_rows.mp hmem, hactive⟩
  · rintro ⟨r, hr, hactive⟩
    exact ⟨r, List.mem_filter.mpr ⟨Table.mem_of_get hr, hactive⟩, Table.key_of_get hr⟩

theorem countActiveRuns_eq (runs : TaskRunTable) :
    runs.countActiveRuns = runs.activeIds.length := by
  rw [activeIds, List.length_map]
  rfl

theorem hasActiveRuns_iff {taskId : String} :
    runs.hasActiveRuns taskId = true ↔
      ∃ id, ∃ r ∈ runs.get id, r.taskId = taskId ∧ r.status.isActive = true := by
  unfold hasActiveRuns
  rw [List.any_eq_true]
  constructor
  · rintro ⟨r, hr, hrow⟩
    rw [Bool.and_eq_true, decide_eq_true_iff] at hrow
    exact ⟨r.id, r, Table.mem_rows.mp hr, hrow⟩
  · rintro ⟨id, r, hr, hrow⟩
    refine ⟨r, Table.mem_of_get hr, ?_⟩
    rwa [Bool.and_eq_true, decide_eq_true_iff]

theorem Fixed.refl (runs : TaskRunTable) : runs.Fixed runs := fun _ r hr _ => ⟨r, hr, rfl⟩

theorem Fixed.trans {runs' runs'' : TaskRunTable} (h : runs.Fixed runs')
    (h' : runs'.Fixed runs'') : runs.Fixed runs'' := by
  intro id r hr hended
  obtain ⟨r', hr', hsame⟩ := h id r hr hended
  obtain ⟨r'', hr'', hsame'⟩ := h' id r' hr' (hsame ▸ hended)
  exact ⟨r'', hr'', hsame'.trans hsame⟩

theorem fixed_updateStatus {id : String} {u : RunUpdate}
    (hu : ∀ r ∈ runs.get id, r.status.isActive = false → (u.apply r).status = r.status) :
    runs.Fixed (runs.updateStatus id u) := by
  intro k r hr hended
  rw [get_updateStatus]
  split_ifs with hk
  · subst hk
    refine ⟨u.apply r, ?_, hu r hr hended⟩
    rw [hr]
    rfl
  · exact ⟨r, hr, rfl⟩

theorem fixed_put {row : ScheduledTaskRunRow}
    (hnew : runs.get row.id = none) : runs.Fixed (runs.put row) := by
  intro k r hr _
  rw [Table.get_put]
  split_ifs with hk
  · rw [hk, hnew] at hr
    cases hr
  · exact ⟨r, hr, rfl⟩

theorem fixed_markStaleActiveRuns (runs : TaskRunTable) (error : String) (now : Int) :
    runs.Fixed (runs.markStaleActiveRuns error now) := by
  intro k r hr hended
  obtain rfl := Table.key_of_get hr
  refine ⟨r, Table.mem_rows.mp (List.mem_map.mpr ⟨r, Table.mem_of_get hr, ?_⟩), rfl⟩
  rw [hended]
  rfl

end TaskRunTable

end ActiveRows

section Accounts

/-- The row of a dispatch whose run is not launched, and that is to be skipped or launched. -/
def DispatchPc.pending? : DispatchPc → Option String
  | .launch id | .skipRun id _ _ => some id
  | .check | .create _ | .skipTask _ _ _ | .markRunning _ _ | .afterLaunch _ _ | .failRun _ _ |
    .failTask _ _ => none

def DispatchPc.ended? : DispatchPc → Option String
  | .skipTask id _ _ | .failTask id _ => some id
  | .check | .create _ | .skipRun _ _ _ | .launch _ | .markRunning _ _ | .afterLaunch _ _ |
    .failRun _ _ => none

/-- What a dispatch in progress knows of its row. -/
structure DispatchCall.Accounts (runs : TaskRunTable) (live : List (String × String))
    (c : DispatchCall) : Prop where
  known : ∀ id ∈ c.held, ∃ r ∈ runs.get id, r.taskId = c.task.id
  pending : ∀ id ∈ c.pc.pending?, runs.Active id ∧ ∀ o ∈ live, o.2 ≠ id
  ended : ∀ id ∈ c.pc.ended?, ¬ runs.Active id

/-- Someone answers for each active row. Of the live runs only the task and the row matter. -/
structure Accounted (runs : TaskRunTable) (live : List (String × String))
    (calls : List DispatchCall) : Prop where
  active : ∀ id, runs.Active id → (∃ c ∈ calls, c.held = some id) ∨ ∃ o ∈ live, o.2 = id
  present : ∀ o ∈ live, ∃ r ∈ runs.get o.2, r.taskId = o.1 ∧ r.status.isActive = true
  alone : (live.map Prod.snd).Nodup
  held : (calls.filterMap DispatchCall.held).Nodup
  dispatches : ∀ c ∈ calls, c.Accounts runs live

variable {runs : TaskRunTable} {live live' : List (String × String)}
  {calls calls' : List DispatchCall} {c d : DispatchCall}

theorem DispatchCall.held_of_pending {id : String} (h : id ∈ c.pc.pending?) :
    c.held = some id := by
  unfold DispatchPc.pending? at h
  unfold DispatchCall.held
  split at h
  · next hpc => rw [hpc]; exact h
  · next hpc => rw [hpc]; exact h
  all_goals cases h

theorem DispatchCall.held_of_ended {id : String} (h : id ∈ c.pc.ended?) : c.held = some id := by
  unfold DispatchPc.ended? at h
  unfold DispatchCall.held
  split at h
  · next hpc => rw [hpc]; exact h
  · next hpc => rw [hpc]; exact h
  all_goals cases h

namespace DispatchCall.Accounts

theorem of_unheld (h : c.held = none) : c.Accounts runs live where
  known id hid := by
    rw [h] at hid
    cases hid
  pending id hid := by
    rw [held_of_pending hid] at h
    cases h
  ended id hid := by
    rw [held_of_ended hid] at h
    cases h

theorem frame {runs' : TaskRunTable} (h : c.Accounts runs live) (hlive : ∀ o ∈ live', o ∈ live)
    (hget : ∀ k ∈ c.held, runs'.get k = runs.get k) : c.Accounts runs' live' := by
  have hactive : ∀ k ∈ c.held, runs'.Active k ↔ runs.Active k := by
    intro k hk
    unfold TaskRunTable.Active
    rw [hget k hk]
  refine ⟨fun k hk => ?_, fun k hk => ?_, fun k hk => ?_⟩
  · rw [hget k hk]
    exact h.known k hk
  · obtain ⟨hact, hfree⟩ := h.pending k hk
    exact ⟨(hactive k (held_of_pending hk)).mpr hact, fun o ho => hfree o (hlive o ho)⟩
  · rw [hactive k (held_of_ended hk)]
    exact h.ended k hk

end DispatchCall.Accounts

namespace Accounted

theorem perm (h : Accounted runs live calls) (hlive : live.Perm live') (hcalls : calls.Perm calls') :
    Accounted runs live' calls' where
  active id hid := (h.active id hid).imp
    (fun ⟨c, hc, hheld⟩ => ⟨c, hcalls.mem_iff.mp hc, hheld⟩)
    fun ⟨o, ho, hrow⟩ => ⟨o, hlive.mem_iff.mp ho, hrow⟩
  present o ho := h.present o (hlive.mem_iff.mpr ho)
  alone := (hlive.map _).nodup_iff.mp h.alone
  held := (hcalls.filterMap _).nodup_iff.mp h.held
  dispatches c hc := (h.dispatches c (hcalls.mem_iff.mpr hc)).frame
    (fun _ ho => hlive.mem_iff.mpr ho) fun _ _ => rfl

theorem held_nodup (h : Accounted runs live (c :: calls)) {id : String} (hheld : c.held = some id) :
    ∀ e ∈ calls, e.held ≠ some id := by
  intro e he hsame
  have hnodup := h.held
  rw [List.filterMap_cons_some hheld, List.nodup_cons] at hnodup
  exact hnodup.1 (List.mem_filterMap.mpr ⟨e, he, hsame⟩)

/-- A dispatch ends that leaves no orphaned row behind. -/
theorem finish (h : Accounted runs live (c :: calls))
    (hc : ∀ id, c.held = some id → runs.Active id → ∃ o ∈ live, o.2 = id) :
    Accounted runs live calls where
  active id hid := by
    rcases h.active id hid with ⟨e, he, hheld⟩ | hlive
    · rcases List.mem_cons.mp he with rfl | he
      · exact .inr (hc id hheld hid)
      · exact .inl ⟨e, he, hheld⟩
    · exact .inr hlive
  present := h.present
  alone := h.alone
  held := h.held.sublist ((List.sublist_cons_self c calls).filterMap _)
  dispatches e he := h.dispatches e (List.mem_cons_of_mem _ he)

/-- A dispatch begins, or is still to create its run. -/
theorem enter (h : Accounted runs live calls) (hheld : d.held = none) :
    Accounted runs live (d :: calls) where
  active id hid := (h.active id hid).imp_left fun ⟨e, he, hrow⟩ =>
    ⟨e, List.mem_cons_of_mem _ he, hrow⟩
  present := h.present
  alone := h.alone
  held := by
    rw [List.filterMap_cons_none hheld]
    exact h.held
  dispatches e he := by
    rcases List.mem_cons.mp he with rfl | he
    · exact .of_unheld hheld
    · exact h.dispatches e he

/-- A dispatch goes on with the row it holds. -/
theorem goOn (h : Accounted runs live (c :: calls)) (hheld : d.held = c.held)
    (hd : d.Accounts runs live) : Accounted runs live (d :: calls) where
  active id hid := by
    rcases h.active id hid with ⟨e, he, hrow⟩ | hlive
    · rcases List.mem_cons.mp he with rfl | he
      · exact .inl ⟨d, List.mem_cons_self .., hheld.trans hrow⟩
      · exact .inl ⟨e, List.mem_cons_of_mem _ he, hrow⟩
    · exact .inr hlive
  present := h.present
  alone := h.alone
  held := by
    have hsame : (d :: calls).filterMap DispatchCall.held =
        (c :: calls).filterMap DispatchCall.held := by
      rw [List.filterMap_cons, List.filterMap_cons, hheld]
    rw [hsame]
    exact h.held
  dispatches e he := by
    rcases List.mem_cons.mp he with rfl | he
    · exact hd
    · exact h.dispatches e (List.mem_cons_of_mem _ he)

/-- A write that leaves the row as active or as terminal as it was. -/
theorem rewrite (h : Accounted runs live calls) {id : String} {u : RunUpdate}
    (hu : ∀ r : ScheduledTaskRunRow, (u.apply r).status.isActive = r.status.isActive) :
    Accounted (runs.updateStatus id u) live calls := by
  have hget : ∀ {k r}, r ∈ runs.get k → ∃ r' ∈ (runs.updateStatus id u).get k,
      r'.taskId = r.taskId ∧ r'.status.isActive = r.status.isActive := by
    intro k r hr
    rw [TaskRunTable.get_updateStatus]
    split_ifs with hk
    · refine ⟨u.apply r, ?_, u.apply_taskId r, hu r⟩
      rw [← hk, hr]
      rfl
    · exact ⟨r, hr, rfl, rfl⟩
  -- the status may change, but not whether the row counts as active
  have hactive : ∀ k, (runs.updateStatus id u).Active k ↔ runs.Active k := by
    intro k
    by_cases hk : k = id
    · unfold TaskRunTable.Active
      rw [TaskRunTable.get_updateStatus, if_pos hk, hk]
      constructor
      · rintro ⟨r', hr', hact⟩
        obtain ⟨r, hr, rfl⟩ := Option.map_eq_some_iff.mp hr'
        exact ⟨r, hr, (hu r).symm.trans hact⟩
      · rintro ⟨r, hr, hact⟩
        refine ⟨u.apply r, ?_, (hu r).trans hact⟩
        rw [hr]
        rfl
    · exact TaskRunTable.active_updateStatus hk
  refine ⟨fun k hk => h.active k ((hactive k).mp hk), fun o ho => ?_, h.alone, h.held,
    fun c hc => ⟨fun k hk => ?_, fun k hk => ?_, fun k hk => ?_⟩⟩
  · obtain ⟨r, hr, htask, hact⟩ := h.present o ho
    obtain ⟨r', hr', htask', hact'⟩ := hget hr
    exact ⟨r', hr', htask'.trans htask, hact'.trans hact⟩
  · obtain ⟨r, hr, htask⟩ := (h.dispatches c hc).known k hk
    obtain ⟨r', hr', htask', -⟩ := hget hr
    exact ⟨r', hr', htask'.trans htask⟩
  · obtain ⟨hact, hfree⟩ := (h.dispatches c hc).pending k hk
    exact ⟨(hactive k).mpr hact, hfree⟩
  · rw [hactive]
    exact (h.dispatches c hc).ended k hk

/-- A dispatch ends its own row, while no run of it is live. -/
theorem endRow (h : Accounted runs live (c :: calls)) {id : String} {u : RunUpdate}
    (hheld : c.held = some id) (hfree : ∀ o ∈ live, o.2 ≠ id)
    (hu : ∀ r, (u.apply r).status.isActive = false) (hd : d.held = some id)
    (htask : d.task = c.task) (hdone : d.pc.pending? = none) :
    Accounted (runs.updateStatus id u) live (d :: calls) := by
  have hended : ¬ (runs.updateStatus id u).Active id := by
    rintro ⟨r', hr', hact⟩
    rw [TaskRunTable.get_updateStatus, if_pos rfl] at hr'
    obtain ⟨r, -, rfl⟩ := Option.map_eq_some_iff.mp hr'
    rw [hu r] at hact
    cases hact
  -- no other dispatch holds this row, so what the others know of theirs stands
  have hother := h.held_nodup hheld
  refine ⟨fun k hk => ?_, fun o ho => ?_, h.alone, ?_, fun e he => ?_⟩
  · have hne : k ≠ id := by
      rintro rfl
      exact hended hk
    rcases h.active k ((TaskRunTable.active_updateStatus hne).mp hk) with ⟨e, he, hrow⟩ | hlive
    · rcases List.mem_cons.mp he with rfl | he
      · rw [hheld] at hrow
        exact absurd (Option.some.inj hrow).symm hne
      · exact .inl ⟨e, List.mem_cons_of_mem _ he, hrow⟩
    · exact .inr hlive
  · rw [TaskRunTable.get_updateStatus, if_neg (hfree o ho)]
    exact h.present o ho
  · have hsame : (d :: calls).filterMap DispatchCall.held =
        (c :: calls).filterMap DispatchCall.held := by
      rw [List.filterMap_cons, List.filterMap_cons, hheld, hd]
    rw [hsame]
    exact h.held
  · rcases List.mem_cons.mp he with rfl | he
    · refine ⟨fun k hk => ?_, fun k hk => ?_, fun k hk => ?_⟩
      · obtain rfl := Option.some.inj (hd.symm.trans hk)
        obtain ⟨r, hr, hof⟩ := (h.dispatches c (List.mem_cons_self ..)).known id hheld
        refine ⟨u.apply r, ?_, (u.apply_taskId r).trans (htask ▸ hof)⟩
        rw [TaskRunTable.get_updateStatus, if_pos rfl, hr]
        rfl
      · rw [hdone] at hk
        cases hk
      · obtain rfl := Option.some.inj (hd.symm.trans (DispatchCall.held_of_ended hk))
        exact hended
    · refine (h.dispatches e (List.mem_cons_of_mem _ he)).frame (fun o ho => ho) fun k hk => ?_
      have hne : k ≠ id := by
        rintro rfl
        exact hother e he hk
      rw [TaskRunTable.get_updateStatus, if_neg hne]

/-- A dispatch creates the row of its run. -/
theorem create (h : Accounted runs live calls) {row : ScheduledTaskRunRow}
    (hnew : runs.get row.id = none) (hactive : row.status.isActive = true)
    (hd : d.held = some row.id) (htask : row.taskId = d.task.id) (hgoing : d.pc.ended? = none) :
    Accounted (runs.put row) live (d :: calls) := by
  have hput : ∀ {k}, k ≠ row.id → (runs.put row).get k = runs.get k := by
    intro k hk
    rw [Table.get_put, if_neg hk]
  have hrow : (runs.put row).get row.id = some row := by
    rw [Table.get_put, if_pos rfl]
  -- the identifier is new: no live run and no other dispatch can mean this row
  have hunlive : ∀ o ∈ live, o.2 ≠ row.id := by
    intro o ho hsame
    obtain ⟨r, hr, -⟩ := h.present o ho
    rw [hsame, hnew] at hr
    cases hr
  have hunheld : ∀ e ∈ calls, ∀ k, e.held = some k → k ≠ row.id := by
    rintro e he k hheld rfl
    obtain ⟨r, hr, -⟩ := (h.dispatches e he).known _ hheld
    rw [hnew] at hr
    cases hr
  refine ⟨fun k hk => ?_, fun o ho => ?_, h.alone, ?_, fun e he => ?_⟩
  · by_cases hsame : k = row.id
    · exact .inl ⟨d, List.mem_cons_self .., hsame ▸ hd⟩
    · obtain ⟨r, hr, hact⟩ := hk
      rw [hput hsame] at hr
      exact (h.active k ⟨r, hr, hact⟩).imp_left fun ⟨e, he, hheld⟩ =>
        ⟨e, List.mem_cons_of_mem _ he, hheld⟩
  · rw [hput (hunlive o ho)]
    exact h.present o ho
  · rw [List.filterMap_cons_some hd]
    refine List.nodup_cons.mpr ⟨fun hmem => ?_, h.held⟩
    obtain ⟨e, he, hheld⟩ := List.mem_filterMap.mp hmem
    exact hunheld e he _ hheld rfl
  · rcases List.mem_cons.mp he with rfl | he
    · refine ⟨fun k hk => ?_, fun k hk => ?_, fun k hk => ?_⟩
      · obtain rfl := Option.some.inj (hd.symm.trans hk)
        exact ⟨row, hrow, htask⟩
      · obtain rfl := Option.some.inj (hd.symm.trans (DispatchCall.held_of_pending hk))
        exact ⟨⟨row, hrow, hactive⟩, hunlive⟩
      · rw [hgoing] at hk
        cases hk
    · exact (h.dispatches e he).frame (fun o ho => ho) fun k hk => hput (hunheld e he k hk)

/-- A dispatch launches its run, which is live from then on. -/
theorem launch (h : Accounted runs live (c :: calls)) {id : String} (hpc : c.pc.pending? = some id)
    (hd : d.held = some id) (htask : d.task = c.task) (hpending : d.pc.pending? = none)
    (hended : d.pc.ended? = none) : Accounted runs ((c.task.id, id) :: live) (d :: calls) := by
  have hheld := DispatchCall.held_of_pending hpc
  have hcall := h.dispatches c (List.mem_cons_self ..)
  obtain ⟨⟨r, hr, hact⟩, hfree⟩ := hcall.pending id hpc
  obtain ⟨r', hr', hof⟩ := hcall.known id hheld
  obtain rfl := Option.some.inj (hr.symm.trans hr')
  have hgone := h.goOn (d := d) (hd.trans hheld.symm)
    ⟨fun k hk => ⟨r, by rwa [← Option.some.inj (hd.symm.trans hk)], htask ▸ hof⟩,
      fun k hk => by (rw [hpending] at hk; cases hk), fun k hk => by (rw [hended] at hk; cases hk)⟩
  have hother := h.held_nodup hheld
  refine ⟨fun k hk => (hgone.active k hk).imp_right fun ⟨o, ho, hrow⟩ =>
      ⟨o, List.mem_cons_of_mem _ ho, hrow⟩, fun o ho => ?_, ?_, hgone.held, fun e he => ?_⟩
  · rcases List.mem_cons.mp ho with rfl | ho
    · exact ⟨r, hr, hof, hact⟩
    · exact h.present o ho
  · refine List.nodup_cons.mpr ⟨fun hmem => ?_, h.alone⟩
    obtain ⟨o, ho, hrow⟩ := List.mem_map.mp hmem
    exact hfree o ho hrow
  · have hacc := hgone.dispatches e he
    refine ⟨hacc.known, fun k hk => ⟨(hacc.pending k hk).1, fun o ho => ?_⟩, hacc.ended⟩
    rcases List.mem_cons.mp ho with rfl | ho
    · rcases List.mem_cons.mp he with rfl | he
      · rw [hpending] at hk
        cases hk
      · -- another dispatch holds another row
        rintro rfl
        exact hother e he (DispatchCall.held_of_pending hk)
    · exact (hacc.pending k hk).2 o ho

/-- A run ends, and its completion hook ends its row. -/
theorem leave {o : String × String} (h : Accounted runs (o :: live) calls) {u : RunUpdate}
    (hu : ∀ r, (u.apply r).status.isActive = false) :
    Accounted (runs.updateStatus o.2 u) live calls := by
  have halone := h.alone
  rw [List.map_cons, List.nodup_cons] at halone
  -- the run was the only one of its row
  have hother : ∀ o' ∈ live, o'.2 ≠ o.2 := fun o' ho' hrow =>
    halone.1 (List.mem_map.mpr ⟨o', ho', hrow⟩)
  have hended : ∀ {k}, (runs.updateStatus o.2 u).Active k → k ≠ o.2 := by
    rintro k ⟨r', hr', hact⟩ rfl
    rw [TaskRunTable.get_updateStatus, if_pos rfl] at hr'
    obtain ⟨r, -, rfl⟩ := Option.map_eq_some_iff.mp hr'
    rw [hu r] at hact
    cases hact
  refine ⟨fun k hk => ?_, fun o' ho' => ?_, halone.2, h.held, fun c hc => ?_⟩
  · have hne := hended hk
    have hbefore := (TaskRunTable.active_updateStatus hne).mp hk
    refine (h.active k hbefore).imp_right fun ⟨o', ho', hrow⟩ => ?_
    rcases List.mem_cons.mp ho' with rfl | ho'
    · exact absurd hrow.symm hne
    · exact ⟨o', ho', hrow⟩
  · rw [TaskRunTable.get_updateStatus, if_neg (hother o' ho')]
    exact h.present o' (List.mem_cons_of_mem _ ho')
  · -- a dispatch that still holds the row has launched, and is not pending
    have hcall := h.dispatches c hc
    refine ⟨fun k hk => ?_, fun k hk => ?_, fun k hk => fun hact => ?_⟩
    · obtain ⟨r, hr, hof⟩ := hcall.known k hk
      rw [TaskRunTable.get_updateStatus]
      split_ifs with hrow
      · refine ⟨u.apply r, ?_, (u.apply_taskId r).trans hof⟩
        rw [← hrow, hr]
        rfl
      · exact ⟨r, hr, hof⟩
    · obtain ⟨hact, hfree⟩ := hcall.pending k hk
      have hne : k ≠ o.2 := (hfree o (List.mem_cons_self ..)).symm
      exact ⟨(TaskRunTable.active_updateStatus hne).mpr hact, fun o' ho' =>
        hfree o' (List.mem_cons_of_mem _ ho')⟩
    · exact hcall.ended k hk ((TaskRunTable.active_updateStatus (hended hact)).mp hact)

/-- A run ends without a word, but a dispatch still answers for its row. -/
theorem lose {o : String × String} (h : Accounted runs (o :: live) calls)
    (hheld : ∃ c ∈ calls, c.held = some o.2) : Accounted runs live calls where
  active k hk := by
    rcases h.active k hk with hcall | ⟨o', ho', hrow⟩
    · exact .inl hcall
    · rcases List.mem_cons.mp ho' with rfl | ho'
      · exact .inl (hrow ▸ hheld)
      · exact .inr ⟨o', ho', hrow⟩
  present o' ho' := h.present o' (List.mem_cons_of_mem _ ho')
  alone := by
    have halone := h.alone
    rw [List.map_cons, List.nodup_cons] at halone
    exact halone.2
  held := h.held
  dispatches c hc := (h.dispatches c hc).frame (fun _ ho' => List.mem_cons_of_mem _ ho')
    fun _ _ => rfl

end Accounted

end Accounts

end DeerFlow.Scheduler
