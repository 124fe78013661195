import DeerFlow.Middlewares.DelegationLedger

/-! The ledger after a capture. Whatever was cut from the transcript before, and whatever the cap
dropped, the ledger shows the most recent delegations of the whole history. -/

namespace DeerFlow.Middlewares
open Transition

def ids (es : List DelegationEntry) : List Text := es.map (·.id)

namespace DelegationEntry

/-- An entry without the time of its capture and the reason for its cap. -/
def stable (e : DelegationEntry) : Text × Text × Text × DelegationStatus × Option Text ×
    Option Text × Option Text := (e.id, e.stableFields)

def created (now : String) (e : DelegationEntry) : DelegationEntry := { e with createdAt := now }

variable {e p : DelegationEntry}

@[simp]
theorem stable_created (now : String) : (e.created now).stable = e.stable := rfl

theorem id_eq_of_stable (h : e.stable = p.stable) : e.id = p.id := congrArg Prod.fst h

theorem status_eq_of_stable (h : e.stable = p.stable) : e.status = p.status :=
  congrArg (·.2.2.2.1) h

theorem stable_eq (hid : e.id = p.id) (h : e.stableFields = p.stableFields) :
    e.stable = p.stable := Prod.ext hid h

end DelegationEntry

section Merge
variable {ledger : Delegations} {new : List DelegationEntry}

/-- The version of an entry that a merge keeps. -/
def carry (previous : Option DelegationEntry) (entry : DelegationEntry) : DelegationEntry :=
  match previous with
  | none => entry
  | some previous =>
    if previous.status.isTerminal && !entry.status.isTerminal then previous
    else if previous.createdAt ≠ "" then { entry with createdAt := previous.createdAt } else entry

theorem get_mergeDelegation (t : Delegations) (e : DelegationEntry) (k : Text) :
    (mergeDelegation t e).get k = if k = e.id then some (carry (t.get k) e) else t.get k := by
  unfold mergeDelegation
  split
  · next hget =>
    rw [Table.get_put]
    split_ifs with hk
    · rw [hk, hget, carry]
    · rfl
  · next p hget =>
    by_cases hregress : (p.status.isTerminal && !e.status.isTerminal) = true
    · rw [if_pos hregress]
      split_ifs with hk
      · rw [hk, hget, carry, if_pos hregress]
      · rfl
    · rw [if_neg hregress, Table.get_put]
      have hid : (if p.createdAt ≠ "" then { e with createdAt := p.createdAt } else e).id = e.id := by
        split_ifs <;> rfl
      rw [hid]
      by_cases hk : k = e.id
      · rw [if_pos hk, if_pos hk, hk, hget]
        simp only [carry, if_neg hregress]
      · rw [if_neg hk, if_neg hk]

theorem keys_mergeDelegation (t : Delegations) (e : DelegationEntry) :
    (mergeDelegation t e).rows.map (·.id) =
      t.rows.map (·.id) ++ if (t.get e.id).isSome then [] else [e.id] := by
  unfold mergeDelegation
  split
  · exact Table.keys_put t e
  · next p hget =>
    rw [hget, Option.isSome_some, if_pos rfl, List.append_nil]
    split_ifs
    · rfl
    · exact (Table.keys_put t { e with createdAt := p.createdAt }).trans (by simp [hget])
    · exact (Table.keys_put t e).trans (by simp [hget])

theorem foldl_mergeDelegation_empty (ledger : Delegations) :
    ledger.rows.foldl mergeDelegation .empty = ledger := by
  have hfold (rs : List DelegationEntry) (t : Delegations) (hrs : (rs.map (·.id)).Nodup)
      (hnew : ∀ r ∈ rs, t.get r.id = none) :
      rs.foldl mergeDelegation t = t.putAll rs := by
    induction rs generalizing t with
    | nil => rfl
    | cons r rs ih =>
      rw [List.map_cons, List.nodup_cons] at hrs
      have hput : mergeDelegation t r = t.put r := by
        rw [mergeDelegation, hnew r (List.mem_cons_self ..)]
      have hnew' : ∀ x ∈ rs, (t.put r).get x.id = none := by
        intro x hx
        have hne : x.id ≠ r.id := fun he => hrs.1 (he ▸ List.mem_map_of_mem hx)
        rw [Table.get_put, if_neg hne]
        exact hnew x (List.mem_cons_of_mem _ hx)
      rw [List.foldl_cons, hput, ih (t.put r) hrs.2 hnew']
      rfl
  have hempty : ∀ r ∈ ledger.rows, (Table.empty : Delegations).get r.id = none := fun _ _ => rfl
  have hrows := Table.rows_putAll_of_new .empty ledger.nodup hempty
  rw [hfold ledger.rows .empty ledger.nodup hempty]
  cases ledger
  exact Table.mk.injEq .. |>.mpr hrows

theorem rows_mergeDelegations (h : ledger.rows.length ≤ delegationLedgerMaxEntries) :
    (mergeDelegations ledger new).rows =
      recent delegationLedgerMaxEntries (new.foldl mergeDelegation ledger).rows := by
  unfold mergeDelegations
  split_ifs with hnew
  · rw [hnew, List.foldl_nil, recent_of_length_le h]
  · rw [List.foldl_append, foldl_mergeDelegation_empty]
    rfl

end Merge

/-- Lists with the same keys, in which a key stands for one entry. -/
theorem eq_of_keys {α κ : Type} (key : α → κ) {xs ys : List α} (h : xs.map key = ys.map key)
    (hsame : ∀ x ∈ xs, ∀ y ∈ ys, key x = key y → x = y) : xs = ys := by
  induction xs generalizing ys with
  | nil =>
    rw [List.map_nil, eq_comm, List.map_eq_nil_iff] at h
    exact h.symm
  | cons x xs ih =>
    cases ys with
    | nil => cases h
    | cons y ys =>
      rw [List.map_cons, List.map_cons, List.cons.injEq] at h
      have hhead := hsame x (List.mem_cons_self ..) y (List.mem_cons_self ..) h.1
      have htail := ih h.2 fun a ha b hb =>
        hsame a (List.mem_cons_of_mem _ ha) b (List.mem_cons_of_mem _ hb)
      rw [hhead, htail]

section Overlap
variable {ledger : Delegations} {visible gone seen now : List DelegationEntry}

/-- The ledger shows the last of the delegations `gone ++ seen`, those in `gone` have left the
transcript for good, and the others have become `now`, which is what can be seen. -/
structure Overlap (ledger : Delegations) (visible gone seen now : List DelegationEntry) : Prop where
  shown : ledger.rows.map (·.stable) =
    (recent delegationLedgerMaxEntries (gone ++ seen)).map (·.stable)
  read : visible.map (·.stable) = now.map (·.stable)
  grown : ids seen <+: ids now
  nodup : (ids (gone ++ now)).Nodup
  settled : ∀ p ∈ gone ++ seen, ∀ e ∈ now, p.id = e.id →
    p.status.isTerminal = true → e.status.isTerminal = true

theorem ids_eq_of_stable {xs ys : List DelegationEntry}
    (h : xs.map (·.stable) = ys.map (·.stable)) : ids xs = ids ys := by
  have hfst := congrArg (List.map Prod.fst) h
  rwa [List.map_map, List.map_map] at hfst

theorem exists_stable {xs ys : List DelegationEntry} {e : DelegationEntry}
    (h : xs.map (·.stable) = ys.map (·.stable)) (he : e ∈ xs) :
    ∃ e' ∈ ys, e'.stable = e.stable := by
  have hmem : e.stable ∈ ys.map (·.stable) := h ▸ List.mem_map_of_mem he
  exact List.mem_map.mp hmem

namespace Overlap
variable (h : Overlap ledger visible gone seen now)
include h

theorem ids_visible : ids visible = ids now := ids_eq_of_stable h.read

theorem ids_ledger : ids ledger.rows = recent delegationLedgerMaxEntries (ids (gone ++ seen)) :=
  (ids_eq_of_stable h.shown).trans (map_recent _ _ _)

theorem nodup_visible : (ids visible).Nodup := by
  have hnodup := h.nodup
  rw [ids, List.map_append] at hnodup
  rw [h.ids_visible]
  exact (List.nodup_append.mp hnodup).2.1

theorem length_ledger :
    ledger.rows.length = min delegationLedgerMaxEntries (gone ++ seen).length := by
  have hlength := congrArg List.length h.shown
  rwa [List.length_map, List.length_map, length_recent] at hlength

theorem length_seen_le : seen.length ≤ now.length := by
  have hlength := h.grown.length_le
  rwa [ids, ids, List.length_map, List.length_map] at hlength

theorem ids_grown : ids (gone ++ seen) <+: ids (gone ++ now) := by
  rw [ids, ids, List.map_append, List.map_append]
  exact (List.prefix_append_right_inj _).mpr h.grown

theorem earliest_at {earliest : DelegationEntry} {rest : List DelegationEntry}
    (hrows : ledger.rows = earliest :: rest) :
    (ids (gone ++ now))[(gone ++ seen).length - delegationLedgerMaxEntries]? =
      some earliest.id := by
  have hlength : (ids (gone ++ seen)).length = (gone ++ seen).length := List.length_map ..
  have hledger := h.ids_ledger
  rw [hrows, recent, hlength] at hledger
  have hhead : (ids (gone ++ seen))[(gone ++ seen).length - delegationLedgerMaxEntries]? =
      some earliest.id := by
    rw [← Nat.add_zero (_ - _), ← List.getElem?_drop, ← hledger]
    rfl
  obtain ⟨hlt, -⟩ := List.getElem?_eq_some_iff.mp hhead
  obtain ⟨new, hnew⟩ := h.ids_grown
  rw [← hnew, List.getElem?_append_left hlt, hhead]

/-- The window that is compared starts no later than the ledger, and what it leaves out is gone
from the transcript or too old to be kept. -/
theorem window_eq_drop : ∃ k, retainedDelegationWindow visible ledger.rows = visible.drop k ∧
    (gone ++ seen).length - delegationLedgerMaxEntries ≤ gone.length + k ∧
    (k = 0 ∨ gone.length + k ≤ (gone ++ now).length - delegationLedgerMaxEntries) := by
  have hledger := h.length_ledger
  have hseen := h.length_seen_le
  have hvisible : visible.length = now.length := by
    simpa using congrArg List.length h.read
  unfold retainedDelegationWindow
  split
  · next hnil =>
    rw [hnil, List.length_nil] at hledger
    refine ⟨0, rfl, ?_, .inl rfl⟩
    have hmax : delegationLedgerMaxEntries = 50 := rfl
    omega
  · next earliest rest hrows =>
    rw [hrows] at hledger
    split_ifs with hfull
    · refine ⟨0, rfl, ?_, .inl rfl⟩
      omega
    · have hearliest := h.earliest_at hrows
      have hids : ids (gone ++ now) = ids gone ++ ids visible := by
        rw [h.ids_visible, ids, List.map_append]
        rfl
      have hgone : (ids gone).length = gone.length := List.length_map ..
      split
      · next i hi =>
        obtain ⟨hlt, hfound, -⟩ := List.findIdx?_eq_some_iff_getElem.mp hi
        have hat : (ids (gone ++ now))[gone.length + i]? = some earliest.id := by
          rw [hids, List.getElem?_append_right (by omega), hgone, Nat.add_sub_cancel_left, ids,
            List.getElem?_map, List.getElem?_eq_getElem hlt]
          exact congrArg some (of_decide_eq_true hfound)
        have hsame : gone.length + i =
            (gone ++ seen).length - delegationLedgerMaxEntries := by
          have hbound := (List.getElem?_eq_some_iff.mp hat).1
          exact (List.getElem?_inj hbound h.nodup).mp (hat.trans hearliest.symm)
        refine ⟨i, rfl, Nat.le_of_eq hsame.symm, .inr ?_⟩
        rw [hsame, List.length_append, List.length_append]
        omega
      · next hnone =>
        have hgoneEarlier : (gone ++ seen).length - delegationLedgerMaxEntries < gone.length := by
          by_contra hge
          rw [hids, List.getElem?_append_right (by omega)] at hearliest
          obtain ⟨e, he, hid⟩ := List.mem_map.mp (List.mem_of_getElem? hearliest)
          have hmissed := List.findIdx?_eq_none_iff.mp hnone e he
          exact absurd hid (of_decide_eq_false hmissed)
        refine ⟨visible.length - delegationLedgerMaxEntries, rfl, by omega, ?_⟩
        rw [List.length_append, hvisible]
        omega

theorem ids_split : ids (gone ++ now) = ids gone ++ ids visible := by
  rw [h.ids_visible, ids, List.map_append]
  rfl

theorem ids_window (k : Nat) :
    ids (visible.drop k) = (ids (gone ++ now)).drop (gone.length + k) := by
  have hgone : (ids gone).length = gone.length := List.length_map ..
  rw [h.ids_split, ← hgone, List.drop_append]
  simp [ids]

theorem nodup_window (k : Nat) : (ids (visible.drop k)).Nodup := by
  rw [ids, List.map_drop]
  exact h.nodup_visible.sublist (List.drop_sublist ..)

theorem nodup_changed (k : Nat) :
    (ids ((visible.drop k).filter (isChangedDelegation ledger))).Nodup :=
  (h.nodup_window k).sublist (List.filter_sublist.map _)

/-- Entries of the window that the ledger does not have are among the changed ones. -/
theorem keys_merged (k : Nat) :
    (((visible.drop k).filter (isChangedDelegation ledger)).foldl mergeDelegation ledger).rows.map
        (·.id) =
      ids ledger.rows ++ (ids (visible.drop k)).filter fun x => (ledger.get x).isNone := by
  have hsame : (ids ((visible.drop k).filter (isChangedDelegation ledger))).filter
        (fun x => (ledger.get x).isNone) =
      (ids (visible.drop k)).filter fun x => (ledger.get x).isNone := by
    rw [ids, ids, List.filter_map, List.filter_map, List.filter_filter]
    congr 1
    apply List.filter_congr
    intro e _
    rcases hget : ledger.get e.id with _ | p
    · simp [isChangedDelegation, hget]
    · simp [hget]
  rw [Table.keys_foldl keys_mergeDelegation get_mergeDelegation ledger (h.nodup_changed k)]
  exact congrArg _ hsame

theorem recent_keys_merged {k : Nat}
    (hearly : (gone ++ seen).length - delegationLedgerMaxEntries ≤ gone.length + k)
    (hlate : k = 0 ∨ gone.length + k ≤ (gone ++ now).length - delegationLedgerMaxEntries) :
    recent delegationLedgerMaxEntries
        (ids ledger.rows ++ (ids (visible.drop k)).filter fun x => (ledger.get x).isNone) =
      recent delegationLedgerMaxEntries (ids (gone ++ now)) := by
  have hseen : (ids (gone ++ seen)).length = (gone ++ seen).length := List.length_map ..
  have hnow : (ids (gone ++ now)).length = (gone ++ now).length := List.length_map ..
  have hnodup := h.nodup
  obtain ⟨new, hnew⟩ := h.ids_grown
  rw [h.ids_window, h.ids_ledger, ← hnew]
  rw [← hnew] at hnodup hnow
  apply recent_window
  · rw [hseen]
    exact hearly
  · rw [hseen, hnow]
    apply hlate.imp_left
    intro hk
    rw [hk, List.length_append]
    omega
  · intro x hx
    rw [← h.ids_ledger] at hx
    rw [Option.isNone_eq_false_iff, Table.isSome_get]
    exact hx
  · intro x hx
    rw [← Option.not_isSome, Bool.not_eq_true', Bool.eq_false_iff, Ne, Table.isSome_get]
    intro hold
    have hmem : x ∈ ids (gone ++ seen) := by
      apply mem_of_mem_recent
      rw [← h.ids_ledger]
      exact hold
    exact (List.nodup_append.mp hnodup).2.2 x hmem x hx rfl

theorem not_regresses {p e : DelegationEntry} (hp : ledger.get e.id = some p) (he : e ∈ visible) :
    (p.status.isTerminal && !e.status.isTerminal) = false := by
  obtain ⟨p', hp', hpp⟩ := exists_stable h.shown (Table.mem_of_get hp)
  obtain ⟨e', he', hee⟩ := exists_stable h.read he
  have hid : p'.id = e'.id := by
    rw [DelegationEntry.id_eq_of_stable hpp, DelegationEntry.id_eq_of_stable hee,
      Table.key_of_get hp]
  have hsettled := h.settled p' (mem_of_mem_recent hp') e' he' hid
  rw [DelegationEntry.status_eq_of_stable hpp, DelegationEntry.status_eq_of_stable hee] at hsettled
  simpa using hsettled

/-- After the merge an entry of the window is shown as it was read. -/
theorem exists_merged {k : Nat} {e : DelegationEntry} (he : e ∈ visible.drop k) :
    ∃ r, (((visible.drop k).filter (isChangedDelegation ledger)).foldl mergeDelegation ledger).get
      e.id = some r ∧ r.stable = e.stable := by
  have hnodup := h.nodup_changed k
  by_cases hchanged : isChangedDelegation ledger e = true
  · have hmem := List.mem_filter.mpr ⟨he, hchanged⟩
    refine ⟨_, Table.get_foldl_of_mem get_mergeDelegation ledger hnodup hmem, ?_⟩
    rcases hp : ledger.get e.id with _ | p
    · rfl
    · have hkeeps := h.not_regresses hp (List.mem_of_mem_drop he)
      by_cases hcreated : p.createdAt ≠ ""
      · simp [carry, hkeeps, hcreated, DelegationEntry.stable, DelegationEntry.stableFields]
      · simp [carry, hkeeps, hcreated]
  · have hout : e.id ∉ ids ((visible.drop k).filter (isChangedDelegation ledger)) := by
      intro hmem
      obtain ⟨e', he', hid⟩ := List.mem_map.mp hmem
      have hsame := List.inj_on_of_nodup_map (h.nodup_window k) (List.mem_of_mem_filter he') he hid
      exact hchanged (hsame ▸ (List.mem_filter.mp he').2)
    rw [Table.get_foldl_of_notMem get_mergeDelegation ledger hout]
    rcases hp : ledger.get e.id with _ | p
    · simp [isChangedDelegation, hp] at hchanged
    · have hkeeps := h.not_regresses hp (List.mem_of_mem_drop he)
      have hfields : p.stableFields = e.stableFields := by
        simpa [isChangedDelegation, hp, hkeeps] using hchanged
      exact ⟨p, rfl, DelegationEntry.stable_eq (Table.key_of_get hp) hfields⟩

/-- A recent delegation that the window leaves out is one that left the transcript. -/
theorem mem_gone {k : Nat} {d : DelegationEntry}
    (hlate : k = 0 ∨ gone.length + k ≤ (gone ++ now).length - delegationLedgerMaxEntries)
    (hd : d ∈ recent delegationLedgerMaxEntries (gone ++ now))
    (hout : d.id ∉ ids (visible.drop k)) : d ∈ gone := by
  rcases hlate with rfl | hlate
  · rcases List.mem_append.mp (mem_of_mem_recent hd) with hgone | hnow
    · exact hgone
    · rw [List.drop_zero, h.ids_visible] at hout
      exact absurd (List.mem_map_of_mem hnow) hout
  · have hdrop := mem_drop_of_mem_recent hd hlate
    rw [h.ids_window, ids, ← List.map_drop] at hout
    exact absurd (List.mem_map_of_mem hdrop) hout

theorem stable_mergeDelegations :
    (mergeDelegations ledger (filterChangedDelegations visible ledger)).rows.map (·.stable) =
      (recent delegationLedgerMaxEntries (gone ++ now)).map (·.stable) := by
  obtain ⟨k, hwindow, hearly, hlate⟩ := h.window_eq_drop
  have hlength : ledger.rows.length ≤ delegationLedgerMaxEntries :=
    h.length_ledger.trans_le (Nat.min_le_left ..)
  rw [rows_mergeDelegations hlength, filterChangedDelegations, hwindow]
  generalize hmerged : ((visible.drop k).filter (isChangedDelegation ledger)).foldl
    mergeDelegation ledger = merged
  have hkeys : ids (recent delegationLedgerMaxEntries merged.rows) =
      ids (recent delegationLedgerMaxEntries (gone ++ now)) := by
    rw [ids, ids, map_recent, map_recent, ← hmerged, h.keys_merged]
    exact h.recent_keys_merged hearly hlate
  apply eq_of_keys Prod.fst
  · rw [List.map_map, List.map_map]
    exact hkeys
  · rintro x hx y hy hid
    obtain ⟨r, hr, rfl⟩ := List.mem_map.mp hx
    obtain ⟨d, hd, rfl⟩ := List.mem_map.mp hy
    change r.id = d.id at hid
    have hget : merged.get d.id = some r := by
      rw [← hid]
      exact Table.mem_rows.mp (mem_of_mem_recent hr)
    by_cases hin : d.id ∈ ids (visible.drop k)
    · obtain ⟨e, he, hed⟩ := List.mem_map.mp hin
      obtain ⟨r', hr', hstable⟩ := h.exists_merged he
      obtain ⟨e', he', hee⟩ := exists_stable h.read (List.mem_of_mem_drop he)
      rw [hmerged, hed, hget, Option.some.injEq] at hr'
      have hsame : e' = d := by
        apply List.inj_on_of_nodup_map h.nodup (List.mem_append_right _ he') (mem_of_mem_recent hd)
        exact (DelegationEntry.id_eq_of_stable hee).trans hed
      rw [hr', hstable, ← hee, hsame]
    · have hgone := h.mem_gone hlate hd hin
      have hout : d.id ∉ ids ((visible.drop k).filter (isChangedDelegation ledger)) := fun hmem =>
        hin ((List.filter_sublist.map _).subset hmem)
      rw [← hmerged, Table.get_foldl_of_notMem get_mergeDelegation ledger hout] at hget
      obtain ⟨p, hp, hstable⟩ := exists_stable h.shown (Table.mem_of_get hget)
      have hnodup : (ids (gone ++ seen)).Nodup := h.nodup.sublist h.ids_grown.sublist
      have hsame : p = d := by
        apply List.inj_on_of_nodup_map hnodup (mem_of_mem_recent hp) (List.mem_append_left _ hgone)
        exact (DelegationEntry.id_eq_of_stable hstable).trans hid
      rw [← hstable, hsame]

end Overlap

/-- Capturing again finds nothing to report. -/
theorem Overlap.filterChangedDelegations_eq_nil (h : Overlap ledger visible gone now now) :
    filterChangedDelegations visible ledger = [] := by
  obtain ⟨k, hwindow, hearly, -⟩ := h.window_eq_drop
  rw [filterChangedDelegations, hwindow, List.filter_eq_nil_iff]
  intro e he
  have hid : e.id ∈ ids ledger.rows := by
    have hsplit : (gone ++ now).length - delegationLedgerMaxEntries + (gone.length + k -
        ((gone ++ now).length - delegationLedgerMaxEntries)) = gone.length + k := by omega
    have hmem : e.id ∈ ids (visible.drop k) := List.mem_map_of_mem he
    rw [h.ids_window, ← hsplit, ← List.drop_drop] at hmem
    rw [h.ids_ledger, recent, ids, List.length_map]
    exact List.mem_of_mem_drop hmem
  obtain ⟨p, hp, hpe⟩ := List.mem_map.mp hid
  have hget : ledger.get e.id = some p := by
    rw [← hpe]
    exact Table.mem_rows.mp hp
  obtain ⟨p', hp', hpp⟩ := exists_stable h.shown hp
  obtain ⟨e', he', hee⟩ := exists_stable h.read (List.mem_of_mem_drop he)
  have hsame : p' = e' := by
    apply List.inj_on_of_nodup_map h.nodup (mem_of_mem_recent hp') (List.mem_append_right _ he')
    rw [DelegationEntry.id_eq_of_stable hpp, DelegationEntry.id_eq_of_stable hee, hpe]
  have hfields : p.stableFields = e.stableFields := by
    have hstable : p.stable = e.stable := by rw [← hpp, hsame, hee]
    exact congrArg Prod.snd hstable
  simp [isChangedDelegation, hget, hfields]

end Overlap

section Extraction
variable (env : LedgerEnv) {messages : List LedgerMessage}

/-- The entries of all task calls, as they are when they are first seen. -/
def taskCalls (messages : List LedgerMessage) : List DelegationEntry :=
  messages.flatMap (·.taskDelegations env "")

def LedgerMessage.result? (id : Text) : LedgerMessage → Option (Text × SubagentResult)
  | .tool messageId toolCallId kwargs =>
    if id = toolCallId then (readSubagentResultMetadata kwargs).map (messageId, ·) else none
  | .ai _ | .other _ => none

def resultsOf (messages : List LedgerMessage) (id : Text) : List (Text × SubagentResult) :=
  messages.filterMap (·.result? id)

def DelegationEntry.settledBy (e : DelegationEntry) (results : List (Text × SubagentResult)) :
    DelegationEntry := results.foldl (fun e r => e.resolve env r.1 r.2) e

/-- Every delegation in the order of the calls, each with what came of it. -/
def delegationsOf (messages : List LedgerMessage) : List DelegationEntry :=
  (taskCalls env messages).map fun e => e.settledBy env (resultsOf messages e.id)

theorem taskCalls_append (xs ys : List LedgerMessage) :
    taskCalls env (xs ++ ys) = taskCalls env xs ++ taskCalls env ys := List.flatMap_append

theorem resultsOf_append (xs ys : List LedgerMessage) (id : Text) :
    resultsOf (xs ++ ys) id = resultsOf xs id ++ resultsOf ys id := List.filterMap_append

theorem ids_taskCalls (messages : List LedgerMessage) :
    ids (taskCalls env messages) = messages.flatMap (·.taskIds env) := List.map_flatMap

namespace DelegationEntry
variable (e : DelegationEntry)

theorem settledBy_append (xs ys : List (Text × SubagentResult)) :
    e.settledBy env (xs ++ ys) = (e.settledBy env xs).settledBy env ys := List.foldl_append

@[simp]
theorem settledBy_id (results : List (Text × SubagentResult)) :
    (e.settledBy env results).id = e.id := by
  induction results generalizing e with
  | nil => rfl
  | cons r results ih => exact (ih (e.resolve env r.1 r.2)).trans (resolve_id env e r.1 r.2)

theorem resolve_created (now : String) (messageId : Text) (r : SubagentResult) :
    (e.created now).resolve env messageId r = (e.resolve env messageId r).created now := by
  unfold resolve
  dsimp only [created]
  split <;> rfl

theorem settledBy_created (now : String) (results : List (Text × SubagentResult)) :
    (e.created now).settledBy env results = (e.settledBy env results).created now := by
  induction results generalizing e with
  | nil => rfl
  | cons r results ih =>
    change ((e.created now).resolve env r.1 r.2).settledBy env results = _
    rw [resolve_created, ih]
    rfl

theorem status_resolve (messageId : Text) (r : SubagentResult) :
    (e.resolve env messageId r).status = r.status := by
  unfold resolve
  dsimp only
  split <;> rfl

end DelegationEntry

theorem taskDelegation?_created (now : String) (call : Dict Value) :
    taskDelegation? env now call = (taskDelegation? env "" call).map (·.created now) := by
  unfold taskDelegation?
  split_ifs
  · rw [Option.map_map]
    rfl
  · rfl

theorem taskDelegations_created (now : String) (m : LedgerMessage) :
    m.taskDelegations env now = (m.taskDelegations env "").map (·.created now) := by
  cases m with
  | ai toolCalls =>
    have hcall : taskDelegation? env now =
        fun call => (taskDelegation? env "" call).map (·.created now) :=
      funext (taskDelegation?_created env now)
    simp only [LedgerMessage.taskDelegations, hcall, List.map_filterMap]
  | tool | other => rfl

theorem rows_resolveDelegation (entries : Delegations) (m : LedgerMessage) :
    (resolveDelegation env entries m).rows =
      entries.rows.map fun e => e.settledBy env (m.result? e.id).toList := by
  have hsame : entries.rows.map (fun e => e.settledBy env []) = entries.rows :=
    List.map_id' _
  cases m with
  | ai | other => exact hsame.symm
  | tool id toolCallId kwargs =>
    rcases hr : readSubagentResultMetadata kwargs with _ | r
    · simpa [resolveDelegation, LedgerMessage.result?, hr] using hsame.symm
    · simp only [resolveDelegation, LedgerMessage.result?, hr]
      rw [Table.rows_update fun e => DelegationEntry.resolve_id env e id r]
      apply List.map_congr_left
      intro e _
      by_cases hid : e.id = toolCallId
      · simp [hid, DelegationEntry.settledBy]
      · simp [hid, DelegationEntry.settledBy]

theorem rows_foldl_resolveDelegation (entries : Delegations) (messages : List LedgerMessage) :
    (messages.foldl (resolveDelegation env) entries).rows =
      entries.rows.map fun e => e.settledBy env (resultsOf messages e.id) := by
  induction messages generalizing entries with
  | nil => exact (List.map_id' _).symm
  | cons m messages ih =>
    rw [List.foldl_cons, ih, rows_resolveDelegation, List.map_map]
    apply List.map_congr_left
    intro e _
    have hsplit : resultsOf (m :: messages) e.id =
        (m.result? e.id).toList ++ resultsOf messages e.id := by
      rw [resultsOf, List.filterMap_cons]
      rcases m.result? e.id with _ | r
      · rfl
      · rfl
    rw [hsplit, DelegationEntry.settledBy_append, Function.comp_apply,
      DelegationEntry.settledBy_id]

theorem extractDelegations_eq (now : String) (hnodup : (ids (taskCalls env messages)).Nodup) :
    extractDelegations env now messages = (delegationsOf env messages).map (·.created now) := by
  have hcalls : messages.flatMap (·.taskDelegations env now) =
      (taskCalls env messages).map (·.created now) := by
    rw [taskCalls, List.map_flatMap]
    congr 1
    funext m
    exact taskDelegations_created env now m
  have hids : ((messages.flatMap (·.taskDelegations env now)).map (·.id)).Nodup := by
    rw [hcalls, List.map_map]
    exact hnodup
  rw [extractDelegations, rows_foldl_resolveDelegation,
    Table.rows_putAll_of_new .empty hids fun _ _ => rfl, hcalls]
  change ((taskCalls env messages).map _).map _ = _
  rw [delegationsOf, List.map_map, List.map_map]
  apply List.map_congr_left
  intro e _
  exact DelegationEntry.settledBy_created env e now _

end Extraction

namespace LedgerState
variable {env : LedgerEnv} {s t : LedgerState}

/-- Where ids are mentioned. -/
structure Ordered (env : LedgerEnv) (s : LedgerState) : Prop where
  nodup : (ids (taskCalls env s.paired)).Nodup
  calls : ids (taskCalls env s.history) = ids (taskCalls env s.paired)
  kept : ∀ m ∈ s.messages, m ∈ s.history
  pairedKept : ∀ m ∈ s.paired, m ∈ s.history
  /-- No result comes before its call. -/
  ordered : s.messages.Pairwise fun a b => ∀ id ∈ b.taskIds env, a.toolCallId? ≠ some id

/-- The transcript against the history: `before` is the part of it that was captured, `gone` are
the delegations in it that were cut, and `extra` came after. -/
structure Follows (env : LedgerEnv) (s : LedgerState) (before extra : List LedgerMessage)
    (gone seen : List DelegationEntry) : Prop where
  paired : s.paired = before ++ extra
  fresh : s.captured = true → extra = []
  calls : taskCalls env before = gone ++ seen
  visible : taskCalls env s.messages = seen ++ taskCalls env extra
  quiet : ∀ e ∈ gone, resultsOf extra e.id = []
  results : ∀ e ∈ taskCalls env s.messages,
    resultsOf s.paired e.id = resultsOf s.messages e.id
  shown : s.ledger.rows.map (·.stable) =
    (recent delegationLedgerMaxEntries (delegationsOf env before)).map (·.stable)

theorem mem_ids_taskCalls {messages : List LedgerMessage} {id : Text} :
    id ∈ ids (taskCalls env messages) ↔ ∃ m ∈ messages, id ∈ m.taskIds env := by
  rw [ids_taskCalls, List.mem_flatMap]

theorem resultsOf_eq_nil {messages : List LedgerMessage} {id : Text}
    (h : ∀ m ∈ messages, m.toolCallId? ≠ some id) : resultsOf messages id = [] := by
  rw [resultsOf, List.filterMap_eq_nil_iff]
  intro m hm
  cases m with
  | ai | other => rfl
  | tool messageId toolCallId kwargs =>
    have hne : id ≠ toolCallId := fun he => h _ hm (congrArg some he.symm)
    exact if_neg hne

section Capture
variable {before extra : List LedgerMessage} {gone seen : List DelegationEntry}

theorem isTerminal_of_resultStatus? {kwargs : Dict Value} {status : DelegationStatus}
    (h : resultStatus? kwargs = some status) : status.isTerminal = true := by
  unfold resultStatus? at h
  dsimp only at h
  split_ifs at h
  · cases h
    rfl
  · cases h
    rfl
  · split at h
    · unfold DelegationStatus.read? at h
      split at h <;> cases h <;> rfl
    · cases h

theorem isTerminal_of_read {kwargs : Dict Value} {r : SubagentResult}
    (h : readSubagentResultMetadata kwargs = some r) : r.status.isTerminal = true := by
  obtain ⟨status, hstatus, hr⟩ := Option.bind_eq_some_iff.mp h
  cases hr
  exact isTerminal_of_resultStatus? hstatus

theorem isTerminal_of_mem_resultsOf {messages : List LedgerMessage} {id : Text}
    {r : Text × SubagentResult} (h : r ∈ resultsOf messages id) : r.2.status.isTerminal = true := by
  obtain ⟨m, -, hm⟩ := List.mem_filterMap.mp h
  cases m with
  | ai | other => cases hm
  | tool messageId toolCallId kwargs =>
    dsimp only [LedgerMessage.result?] at hm
    split_ifs at hm
    obtain ⟨r', hr', rfl⟩ := Option.map_eq_some_iff.mp hm
    exact isTerminal_of_read hr'

theorem inProgress_of_mem_taskCalls {messages : List LedgerMessage} {e : DelegationEntry}
    (h : e ∈ taskCalls env messages) : e.status = .inProgress := by
  obtain ⟨m, -, hm⟩ := List.mem_flatMap.mp h
  cases m with
  | tool | other => cases hm
  | ai toolCalls =>
    obtain ⟨call, -, hcall⟩ := List.mem_filterMap.mp hm
    unfold taskDelegation? at hcall
    split_ifs at hcall
    obtain ⟨id, -, rfl⟩ := Option.map_eq_some_iff.mp hcall
    rfl

theorem isTerminal_settledBy {messages : List LedgerMessage} {e : DelegationEntry}
    (he : e.status = .inProgress) :
    (e.settledBy env (resultsOf messages e.id)).status.isTerminal = true ↔
      resultsOf messages e.id ≠ [] := by
  have hresults : ∀ r ∈ resultsOf messages e.id, r.2.status.isTerminal = true :=
    fun r hr => isTerminal_of_mem_resultsOf hr
  revert hresults
  generalize resultsOf messages e.id = results
  intro hresults
  induction results using List.reverseRecOn with
  | nil => simp [DelegationEntry.settledBy, he, DelegationStatus.isTerminal]
  | append_singleton results r _ =>
    have hlast := hresults r (List.mem_append_right _ (List.mem_singleton_self r))
    rw [DelegationEntry.settledBy_append]
    simp [DelegationEntry.settledBy, DelegationEntry.status_resolve, hlast]

theorem ids_map_settledBy (messages : List LedgerMessage) (es : List DelegationEntry) :
    ids (es.map fun e => e.settledBy env (resultsOf messages e.id)) = ids es := by
  rw [ids, ids, List.map_map]
  apply List.map_congr_left
  intro e _
  exact DelegationEntry.settledBy_id env e _

theorem Follows.taskCalls_paired (h : s.Follows env before extra gone seen) :
    taskCalls env s.paired = gone ++ taskCalls env s.messages := by
  rw [h.paired, taskCalls_append, h.calls, h.visible, List.append_assoc]

theorem Follows.delegationsOf_paired (h : s.Follows env before extra gone seen) :
    delegationsOf env s.paired =
      (gone.map fun e => e.settledBy env (resultsOf before e.id)) ++
        delegationsOf env s.messages := by
  have hgone : gone.map (fun e => e.settledBy env (resultsOf s.paired e.id)) =
      gone.map fun e => e.settledBy env (resultsOf before e.id) := by
    apply List.map_congr_left
    intro e he
    rw [h.paired, resultsOf_append, h.quiet e he, List.append_nil]
  have hvisible : (taskCalls env s.messages).map
        (fun e => e.settledBy env (resultsOf s.paired e.id)) =
      delegationsOf env s.messages := by
    apply List.map_congr_left
    intro e he
    rw [h.results e he]
  rw [delegationsOf, h.taskCalls_paired, List.map_append, hgone, hvisible]

theorem Follows.overlap (h : s.Follows env before extra gone seen) (ho : s.Ordered env)
    (now : String) :
    Overlap s.ledger (extractDelegations env now s.messages)
      (gone.map fun e => e.settledBy env (resultsOf before e.id))
      (seen.map fun e => e.settledBy env (resultsOf before e.id))
      (delegationsOf env s.messages) := by
  have hids : ids (taskCalls env s.paired) = ids gone ++ ids (taskCalls env s.messages) := by
    rw [h.taskCalls_paired, ids, List.map_append]
    rfl
  have hnodup := ho.nodup
  rw [hids] at hnodup
  have hvisible := (List.nodup_append.mp hnodup).2.1
  refine ⟨?_, ?_, ?_, ?_, ?_⟩
  · rw [h.shown, ← List.map_append, ← h.calls]
    rfl
  · rw [extractDelegations_eq env now hvisible, List.map_map]
    rfl
  · rw [delegationsOf, ids_map_settledBy, ids_map_settledBy, h.visible, ids, ids, List.map_append]
    exact List.prefix_append _ _
  · rw [ids, List.map_append]
    change (ids _ ++ ids _).Nodup
    rw [delegationsOf, ids_map_settledBy, ids_map_settledBy]
    exact hnodup
  · intro p hp e he hid hterminal
    rw [← List.map_append, ← h.calls] at hp
    obtain ⟨p₀, hp₀, rfl⟩ := List.mem_map.mp hp
    obtain ⟨e₀, he₀, rfl⟩ := List.mem_map.mp he
    rw [DelegationEntry.settledBy_id, DelegationEntry.settledBy_id] at hid
    rw [isTerminal_settledBy (inProgress_of_mem_taskCalls hp₀)] at hterminal
    rw [isTerminal_settledBy (inProgress_of_mem_taskCalls he₀), ← h.results e₀ he₀, h.paired,
      resultsOf_append, ← hid]
    exact List.append_ne_nil_of_left_ne_nil hterminal _

/-- After a capture the ledger shows the most recent delegations of the history. -/
theorem Follows.capture (h : s.Follows env before extra gone seen) (ho : s.Ordered env)
    (now : String) :
    (s.capture env now).Follows env s.paired [] gone (taskCalls env s.messages) where
  paired := (List.append_nil _).symm
  fresh _ := rfl
  calls := h.taskCalls_paired
  visible := (List.append_nil _).symm
  quiet _ _ := rfl
  results := h.results
  shown := by
    have hmerged := (h.overlap ho now).stable_mergeDelegations
    rw [h.delegationsOf_paired, ← hmerged]
    unfold LedgerState.capture captureDelegations
    dsimp only
    split_ifs with hnil
    · rfl
    · rw [not_not.mp hnil]
      rfl

end Capture

section Append
variable {m : LedgerMessage} {before extra : List LedgerMessage}
variable {gone seen : List DelegationEntry}

theorem fresh_of_freshIds (h : s.freshIds env m = true) :
    (m.taskIds env).Nodup ∧ ∀ id ∈ m.taskIds env, ∀ a ∈ s.history,
      id ∉ a.taskIds env ∧ a.toolCallId? ≠ some id := by
  simpa [freshIds] using h

theorem taskIds_of_toolCallId? {id : Text} (h : m.toolCallId? = some id) : m.taskIds env = [] := by
  cases m with
  | tool => rfl
  | ai | other => cases h

/-- A message that does not count is a result whose call cannot be seen. -/
theorem exists_of_not_answersVisible (h : ¬ s.answersVisible env m = true) :
    ∃ id, m.toolCallId? = some id ∧ id ∉ ids (taskCalls env s.messages) := by
  unfold answersVisible at h
  rcases hid : m.toolCallId? with _ | id
  · simp [hid] at h
  · refine ⟨id, rfl, fun hmem => h ?_⟩
    obtain ⟨a, ha, hin⟩ := mem_ids_taskCalls.mp hmem
    simpa [hid] using ⟨a, ha, hin⟩

theorem visible_of_answersVisible {id : Text} (h : s.answersVisible env m = true)
    (hid : m.toolCallId? = some id) : id ∈ ids (taskCalls env s.messages) := by
  rw [mem_ids_taskCalls]
  simpa [answersVisible, hid] using h

theorem taskCalls_counted (xs : List LedgerMessage) :
    taskCalls env (if s.answersVisible env m then xs ++ [m] else xs) =
      taskCalls env xs ++ taskCalls env [m] := by
  split_ifs with hanswers
  · exact taskCalls_append env xs [m]
  · obtain ⟨id, hid, -⟩ := exists_of_not_answersVisible hanswers
    have hnone : taskCalls env [m] = [] := by
      cases m with
      | tool => rfl
      | ai | other => cases hid
    rw [hnone, List.append_nil]

theorem mem_append_messages {a : LedgerMessage} (h : a ∈ (s.append env m).paired) :
    a ∈ s.paired ∨ a = m := by
  unfold append at h
  dsimp only at h
  split_ifs at h
  · simpa using h
  · exact .inl h

theorem Ordered.append (ho : s.Ordered env) (hfresh : s.freshIds env m = true) :
    (s.append env m).Ordered env := by
  obtain ⟨hnodup, hnew⟩ := fresh_of_freshIds hfresh
  have hids : ids (taskCalls env (s.append env m).paired) =
      ids (taskCalls env s.paired) ++ m.taskIds env := by
    change ids (taskCalls env (if s.answersVisible env m then s.paired ++ [m] else s.paired)) = _
    rw [taskCalls_counted, ids, List.map_append]
    simp [ids, taskCalls, LedgerMessage.taskIds]
  refine ⟨?_, ?_, ?_, ?_, ?_⟩
  · rw [hids]
    refine List.nodup_append.mpr ⟨ho.nodup, hnodup, ?_⟩
    rintro id hid id' hid' rfl
    rw [← ho.calls] at hid
    obtain ⟨a, ha, hin⟩ := mem_ids_taskCalls.mp hid
    exact (hnew id hid' a ha).1 hin
  · rw [hids, ← ho.calls, ids_taskCalls, ids_taskCalls]
    simp [LedgerState.append]
  · intro a ha
    rcases List.mem_append.mp ha with ha | ha
    · exact List.mem_append_left _ (ho.kept a ha)
    · exact List.mem_append_right _ ha
  · intro a ha
    rcases mem_append_messages ha with ha | rfl
    · exact List.mem_append_left _ (ho.pairedKept a ha)
    · exact List.mem_append_right _ (List.mem_singleton_self _)
  · refine List.pairwise_append.mpr ⟨ho.ordered, List.pairwise_singleton .., ?_⟩
    intro a ha b hb id hid
    rw [List.mem_singleton] at hb
    rw [hb] at hid
    exact (hnew id hid a (ho.kept a ha)).2

theorem Follows.append (h : s.Follows env before extra gone seen) (ho : s.Ordered env)
    (hfresh : s.freshIds env m = true) :
    (s.append env m).Follows env before
      (if s.answersVisible env m then extra ++ [m] else extra) gone seen := by
  obtain ⟨-, hnew⟩ := fresh_of_freshIds hfresh
  have hapart : ∀ e ∈ gone, e.id ∉ ids (taskCalls env s.messages) := by
    intro e he hmem
    have hnodup := ho.nodup
    rw [h.taskCalls_paired, ids, List.map_append] at hnodup
    exact (List.nodup_append.mp hnodup).2.2 e.id (List.mem_map_of_mem he) e.id hmem rfl
  refine ⟨?_, nofun, h.calls, ?_, ?_, ?_, h.shown⟩
  · change (if s.answersVisible env m then s.paired ++ [m] else s.paired) = _
    rw [h.paired]
    split_ifs
    · rw [List.append_assoc]
    · rfl
  · rw [taskCalls_counted, ← List.append_assoc, ← h.visible]
    exact taskCalls_append env s.messages [m]
  · intro e he
    split_ifs with hanswers
    · rw [resultsOf_append, h.quiet e he, List.nil_append]
      apply resultsOf_eq_nil
      intro a ha hid
      rw [List.mem_singleton] at ha
      rw [ha] at hid
      exact hapart e he (visible_of_answersVisible hanswers hid)
    · exact h.quiet e he
  · intro e he
    change e ∈ taskCalls env (s.messages ++ [m]) at he
    rw [taskCalls_append, List.mem_append] at he
    rcases he with he | he
    · change resultsOf (if s.answersVisible env m then s.paired ++ [m] else s.paired) e.id =
        resultsOf (s.messages ++ [m]) e.id
      rw [resultsOf_append, ← h.results e he]
      split_ifs with hanswers
      · exact resultsOf_append ..
      · obtain ⟨id, hid, hunseen⟩ := exists_of_not_answersVisible hanswers
        have hnone : resultsOf [m] e.id = [] := by
          apply resultsOf_eq_nil
          intro a ha hae
          rw [List.mem_singleton] at ha
          rw [ha, hid, Option.some.injEq] at hae
          exact hunseen (hae ▸ List.mem_map_of_mem he)
        rw [hnone, List.append_nil]
    · have hin : e.id ∈ m.taskIds env := by
        have hmem : e.id ∈ ids (taskCalls env [m]) := List.mem_map_of_mem he
        simpa [ids_taskCalls] using hmem
      have hm : m.toolCallId? ≠ some e.id := by
        intro hid
        rw [taskIds_of_toolCallId? hid] at hin
        cases hin
      have hpaired : resultsOf (s.append env m).paired e.id = [] := by
        apply resultsOf_eq_nil
        intro a ha
        rcases mem_append_messages ha with ha | rfl
        · exact (hnew e.id hin a (ho.pairedKept a ha)).2
        · exact hm
      have hmessages : resultsOf (s.append env m).messages e.id = [] := by
        apply resultsOf_eq_nil
        intro a ha
        rcases List.mem_append.mp ha with ha | ha
        · exact (hnew e.id hin a (ho.kept a ha)).2
        · rw [List.mem_singleton.mp ha]
          exact hm
      rw [hpaired, hmessages]

end Append

section Compact
variable {before extra : List LedgerMessage} {gone seen : List DelegationEntry} {n : Nat}

theorem compact_sublist (s : LedgerState) (n : Nat) : (s.compact n).messages.Sublist s.messages := by
  have hsplit := List.take_append_drop n s.messages
  conv_rhs => rw [← hsplit]
  exact List.filter_sublist.append (List.Sublist.refl _)

theorem Ordered.compact (ho : s.Ordered env) (n : Nat) : (s.compact n).Ordered env where
  nodup := ho.nodup
  calls := ho.calls
  kept m hm := ho.kept m ((compact_sublist s n).subset hm)
  pairedKept := ho.pairedKept
  ordered := ho.ordered.sublist (compact_sublist s n)

theorem rescued_eq {ms : List LedgerMessage} {m : LedgerMessage}
    (hm : m ∈ ms.filter (· = .other true)) : m = .other true :=
  of_decide_eq_true (List.mem_filter.mp hm).2

theorem taskCalls_compact : taskCalls env (s.compact n).messages =
    taskCalls env (s.messages.drop n) := by
  have hnone : taskCalls env ((s.messages.take n).filter (· = .other true)) = [] := by
    rw [taskCalls, List.flatMap_eq_nil_iff]
    intro m hm
    rw [rescued_eq hm]
    rfl
  change taskCalls env (_ ++ _) = _
  rw [taskCalls_append, hnone, List.nil_append]

theorem resultsOf_compact (id : Text) :
    resultsOf (s.compact n).messages id = resultsOf (s.messages.drop n) id := by
  have hnone : resultsOf ((s.messages.take n).filter (· = .other true)) id = [] := by
    apply resultsOf_eq_nil
    intro m hm
    rw [rescued_eq hm]
    nofun
  change resultsOf (_ ++ _) id = _
  rw [resultsOf_append, hnone, List.nil_append]

theorem Follows.compact (h : s.Follows env before extra gone seen) (ho : s.Ordered env)
    (hcaptured : s.captured = true) (n : Nat) :
    (s.compact n).Follows env before extra (gone ++ taskCalls env (s.messages.take n))
      (taskCalls env (s.messages.drop n)) := by
  have hnil := h.fresh hcaptured
  have hsplit : taskCalls env (s.messages.take n) ++ taskCalls env (s.messages.drop n) = seen := by
    rw [← taskCalls_append, List.take_append_drop, h.visible, hnil]
    exact List.append_nil _
  refine ⟨h.paired, h.fresh, ?_, ?_, ?_, ?_, h.shown⟩
  · rw [h.calls, List.append_assoc, hsplit]
  · rw [taskCalls_compact, hnil]
    exact (List.append_nil _).symm
  · intro e _
    rw [hnil]
    rfl
  · intro e he
    rw [taskCalls_compact] at he
    have hmem : e ∈ taskCalls env s.messages := by
      rw [← List.take_append_drop n s.messages, taskCalls_append]
      exact List.mem_append_right _ he
    have hordered := ho.ordered
    rw [← List.take_append_drop n s.messages, List.pairwise_append] at hordered
    have hnone : resultsOf (s.messages.take n) e.id = [] := by
      apply resultsOf_eq_nil
      intro a ha
      obtain ⟨b, hb, hin⟩ := mem_ids_taskCalls.mp (List.mem_map_of_mem he)
      exact hordered.2.2 a ha b hb e.id hin
    change resultsOf s.paired e.id = _
    rw [resultsOf_compact, h.results e hmem]
    conv_lhs => rw [← List.take_append_drop n s.messages]
    rw [resultsOf_append, hnone, List.nil_append]

end Compact

def Tracks (env : LedgerEnv) (s : LedgerState) : Prop :=
  s.Ordered env ∧ ∃ before extra gone seen, s.Follows env before extra gone seen

theorem tracks_init : Tracks env .init := by
  refine ⟨⟨List.nodup_nil, rfl, List.forall_mem_nil _, List.forall_mem_nil _, .nil⟩,
    [], [], [], [], ?_⟩
  exact ⟨rfl, fun _ => rfl, rfl, rfl, List.forall_mem_nil _, List.forall_mem_nil _, rfl⟩

theorem Tracks.step {event : LedgerEvent} (h : s.Tracks env) (ht : s.step env event = some t) :
    t.Tracks env := by
  obtain ⟨ho, before, extra, gone, seen, hf⟩ := h
  cases event with
  | append m =>
    obtain ⟨hfresh, ht⟩ := Option.ite_none_right_eq_some.mp ht
    cases ht
    exact ⟨ho.append hfresh, _, _, _, _, hf.append ho hfresh⟩
  | capture now =>
    cases ht
    exact ⟨⟨ho.nodup, ho.calls, ho.kept, ho.pairedKept, ho.ordered⟩, _, _, _, _, hf.capture ho now⟩
  | compact n =>
    obtain ⟨hcaptured, ht⟩ := Option.ite_none_right_eq_some.mp ht
    cases ht
    exact ⟨ho.compact n, _, _, _, _, hf.compact ho hcaptured n⟩

theorem tracks_of_reachable (h : Reachable (durableContext env) s) : s.Tracks env := by
  refine h.invariant ?_ ?_
  · rintro s rfl
    exact tracks_init
  · intro s event t _ hs ht
    exact hs.step ht

/-- Right after a capture, and until something is appended, the ledger is the most recent part
of what was ever delegated, and capturing again reports nothing. -/
theorem ledger_converges (h : Reachable (durableContext env) s) (hcaptured : s.captured = true) :
    s.ledger.rows.map (·.stable) =
        (recent delegationLedgerMaxEntries (delegationsOf env s.paired)).map (·.stable) ∧
      ∀ now, captureDelegations env now s.messages s.ledger = none := by
  obtain ⟨ho, before, extra, gone, seen, hf⟩ := tracks_of_reachable h
  have hextra := hf.fresh hcaptured
  have hpaired : s.paired = before := by rw [hf.paired, hextra, List.append_nil]
  have hvisible : taskCalls env s.messages = seen := by
    rw [hf.visible, hextra]
    exact List.append_nil _
  refine ⟨by rw [hpaired]; exact hf.shown, fun now => ?_⟩
  have hoverlap := hf.overlap ho now
  have hsame : (seen.map fun e => e.settledBy env (resultsOf before e.id)) =
      delegationsOf env s.messages := by
    rw [← hvisible]
    apply List.map_congr_left
    intro e he
    rw [← hpaired, hf.results e he]
  rw [hsame] at hoverlap
  simp [captureDelegations, hoverlap.filterChangedDelegations_eq_nil]

end LedgerState

namespace LedgerRun

def env : LedgerEnv where
  str
    | .str s => s.toList
    | _ => []
  sha256Hex _ := []

def task (id : Char) : Dict Value :=
  [("name", .str "task"), ("id", .str (String.singleton id)),
    ("args", .dict [("description", .str "look"), ("subagent_type", .str "general")])]

def done (id : Char) : LedgerMessage :=
  .tool [] [id] [("subagent_status", .str "completed"), ("subagent_result_brief", .str "found")]

/-- One more task than the ledger keeps. -/
def overflowing : List (LedgerState → LedgerEvent) :=
  [.append (.ai ((List.range 51).map fun i => task (Char.ofNat (48 + i)))), .capture "t1",
    .append (done 'b'), .capture "t2"].map fun event _ => event

/-- The result comes when summarization has cut its call away. -/
def late : List (LedgerState → LedgerEvent) :=
  [.append (.ai [task 'a']), .append (.other false), .capture "t1", .compact 1,
    .append (done 'a'), .capture "t2"].map fun event _ => event

end LedgerRun

theorem ledger_converges_capped :
    ∃ s, Reachable (durableContext LedgerRun.env) s ∧ s.messages.length = 2 ∧
      s.ledger.rows.length = 50 ∧ (s.ledger.get ['0']).isNone ∧
      s.ledger.rows.map (·.stable) = (recent delegationLedgerMaxEntries
        (delegationsOf LedgerRun.env s.paired)).map (·.stable) ∧
      ∀ now, captureDelegations LedgerRun.env now s.messages s.ledger = none := by
  have hrun : (runScript (LedgerState.step LedgerRun.env) .init LedgerRun.overflowing).any
      (fun s => s.captured && decide (s.messages.length = 2 ∧ s.ledger.rows.length = 50) &&
        (s.ledger.get ['0']).isNone) = true := by
    decide +kernel
  obtain ⟨s, hs, h⟩ := exists_reachable_of_runScript _ hrun
  obtain ⟨h, hdropped⟩ := Bool.and_eq_true_iff.mp h
  obtain ⟨hcaptured, hlengths⟩ := Bool.and_eq_true_iff.mp h
  obtain ⟨hmessages, hledger⟩ := of_decide_eq_true hlengths
  exact ⟨s, hs, hmessages, hledger, hdropped, LedgerState.ledger_converges hs hcaptured⟩

/-- A result whose call was cut before it came is in the transcript at a capture, and the ledger
does not show it. -/
theorem late_result_not_shown :
    ∃ s, Reachable (durableContext LedgerRun.env) s ∧ s.captured = true ∧
      LedgerRun.done 'a' ∈ s.messages ∧
      s.ledger.rows.map (·.status) = [.inProgress] ∧
      s.ledger.rows.map (·.stable) ≠ (recent delegationLedgerMaxEntries
        (delegationsOf LedgerRun.env s.history)).map (·.stable) := by
  have hrun : (runScript (LedgerState.step LedgerRun.env) .init LedgerRun.late).any
      (fun s => decide (s.captured = true ∧ LedgerRun.done 'a' ∈ s.messages ∧
        s.ledger.rows.map (·.status) = [.inProgress] ∧
        (recent delegationLedgerMaxEntries (delegationsOf LedgerRun.env s.history)).map
          (·.status) = [.completed])) = true := by
    decide +kernel
  obtain ⟨s, hs, hcaptured, hmem, hshown, hsettled⟩ := exists_reachable_of_decide _ hrun
  refine ⟨s, hs, hcaptured, hmem, hshown, fun hsame => ?_⟩
  have hstatus := congrArg (List.map (·.2.2.2.1)) hsame
  rw [List.map_map, List.map_map] at hstatus
  exact absurd (hshown.symm.trans (hstatus.trans hsettled)) (by decide)

end DeerFlow.Middlewares
