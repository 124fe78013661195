import DeerFlow.Middlewares.LedgerConvergence

/-! The laws of the ledger's reducer. What a merge keeps of an id is what the updates for this id
come to when they are taken one by one, so their batching does not matter below the cap. -/

namespace DeerFlow.Middlewares

section Accepted
variable {es xs : List DelegationEntry} {e p : DelegationEntry} {k : Text}

/-- The versions of one entry that count: after a terminal one only terminal ones do. -/
def acceptedVersions (xs : List DelegationEntry) : List DelegationEntry :=
  xs.takeWhile (!·.status.isTerminal) ++
    (xs.dropWhile (!·.status.isTerminal)).filter (·.status.isTerminal)

/-- The first `created_at` that is there. -/
def firstCreatedAt (xs : List DelegationEntry) : String :=
  ((xs.map (·.createdAt)).find? (· ≠ "")).getD ""

def versionsOf (k : Text) (es : List DelegationEntry) : List DelegationEntry :=
  es.filter (·.id = k)

theorem acceptedVersions_append (xs : List DelegationEntry) (e : DelegationEntry) :
    acceptedVersions (xs ++ [e]) = acceptedVersions xs ++
      if xs.any (·.status.isTerminal) && !e.status.isTerminal then [] else [e] := by
  induction xs with
  | nil =>
    by_cases he : e.status.isTerminal = true
    · simp [acceptedVersions, he]
    · simp [acceptedVersions, he]
  | cons x xs ih =>
    by_cases hx : x.status.isTerminal = true
    · by_cases he : e.status.isTerminal = true
      · simp [acceptedVersions, hx, he]
      · simp [acceptedVersions, hx, he]
    · simp only [acceptedVersions] at ih
      simp [acceptedVersions, hx, ih]

theorem firstCreatedAt_append (xs : List DelegationEntry) (e : DelegationEntry) :
    firstCreatedAt (xs ++ [e]) =
      if firstCreatedAt xs ≠ "" then firstCreatedAt xs else e.createdAt := by
  induction xs with
  | nil =>
    by_cases he : e.createdAt = ""
    · simp [firstCreatedAt, he]
    · simp [firstCreatedAt, he]
  | cons x xs ih =>
    by_cases hx : x.createdAt = ""
    · simpa [firstCreatedAt, hx] using ih
    · simp [firstCreatedAt, hx]

theorem acceptedVersions_prefix (xs ys : List DelegationEntry) :
    acceptedVersions xs <+: acceptedVersions (xs ++ ys) := by
  induction ys using List.reverseRecOn with
  | nil => simp
  | append_singleton ys e ih =>
    rw [← List.append_assoc, acceptedVersions_append]
    exact ih.trans (List.prefix_append ..)

theorem firstCreatedAt_of_prefix {ys : List DelegationEntry} (h : xs <+: ys)
    (hxs : firstCreatedAt xs ≠ "") : firstCreatedAt ys = firstCreatedAt xs := by
  obtain ⟨zs, rfl⟩ := h
  unfold firstCreatedAt at hxs ⊢
  rw [List.map_append, List.find?_append]
  rcases hfind : (xs.map (·.createdAt)).find? (· ≠ "") with _ | c
  · rw [hfind] at hxs
    exact absurd rfl hxs
  · rw [hfind, Option.some_or]

theorem createdAt_carry_some (p e : DelegationEntry) :
    (carry (some p) e).createdAt =
      if p.status.isTerminal && !e.status.isTerminal then p.createdAt
      else if p.createdAt ≠ "" then p.createdAt else e.createdAt := by
  simp only [carry]
  split_ifs <;> rfl

theorem status_carry_some (p e : DelegationEntry) :
    (carry (some p) e).status =
      if p.status.isTerminal && !e.status.isTerminal then p.status else e.status := by
  simp only [carry]
  split_ifs <;> rfl

/-- Taken one by one, the versions of an entry come to a terminal one if there is one among them,
and to the first time that an accepted one brings. -/
theorem foldl_carry (xs : List DelegationEntry)
    (h : xs.foldl (fun p e => some (carry p e)) none = some p) :
    p.status.isTerminal = xs.any (·.status.isTerminal) ∧
      p.createdAt = firstCreatedAt (acceptedVersions xs) := by
  induction xs using List.reverseRecOn generalizing p with
  | nil => cases h
  | append_singleton xs e ih =>
    rw [List.foldl_append, List.foldl_cons, List.foldl_nil, Option.some.injEq] at h
    rcases hxs : xs.foldl (fun p e => some (carry p e)) none with _ | q
    · have hnil : xs = [] := by
        by_contra hne
        obtain ⟨ys, y, rfl⟩ := List.eq_nil_or_concat xs |>.resolve_left hne
        simp at hxs
      rw [hxs] at h
      subst hnil h
      by_cases he : e.status.isTerminal = true
      · by_cases hc : e.createdAt = ""
        · simp [carry, acceptedVersions, firstCreatedAt, he, hc]
        · simp [carry, acceptedVersions, firstCreatedAt, he, hc]
      · by_cases hc : e.createdAt = ""
        · simp [carry, acceptedVersions, firstCreatedAt, he, hc]
        · simp [carry, acceptedVersions, firstCreatedAt, he, hc]
    · obtain ⟨hstatus, hcreated⟩ := ih hxs
      rw [hxs] at h
      subst h
      rw [status_carry_some, createdAt_carry_some, acceptedVersions_append, hstatus,
        List.any_append, hcreated]
      by_cases hstale : (xs.any (·.status.isTerminal) && !e.status.isTerminal) = true
      · rw [if_pos hstale, if_pos hstale, if_pos hstale, hstatus, List.append_nil]
        refine ⟨?_, rfl⟩
        rw [(Bool.and_eq_true_iff.mp hstale).1, Bool.true_or]
      · rw [if_neg hstale, if_neg hstale, if_neg hstale, firstCreatedAt_append]
        refine ⟨?_, rfl⟩
        by_cases he : e.status.isTerminal = true
        · simp [he]
        · have hnone : xs.any (·.status.isTerminal) = false := by simpa [he] using hstale
          simp [he, hnone]

end Accepted

section Laws
variable {ledger : Delegations} {new a b : List DelegationEntry}

/-- A merge without the cap. -/
def mergeAll (ledger : Delegations) (new : List DelegationEntry) : Delegations :=
  new.foldl mergeDelegation ledger

theorem mergeAll_rows (ledger : Delegations) (new : List DelegationEntry) :
    mergeAll ledger new = mergeAll .empty (ledger.rows ++ new) := by
  rw [mergeAll, mergeAll, List.foldl_append, foldl_mergeDelegation_empty]

theorem ids_mergeAll (ledger : Delegations) (new : List DelegationEntry) :
    ids (mergeAll ledger new).rows = (ids (ledger.rows ++ new)).eraseDups := by
  rw [ids, ids, List.map_append]
  exact Table.keys_foldl_eraseDups keys_mergeDelegation ledger new

theorem get_mergeAll (new : List DelegationEntry) (k : Text) :
    (mergeAll .empty new).get k =
      (versionsOf k new).foldl (fun p e => some (carry p e)) none :=
  Table.get_foldl get_mergeDelegation .empty new k

theorem length_mergeDelegations_le (h : ledger.rows.length ≤ delegationLedgerMaxEntries) :
    (mergeDelegations ledger new).rows.length ≤ delegationLedgerMaxEntries := by
  rw [rows_mergeDelegations h, length_recent]
  exact Nat.min_le_left _ _

theorem length_foldl_mergeDelegations_le (updates : List (List DelegationEntry))
    (h : ledger.rows.length ≤ delegationLedgerMaxEntries) :
    (updates.foldl mergeDelegations ledger).rows.length ≤ delegationLedgerMaxEntries := by
  induction updates generalizing ledger with
  | nil => exact h
  | cons u updates ih => exact ih (length_mergeDelegations_le h)

theorem ids_mergeDelegations (h : ledger.rows.length ≤ delegationLedgerMaxEntries) :
    ids (mergeDelegations ledger new).rows =
      recent delegationLedgerMaxEntries (ids (ledger.rows ++ new)).eraseDups := by
  rw [rows_mergeDelegations h, ids, map_recent]
  exact congrArg _ (ids_mergeAll ledger new)

/-- An entry that a merge shows is what its versions come to. -/
theorem foldl_of_mem_mergeDelegations {e : DelegationEntry}
    (h : ledger.rows.length ≤ delegationLedgerMaxEntries)
    (he : e ∈ (mergeDelegations ledger new).rows) :
    (versionsOf e.id (ledger.rows ++ new)).foldl (fun p e => some (carry p e)) none = some e := by
  rw [rows_mergeDelegations h] at he
  have hmem : e ∈ (mergeAll ledger new).rows := mem_of_mem_recent he
  rw [mergeAll_rows, Table.mem_rows] at hmem
  rw [← hmem]
  exact (get_mergeAll (ledger.rows ++ new) e.id).symm

/-- While the cap is not reached a merge drops nothing. -/
theorem mergeDelegations_eq_mergeAll
    (h : (ids (ledger.rows ++ new)).eraseDups.length ≤ delegationLedgerMaxEntries) :
    mergeDelegations ledger new = mergeAll ledger new := by
  have hlength : (mergeAll ledger new).rows.length ≤ delegationLedgerMaxEntries := by
    rw [← ids_mergeAll, ids, List.length_map] at h
    exact h
  have hledger : ledger.rows.length ≤ delegationLedgerMaxEntries := by
    rw [ids, List.map_append, List.eraseDups_append, eraseDups_of_nodup ledger.nodup,
      List.length_append, List.length_map] at h
    omega
  have hrows : (mergeDelegations ledger new).rows =
      recent delegationLedgerMaxEntries (mergeAll ledger new).rows := rows_mergeDelegations hledger
  rw [recent_of_length_le hlength] at hrows
  exact Table.eq_of_rows hrows

theorem mergeDelegations_append
    (h : (ids (ledger.rows ++ (a ++ b))).eraseDups.length ≤ delegationLedgerMaxEntries) :
    mergeDelegations (mergeDelegations ledger a) b = mergeDelegations ledger (a ++ b) := by
  have ha : (ids (ledger.rows ++ a)).eraseDups.length ≤ delegationLedgerMaxEntries := by
    rw [← List.append_assoc, ids, List.map_append, List.eraseDups_append, List.length_append] at h
    exact (Nat.le_add_right _ _).trans h
  have hboth : mergeAll ledger (a ++ b) = mergeAll (mergeAll ledger a) b := List.foldl_append ..
  have hb : (ids ((mergeAll ledger a).rows ++ b)).eraseDups.length ≤
      delegationLedgerMaxEntries := by
    rw [← ids_mergeAll, ← hboth, ids_mergeAll]
    exact h
  rw [mergeDelegations_eq_mergeAll ha, mergeDelegations_eq_mergeAll hb,
    mergeDelegations_eq_mergeAll h, hboth]

end Laws

/-- The laws of the reducer, for every ledger it can have built. -/
theorem mergeDelegations_laws (updates : List (List DelegationEntry)) :
    let ledger := updates.foldl mergeDelegations .empty
    (∀ new, let merged := mergeDelegations ledger new
      ids merged.rows = recent delegationLedgerMaxEntries (ids (ledger.rows ++ new)).eraseDups ∧
      (ids merged.rows).Nodup ∧ merged.rows.length ≤ 50 ∧
      (∀ p ∈ ledger.rows ++ new, ∀ e ∈ merged.rows, e.id = p.id →
        p.status.isTerminal = true → e.status.isTerminal = true) ∧
      (∀ e ∈ merged.rows,
        e.createdAt = firstCreatedAt (acceptedVersions (versionsOf e.id (ledger.rows ++ new)))) ∧
      ∀ p ∈ ledger.rows, ∀ e ∈ merged.rows, e.id = p.id → p.createdAt ≠ "" →
        e.createdAt = p.createdAt) ∧
    ∀ a b, (ids (ledger.rows ++ (a ++ b))).eraseDups.length ≤ 50 →
      mergeDelegations (mergeDelegations ledger a) b = mergeDelegations ledger (a ++ b) := by
  intro ledger
  have hledger : ledger.rows.length ≤ delegationLedgerMaxEntries :=
    length_foldl_mergeDelegations_le updates (Nat.zero_le _)
  refine ⟨fun new => ?_, fun a b => mergeDelegations_append⟩
  refine ⟨ids_mergeDelegations hledger, (mergeDelegations ledger new).nodup,
    length_mergeDelegations_le hledger, ?_, ?_, ?_⟩
  · intro p hp e he hid hterminal
    have hfold := foldl_of_mem_mergeDelegations hledger he
    rw [(foldl_carry _ hfold).1, List.any_eq_true]
    refine ⟨p, List.mem_filter.mpr ⟨hp, ?_⟩, hterminal⟩
    exact decide_eq_true hid.symm
  · intro e he
    exact (foldl_carry _ (foldl_of_mem_mergeDelegations hledger he)).2
  · intro p hp e he hid hcreated
    have hread := get_mergeAll ledger.rows p.id
    rw [mergeAll, foldl_mergeDelegation_empty, Table.mem_rows.mp hp] at hread
    have hfirst := (foldl_carry _ hread.symm).2
    have hprefix := acceptedVersions_prefix (versionsOf p.id ledger.rows) (versionsOf p.id new)
    rw [(foldl_carry _ (foldl_of_mem_mergeDelegations hledger he)).2, hid, hfirst, versionsOf,
      List.filter_append]
    exact firstCreatedAt_of_prefix hprefix (hfirst ▸ hcreated)

namespace LedgerRun

def entry (id : Char) (status : DelegationStatus) (createdAt : String) : DelegationEntry where
  id := [id]
  description := "look".toList
  subagentType := "general".toList
  status := status
  resultBrief := none
  resultSha256 := none
  resultRef := none
  stopReason := none
  createdAt := createdAt

end LedgerRun

theorem mergeDelegations_laws_batched :
    mergeDelegations (mergeDelegations
        ([[LedgerRun.entry 'a' .inProgress "t1"]].foldl mergeDelegations .empty)
        [LedgerRun.entry 'b' .inProgress "t2", LedgerRun.entry 'a' .completed "t3"])
        [LedgerRun.entry 'a' .inProgress "t4"] =
      mergeDelegations ([[LedgerRun.entry 'a' .inProgress "t1"]].foldl mergeDelegations .empty)
        [LedgerRun.entry 'b' .inProgress "t2", LedgerRun.entry 'a' .completed "t3",
          LedgerRun.entry 'a' .inProgress "t4"] :=
  (mergeDelegations_laws [[LedgerRun.entry 'a' .inProgress "t1"]]).2
    [LedgerRun.entry 'b' .inProgress "t2", LedgerRun.entry 'a' .completed "t3"]
    [LedgerRun.entry 'a' .inProgress "t4"] (by decide)

/-- An entry recorded without a time takes the time of its next version. -/
theorem untimed_entry_takes_time :
    (mergeDelegations .empty [LedgerRun.entry 'a' .inProgress ""]).rows.map (·.createdAt) = [""] ∧
      (mergeDelegations (mergeDelegations .empty [LedgerRun.entry 'a' .inProgress ""])
        [LedgerRun.entry 'a' .completed "t1"]).rows.map (·.createdAt) = ["t1"] := by
  decide

end DeerFlow.Middlewares
