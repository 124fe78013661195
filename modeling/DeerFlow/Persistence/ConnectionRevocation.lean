import DeerFlow.Lib.Transition
import DeerFlow.Persistence.ChannelConnections

/-! Revoked connections hold no credentials, and an external identity has one
connected owner. Each way to revoke a connection deletes its credentials, except
an upsert that is itself called with the revoked status; and credentials are
stored under an id without a look at the connection. -/

namespace DeerFlow.Persistence
open Transition ChannelConnectionRow

namespace ChannelStore
variable {s t : ChannelStore}

def RevokedHoldNothing (s : ChannelStore) : Prop :=
  ∀ r ∈ s.rows, r.Revoked → s.credentials.get r.id = none

def OneConnected (s : ChannelStore) : Prop :=
  ∀ provider account workspace, (s.rows.filter fun r =>
    r.Connected ∧ HasIdentity provider account workspace r).length ≤ 1

/-- Credentials are stored for a connection that is revoked, or a connection with credentials is
revoked by an upsert. -/
def Slips (s : ChannelStore) : ChannelCall → Prop
  | .upsert args _ => args.status = "revoked" ∧
    ∃ r ∈ s.ownRow args, (s.credentials.get r.id).isSome
  | .storeCredentials connectionId args => args.encrypt.isSome ∧
    ∃ r ∈ s.connections.table.get connectionId, r.Revoked
  | _ => False

instance (s : ChannelStore) : (call : ChannelCall) → Decidable (s.Slips call)
  | .upsert _ _ => inferInstanceAs (Decidable (_ ∧ _))
  | .storeCredentials _ _ => inferInstanceAs (Decidable (_ ∧ _))
  | .disconnect _ _ | .disconnectProvider _ => isFalse id

section Revoking

theorem get_revokeConnections (s : ChannelStore) (ids : List String) (k : String) :
    (s.revokeConnections ids).connections.table.get k =
      (s.connections.table.get k).map fun r => if r.id ∈ ids then r.revoke else r :=
  Table.get_mapRows _ (by
    intro r
    split_ifs <;> rfl) k

theorem credentials_revokeConnections (s : ChannelStore) (ids : List String) (k : String) :
    (s.revokeConnections ids).credentials.get k =
      if k ∈ ids then none else s.credentials.get k := by
  unfold revokeConnections Table.keep Table.get
  dsimp only
  rw [List.find?_filter]
  split_ifs with hk
  · rw [List.find?_eq_none]
    intro c _ hc
    simp only [decide_eq_true_eq] at hc
    exact hc.1 (hc.2 ▸ hk)
  · congr 1
    funext c
    by_cases hc : c.connectionId = k
    · simp [hc, hk]
    · simp [hc]

/-- Whose connection is taken over holds nothing afterwards. -/
theorem RevokedHoldNothing.revokeConnections (h : s.RevokedHoldNothing) (ids : List String) :
    (s.revokeConnections ids).RevokedHoldNothing := by
  intro r hr hrevoked
  have hget := Table.mem_rows.mp hr
  rw [get_revokeConnections, Option.map_eq_some_iff] at hget
  obtain ⟨r₀, hr₀, rfl⟩ := hget
  rw [credentials_revokeConnections]
  by_cases hin : r₀.id ∈ ids
  · simp only [if_pos hin]
    exact if_pos hin
  · simp only [if_neg hin] at hrevoked ⊢
    rw [if_neg hin] at hr₀
    exact h r₀ (Table.mem_of_get hr₀) hrevoked

theorem revokeOtherActiveOwners_eq (s : ChannelStore) (args : ConnectionArgs) :
    s.revokeOtherActiveOwners args = s ∨
      ∃ ids, s.revokeOtherActiveOwners args = s.revokeConnections ids := by
  unfold revokeOtherActiveOwners
  split_ifs
  · exact .inl rfl
  · exact .inr ⟨_, rfl⟩

end Revoking

section Upserting

theorem get_write {c d : ConnectionTable} {r : ChannelConnectionRow} (h : c.write r = some d)
    (k : String) : d.table.get k = if k = r.id then some r else c.table.get k := by
  unfold ConnectionTable.write at h
  split_ifs at h
  cases h
  exact Table.get_put c.table r k

theorem get_insert {c d : ConnectionTable} {r : ChannelConnectionRow} (h : c.insert r = some d) :
    c.table.get r.id = none ∧
      ∀ k, d.table.get k = if k = r.id then some r else c.table.get k := by
  unfold ConnectionTable.insert at h
  split_ifs at h with hid
  rw [Bool.not_eq_true, Option.isSome_eq_false_iff, Option.isNone_iff_eq_none] at hid
  exact ⟨hid, get_write h⟩

/-- What an attempt that is committed does: it revokes connections of other owners, and puts the
owner's own row or a new one. -/
theorem upsertConnection_cases {args : ConnectionArgs} {newId : String}
    (h : s.upsertConnection args newId = some t) : ∃ row u,
      (s.ownRow args = some row ∨ row = args.newRow newId ∧ u.connections.table.get newId = none) ∧
      (u = s ∨ ∃ ids, u = s.revokeConnections ids) ∧
      t.returned = row.id :: s.returned ∧ t.credentials = u.credentials ∧
      ∀ k, t.connections.table.get k =
        if k = row.id then some (args.apply row) else u.connections.table.get k := by
  unfold upsertConnection at h
  dsimp only at h
  split at h
  · obtain ⟨c, hc, rfl⟩ := Option.map_eq_some_iff.mp h
    obtain ⟨hnone, hget⟩ := get_insert hc
    exact ⟨args.newRow newId, s.revokeOtherActiveOwners args, .inr ⟨rfl, hnone⟩,
      revokeOtherActiveOwners_eq s args, rfl, rfl, hget⟩
  · next row hrow =>
    obtain ⟨c, hc, rfl⟩ := Option.map_eq_some_iff.mp h
    exact ⟨row, s.revokeOtherActiveOwners args, .inl hrow,
      revokeOtherActiveOwners_eq s args, rfl, rfl, get_write hc⟩

end Upserting

section Steps

/-- Ids that were returned are those of connections, and so are those with credentials. -/
structure Linked (s : ChannelStore) : Prop where
  returned : ∀ id ∈ s.returned, (s.connections.table.get id).isSome
  stored : ∀ id, (s.credentials.get id).isSome → (s.connections.table.get id).isSome

theorem Linked.revokeConnections (h : s.Linked) (ids : List String) :
    (s.revokeConnections ids).Linked := by
  refine ⟨?_, ?_⟩
  · intro id hid
    rw [get_revokeConnections, Option.isSome_map]
    exact h.returned id hid
  · intro id hid
    rw [credentials_revokeConnections] at hid
    rw [get_revokeConnections, Option.isSome_map]
    split_ifs at hid
    · cases hid
    · exact h.stored id hid

theorem Linked.upsertConnection {args : ConnectionArgs} {newId : String} (h : s.Linked)
    (ht : s.upsertConnection args newId = some t) : t.Linked := by
  obtain ⟨row, u, -, hu, hreturned, hcredentials, hget⟩ := upsertConnection_cases ht
  have hlinked : u.Linked := by
    rcases hu with rfl | ⟨ids, rfl⟩
    · exact h
    · exact h.revokeConnections ids
  have hkept (k : String) (hk : (u.connections.table.get k).isSome) :
      (t.connections.table.get k).isSome := by
    rw [hget]
    split_ifs
    · rfl
    · exact hk
  have hsame : u.returned = s.returned := by
    rcases hu with rfl | ⟨ids, rfl⟩
    · rfl
    · rfl
  refine ⟨?_, ?_⟩
  · intro id hid
    rw [hreturned] at hid
    rcases List.mem_cons.mp hid with rfl | hid
    · rw [hget, if_pos rfl]
      rfl
    · rw [← hsame] at hid
      exact hkept id (hlinked.returned id hid)
  · intro id hid
    rw [hcredentials] at hid
    exact hkept id (hlinked.stored id hid)

theorem revokedHoldNothing_upsertConnection {args : ConnectionArgs} {newId : String}
    (hlinked : s.Linked) (h : s.RevokedHoldNothing) (hslip : ¬ s.Slips (.upsert args newId))
    (ht : s.upsertConnection args newId = some t) : t.RevokedHoldNothing := by
  obtain ⟨row, u, hrow, hu, -, hcredentials, hget⟩ := upsertConnection_cases ht
  have hholds : u.RevokedHoldNothing := by
    rcases hu with rfl | ⟨ids, rfl⟩
    · exact h
    · exact h.revokeConnections ids
  have hfewer (k : String) (hk : s.credentials.get k = none) : u.credentials.get k = none := by
    rcases hu with rfl | ⟨ids, rfl⟩
    · exact hk
    · rw [credentials_revokeConnections, hk, ite_self]
  have hulinked : u.Linked := by
    rcases hu with rfl | ⟨ids, rfl⟩
    · exact hlinked
    · exact hlinked.revokeConnections ids
  intro r hr hrevoked
  have hr' := Table.mem_rows.mp hr
  rw [hget] at hr'
  rw [hcredentials]
  split_ifs at hr' with hid
  · cases hr'
    rcases hrow with hown | ⟨rfl, hnew⟩
    · apply hfewer
      by_contra hsome
      refine hslip ⟨hrevoked, row, hown, ?_⟩
      exact Option.isSome_iff_ne_none.mpr hsome
    · by_contra hsome
      have hstored := hulinked.stored newId (Option.isSome_iff_ne_none.mpr hsome)
      rw [hnew] at hstored
      cases hstored
  · exact hholds r (Table.mem_of_get hr') hrevoked

theorem revokedHoldNothing_storeCredentials {connectionId : String} {args : CredentialArgs}
    (h : s.RevokedHoldNothing) (hslip : ¬ s.Slips (.storeCredentials connectionId args)) :
    (s.storeCredentials connectionId args).RevokedHoldNothing := by
  unfold storeCredentials
  rcases hencrypt : args.encrypt with _ | encrypt
  · exact h
  · intro r hr hrevoked
    have hne : r.id ≠ connectionId := by
      rintro rfl
      refine hslip ⟨?_, r, Table.mem_rows.mp hr, hrevoked⟩
      rw [hencrypt]
      rfl
    dsimp only
    rw [Table.get_put, CredentialArgs.row_connectionId, if_neg hne]
    exact h r hr hrevoked

theorem linked_step {call : ChannelCall} (h : s.Linked) (ht : s.step call = some t) :
    t.Linked := by
  cases call with
  | upsert args newId =>
    cases ht
    rcases hu : s.upsertConnection args newId with _ | u
    · exact h
    · exact h.upsertConnection hu
  | disconnect connectionId ownerUserId =>
    cases ht
    unfold disconnectConnection
    split
    · exact h
    · split_ifs
      · exact h
      · exact h.revokeConnections _
  | disconnectProvider provider =>
    cases ht
    exact h.revokeConnections _
  | storeCredentials connectionId args =>
    simp only [step] at ht
    split_ifs at ht with hreturned
    cases ht
    unfold storeCredentials
    rcases args.encrypt with _ | encrypt
    · exact h
    · refine ⟨h.returned, ?_⟩
      intro id hid
      dsimp only at hid ⊢
      rw [Table.get_put] at hid
      split_ifs at hid with hkey
      · rw [hkey]
        exact h.returned _ hreturned
      · exact h.stored id hid

theorem revokedHoldNothing_step {call : ChannelCall} (hlinked : s.Linked)
    (h : s.RevokedHoldNothing) (hslip : ¬ s.Slips call) (ht : s.step call = some t) :
    t.RevokedHoldNothing := by
  cases call with
  | upsert args newId =>
    cases ht
    rcases hu : s.upsertConnection args newId with _ | u
    · exact h
    · exact revokedHoldNothing_upsertConnection hlinked h hslip hu
  | disconnect connectionId ownerUserId =>
    cases ht
    unfold disconnectConnection
    split
    · exact h
    · split_ifs
      · exact h
      · exact h.revokeConnections _
  | disconnectProvider provider =>
    cases ht
    exact h.revokeConnections _
  | storeCredentials connectionId args =>
    simp only [step] at ht
    split_ifs at ht
    cases ht
    exact revokedHoldNothing_storeCredentials h hslip

/-- Two connected rows of one identity would clash. -/
theorem oneConnected (s : ChannelStore) : s.OneConnected := by
  intro provider account workspace
  have hdistinct : s.rows.Pairwise fun a b => a.id ≠ b.id :=
    List.pairwise_map.mp s.connections.table.nodup
  have hfilter := hdistinct.filter fun r =>
    decide (r.Connected ∧ HasIdentity provider account workspace r)
  have hmem : ∀ r ∈ s.rows.filter (fun r =>
      r.Connected ∧ HasIdentity provider account workspace r),
      r ∈ s.rows ∧ r.Connected ∧ HasIdentity provider account workspace r := by
    intro r hr
    rw [List.mem_filter, decide_eq_true_eq] at hr
    exact hr
  rcases hrows : s.rows.filter (fun r =>
    r.Connected ∧ HasIdentity provider account workspace r) with _ | ⟨a, _ | ⟨b, rest⟩⟩
  · rw [hrows]
    exact Nat.zero_le 1
  · rw [hrows]
    exact Nat.le_refl 1
  · exfalso
    rw [hrows] at hfilter hmem
    have hne : a.id ≠ b.id := List.rel_of_pairwise_cons hfilter (List.mem_cons_self ..)
    obtain ⟨ha, hconnected, hidentity⟩ := hmem a (by simp)
    obtain ⟨hb, hconnected', rfl, rfl, rfl⟩ := hmem b (by simp)
    have hactive {r : ChannelConnectionRow} (hr : r.Connected) : ¬ r.Revoked := by
      intro hrevoked
      have hsame : "connected" = "revoked" := hr.symm.trans hrevoked
      exact absurd hsame (by decide)
    exact s.connections.apart a ha b hb
      ⟨hne, hidentity, .inr ⟨hactive hconnected, hactive hconnected'⟩⟩

theorem write_revoked {args : ConnectionArgs} {row : ChannelConnectionRow}
    (hstatus : args.status = "revoked") (hrow : s.ownRow args = some row) :
    ∃ c, s.connections.write (args.apply row) = some c := by
  have hmem : row ∈ s.rows := List.mem_of_find?_eq_some hrow
  unfold ConnectionTable.write
  rw [dif_pos]
  · exact ⟨_, rfl⟩
  · rintro x hx ⟨hne, hidentity, howner | hactive⟩
    · exact s.connections.apart x hx row hmem ⟨hne, hidentity, .inl howner⟩
    · exact hactive.2 hstatus

/-- A step that slips leaves credentials under a revoked connection. -/
theorem slip_breaks {call : ChannelCall} (hslip : s.Slips call) (ht : s.step call = some t) :
    ¬ t.RevokedHoldNothing := by
  intro hnothing
  cases call with
  | upsert args newId =>
    obtain ⟨hstatus, row, hrow, hstored⟩ := hslip
    obtain ⟨c, hc⟩ := write_revoked hstatus hrow
    have hother : s.revokeOtherActiveOwners args = s := by
      unfold revokeOtherActiveOwners
      rw [if_pos]
      rw [hstatus]
      decide
    have hupsert : s.upsertConnection args newId =
        some { s with connections := c, returned := row.id :: s.returned } := by
      unfold upsertConnection
      rw [hother, Option.mem_def.mp hrow]
      dsimp only
      rw [hc, Option.map_some]
    cases ht
    rw [hupsert] at hnothing
    have hget : c.table.get row.id = some (args.apply row) := by
      rw [get_write hc]
      exact if_pos rfl
    have hnone := hnothing (args.apply row) (Table.mem_of_get hget) hstatus
    exact Option.isSome_iff_ne_none.mp hstored hnone
  | storeCredentials connectionId args =>
    obtain ⟨hencrypt, r, hr, hrevoked⟩ := hslip
    obtain ⟨encrypt, he⟩ := Option.isSome_iff_exists.mp hencrypt
    simp only [step] at ht
    split_ifs at ht
    cases ht
    unfold storeCredentials at hnothing
    rw [he] at hnothing
    have hnone := hnothing r (Table.mem_of_get hr) hrevoked
    dsimp only at hnone
    rw [Table.get_put, Table.key_of_get hr, CredentialArgs.row_connectionId, if_pos rfl] at hnone
    cases hnone
  | _ => exact hslip

end Steps

end ChannelStore

/-- The transactions on the tables, in any order and by any callers. -/
def channels : System ChannelStore ChannelCall := .ofFn .init ChannelStore.step

section Runs
variable {s : ChannelStore}

theorem linked_of_reachable (h : Reachable channels s) : s.Linked := by
  refine h.invariant (I := ChannelStore.Linked) ?_ ?_
  · rintro s rfl
    refine ⟨?_, ?_⟩
    · intro id hid
      cases hid
    · intro id hid
      cases hid
  · intro s call t _ hlinked ht
    exact ChannelStore.linked_step hlinked ht

theorem revoked_connections_hold_nothing
    (h : Reachable (channels.when fun s call => ¬ s.Slips call) s) :
    s.RevokedHoldNothing ∧ s.OneConnected := by
  refine ⟨?_, s.oneConnected⟩
  refine h.invariant (I := ChannelStore.RevokedHoldNothing) ?_ ?_
  · rintro s rfl r hr
    cases hr
  · intro s call t hs hnothing ht
    exact ChannelStore.revokedHoldNothing_step (linked_of_reachable hs.of_when) hnothing ht.1 ht.2

private def connectArgs (owner : String) : ConnectionArgs where
  ownerUserId := owner
  provider := "slack"
  externalAccountId := some "U1"
  externalAccountName := none
  workspaceId := some "T1"
  workspaceName := none
  botUserId := none
  scopes := none
  capabilities := none
  metadata := none
  status := "connected"

private def token : CredentialArgs where
  encrypt := some fun v => v
  accessToken := some "secret"
  refreshToken := none
  tokenType := none
  expiresAt := none
  refreshExpiresAt := none
  extra := none

private def channelScript (calls : List ChannelCall) : List (ChannelStore → ChannelCall) :=
  calls.map fun call _ => call

/-- Bob takes alice's connection over, and her credentials are gone. -/
theorem revoked_connections_hold_nothing_transfer : ∃ s : ChannelStore,
    s.rows.map (fun r => (r.ownerUserId, r.status)) = [("alice", "revoked"), ("bob", "connected")] ∧
      s.RevokedHoldNothing ∧ s.OneConnected := by
  have hrun : (runScript (guarded (fun s call => ¬ ChannelStore.Slips s call) ChannelStore.step)
      .init (channelScript [.upsert (connectArgs "alice") "a", .storeCredentials "a" token,
        .upsert (connectArgs "bob") "b"])).any (fun s =>
          decide (s.rows.map (fun r => (r.ownerUserId, r.status)) =
            [("alice", "revoked"), ("bob", "connected")])) = true := by
    decide +kernel
  obtain ⟨s, hs, h⟩ := exists_reachable_of_decide _ hrun
  exact ⟨s, h, revoked_connections_hold_nothing (when_of_guarded hs)⟩

/-- The credentials of a connection are stored after it was disconnected. -/
theorem revoked_connection_holds_token :
    ∃ s, Reachable channels s ∧ ¬ s.RevokedHoldNothing := by
  have hrun : (runScript ChannelStore.step .init (channelScript
      [.upsert (connectArgs "alice") "a", .disconnect "a" "alice",
        .storeCredentials "a" token])).any (fun s =>
          s.rows.any fun r => decide (r.Revoked ∧ s.credentials.get r.id ≠ none)) = true := by
    decide +kernel
  obtain ⟨s, hs, h⟩ := exists_reachable_of_runScript _ hrun
  obtain ⟨r, hr, hdec⟩ := List.any_eq_true.mp h
  obtain ⟨hrevoked, hstored⟩ := of_decide_eq_true hdec
  exact ⟨s, hs, fun hnothing => hstored (hnothing r hr hrevoked)⟩

end Runs

end DeerFlow.Persistence
