import DeerFlow.Lib.Json
import DeerFlow.Persistence.ThreadMeta

/-! The tables of channel connections and of their credentials, and the
transactions that write them. The database keeps two indexes over the
connections: an owner has one row for an external identity, and at most one row
for it is not revoked. -/

namespace DeerFlow.Persistence

structure ChannelConnectionRow where
  id : String
  ownerUserId : String
  provider : String
  status : String
  externalAccountId : String
  externalAccountName : Option String
  workspaceId : String
  workspaceName : Option String
  botUserId : Option String
  scopesJson : List String
  capabilitiesJson : Dict Value
  metadataJson : Dict Value
  deriving DecidableEq

structure ChannelCredentialRow where
  connectionId : String
  encryptedAccessToken : Option String
  encryptedRefreshToken : Option String
  tokenType : Option String
  expiresAt : Option DateTime
  refreshExpiresAt : Option DateTime
  encryptedExtraJson : Option String
  version : Nat
  deriving DecidableEq

namespace ChannelConnectionRow

def Revoked (r : ChannelConnectionRow) : Prop := r.status = "revoked"

instance (r : ChannelConnectionRow) : Decidable r.Revoked := inferInstanceAs (Decidable (_ = _))

def Connected (r : ChannelConnectionRow) : Prop := r.status = "connected"

instance (r : ChannelConnectionRow) : Decidable r.Connected := inferInstanceAs (Decidable (_ = _))

def HasIdentity (provider account workspace : String) (r : ChannelConnectionRow) : Prop :=
  r.provider = provider ∧ r.externalAccountId = account ∧ r.workspaceId = workspace

instance (provider account workspace : String) (r : ChannelConnectionRow) :
    Decidable (HasIdentity provider account workspace r) := inferInstanceAs (Decidable (_ ∧ _ ∧ _))

/-- The two rows break `uq_channel_connection_owner_provider_identity` or
`uq_channel_connection_active_identity`. -/
def Clashes (a b : ChannelConnectionRow) : Prop :=
  a.id ≠ b.id ∧ HasIdentity b.provider b.externalAccountId b.workspaceId a ∧
    (a.ownerUserId = b.ownerUserId ∨ ¬ a.Revoked ∧ ¬ b.Revoked)

instance (a b : ChannelConnectionRow) : Decidable (a.Clashes b) :=
  inferInstanceAs (Decidable (_ ∧ _ ∧ _))

theorem Clashes.symm {a b : ChannelConnectionRow} (h : a.Clashes b) : b.Clashes a := by
  obtain ⟨hne, ⟨hprovider, haccount, hworkspace⟩, hindex⟩ := h
  exact ⟨hne.symm, ⟨hprovider.symm, haccount.symm, hworkspace.symm⟩,
    hindex.imp Eq.symm And.symm⟩

def revoke (r : ChannelConnectionRow) : ChannelConnectionRow := { r with status := "revoked" }

theorem Clashes.of_revoke {p q : Prop} [Decidable p] [Decidable q] {a b : ChannelConnectionRow}
    (h : (if p then a.revoke else a).Clashes (if q then b.revoke else b)) : a.Clashes b := by
  have hrevoked (r : ChannelConnectionRow) : r.revoke.Revoked := rfl
  split_ifs at h
  · obtain ⟨hne, hidentity, howner | hactive⟩ := h
    · exact ⟨hne, hidentity, .inl howner⟩
    · exact absurd (hrevoked a) hactive.1
  · obtain ⟨hne, hidentity, howner | hactive⟩ := h
    · exact ⟨hne, hidentity, .inl howner⟩
    · exact absurd (hrevoked a) hactive.1
  · obtain ⟨hne, hidentity, howner | hactive⟩ := h
    · exact ⟨hne, hidentity, .inl howner⟩
    · exact absurd (hrevoked b) hactive.2
  · exact h

end ChannelConnectionRow

section Connections
open ChannelConnectionRow

structure ConnectionTable where
  table : Table ChannelConnectionRow.id
  apart : ∀ a ∈ table.rows, ∀ b ∈ table.rows, ¬ a.Clashes b

namespace ConnectionTable

def empty : ConnectionTable := ⟨.empty, fun _ ha => by cases ha⟩

/-- `None` is an `IntegrityError`. -/
def write (t : ConnectionTable) (r : ChannelConnectionRow) : Option ConnectionTable :=
  if h : ∀ x ∈ t.table.rows, ¬ x.Clashes r then
    some ⟨t.table.put r, by
      intro a ha b hb hab
      rcases mem_upsert ChannelConnectionRow.id ha with har | har
      · rcases mem_upsert ChannelConnectionRow.id hb with hbr | hbr
        · rw [har, hbr] at hab
          exact hab.1 rfl
        · rw [har] at hab
          exact h b hbr hab.symm
      · rcases mem_upsert ChannelConnectionRow.id hb with hbr | hbr
        · rw [hbr] at hab
          exact h a har hab
        · exact t.apart a har b hbr hab⟩
  else none

def insert (t : ConnectionTable) (r : ChannelConnectionRow) : Option ConnectionTable :=
  if (t.table.get r.id).isSome then none else t.write r

/-- `update(ChannelConnectionRow).where(id.in_(ids)).values(status="revoked")`. -/
def revokeAll (t : ConnectionTable) (ids : List String) : ConnectionTable where
  table := t.table.mapRows (fun r => if r.id ∈ ids then r.revoke else r) (by
    intro r
    split_ifs <;> rfl)
  apart := by
    intro a ha b hb hab
    obtain ⟨x, hx, rfl⟩ := List.mem_map.mp ha
    obtain ⟨y, hy, rfl⟩ := List.mem_map.mp hb
    exact t.apart x hx y hy hab.of_revoke

end ConnectionTable

/-- What `upsert_connection` is called with. -/
structure ConnectionArgs where
  ownerUserId : String
  provider : String
  externalAccountId : Option String
  externalAccountName : Option String
  workspaceId : Option String
  workspaceName : Option String
  botUserId : Option String
  scopes : Option (List String)
  capabilities : Option (Dict Value)
  metadata : Option (Dict Value)
  status : String
  deriving DecidableEq

namespace ConnectionArgs

/-- `_normalize_optional_identity`. -/
def account (args : ConnectionArgs) : String := args.externalAccountId.getD ""

def workspace (args : ConnectionArgs) : String := args.workspaceId.getD ""

def Names (args : ConnectionArgs) (r : ChannelConnectionRow) : Prop :=
  HasIdentity args.provider args.account args.workspace r

instance (args : ConnectionArgs) (r : ChannelConnectionRow) : Decidable (args.Names r) :=
  inferInstanceAs (Decidable (HasIdentity ..))

/-- `_apply`. -/
def apply (args : ConnectionArgs) (r : ChannelConnectionRow) : ChannelConnectionRow :=
  { r with
    status := args.status
    externalAccountName := args.externalAccountName
    workspaceName := args.workspaceName
    botUserId := args.botUserId
    scopesJson := args.scopes.getD []
    capabilitiesJson := args.capabilities.getD []
    metadataJson := args.metadata.getD [] }

/-- `ChannelConnectionRow(id=self._new_id(), ...)`, with the defaults of the other columns. -/
def newRow (args : ConnectionArgs) (newId : String) : ChannelConnectionRow where
  id := newId
  ownerUserId := args.ownerUserId
  provider := args.provider
  status := "connected"
  externalAccountId := args.account
  externalAccountName := none
  workspaceId := args.workspace
  workspaceName := none
  botUserId := none
  scopesJson := []
  capabilitiesJson := []
  metadataJson := []

end ConnectionArgs

/-- What `store_credentials` is called with, and the cipher of the repository. -/
structure CredentialArgs where
  encrypt : Option (String → String)
  accessToken : Option String
  refreshToken : Option String
  tokenType : Option String
  expiresAt : Option DateTime
  refreshExpiresAt : Option DateTime
  extra : Option (List (String × Json))

/-- `encrypt_text`. -/
def encryptText (encrypt : String → String) (value : Option String) : Option String :=
  value.map fun v => "fernet:v1:" ++ encrypt v

/-- The row, where `version` is that of the row before. -/
def CredentialArgs.row (args : CredentialArgs) (encrypt : String → String) (connectionId : String)
    (version : Nat) : ChannelCredentialRow where
  connectionId := connectionId
  encryptedAccessToken := encryptText encrypt args.accessToken
  encryptedRefreshToken := encryptText encrypt args.refreshToken
  tokenType := args.tokenType
  expiresAt := args.expiresAt
  refreshExpiresAt := args.refreshExpiresAt
  encryptedExtraJson := encryptText encrypt
    (some (String.ofList (Json.obj (args.extra.getD [])).dumps))
  version := version + 1

@[simp] theorem CredentialArgs.row_connectionId (args : CredentialArgs) (encrypt : String → String)
    (connectionId : String) (version : Nat) :
    (args.row encrypt connectionId version).connectionId = connectionId := rfl

/-- The two tables, and the ids that `upsert_connection` has returned. -/
structure ChannelStore where
  connections : ConnectionTable
  credentials : Table ChannelCredentialRow.connectionId
  returned : List String

namespace ChannelStore

def init : ChannelStore := ⟨.empty, .empty, []⟩

def rows (s : ChannelStore) : List ChannelConnectionRow := s.connections.table.rows

/-- Revoke the connections with these ids and delete their credentials. -/
def revokeConnections (s : ChannelStore) (ids : List String) : ChannelStore :=
  { s with
    connections := s.connections.revokeAll ids
    credentials := s.credentials.keep fun c => c.connectionId ∉ ids }

/-- The owner's own row for the identity. -/
def ownRow (s : ChannelStore) (args : ConnectionArgs) : Option ChannelConnectionRow :=
  s.rows.find? fun r => r.ownerUserId = args.ownerUserId ∧ args.Names r

/-- `_revoke_other_active_owners`. -/
def revokeOtherActiveOwners (s : ChannelStore) (args : ConnectionArgs) : ChannelStore :=
  if args.status ≠ "connected" then s
  else s.revokeConnections ((s.rows.filter fun r =>
    args.Names r ∧ r.ownerUserId ≠ args.ownerUserId ∧ ¬ r.Revoked).map (·.id))

/-- One attempt of `upsert_connection`, which may be rolled back; another attempt reads again. -/
def upsertConnection (s : ChannelStore) (args : ConnectionArgs) (newId : String) :
    Option ChannelStore :=
  let transferred := s.revokeOtherActiveOwners args
  match s.ownRow args with
  | none =>
    (transferred.connections.insert (args.apply (args.newRow newId))).map fun connections =>
      { transferred with connections := connections, returned := newId :: s.returned }
  | some row =>
    (transferred.connections.write (args.apply row)).map fun connections =>
      { transferred with connections := connections, returned := row.id :: s.returned }

def disconnectConnection (s : ChannelStore) (connectionId ownerUserId : String) :
    Bool × ChannelStore :=
  match s.connections.table.get connectionId with
  | none => (false, s)
  | some row =>
    if row.ownerUserId ≠ ownerUserId then (false, s)
    else (true, s.revokeConnections [connectionId])

def disconnectProviderConnections (s : ChannelStore) (provider : String) : Nat × ChannelStore :=
  let connectionIds :=
    (s.rows.filter fun r => r.provider = provider ∧ ¬ r.Revoked).map (·.id)
  (connectionIds.length, s.revokeConnections connectionIds)

/-- Without a cipher it raises. -/
def storeCredentials (s : ChannelStore) (connectionId : String) (args : CredentialArgs) :
    ChannelStore :=
  match args.encrypt with
  | none => s
  | some encrypt =>
    let version := ((s.credentials.get connectionId).map (·.version)).getD 0
    { s with credentials := s.credentials.put (args.row encrypt connectionId version) }

end ChannelStore

inductive ChannelCall where
  | upsert (args : ConnectionArgs) (newId : String)
  | disconnect (connectionId ownerUserId : String)
  | disconnectProvider (provider : String)
  | storeCredentials (connectionId : String) (args : CredentialArgs)

/-- Credentials are stored for ids that were returned. An attempt that fails changes nothing. -/
def ChannelStore.step (s : ChannelStore) : ChannelCall → Option ChannelStore
  | .upsert args newId => some ((s.upsertConnection args newId).getD s)
  | .disconnect connectionId ownerUserId => some (s.disconnectConnection connectionId ownerUserId).2
  | .disconnectProvider provider => some (s.disconnectProviderConnections provider).2
  | .storeCredentials connectionId args =>
    if connectionId ∈ s.returned then some (s.storeCredentials connectionId args) else none

end Connections

end DeerFlow.Persistence
