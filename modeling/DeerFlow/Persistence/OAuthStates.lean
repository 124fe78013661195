import DeerFlow.Lib.Sha256
import DeerFlow.Lib.Transition
import DeerFlow.Runtime.Value

/-! The binding codes of channels, statement by statement. What a transaction
deletes is kept under its call until it commits: others still read such a row,
and a statement that would write it waits. -/

namespace DeerFlow.Persistence
open Transition

variable {τ : Type}

structure OAuthStateRow (τ : Type) where
  stateHash : Sha256.State
  ownerUserId : String
  provider : String
  codeVerifierEncrypted : Option String
  nonceHash : Option String
  redirectAfter : Option String
  requestedScopesJson : List String
  metadataJson : Dict Value
  expiresAt : τ
  consumedAt : Option τ
  deriving DecidableEq

/-- `hash_state`, of which the column has the hex digits. -/
def hashState (state : String) : Sha256.State :=
  Sha256.sha256 (state.toList.flatMap fun c => (String.utf8EncodeChar c).map (·.toBitVec))

/-- What `create_oauth_state_within_cap` is called with beside the cap and the time, and the cipher
of the repository. -/
structure OAuthStateArgs (τ : Type) where
  ownerUserId : String
  provider : String
  state : String
  expiresAt : τ
  codeVerifier : Option String
  nonceHash : Option String
  redirectAfter : Option String
  requestedScopes : Option (List String)
  metadata : Option (Dict Value)
  encrypt : Option (String → String)

namespace OAuthStateArgs

/-- `_encrypt_optional_secret`, which raises without a cipher. -/
def encryptOptionalSecret (args : OAuthStateArgs τ) : Option (Option String) :=
  match args.codeVerifier with
  | none => some none
  | some value => args.encrypt.map fun encrypt => some ("fernet:v1:" ++ encrypt value)

def row (args : OAuthStateArgs τ) : Option (OAuthStateRow τ) :=
  args.encryptOptionalSecret.map fun verifier =>
    { stateHash := hashState args.state
      ownerUserId := args.ownerUserId
      provider := args.provider
      codeVerifierEncrypted := verifier
      nonceHash := args.nonceHash
      redirectAfter := args.redirectAfter
      requestedScopesJson := args.requestedScopes.getD []
      metadataJson := args.metadata.getD []
      expiresAt := args.expiresAt
      consumedAt := none }

theorem row_eq {args : OAuthStateArgs τ} {r : OAuthStateRow τ} (h : args.row = some r) :
    r.stateHash = hashState args.state ∧ r.ownerUserId = args.ownerUserId ∧
      r.provider = args.provider ∧ r.expiresAt = args.expiresAt ∧ r.consumedAt = none := by
  obtain ⟨verifier, -, rfl⟩ := Option.map_eq_some_iff.mp h
  exact ⟨rfl, rfl, rfl, rfl, rfl⟩

end OAuthStateArgs

/-- What `consume_oauth_state` returns. -/
structure ConsumedState where
  ownerUserId : String
  provider : String
  requestedScopes : List String
  metadata : Dict Value
  redirectAfter : Option String
  deriving DecidableEq

def OAuthStateRow.consumed (r : OAuthStateRow τ) : ConsumedState where
  ownerUserId := r.ownerUserId
  provider := r.provider
  requestedScopes := r.requestedScopesJson
  metadata := r.metadataJson
  redirectAfter := r.redirectAfter

inductive OAuthRequest (τ : Type) where
  | create (args : OAuthStateArgs τ)
  | consume (provider state : String)
  | deleteExpired

/-- Where a call is: what its transaction has done so far. -/
inductive OAuthPc (τ : Type) where
  | start
  | locked
  | pruned
  | counted (pending : Nat)
  | swept
  | read (row : OAuthStateRow τ)
  | done

/-- A call, with the time it has taken first. -/
structure OAuthCall (τ : Type) where
  request : OAuthRequest τ
  now : τ
  pc : OAuthPc τ

namespace OAuthCall

/-- The owner and the provider whose lock the call holds. -/
def scope? (c : OAuthCall τ) : Option (String × String) :=
  match c.request, c.pc with
  | .create args, .locked | .create args, .pruned | .create args, .counted _ =>
    some (args.ownerUserId, args.provider)
  | _, _ => none

/-- The code a connect request has drawn. -/
def drawn? (c : OAuthCall τ) : Option Sha256.State :=
  match c.request with
  | .create args => some (hashState args.state)
  | _ => none

theorem scope?_done (c : OAuthCall τ) : ({ c with pc := .done } : OAuthCall τ).scope? = none := by
  unfold scope?
  cases c.request <;> rfl

end OAuthCall

/-- A row, and the call that has deleted it and not committed yet. -/
structure StoredState (τ : Type) where
  row : OAuthStateRow τ
  deletedBy : Option Nat

def StoredState.stateHash (x : StoredState τ) : Sha256.State := x.row.stateHash

/-- What a call of `consume_oauth_state` has returned. -/
structure Consumption (τ : Type) where
  provider : String
  state : String
  now : τ
  answer : ConsumedState

/-- The table and the calls. No code reads the other two fields: the rows as they were created, and
what was returned. -/
structure OAuthStates (τ : Type) where
  table : Table (@StoredState.stateHash τ)
  clock : τ
  calls : List (OAuthCall τ)
  created : List (OAuthStateRow τ)
  returned : List (Consumption τ)

inductive OAuthEvent (τ : Type) where
  | tick (now : τ)
  | call (request : OAuthRequest τ)
  | step (i : Nat)
  /-- The call ends early, and its transaction is rolled back. -/
  | abort (i : Nat)

namespace OAuthStates

def init (clock : τ) : OAuthStates τ := ⟨.empty, clock, [], [], []⟩

def goto (s : OAuthStates τ) (i : Nat) (pc : OAuthPc τ) : OAuthStates τ :=
  { s with calls := s.calls.modify i fun c => { c with pc := pc } }

/-- `DELETE`, which waits for another transaction that has deleted one of the rows. -/
def delete (s : OAuthStates τ) (i : Nat) (p : OAuthStateRow τ → Bool) :
    Option (OAuthStates τ) :=
  if ∃ x ∈ s.table.rows, p x.row = true ∧ x.deletedBy ≠ none ∧ x.deletedBy ≠ some i then none
  else some { s with
    table := s.table.mapRows (fun x => if p x.row then { x with deletedBy := some i } else x) (by
      intro x
      split_ifs <;> rfl) }

/-- The rows that a statement of the call reads. -/
def visible (s : OAuthStates τ) (i : Nat) : List (OAuthStateRow τ) :=
  (s.table.rows.filter fun x => x.deletedBy ≠ some i).map (·.row)

def commit (s : OAuthStates τ) (i : Nat) : OAuthStates τ :=
  { s.goto i .done with table := s.table.keep fun x => x.deletedBy ≠ some i }

def rollback (s : OAuthStates τ) (i : Nat) : OAuthStates τ :=
  { s.goto i .done with
    table := s.table.mapRows
      (fun x => if x.deletedBy = some i then { x with deletedBy := none } else x) (by
        intro x
        split_ifs <;> rfl) }

/-- `INSERT` and commit. -/
def insert (s : OAuthStates τ) (i : Nat) (row : OAuthStateRow τ) : OAuthStates τ :=
  { s.commit i with
    table := (s.commit i).table.put ⟨row, none⟩
    created := s.created ++ [row] }

/-- The `UPDATE` of `consumed_at`, and commit. -/
def consume (s : OAuthStates τ) (i : Nat) (c : OAuthCall τ) (provider state : String)
    (row : OAuthStateRow τ) (x : StoredState τ) : OAuthStates τ :=
  let updated := s.table.put { x with row := { x.row with consumedAt := some c.now } }
  { ({ s with table := updated } : OAuthStates τ).commit i with
    returned := s.returned ++ [⟨provider, state, c.now, row.consumed⟩] }

/-- `pg_advisory_xact_lock` does not wait. -/
def lockFree (s : OAuthStates τ) (owner provider : String) : Bool :=
  s.calls.all fun c => c.scope? ≠ some (owner, provider)

section Steps
variable [LinearOrder τ]

/-- The row is one of the owner and the provider and can still be used. -/
def usable (owner provider : String) (now : τ) (r : OAuthStateRow τ) : Bool :=
  r.ownerUserId = owner && r.provider = provider && r.consumedAt.isNone && now ≤ r.expiresAt

def pending (rows : List (OAuthStateRow τ)) (owner provider : String) (now : τ) :
    List (OAuthStateRow τ) := rows.filter (usable owner provider now)

def createStep (maxPending : Nat) (s : OAuthStates τ) (i : Nat) (c : OAuthCall τ)
    (args : OAuthStateArgs τ) : Option (OAuthStates τ) :=
  match c.pc with
  | .start =>
    if s.lockFree args.ownerUserId args.provider then some (s.goto i .locked) else none
  | .locked =>
    (s.delete i fun r => r.ownerUserId = args.ownerUserId ∧ r.provider = args.provider ∧
      r.expiresAt < c.now).map fun s => s.goto i .pruned
  | .pruned =>
    some (s.goto i (.counted
      (pending (s.visible i) args.ownerUserId args.provider c.now).length))
  | .counted n =>
    if maxPending ≤ n then some (s.rollback i)
    else match args.row with
      | none => some (s.rollback i)
      | some row =>
        match s.table.get row.stateHash with
        | none => some (s.insert i row)
        | some x =>
          if x.deletedBy = some i then some (s.insert i row)
          else if x.deletedBy = none then some (s.rollback i)
          else none
  | _ => none

/-- `row is None or row.provider != provider or row.consumed_at is not None`, or it is expired. -/
def rejected (r : OAuthStateRow τ) (provider : String) (now : τ) : Bool :=
  r.provider ≠ provider || r.consumedAt.isSome || r.expiresAt < now

def consumeStep (s : OAuthStates τ) (i : Nat) (c : OAuthCall τ) (provider state : String) :
    Option (OAuthStates τ) :=
  match c.pc with
  | .start => (s.delete i fun r => r.expiresAt < c.now).map fun s => s.goto i .swept
  | .swept =>
    match (s.visible i).find? fun r => r.stateHash = hashState state with
    | none => some (s.commit i)
    | some r =>
      if rejected r provider c.now then some (s.commit i) else some (s.goto i (.read r))
  | .read r =>
    match s.table.get (hashState state) with
    | none => some (s.commit i)
    | some x =>
      if x.deletedBy = some i ∨ x.row.consumedAt.isSome then some (s.commit i)
      else if x.deletedBy = none then some (s.consume i c provider state r x)
      else none
  | _ => none

def deleteExpiredStep (s : OAuthStates τ) (i : Nat) (c : OAuthCall τ) : Option (OAuthStates τ) :=
  match c.pc with
  | .start => (s.delete i fun r => r.expiresAt < c.now).map fun s => s.commit i
  | _ => none

def callStep (maxPending : Nat) (s : OAuthStates τ) (i : Nat) (c : OAuthCall τ) :
    Option (OAuthStates τ) :=
  match c.request with
  | .create args => s.createStep maxPending i c args
  | .consume provider state => s.consumeStep i c provider state
  | .deleteExpired => s.deleteExpiredStep i c

def step (maxPending : Nat) (s : OAuthStates τ) : OAuthEvent τ → Option (OAuthStates τ)
  | .tick now => if s.clock ≤ now then some { s with clock := now } else none
  | .call request => some { s with calls := s.calls ++ [⟨request, s.clock, .start⟩] }
  | .step i => s.calls[i]?.bind fun c => s.callStep maxPending i c
  | .abort i => s.calls[i]?.map fun _ => s.rollback i

end Steps

end OAuthStates

/-- The calls of any users and workers, under a clock that does not go back. -/
def oauthStates [LinearOrder τ] (maxPending : Nat) (clock : τ) :
    System (OAuthStates τ) (OAuthEvent τ) := .ofFn (.init clock) (OAuthStates.step maxPending)

end DeerFlow.Persistence
