import DeerFlow.Runtime.Value

/-! A row of the `threads_meta` table and what the repository's methods do to the row of one
thread: what each reads, and what each commits. -/

namespace DeerFlow.Persistence

/-- An aware `datetime` in UTC. -/
structure DateTime where
  year : Nat
  month : Nat
  day : Nat
  hour : Nat
  minute : Nat
  second : Nat
  microsecond : Nat
  deriving DecidableEq, Inhabited

structure ThreadMetaRow where
  threadId : String
  assistantId : Option String
  userId : Option String
  displayName : Option String
  status : String
  metadataJson : Dict Value
  createdAt : DateTime
  updatedAt : DateTime
  deriving DecidableEq

/-- The column that an `update(ThreadMetaRow)` statement writes beside `updated_at`. -/
inductive Column where
  | displayName (value : String)
  | status (value : String)
  | owner (value : String)
  deriving DecidableEq

/-- What `create` is called with beside the thread. -/
structure ThreadMetaArgs where
  assistantId : Option String
  userId : Option String
  displayName : Option String
  metadata : Option (Dict Value)
  deriving DecidableEq

namespace ThreadMetaRow

def create (threadId : String) (args : ThreadMetaArgs) (now : DateTime) : ThreadMetaRow where
  threadId := threadId
  assistantId := args.assistantId
  userId := args.userId
  displayName := args.displayName
  status := "idle"
  metadataJson := args.metadata.getD []
  createdAt := now
  updatedAt := now

/-- The owner filter; `None` bypasses it. -/
def ownedBy (r : ThreadMetaRow) (user : Option String) : Bool := user.isNone || r.userId = user

def setColumn (r : ThreadMetaRow) (c : Column) (now : DateTime) : ThreadMetaRow :=
  match c with
  | .displayName v => { r with displayName := some v, updatedAt := now }
  | .status v => { r with status := v, updatedAt := now }
  | .owner v => { r with userId := some v, updatedAt := now }

def setMetadata (r : ThreadMetaRow) (merged : Dict Value) (now : DateTime) : ThreadMetaRow :=
  { r with metadataJson := merged, updatedAt := now }

@[simp] theorem setColumn_metadataJson (r : ThreadMetaRow) (c : Column) (now : DateTime) :
    (r.setColumn c now).metadataJson = r.metadataJson := by cases c <;> rfl

@[simp] theorem setColumn_threadId (r : ThreadMetaRow) (c : Column) (now : DateTime) :
    (r.setColumn c now).threadId = r.threadId := by cases c <;> rfl

@[simp] theorem setMetadata_metadataJson (r : ThreadMetaRow) (merged : Dict Value)
    (now : DateTime) : (r.setMetadata merged now).metadataJson = merged := rfl

@[simp] theorem setMetadata_threadId (r : ThreadMetaRow) (merged : Dict Value) (now : DateTime) :
    (r.setMetadata merged now).threadId = r.threadId := rfl

end ThreadMetaRow

namespace ThreadMetaRepository

/-- `get`. -/
def getOwned (row : Option ThreadMetaRow) (user : Option String) : Option ThreadMetaRow :=
  row.filter (·.ownedBy user)

/-- `_check_ownership`, which does not look at the row when the filter is bypassed. -/
def checkOwnership (row : Option ThreadMetaRow) (user : Option String) : Bool :=
  user.isNone || (getOwned row user).isSome

/-- The document that `update_metadata` reads and merges into. -/
def readMetadata (row : Option ThreadMetaRow) (user : Option String) : Option (Dict Value) :=
  (getOwned row user).map (·.metadataJson)

end ThreadMetaRepository

end DeerFlow.Persistence
