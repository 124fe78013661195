import DeerFlow.Lib.Transition
import DeerFlow.Persistence.ThreadMeta

/-! The two thread metadata stores, and the calls that both are given: the SQL repository over
the `threads_meta` table, and the store that keeps each thread as a dictionary in a LangGraph
`BaseStore`. -/

namespace DeerFlow.Persistence
open Transition

section Time

/-- `n` in decimal, with zeros before it up to the width. -/
def zeroPadded (width n : Nat) : String :=
  let digits := Nat.toDigits 10 n
  String.ofList (List.replicate (width - digits.length) '0' ++ digits)

/-- `isoformat`, as `now_iso` returns it and `coerce_iso` renders a stored `datetime`. -/
def DateTime.isoformat (t : DateTime) : String :=
  zeroPadded 4 t.year ++ "-" ++ zeroPadded 2 t.month ++ "-" ++ zeroPadded 2 t.day ++ "T" ++
    zeroPadded 2 t.hour ++ ":" ++ zeroPadded 2 t.minute ++ ":" ++ zeroPadded 2 t.second ++
    (if t.microsecond = 0 then "" else "." ++ zeroPadded 6 t.microsecond) ++ "+00:00"

def DateTime.fields (t : DateTime) : List Nat :=
  [t.year, t.month, t.day, t.hour, t.minute, t.second, t.microsecond]

end Time

def optionalText : Option String → Value
  | some s => .str s
  | none => .none

/-- What the mutating methods of a store are called with, and the clock value they read. -/
inductive ThreadMetaCall where
  | create (threadId : String) (args : ThreadMetaArgs)
  | updateColumn (threadId : String) (column : Column) (user : Option String)
  | updateMetadata (threadId : String) (metadata : Dict Value) (user : Option String)
  | delete (threadId : String) (user : Option String)
  deriving DecidableEq

section Filters

/-- A metadata filter value of the types that a search takes. -/
inductive FilterValue (τ : Type) where
  | null
  | bool (b : Bool)
  | int (n : Int)
  | str (s : τ)
  deriving DecidableEq

def FilterValue.toValue : FilterValue String → Value
  | .null => .none
  | .bool b => .bool b
  | .int n => .int n
  | .str s => .str s

def int64Min : Int := -2 ^ 63

def int64Max : Int := 2 ^ 63 - 1

def validateMetadataFilterValue {τ : Type} : FilterValue τ → Bool
  | .int n => int64Min ≤ n && n ≤ int64Max
  | .null | .bool _ | .str _ => true

def filterKeyChar (c : Char) : Bool := c.isAlphanum || c = '_' || c = '-'

/-- `_KEY_CHARSET_RE.match`; its `$` also matches before a last newline. -/
def validateMetadataFilterKey (key : String) : Bool :=
  let chars := key.toList
  let body := if chars.getLast? = some '\n' then chars.dropLast else chars
  !body.isEmpty && body.all filterKeyChar

/-- SQLite's `CAST(... AS INTEGER)` of a JSON integer. -/
def castInt64 (n : Int) : Int := max int64Min (min n int64Max)

/-- `_build_clause` on what SQLite finds under the key: `json_type` must fit the filter's type,
and the extracted value its value. -/
def jsonMatch (stored : Option Value) (value : FilterValue String) : Bool :=
  match value, stored with
  | .null, some .none => true
  | .bool b, some (.bool c) => c = b
  | .int n, some (.int m) => castInt64 m = n
  | .str s, some (.str t) => t = s
  | _, _ => false

structure SearchArgs where
  metadata : Dict (FilterValue String)
  status : Option String
  limit : Nat
  offset : Nat
  user : Option String

/-- `if status:`. -/
def SearchArgs.statusFilter (q : SearchArgs) : Option String := q.status.filter (· ≠ "")

end Filters

namespace ThreadMetaRepository

abbrev Rows := Table ThreadMetaRow.threadId

/-- `_row_to_dict`. -/
def rowToDict (r : ThreadMetaRow) : Dict Value :=
  [("thread_id", .str r.threadId), ("assistant_id", optionalText r.assistantId),
    ("user_id", optionalText r.userId), ("display_name", optionalText r.displayName),
    ("status", .str r.status), ("created_at", .str r.createdAt.isoformat),
    ("updated_at", .str r.updatedAt.isoformat), ("metadata", .dict r.metadataJson)]

def get (t : Rows) (threadId : String) (user : Option String) : Option (Dict Value) :=
  (getOwned (t.get threadId) user).map rowToDict

def checkAccess (t : Rows) (threadId user : String) (requireExisting : Bool) : Bool :=
  match t.get threadId with
  | none => !requireExisting
  | some r => r.userId.isNone || r.userId = some user

/-- `ORDER BY updated_at DESC, thread_id DESC`. -/
def newerFirst (r r' : ThreadMetaRow) : Bool :=
  r'.updatedAt.fields < r.updatedAt.fields ||
    r.updatedAt.fields = r'.updatedAt.fields && r'.threadId ≤ r.threadId

def matchesFilter (metadata : Dict (FilterValue String)) (r : ThreadMetaRow) : Bool :=
  metadata.all fun item => jsonMatch (r.metadataJson.get item.1) item.2

/-- A key or value that `JsonMatch` refuses is skipped, and a filter of which nothing is left is
an error. -/
def search (t : Rows) (q : SearchArgs) : Except String (List ThreadMetaRow) :=
  let applied := q.metadata.filter fun item =>
    validateMetadataFilterKey item.1 && validateMetadataFilterValue item.2
  if q.metadata ≠ [] ∧ applied = [] then
    throw ("All metadata filter keys were rejected as unsafe: " ++
      String.intercalate ", " (q.metadata.keys.insertionSort (· ≤ ·)))
  else
    let rows := t.rows.filter fun r =>
      (q.user.isNone || r.userId = q.user) && (q.statusFilter.isNone || r.status = q.statusFilter) &&
        matchesFilter applied r
    pure (((rows.insertionSort (newerFirst · ·)).drop q.offset).take q.limit)

/-- A call that is not stopped by its ownership check; an id that is there cannot be created. -/
def call (t : Rows) (now : DateTime) : ThreadMetaCall → Option Rows
  | .create threadId args =>
    match t.get threadId with
    | some _ => none
    | none => some (t.put (.create threadId args now))
  | .updateColumn threadId column user =>
    if checkOwnership (t.get threadId) user then
      some (t.update threadId fun r => r.setColumn column now)
    else some t
  | .updateMetadata threadId metadata user =>
    match readMetadata (t.get threadId) user with
    | some seen => some (t.update threadId fun r => r.setMetadata (seen.update metadata) now)
    | none => some t
  | .delete threadId user =>
    match getOwned (t.get threadId) user with
    | some _ => some (t.erase threadId)
    | none => some t

end ThreadMetaRepository

namespace MemoryThreadMetaStore

/-- The items of the `("threads",)` namespace, each a key and its value. -/
abbrev Items := Dict (Dict Value)

/-- `_get_owned_record`, which `get` returns as it is. -/
def getOwnedRecord (items : Items) (threadId : String) (user : Option String) :
    Option (Dict Value) :=
  match items.get threadId with
  | none => none
  | some record =>
    if user ≠ none ∧ record.get "user_id" ≠ some (optionalText user) then none else some record

def create (items : Items) (threadId : String) (args : ThreadMetaArgs) (now : DateTime) : Items :=
  items.set threadId
    [("thread_id", .str threadId), ("assistant_id", optionalText args.assistantId),
      ("user_id", optionalText args.userId), ("display_name", optionalText args.displayName),
      ("status", .str "idle"), ("metadata", .dict (args.metadata.getD [])), ("values", .dict []),
      ("created_at", .str now.isoformat), ("updated_at", .str now.isoformat)]

def get (items : Items) (threadId : String) (user : Option String) : Option (Dict Value) :=
  getOwnedRecord items threadId user

def checkAccess (items : Items) (threadId user : String) (requireExisting : Bool) : Bool :=
  match items.get threadId with
  | none => !requireExisting
  | some record =>
    match record.get "user_id" with
    | none | some .none => true
    | some owner => owner = .str user

/-- What `update_display_name`, `update_status` and `update_owner` put back. -/
def setColumn (record : Dict Value) (column : Column) (now : DateTime) : Dict Value :=
  let record := match column with
    | .displayName v => record.set "display_name" (.str v)
    | .status v => record.set "status" (.str v)
    | .owner v => record.set "user_id" (.str v)
  record.set "updated_at" (.str now.isoformat)

/-- What `update_metadata` puts back. -/
def setMetadata (record metadata : Dict Value) (now : DateTime) : Dict Value :=
  let document : Dict Value := match record.get "metadata" with
    | some (.dict d) => d
    | _ => []
  (record.set "metadata" (.dict (document.update metadata))).set "updated_at"
    (.str now.isoformat)

def call (items : Items) (now : DateTime) : ThreadMetaCall → Items
  | .create threadId args => create items threadId args now
  | .updateColumn threadId column user =>
    match getOwnedRecord items threadId user with
    | some record => items.set threadId (setColumn record column now)
    | none => items
  | .updateMetadata threadId metadata user =>
    match getOwnedRecord items threadId user with
    | some record => items.set threadId (setMetadata record metadata now)
    | none => items
  | .delete threadId user =>
    match getOwnedRecord items threadId user with
    | some _ => items.pop threadId
    | none => items

/-- The order in which the key-value store lists its items. -/
structure ItemOrder where
  list : Items → Items
  perm : ∀ items, (list items).Perm items

/-- `filter_dict`: the status and the user take the place of what the metadata filter says of
keys of these names. -/
def filterDict (q : SearchArgs) : Dict Value :=
  let filter : Dict Value := q.metadata.map fun item => (item.1, item.2.toValue)
  let filter := match q.statusFilter with
    | some status => filter.set "status" (.str status)
    | none => filter
  match q.user with
  | some user => filter.set "user_id" (.str user)
  | none => filter

/-- An item whose top-level fields equal the filter's entries. -/
def matchesFilter (filter : Dict Value) (record : Dict Value) : Bool :=
  filter.all fun entry => (record.get entry.1).any fun v => v.eq entry.2

/-- `asearch`, which applies the offset and the limit to the items that match. -/
def search (order : ItemOrder) (items : Items) (q : SearchArgs) : Items :=
  (((order.list items).filter fun item => matchesFilter (filterDict q) item.2).drop q.offset).take
    q.limit

end MemoryThreadMetaStore

/-- Both stores, which have been given the same calls. -/
structure ThreadStores where
  sql : ThreadMetaRepository.Rows
  memory : MemoryThreadMetaStore.Items

namespace ThreadStores

def init : ThreadStores := ⟨.empty, []⟩

def step (s : ThreadStores) (event : ThreadMetaCall × DateTime) : Option ThreadStores :=
  (ThreadMetaRepository.call s.sql event.2 event.1).map fun sql =>
    ⟨sql, MemoryThreadMetaStore.call s.memory event.2 event.1⟩

end ThreadStores

/-- The calls of any users at any clock values; no thread is created twice. -/
def threadStores : System ThreadStores (ThreadMetaCall × DateTime) :=
  System.ofFn .init ThreadStores.step

end DeerFlow.Persistence
