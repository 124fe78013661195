import DeerFlow.Lib.Transition

/-! The file storage of one memory, with the cache that several threads share. Each step of
a `load`, `reload` or `save` is one access to the file or to the cache, and other calls may
come between any two. A rename gives the file a modification time of its own. -/

namespace DeerFlow.Memory
open Transition

section Storage

/-- The file and the cache entry of one key. A document is what the file holds once it is
parsed; the `lastUpdated` of an empty memory is left out. -/
structure FileStorage (D : Type) where
  file : Option (D × Nat)
  /-- The modification time of the next rename. -/
  nextMtime : Nat
  cache : Option (D × Option Nat)

/-- What a call does next, with what it has found out so far. -/
inductive LoadPc (D : Type) where
  | stat
  | lookup (mtime : Option Nat)
  | read (mtime : Option Nat)
  | store (data : D) (mtime : Option Nat)

inductive ReloadPc (D : Type) where
  | read
  | stat (data : D)
  | store (data : D) (mtime : Option Nat)

inductive SavePc (D : Type) where
  /-- The document goes into a temporary file. -/
  | write (data : D)
  | rename (data : D)
  | stat (data : D)
  | store (data : D) (mtime : Option Nat)

inductive Progress (P R : Type) where
  | goOn (pc : P)
  | returns (result : R)

namespace FileStorage
variable {D : Type} (empty : D)

def init : FileStorage D := ⟨none, 0, none⟩

def mtime (s : FileStorage D) : Option Nat := s.file.map Prod.snd

/-- `_load_memory_from_file`, when it can read the file: without one the memory is empty. -/
def content (s : FileStorage D) : D := (s.file.map Prod.fst).getD empty

def stat (s : FileStorage D) (fails : Bool) : Option Nat := if fails then none else s.mtime

/-- A file that cannot be read or parsed counts as an empty memory. -/
def read (s : FileStorage D) (fails : Bool) : D := if fails then empty else s.content empty

def put (s : FileStorage D) (data : D) (mtime : Option Nat) : FileStorage D :=
  { s with cache := some (data, mtime) }

def rename (s : FileStorage D) (data : D) : FileStorage D :=
  { s with file := some (data, s.nextMtime), nextMtime := s.nextMtime + 1 }

/-- `load`. A step that accesses the file may fail. -/
def loadStep (s : FileStorage D) (fails : Bool) : LoadPc D → FileStorage D × Progress (LoadPc D) D
  | .stat => (s, .goOn (.lookup (s.stat fails)))
  | .lookup mtime =>
    match s.cache with
    | none => (s, .goOn (.read mtime))
    | some (data, cached) =>
      if cached = mtime then (s, .returns data) else (s, .goOn (.read mtime))
  | .read mtime => (s, .goOn (.store (s.read empty fails) mtime))
  | .store data mtime => (s.put data mtime, .returns data)

def reloadStep (s : FileStorage D) (fails : Bool) :
    ReloadPc D → FileStorage D × Progress (ReloadPc D) D
  | .read => (s, .goOn (.stat (s.read empty fails)))
  | .stat data => (s, .goOn (.store data (s.stat fails)))
  | .store data mtime => (s.put data mtime, .returns data)

/-- `save`, which tells whether the file was replaced. -/
def saveStep (s : FileStorage D) (fails : Bool) :
    SavePc D → FileStorage D × Progress (SavePc D) Bool
  | .write data => (s, if fails then .returns false else .goOn (.rename data))
  | .rename data => if fails then (s, .returns false) else (s.rename data, .goOn (.stat data))
  | .stat data => (s, .goOn (.store data (s.stat fails)))
  | .store data mtime => (s.put data mtime, .returns true)

end FileStorage

end Storage

section Calls
variable {D : Type}

/-- A call in progress, or what it has returned; a `save` returns no document. -/
inductive StorageCall (D : Type) where
  | load (pc : LoadPc D)
  | reload (pc : ReloadPc D)
  | save (pc : SavePc D)
  | done (result : Option D)

inductive StorageOp (D : Type) where
  | load
  | reload
  | save (data : D)

def StorageOp.call : StorageOp D → StorageCall D
  | .load => .load .stat
  | .reload => .reload .read
  | .save data => .save (.write data)

structure StorageState (D : Type) where
  storage : FileStorage D
  calls : List (StorageCall D)

inductive StorageEvent (D : Type) where
  | start (op : StorageOp D)
  | step (i : Nat) (fails : Bool)

/-- One step of a call: the storage after it, and what is left of the call. -/
def StorageCall.step (empty : D) (s : FileStorage D) (fails : Bool) :
    StorageCall D → Option (FileStorage D × StorageCall D)
  | .load pc =>
    match s.loadStep empty fails pc with
    | (s, .goOn pc) => some (s, .load pc)
    | (s, .returns data) => some (s, .done (some data))
  | .reload pc =>
    match s.reloadStep empty fails pc with
    | (s, .goOn pc) => some (s, .reload pc)
    | (s, .returns data) => some (s, .done (some data))
  | .save pc =>
    match s.saveStep fails pc with
    | (s, .goOn pc) => some (s, .save pc)
    | (s, .returns _) => some (s, .done none)
  | .done _ => none

namespace StorageState

def init : StorageState D := ⟨.init, []⟩

def step (empty : D) (s : StorageState D) : StorageEvent D → Option (StorageState D)
  | .start op => some { s with calls := s.calls ++ [op.call] }
  | .step i fails => s.calls[i]?.bind fun c =>
    (c.step empty s.storage fails).map fun x => ⟨x.1, s.calls.set i x.2⟩

end StorageState

def memoryStorage (empty : D) : System (StorageState D) (StorageEvent D) :=
  System.ofFn .init (StorageState.step empty)

end Calls

end DeerFlow.Memory
