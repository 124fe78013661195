import DeerFlow.Memory.FileStorage
import DeerFlow.Memory.MemoryUpdates

/-! The operations on a user's memory. Each loads the whole document, changes its copy and
saves that, so a save overwrites what others have saved since the load. -/

namespace DeerFlow.Memory
open Transition

section Operations

inductive MemoryOp where
  | get
  | reload
  | clear
  | importData (data : MemoryData)
  | createFact (content category : String) (confidence : Rat) (uuid now : String)
  | deleteFact (id : String)
  | updateFact (id : String) (content category : Option String) (confidence : Option Rat)
  /-- A background update, with the reply that the model will give it, if any. -/
  | background (reply : Option MemoryReply)

/-- The fact that `create_memory_fact` appends, unless it is refused. -/
def createMemoryFact (content category : String) (confidence : Rat) (uuid now : String) :
    Option Fact :=
  if strip content = "" ∨ confidence < 0 ∨ 1 < confidence then none
  else some {
    id := "fact_" ++ uuid
    content := strip content
    category := if strip category = "" then "context" else strip category
    confidence := confidence
    createdAt := now
    source := "manual"
    sourceError := none }

/-- The change of `update_memory_fact` to the fact itself. -/
def editFact (content category : Option String) (confidence : Option Rat) (f : Fact) : Option Fact :=
  if (∃ c ∈ content, strip c = "") ∨ (∃ c ∈ confidence, c < 0 ∨ 1 < c) then none
  else some { f with
    content := (content.map strip).getD f.content
    category := (category.map fun c => if strip c = "" then "context" else strip c).getD f.category
    confidence := confidence.getD f.confidence }

namespace MemoryOp

/-- What an operation makes of the document that it has loaded. -/
def apply (cfg : MemoryConfig) (op : MemoryOp) (base : MemoryData) : Option MemoryData :=
  match op with
  | .createFact content category confidence uuid now =>
    (createMemoryFact content category confidence uuid now).map fun f =>
      { base with facts := base.facts ++ [f] }
  | .deleteFact id =>
    if base.facts.all fun f => f.id ≠ id then none
    else some { base with facts := base.facts.filter fun f => f.id ≠ id }
  | .updateFact id content category confidence =>
    if base.facts.all fun f => f.id ≠ id then none
    else (base.facts.mapM fun f =>
      if f.id = id then editFact content category confidence f else some f).map fun facts =>
        { base with facts := facts }
  | .background reply => reply.map (finalizeUpdate cfg base)
  | .get | .reload | .clear | .importData _ => none

/-- The document of an operation that loads none before it saves. -/
def whole? : MemoryOp → Option MemoryData
  | .clear => some .empty
  | .importData data => some data
  | .get | .reload | .createFact .. | .deleteFact _ | .updateFact .. | .background _ => none

end MemoryOp

inductive MemoryPc where
  | loading (pc : LoadPc MemoryData)
  /-- The model is asked. -/
  | asking (base : MemoryData)
  /-- With the document that was loaded, if any. -/
  | saving (base : Option MemoryData) (pc : SavePc MemoryData)
  /-- An import returns what it loads in the end. -/
  | rereading (pc : LoadPc MemoryData)
  | reloading (pc : ReloadPc MemoryData)
  | done (ok : Bool)

structure MemoryCall where
  op : MemoryOp
  pc : MemoryPc

namespace MemoryOp

def begin : MemoryOp → MemoryPc
  | .reload => .reloading .read
  | .clear => .saving none (.write .empty)
  | .importData data => .saving none (.write data)
  | .createFact content category confidence uuid now =>
    if (createMemoryFact content category confidence uuid now).isSome then .loading .stat
    else .done false
  | .get | .deleteFact _ | .updateFact .. | .background _ => .loading .stat

def change (cfg : MemoryConfig) (op : MemoryOp) (base : MemoryData) : MemoryPc :=
  match op.apply cfg base with
  | none => .done false
  | some data => .saving (some base) (.write data)

def loaded (cfg : MemoryConfig) (op : MemoryOp) (base : MemoryData) : MemoryPc :=
  match op with
  | .get => .done true
  | .background _ => .asking base
  | _ => op.change cfg base

def saved (op : MemoryOp) (ok : Bool) : MemoryPc :=
  match op, ok with
  | .importData _, true => .rereading .stat
  | _, _ => .done ok

end MemoryOp

/-- One step of a call: the storage after it, and where the call is then. -/
def MemoryCall.step (cfg : MemoryConfig) (s : FileStorage MemoryData) (fails : Bool)
    (c : MemoryCall) : Option (FileStorage MemoryData × MemoryPc) :=
  match c.pc with
  | .loading pc =>
    match s.loadStep .empty fails pc with
    | (s, .goOn pc) => some (s, .loading pc)
    | (s, .returns base) => some (s, c.op.loaded cfg base)
  | .asking base => some (s, c.op.change cfg base)
  | .saving base pc =>
    match s.saveStep fails pc with
    | (s, .goOn pc) => some (s, .saving base pc)
    | (s, .returns ok) => some (s, c.op.saved ok)
  | .rereading pc =>
    match s.loadStep .empty fails pc with
    | (s, .goOn pc) => some (s, .rereading pc)
    | (s, .returns _) => some (s, .done true)
  | .reloading pc =>
    match s.reloadStep .empty fails pc with
    | (s, .goOn pc) => some (s, .reloading pc)
    | (s, .returns _) => some (s, .done true)
  | .done _ => none

structure MemoryState where
  storage : FileStorage MemoryData
  calls : List MemoryCall

inductive MemoryEvent where
  | start (op : MemoryOp)
  | step (i : Nat) (fails : Bool)

namespace MemoryState

def init : MemoryState := ⟨.init, []⟩

/-- What is stored. -/
def content (s : MemoryState) : MemoryData := s.storage.content .empty

def step (cfg : MemoryConfig) (s : MemoryState) : MemoryEvent → Option MemoryState
  | .start op => some { s with calls := s.calls ++ [⟨op, op.begin⟩] }
  | .step i fails => s.calls[i]?.bind fun c =>
    (c.step cfg s.storage fails).map fun x => ⟨x.1, s.calls.set i { c with pc := x.2 }⟩

end MemoryState

def memoryOperations (cfg : MemoryConfig) : System MemoryState MemoryEvent :=
  System.ofFn .init (MemoryState.step cfg)

end Operations

section Promises

def MemoryData.factsOf (m : MemoryData) (id : String) : List Fact := m.facts.filter fun f => f.id = id

/-- A save that is about to replace the stored memory. -/
structure MemoryWrite where
  op : MemoryOp
  base : Option MemoryData
  data : MemoryData

def MemoryOp.Removes (id : String) : MemoryOp → Prop
  | .clear => True
  | .deleteFact id' => id' = id
  | _ => False

/-- The fact that a user creates or edits. -/
def MemoryOp.target? : MemoryOp → Option String
  | .createFact _ _ _ uuid _ => some ("fact_" ++ uuid)
  | .updateFact id _ _ _ => some id
  | _ => none

/-- The operation itself comes with a fact under this identifier. -/
def MemoryOp.Brings (id : String) : MemoryOp → Prop
  | .createFact _ _ _ uuid _ => "fact_" ++ uuid = id
  | .importData data => id ∈ data.facts.map Fact.id
  | .background (some reply) => ∃ n < reply.update.newFacts.length, "fact_" ++ reply.uuid n = id
  | _ => False

namespace MemoryState

def write? (s : MemoryState) : MemoryEvent → Option MemoryWrite
  | .start _ => none
  | .step i fails =>
    match s.calls[i]?, fails with
    | some ⟨op, .saving base (.rename data)⟩, false => some ⟨op, base, data⟩
    | _, _ => none

def Forgets (s : MemoryState) (id : String) (event : MemoryEvent) : Prop :=
  ∃ w ∈ s.write? event, w.op.Removes id

def Records (s : MemoryState) (f : Fact) (event : MemoryEvent) : Prop :=
  ∃ w ∈ s.write? event, w.op.target? = some f.id ∧ f ∈ w.data.facts

/-- A write whose snapshot does not have the facts under this identifier that are stored. -/
def Overwrites (s : MemoryState) (id : String) (event : MemoryEvent) : Prop :=
  ∃ w ∈ s.write? event, ∃ base ∈ w.base, base.factsOf id ≠ s.content.factsOf id

def Readds (s : MemoryState) (id : String) (event : MemoryEvent) : Prop :=
  ∃ w ∈ s.write? event, w.op.Brings id

/-- A write of an operation that removes the fact: it found it, or did not look. -/
def Drops (s : MemoryState) (f : Fact) (event : MemoryEvent) : Prop :=
  ∃ w ∈ s.write? event, (∀ base ∈ w.base, f ∈ base.facts) ∧ f ∉ w.data.facts

end MemoryState

end Promises

end DeerFlow.Memory
