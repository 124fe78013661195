import DeerFlow.Lib.Except
import DeerFlow.Memory.MemoryUpdates

/-! The reply of a model to the prompt for a memory update: the first object of its text that
has the keys of an update, brought into the shape that is applied. -/

namespace DeerFlow.Memory

/-- Python's `float`. Nothing stands for a text that is no number, for what is not finite, and
for an integer that overflows. -/
structure PyFloat where
  ofText : String → Option Rat
  ofLiteral : FloatLiteral → Option Rat
  ofInt : Int → Option Rat

inductive ResponseFault where
  | jsonDecodeError (msg : String)
  | overflowError
  | attributeError
  | typeError
  deriving DecidableEq

section Text

/-- A block of the content of a message. -/
inductive ResponseBlock where
  | text (s : Text)
  /-- A dictionary, with its `text` if that is one. -/
  | dict (text : Option Text)
  | other

inductive ResponseContent where
  | text (s : Text)
  | blocks (blocks : List ResponseBlock)
  /-- What `str` makes of any other content. -/
  | other (s : Text)

/-- The pieces so far, and the chunks that are not joined to one yet. -/
structure Pieces where
  pieces : List Text
  pending : List Text

def Pieces.flush (p : Pieces) : Pieces :=
  if p.pending = [] then p else ⟨p.pieces ++ [p.pending.flatten], []⟩

def Pieces.add (p : Pieces) : ResponseBlock → Pieces
  | .text s => { p with pending := p.pending ++ [s] }
  | .dict text => { p.flush with pieces := p.flush.pieces ++ text.toList }
  | .other => p

/-- `_extract_text`. -/
def extractText : ResponseContent → Text
  | .text s => s
  | .blocks blocks => ['\n'].intercalate (blocks.foldl Pieces.add ⟨[], []⟩).flush.pieces
  | .other s => s

end Text

structure StaleRemoval where
  id : String
  reason : String

/-- What `_apply_updates` is given. -/
structure MemoryUpdateData where
  user : Dict Json
  history : Dict Json
  newFacts : List NewFact
  factsToRemove : List String
  staleFactsToRemove : List StaleRemoval

section Normalize
variable (floats : PyFloat)

def asText : Json → Option String
  | .str s => some s
  | _ => none

def asItems : Json → Option (List Json)
  | .arr xs => some xs
  | _ => none

def asObject : Json → Option (Dict Json)
  | .obj items => some items
  | _ => none

/-- The confidence of a new fact; nothing where the fact is dropped over it. -/
def rawConfidence : Json → Except ResponseFault (Option Rat)
  | .str s => .ok (if strip s = "" then none else floats.ofText (strip s))
  | .int n => (floats.ofInt n).elim (.error .overflowError) fun c => .ok (some c)
  | .float x => .ok (floats.ofLiteral x)
  | .null | .bool _ | .nonFinite _ | .arr _ | .obj _ => .ok none

/-- `_normalize_memory_update_fact`. -/
def normalizeMemoryUpdateFact (fact : Json) : Except ResponseFault (Option NewFact) :=
  match asObject fact with
  | none => .ok none
  | some fact =>
    let content := strip (((fact.get "content").bind asText).getD "")
    if content = "" then .ok none
    else
      let category := strip (((fact.get "category").bind asText).getD "")
      let confidence := (fact.get "confidence").elim (.ok (some (1 / 2))) (rawConfidence floats)
      confidence.map fun confidence => confidence.map fun confidence => {
        content := content
        category := if category = "" then "context" else category
        confidence := confidence
        sourceError := (((fact.get "sourceError").bind asText).map strip).filter (· ≠ "") }

/-- An entry of `staleFactsToRemove`. -/
def normalizeStaleRemoval (entry : Json) : Option StaleRemoval :=
  (asObject entry).bind fun entry =>
    (((entry.get "id").bind asText).filter (· ≠ "")).map fun id =>
      ⟨id, ((entry.get "reason").bind asText).getD ""⟩

/-- `_normalize_memory_update_data`. -/
def normalizeMemoryUpdateData (update : Dict Json) : Except ResponseFault MemoryUpdateData := do
  let items (key : String) : Option (List Json) := (update.get key).bind asItems
  let sections (key : String) : Dict Json := ((update.get key).bind asObject).getD []
  let factsToRemove := ((items "factsToRemove").getD []).filterMap asText
  let newFacts ← ((items "newFacts").getD []).mapM (normalizeMemoryUpdateFact floats)
  -- A removal may rest on a new fact that could not be read.
  if factsToRemove ≠ [] && ((items "newFacts").isNone || newFacts.any Option.isNone) then
    .error (.jsonDecodeError
      "Unsafe partial memory update: factsToRemove with malformed newFacts")
  else
    .ok {
      user := sections "user"
      history := sections "history"
      newFacts := newFacts.reduceOption
      factsToRemove := factsToRemove
      staleFactsToRemove :=
        ((items "staleFactsToRemove").getD []).filterMap normalizeStaleRemoval }

def requiredMemoryUpdateTopLevelKeys : List String :=
  ["user", "history", "newFacts", "factsToRemove"]

/-- The update that a text begins with. -/
def updateAt (text : Text) : Option (Dict Json) :=
  match text with
  | '\x7b' :: _ => do
    let (parsed, _) ← parseValue (text.length + 1) text
    (asObject parsed).filter fun update => requiredMemoryUpdateTopLevelKeys.all update.contains
  | _ => none

/-- `_parse_memory_update_response`. -/
def parseMemoryUpdateResponse (content : ResponseContent) : Except ResponseFault MemoryUpdateData :=
  match (stripSpace (extractText content)).tails.findSome? updateAt with
  | none => .error (.jsonDecodeError "No valid memory update JSON object found")
  | some update => normalizeMemoryUpdateData floats update

def truthy : Json → Bool
  | .null => false
  | .bool b => b
  | .int n => n ≠ 0
  | .float x => floats.ofLiteral x ≠ some 0
  | .nonFinite _ => true
  | .str s => s ≠ ""
  | .arr xs => !xs.isEmpty
  | .obj items => !items.isEmpty

/-- The summary that a section of the reply sets. What is no dictionary has no `get`. -/
def sectionSummary : Option Json → Except ResponseFault (Option Json)
  | none => .ok none
  | some (.obj items) =>
    .ok (if (Dict.get items "shouldUpdate").any (truthy floats) then
      (Dict.get items "summary").filter (truthy floats)
    else none)
  | some _ => .error .attributeError

def sectionSummaries (names : List String) (sections : Dict Json) :
    Except ResponseFault (Dict Json) :=
  (names.mapM fun name =>
    (sectionSummary floats (sections.get name)).map fun s => s.map fun s => (name, s)).map
      List.reduceOption

end Normalize

section Contents
variable {floats : PyFloat} {f : NewFact}

theorem content_of_normalize {fact : Json}
    (h : normalizeMemoryUpdateFact floats fact = .ok (some f)) : strip f.content ≠ "" := by
  unfold normalizeMemoryUpdateFact at h
  split at h
  · cases h
  · next fact _ =>
    by_cases hcontent : strip (((fact.get "content").bind asText).getD "") = ""
    · rw [if_pos hcontent] at h
      cases h
    · rw [if_neg hcontent] at h
      obtain ⟨confidence, -, hfact⟩ := map_eq_ok.mp h
      obtain ⟨c, -, rfl⟩ := Option.map_eq_some_iff.mp hfact
      show strip (strip _) ≠ ""
      rwa [strip_strip]

theorem content_of_parse {content : ResponseContent} {data : MemoryUpdateData}
    (h : parseMemoryUpdateResponse floats content = .ok data) (hf : f ∈ data.newFacts) :
    strip f.content ≠ "" := by
  unfold parseMemoryUpdateResponse at h
  split at h
  · cases h
  · unfold normalizeMemoryUpdateData at h
    obtain ⟨facts, hfacts, h⟩ := bind_eq_ok.mp h
    simp only at h
    split_ifs at h
    cases h
    have hmem : some f ∈ facts := List.reduceOption_mem_iff.mp hf
    obtain ⟨fact, -, hfact⟩ := exists_of_mem_mapM hfacts hmem
    exact content_of_normalize hfact

end Contents

end DeerFlow.Memory
