import DeerFlow.Lib.Json
import DeerFlow.Runtime.Value

/-! The budget of a tool's output. A result that is too long is saved, and a preview
with a reference to the file takes its place; where it cannot be saved its middle
is left out. A quick look at the lengths decides whether there is anything to do. -/

namespace DeerFlow.Middlewares.ToolOutputBudget

/-- `text.rfind("\n", lo, hi)`. -/
def rfindNewline (text : Text) (lo hi : Nat) : Option Nat :=
  (List.range hi).reverse.find? fun i => lo ≤ i && text[i]? = some '\n'

/-- `text.find("\n", lo, hi)`. -/
def findNewline (text : Text) (lo hi : Nat) : Option Nat :=
  (List.range hi).find? fun i => lo ≤ i && text[i]? = some '\n'

def snapToLineBoundary (text : Text) (pos : Nat) : Nat :=
  if pos = 0 ∨ text.length ≤ pos then pos
  else match rfindNewline text (pos / 2) pos with
    | some nl => nl + 1
    | none => pos

def snapStartToLineBoundary (text : Text) (pos : Nat) : Nat :=
  if pos = 0 ∨ text.length ≤ pos then pos
  else match findNewline text pos (pos + (text.length - pos) / 2) with
    | some nl => nl + 1
    | none => pos

/-- What is kept of a text, and how many characters are reported as left out. -/
structure Cut where
  head : Text
  tail : Text
  omitted : Nat

def Cut.of (content : Text) (headEnd tailStart : Nat) : Cut :=
  let head := content.take headEnd
  let tail := if tailStart < content.length then content.drop tailStart else []
  ⟨head, tail, content.length - head.length - tail.length⟩

section Preview
variable (content : Text) (toolName : String) (virtualPath : Text) (headChars tailChars : Nat)

def previewCut : Cut :=
  let headEnd := snapToLineBoundary content (min headChars content.length)
  let tailStart := max headEnd (content.length - tailChars)
  let snapped := snapToLineBoundary content tailStart
  .of content headEnd (if headEnd < snapped then snapped else tailStart)

def previewReference (total omitted : Nat) : Text :=
  ("\n\n[Full " ++ toolName ++ " output saved to ").toList ++ virtualPath ++
    (" (" ++ toString total ++ " chars, ~" ++ toString (total / 4) ++
      " tokens). Use read_file with start_line and end_line to access specific sections. " ++
      toString omitted ++ " chars omitted from this preview.]\n\n").toList

def buildPreview : Text :=
  let cut := previewCut content headChars tailChars
  cut.head ++ previewReference toolName virtualPath content.length cut.omitted ++ cut.tail

end Preview

section Fallback
variable (content : Text) (toolName : String) (maxChars headChars tailChars : Nat)

def fallbackMarker (omitted : Nat) : Text :=
  ("\n\n[... " ++ toString omitted ++ " chars omitted from " ++ toolName ++
    " output. Persistent storage unavailable. Consider narrowing the query or using " ++
    "more specific parameters.]\n\n").toList

/-- The marker is reserved with the number of all characters. -/
def markerOverhead : Nat := (fallbackMarker toolName content.length).length

def fallbackCut : Cut :=
  let budget := maxChars - markerOverhead content toolName
  let effectiveHead := min headChars budget
  let effectiveTail := min tailChars (budget - effectiveHead)
  let headEnd := snapToLineBoundary content (min effectiveHead content.length)
  .of content headEnd
    (snapStartToLineBoundary content (max headEnd (content.length - effectiveTail)))

def buildFallback : Text :=
  if maxChars = 0 ∨ content.length ≤ maxChars then content
  else if maxChars ≤ markerOverhead content toolName then content.take maxChars
  else
    let cut := fallbackCut content toolName maxChars headChars tailChars
    cut.head ++ fallbackMarker toolName cut.omitted ++ cut.tail

end Fallback

structure ToolOutputConfig where
  enabled : Bool
  externalizeMinChars : Nat
  previewHeadChars : Nat
  previewTailChars : Nat
  fallbackMaxChars : Nat
  fallbackHeadChars : Nat
  fallbackTailChars : Nat
  exemptTools : List String
  /-- Their values are not checked. -/
  toolOverrides : Dict Int

/-- The provider of a call's sandbox: it may be missing, and its sandboxes see the host's
directory of outputs or do not. -/
inductive Provider where
  | missing
  | mounted
  | remote

/-- Where an output can be saved, and what saving it gives: a path, or nothing after a failure. -/
structure Storage where
  sandbox : Option Provider
  outputsPath : Bool
  externalize : String → Text → Option Text
  externalizeToSandbox : String → Text → Option Text

/-- Neither a sandbox nor a directory. -/
def Storage.unavailable : Storage := ⟨none, false, fun _ _ => none, fun _ _ => none⟩

def Storage.save (s : Storage) (toolName : String) (content : Text) : Option Text :=
  match s.sandbox with
  | some .remote | some .missing => s.externalizeToSandbox toolName content
  | some .mounted | none => if s.outputsPath then s.externalize toolName content else none

/-- A tool message; `content` is a text or a list of blocks. -/
structure ToolMessage where
  content : Value
  name : Option String
  toolCallId : String
  additionalKwargs : Dict Value
  responseMetadata : Dict Value
  deriving DecidableEq

def blockText : Value → Option Text
  | .str text => some text.toList
  | .dict block => match Dict.get block "text" with
    | some (.str text) => some text.toList
    | _ => none
  | _ => none

/-- Content that is not text all through has no text. -/
def messageText : Value → Option Text
  | .str text => some text.toList
  | .list parts => (parts.mapM blockText).bind fun pieces =>
      if pieces = [] then none else some (['\n'].intercalate pieces)
  | _ => none

/-- `msg.name or default`. -/
def ToolMessage.nameOr (m : ToolMessage) (default : String) : String :=
  match m.name with
  | some name => if name = "" then default else name
  | none => default

section Budget
variable (config : ToolOutputConfig)

def ToolOutputConfig.threshold (toolName : String) : Int :=
  (config.toolOverrides.get toolName).getD config.externalizeMinChars

/-- Nothing is returned where nothing has to change. -/
def budgetContent (storage : Storage) (toolName : String) (content : Text) : Option Text :=
  let threshold := config.threshold toolName
  if threshold ≤ 0 ∧ config.fallbackMaxChars = 0 then none
  else if content.length ≤ threshold ∧ content.length ≤ config.fallbackMaxChars then none
  else
    let saved := if 0 < threshold ∧ threshold < content.length then
      storage.save toolName content else none
    match saved with
    | some virtualPath => some (buildPreview content toolName virtualPath
        config.previewHeadChars config.previewTailChars)
    | none =>
      if 0 < config.fallbackMaxChars ∧ config.fallbackMaxChars < content.length then
        some (buildFallback content toolName config.fallbackMaxChars
          config.fallbackHeadChars config.fallbackTailChars)
      else none

/-- Nothing is returned where the message stays as it is. -/
def patchToolMessage (storage : Storage) (m : ToolMessage) : Option ToolMessage :=
  let toolName := m.nameOr "unknown"
  if toolName ∈ config.exemptTools then none
  else (messageText m.content).bind fun text =>
    (budgetContent config storage toolName text).map fun replacement =>
      { m with content := .str (String.ofList replacement) }

/-- The least length above which a tool's output may have to change, if there is one. -/
def effectiveTrigger (toolName : String) : Option Int :=
  let externalize := config.threshold toolName
  let candidates := (if 0 < externalize then [externalize] else []) ++
    (if 0 < config.fallbackMaxChars then [(config.fallbackMaxChars : Int)] else [])
  candidates.min?

def toolMessageOverBudget (m : ToolMessage) : Bool :=
  if m.nameOr "" ∈ config.exemptTools then false
  else match effectiveTrigger config (m.nameOr "") with
    | none => false
    | some trigger => (messageText m.content).any fun text => trigger < text.length

/-- A length is over the tool's threshold or over the cap, where these are in force. -/
def Over (toolName : String) (length : Nat) : Prop :=
  (0 < config.threshold toolName ∧ config.threshold toolName < length) ∨
    (0 < config.fallbackMaxChars ∧ config.fallbackMaxChars < length)

instance (toolName : String) (length : Nat) : Decidable (Over config toolName length) :=
  inferInstanceAs (Decidable (_ ∨ _))

theorem effectiveTrigger_lt_iff (toolName : String) (length : Nat) :
    (∃ trigger, effectiveTrigger config toolName = some trigger ∧ trigger < length) ↔
      Over config toolName length := by
  have hmin : ∀ a b c : Int, min a b < c ↔ a < c ∨ b < c := by
    intro a b c
    omega
  rw [effectiveTrigger, Over]
  by_cases hthreshold : 0 < config.threshold toolName <;>
    by_cases hcap : 0 < config.fallbackMaxChars <;>
    simp [hthreshold, hcap, hmin]

theorem toolMessageOverBudget_iff (m : ToolMessage) :
    toolMessageOverBudget config m = true ↔ m.nameOr "" ∉ config.exemptTools ∧
      ∃ text, messageText m.content = some text ∧ Over config (m.nameOr "") text.length := by
  simp only [← effectiveTrigger_lt_iff]
  rw [toolMessageOverBudget]
  split_ifs with hexempt
  · simp [hexempt]
  · cases effectiveTrigger config (m.nameOr "") <;>
      cases messageText m.content <;> simp [hexempt]

/-- A message of a conversation. -/
inductive Message where
  | tool (m : ToolMessage)
  | other (content : Value)
  deriving DecidableEq

def Message.overBudget : Message → Bool
  | .tool m => toolMessageOverBudget config m
  | .other _ => false

def Message.patch (storage : Storage) : Message → Option Message
  | .tool m => (patchToolMessage config storage m).map .tool
  | .other _ => none

/-- The `messages` of a command's update: a list, or another value, which may not be iterable. -/
inductive CommandMessages where
  | absent
  | list (messages : List Message)
  | other (items : Option (List Message))

inductive ToolResult where
  | message (m : ToolMessage)
  /-- `update` is missing where it is no dictionary. -/
  | command (update : Option CommandMessages)

/-- Without a result the check raises a `TypeError`. -/
def needsBudget : ToolResult → Option Bool
  | .message m => some (toolMessageOverBudget config m)
  | .command none | .command (some .absent) => some false
  | .command (some (.list messages)) => some (messages.any (Message.overBudget config))
  | .command (some (.other items)) => items.map fun items => items.any (Message.overBudget config)

/-- The messages, each with what saving it gives, and whether one of them has changed. -/
def patchMessages : List (Storage × Message) → List Message × Bool
  | [] => ([], false)
  | (storage, m) :: rest =>
    let (messages, changed) := patchMessages rest
    match m.patch config storage with
    | some patched => (patched :: messages, true)
    | none => (m :: messages, changed)

theorem patchMessages_eq (messages : List (Storage × Message)) :
    patchMessages config messages =
      (messages.map fun x => (x.2.patch config x.1).getD x.2,
        messages.any fun x => (x.2.patch config x.1).isSome) := by
  induction messages with
  | nil => rfl
  | cons x rest ih =>
    rw [patchMessages, ih]
    cases hpatch : x.2.patch config x.1 <;> simp [hpatch]

/-- `storage i` is what happens at message `i`. Nothing is returned where nothing changes. -/
def patchResult (storage : Nat → Storage) : ToolResult → Option ToolResult
  | .message m => (patchToolMessage config (storage 0) m).map .message
  | .command (some (.list messages)) =>
    let (patched, changed) :=
      patchMessages config (messages.zipIdx.map fun x => (storage x.2, x.1))
    if changed then some (.command (some (.list patched))) else none
  | .command _ => none

def patchModelMessages (messages : List Message) : Option (List Message) :=
  if messages.any (Message.overBudget config) then
    let (updated, changed) :=
      patchMessages config (messages.map fun m => (Storage.unavailable, m))
    if changed then some updated else none
  else none

/-- The messages that the model is called with. -/
def wrapModelCall (messages : List Message) : List Message :=
  if config.enabled then (patchModelMessages config messages).getD messages else messages

end Budget

end DeerFlow.Middlewares.ToolOutputBudget
