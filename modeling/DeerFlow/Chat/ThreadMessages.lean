import DeerFlow.Lib.LastShown
import DeerFlow.Middlewares.DynamicContext

/-! The messages of a chat as the browser shows them: which ones are hidden, and
how the loaded history, the messages that a compaction takes out of the thread,
and the live thread become one list. A text that is missing is empty. -/

namespace DeerFlow.Chat

inductive MessageType where
  | human
  | ai
  | system
  | tool
  | remove
  | other
  deriving DecidableEq

structure Message where
  type : MessageType
  id : Text
  toolCallId : Text
  name : Option String
  content : Value
  additionalKwargs : Dict Value
  deriving DecidableEq

/-- What `trim` takes away at both ends. -/
def isWhiteSpace (c : Char) : Bool :=
  c ∈ ['\t', '\n', '\x0b', '\x0c', '\r', ' ', '\u00a0', '\u1680', '\u2028', '\u2029', '\u202f',
    '\u205f', '\u3000', '\ufeff'] || ('\u2000' ≤ c && c ≤ '\u200a')

def trim (text : Text) : Text := (text.dropWhile isWhiteSpace).rdropWhile isWhiteSpace

def blockText : Value → Text
  | .str text => text.toList
  | .dict block =>
    if Dict.get block "type" = some (.str "text") then
      match Dict.get block "text" with
      | some (.str text) => text.toList
      | _ => []
    else []
  | _ => []

/-- `extractTextFromMessage` of a message that is not the model's. -/
def extractText : Value → Text
  | .str text => trim text.toList
  | .list blocks => trim (['\n'].intercalate (blocks.map blockText))
  | _ => []

def openTag (name : String) : Text := '<' :: name.toList ++ ['>']

def closeTag (name : String) : Text := '<' :: '/' :: name.toList ++ ['>']

def endOfTag (tag : Text) : Text → Option Nat
  | [] => none
  | c :: text =>
    if tag.isPrefixOf (c :: text) then some tag.length
    else (endOfTag tag text).map (· + 1)

/-- How much of a text the pattern of `stripUploadedFilesTag` matches at its start. -/
def taggedLength (text : Text) : Option Nat :=
  ["uploaded_files", "slash_skill_activation"].findSome? fun name =>
    if (openTag name).isPrefixOf text then
      (endOfTag (closeTag name) (text.drop (openTag name).length)).map ((openTag name).length + ·)
    else none

/-- The text without the parts in tags; the rest of a part that began before is skipped. -/
def stripTags : Nat → Text → Text
  | _, [] => []
  | skip + 1, _ :: text => stripTags skip text
  | 0, c :: text => match taggedLength (c :: text) with
    | some n => stripTags (n - 1) text
    | none => c :: stripTags 0 text

def stripUploadedFilesTag (content : Text) : Text := trim (stripTags 0 content)

def hiddenControlMessageNames : List String :=
  ["summary", "loop_warning", "todo_reminder", "todo_completion_reminder"]

def isHiddenFromUIMessage (m : Message) : Bool :=
  m.additionalKwargs.get "hide_from_ui" = some (.bool true) ||
    m.name.any (fun name => name ∈ hiddenControlMessageNames) ||
    (m.type = .human && openTag "slash_skill_activation" <:+: extractText m.content &&
      stripUploadedFilesTag (extractText m.content) = [])

def isVisible (m : Message) : Bool := !isHiddenFromUIMessage m

def messageIdentity (m : Message) : Option Text :=
  if m.toolCallId ≠ [] then some ("tool:".toList ++ m.toolCallId)
  else if m.id ≠ [] then some ("message:".toList ++ m.id)
  else none

def Message.turnDuration (m : Message) : Option Value := m.additionalKwargs.get "turn_duration"

/-- The duration that the last message of an identity has, of those that have one. -/
def savedTurnDurations (messages : List Message) (identity : Text) : Option Value :=
  messages.reverse.findSome? fun m =>
    if messageIdentity m = some identity then m.turnDuration else none

/-- A message without a duration gets the one that was saved, if there is one. -/
def Message.fillTurnDuration (saved : Option Value) (m : Message) : Message :=
  match m.turnDuration, saved with
  | none, some duration =>
    { m with additionalKwargs := m.additionalKwargs.set "turn_duration" duration }
  | _, _ => m

def fillTurnDurations (saved : Text → Option Value) (messages : List Message) : List Message :=
  messages.map fun m => m.fillTurnDuration ((messageIdentity m).bind saved)

def dedupeMessagesByIdentity (messages : List Message) : List Message :=
  fillTurnDurations (savedTurnDurations messages)
    (LastShown.keepLast messageIdentity isVisible messages)

def visibleIdentities (messages : List Message) : List Text :=
  LastShown.shownKeys messageIdentity isVisible messages

/-- The history ends where it overlaps with the visible messages of the thread. -/
def mergeMessages (historyMessages threadMessages optimisticMessages : List Message) :
    List Message :=
  let threadMessageIds := visibleIdentities threadMessages
  let history := historyMessages.rdropWhile fun m =>
    (messageIdentity m).any (fun identity => identity ∈ threadMessageIds)
  fillTurnDurations (savedTurnDurations historyMessages)
    (dedupeMessagesByIdentity (history ++ threadMessages ++ optimisticMessages))

def firstRetainedVisibleIdentity (summarizationMessages : List Message) : Option Text :=
  ((summarizationMessages.filter fun m => m.type ≠ .remove).filter isVisible).findSome?
    messageIdentity

def computeSummarizationMovedMessages (currentMessages summarizationMessages : List Message)
    (summarizedMessageIds : List Text) : List Message :=
  let moved := match firstRetainedVisibleIdentity summarizationMessages with
    | some first => currentMessages.takeWhile fun m => messageIdentity m ≠ some first
    | none => currentMessages
  moved.filter fun m => m.id ∉ summarizedMessageIds

def resolvePreservedHistory (visibleHistory pendingArchivedMessages : List Message) :
    List Message :=
  let presentIdentities := visibleHistory.filterMap messageIdentity
  let missing := pendingArchivedMessages.filter fun m =>
    (messageIdentity m).any (fun identity => identity ∉ presentIdentities)
  if pendingArchivedMessages = [] then visibleHistory
  else if missing = [] then visibleHistory
  else visibleHistory ++ missing

end DeerFlow.Chat
