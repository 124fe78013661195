import DeerFlow.Runtime.AuthorizationContext

/-! The middleware that puts the date and the user's memory in front of a user
message, and the reducer that merges its update into the transcript. -/

namespace DeerFlow.Middlewares

inductive ChatRole where
  | human
  | system
  | ai
  | tool
  | other
  deriving DecidableEq

structure ChatMessage where
  id : Text
  role : ChatRole
  content : Value
  name : Option String
  additionalKwargs : Dict Value
  deriving DecidableEq

abbrev Transcript := Table ChatMessage.id

def openDateTag : Text := "<current_date>".toList

def closeDateTag : Text := "</current_date>".toList

/-- `_DATE_RE` at the start of a text. -/
def dateAt (text : Text) : Option Text :=
  if openDateTag <+: text then
    let inner := text.drop openDateTag.length
    let date := inner.takeWhile (· ≠ '<')
    if date ≠ [] ∧ closeDateTag <+: inner.dropWhile (· ≠ '<') then some date else none
  else none

def extractDate : Text → Option Text
  | [] => none
  | c :: text => (dateAt (c :: text)).or (extractDate text)

def dynamicContextReminderKey : String := "dynamic_context_reminder"

def reminderDateKey : String := "reminder_date"

def summaryMessageName : String := "summary"

def userSuffix : Text := "__user".toList

def memorySuffix : Text := "__memory".toList

namespace ChatMessage

def isDynamicContextReminder (m : ChatMessage) : Bool :=
  (m.role = .human || m.role = .system) &&
    ((m.additionalKwargs.get dynamicContextReminderKey).getD .none).truthy

/-- The date a reminder says was injected; older ones say it in their text. -/
def injectedDate? (str : Value → Text) (m : ChatMessage) : Option Text :=
  if m.isDynamicContextReminder then
    match m.additionalKwargs.get reminderDateKey with
    | some (.str date) => if date ≠ "" then some date.toList else legacyDate? m
    | _ => legacyDate? m
  else none
where
  legacyDate? (m : ChatMessage) : Option Text :=
    if m.role = .system then
      extractDate (match m.content with
        | .str text => text.toList
        | content => str content)
    else none

def isUserInjectionTarget (m : ChatMessage) : Bool :=
  m.role = .human && !m.isDynamicContextReminder && m.name ≠ some summaryMessageName &&
    !(m.id ≠ [] && userSuffix.isSuffixOf m.id)

end ChatMessage

/-- `strftime("%Y-%m-%d, %A")`, which is never empty. -/
structure CurrentDate where
  text : String
  nonempty : text ≠ ""
  deriving DecidableEq

structure ReminderSources where
  /-- The clock is read again for the reminder's text. -/
  now : CurrentDate
  /-- `_get_memory_context`, or nothing where injection is disabled. -/
  memoryContext : String
  uuid : Text
  uuid_nonempty : uuid ≠ []

namespace ReminderSources
variable (s : ReminderSources)

def dateReminder : String :=
  "<system-reminder>\n<current_date>" ++ s.now.text ++ "</current_date>\n</system-reminder>"

/-- The memory block, where there is anything in it. -/
def memoryContent? : Option String :=
  if s.memoryContext ≠ "" ∧ strip s.memoryContext ≠ "" then some (strip s.memoryContext) else none

end ReminderSources

def reminderKwargs : Dict Value := [("hide_from_ui", .bool true), (dynamicContextReminderKey, .bool true)]

section Make
variable (original : ChatMessage) (stableId : Text)

def dateMessage (reminderContent : String) (date : CurrentDate) : ChatMessage :=
  ⟨stableId, .system, .str reminderContent, none, reminderKwargs.set reminderDateKey (.str date.text)⟩

def memoryMessage (content : String) : ChatMessage :=
  ⟨stableId ++ memorySuffix, .human, .str content, none, reminderKwargs⟩

def userMessage : ChatMessage :=
  ⟨stableId ++ userSuffix, .human, original.content, original.name, original.additionalKwargs⟩

end Make

def stableId (s : ReminderSources) (original : ChatMessage) : Text :=
  if original.id ≠ [] then original.id else s.uuid

def makeReminderAndUserMessages (s : ReminderSources) (original : ChatMessage)
    (reminderContent : String) (memoryContent : Option String) (date : CurrentDate) :
    List ChatMessage :=
  let id := stableId s original
  dateMessage id reminderContent date :: (memoryContent.toList.map (memoryMessage id) ++
    [userMessage original id])

section Inject
variable (str : Value → Text) (today : CurrentDate) (messages : List ChatMessage)

def lastInjectedDate : Option Text := messages.reverse.findSome? (·.injectedDate? str)

def firstTarget : Option Nat := messages.findIdx? (·.isUserInjectionTarget)

def lastTarget : Option Nat :=
  (List.range messages.length).reverse.find? fun i => messages[i]?.any (·.isUserInjectionTarget)

/-- Where the next reminder goes, if one is due. -/
def injectionIndex : Option Nat :=
  match lastInjectedDate str messages with
  | none => firstTarget messages
  | some date => if date = today.text.toList then none else lastTarget messages

/-- The memory block goes out with the first reminder only. -/
def injectedMemory (s : ReminderSources) : Option String :=
  if (lastInjectedDate str messages).isNone then s.memoryContent? else none

def inject (s : ReminderSources) : Option (List ChatMessage) := do
  let i ← injectionIndex str today messages
  let original ← messages[i]?
  some (makeReminderAndUserMessages s original s.dateReminder (injectedMemory str messages s) today)

end Inject

/-- A known id is replaced in place, and unseen ones are appended in order. -/
def addMessages (messages : Transcript) (update : List ChatMessage) : Transcript :=
  messages.putAll update

end DeerFlow.Middlewares
