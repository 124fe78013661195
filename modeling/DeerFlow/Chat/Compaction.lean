import DeerFlow.Chat.ThreadMessages

/-! What the backend keeps of a thread when it is compacted: the messages from a
cutoff on, and of those before it the reminders and the messages that were made
together with them. -/

namespace DeerFlow.Chat
open Middlewares

def MessageType.role : MessageType → ChatRole
  | .human => .human
  | .system => .system
  | .ai => .ai
  | .tool => .tool
  | .remove | .other => .other

def isDynamicContextReminder (m : Message) : Bool :=
  ChatMessage.isDynamicContextReminder ⟨m.id, m.type.role, m.content, m.name, m.additionalKwargs⟩

def removeSuffix (suffix text : Text) : Text :=
  if suffix.isSuffixOf text then text.take (text.length - suffix.length) else text

def reminderBaseId (id : Text) : Text := removeSuffix userSuffix (removeSuffix memorySuffix id)

def reminderBaseIds (messages : List Message) : List Text :=
  (((messages.filter isDynamicContextReminder).map Message.id).filter fun id => id ≠ []).map
    reminderBaseId

/-- A reminder, or a message whose id begins with that of a reminder. -/
def isRescued (messages : List Message) (m : Message) : Bool :=
  isDynamicContextReminder m || (m.id ≠ [] &&
    (reminderBaseIds messages).any fun base => (base ++ ['_', '_']).isPrefixOf m.id)

/-- What is compressed, and what is preserved. -/
def preserveDynamicContextReminders (messagesToSummarize preservedMessages : List Message) :
    List Message × List Message :=
  if messagesToSummarize.filter isDynamicContextReminder = [] then
    (messagesToSummarize, preservedMessages)
  else
    (messagesToSummarize.filter fun m => !isRescued messagesToSummarize m,
      messagesToSummarize.filter (isRescued messagesToSummarize) ++ preservedMessages)

/-- The cutoff is the one that was determined from the sizes of the messages. -/
def prepareCompaction (messages : List Message) (cutoff : Nat) :
    Option (List Message × List Message) :=
  if cutoff = 0 then none
  else
    let (toSummarize, preserved) :=
      preserveDynamicContextReminders (messages.take cutoff) (messages.drop cutoff)
    if toSummarize = [] then none else some (toSummarize, preserved)

variable {messages : List Message} {cutoff : Nat}

theorem isRescued_of_no_reminders (h : messages.filter isDynamicContextReminder = [])
    {m : Message} (hm : m ∈ messages) : isRescued messages m = false := by
  have hbase : reminderBaseIds messages = [] := by
    unfold reminderBaseIds
    rw [h]
    rfl
  have hnone : isDynamicContextReminder m = false := by
    have hfalse := List.filter_eq_nil_iff.mp h m hm
    simpa using hfalse
  unfold isRescued
  rw [hbase, hnone]
  simp

theorem preserveDynamicContextReminders_eq (toSummarize preserved : List Message) :
    preserveDynamicContextReminders toSummarize preserved =
      (toSummarize.filter (fun m => !isRescued toSummarize m),
        toSummarize.filter (isRescued toSummarize) ++ preserved) := by
  unfold preserveDynamicContextReminders
  split_ifs with hnone
  · have hfalse := fun m hm => isRescued_of_no_reminders (m := m) hnone hm
    have hdropped : toSummarize.filter (fun m => !isRescued toSummarize m) = toSummarize := by
      rw [List.filter_eq_self]
      intro m hm
      simp [hfalse m hm]
    have hrescued : toSummarize.filter (isRescued toSummarize) = [] := by
      rw [List.filter_eq_nil_iff]
      intro m hm
      simp [hfalse m hm]
    rw [hdropped, hrescued, List.nil_append]
  · rfl

theorem prepareCompaction_eq_some {toSummarize preserved : List Message}
    (h : prepareCompaction messages cutoff = some (toSummarize, preserved)) :
    toSummarize = (messages.take cutoff).filter (fun m => !isRescued (messages.take cutoff) m) ∧
      preserved = (messages.take cutoff).filter (isRescued (messages.take cutoff)) ++
        messages.drop cutoff := by
  unfold prepareCompaction at h
  split_ifs at h with hcutoff
  rw [preserveDynamicContextReminders_eq] at h
  dsimp only at h
  split_ifs at h with hempty
  cases h
  exact ⟨rfl, rfl⟩

end DeerFlow.Chat
