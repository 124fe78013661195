import DeerFlow.Lib.Joined
import DeerFlow.Middlewares.DelegationLedger

/-! The durable context as the model reads it: the summary of the conversation, the ledger of
delegations and the loaded skills, rendered as the data of one hidden message. -/

namespace DeerFlow.Middlewares

def joinLines (lines : List Text) : Text := ['\n'].intercalate lines

/-- `" ".join(text.split())`. -/
def collapseSpaces (text : Text) : Text := [' '].intercalate (splitWords text)

def escapeHtmlChar (c : Char) : Text :=
  if c = '&' then "&amp;".toList
  else if c = '<' then "&lt;".toList
  else if c = '>' then "&gt;".toList
  else [c]

/-- `html.escape(text, quote=False)`. -/
def escapeHtml (text : Text) : Text := text.flatMap escapeHtmlChar

def escapeContextText (value : Text) : Text := escapeHtml (collapseSpaces value)

/-- A list of Python's, which is never longer than `sys.maxsize`. -/
structure PyList (α : Type) where
  items : List α
  bounded : items.length < 2 ^ 63

section Ledger

/-- The fields of an entry that are rendered, in whatever text the checkpoint holds. -/
structure LedgerEntry where
  status : Text
  description : Text
  subagentType : Text
  resultBrief : Option Text
  stopReason : Option Text

def statusGuidance (status : Text) (stopReason : Option Text) : Text :=
  if stopReason.getD [] ≠ [] then
    if status = "completed".toList then
      "hit a guardrail cap with a partial result; reuse the partial result, retry with a ".toList ++
        "tighter scope, or raise the per-agent budget (max_turns / token_budget)".toList
    else
      "hit a guardrail cap with no usable result; retry with a tighter scope or raise ".toList ++
        "the per-agent budget (max_turns / token_budget)".toList
  else if status = "in_progress".toList then
    "already delegated; do NOT delegate again; wait for or build on the result".toList
  else if status = "completed".toList then
    "completed result; do NOT delegate again; reuse this result".toList
  else if status = "failed".toList then
    "failed attempt; may retry with a changed plan".toList
  else if status = "cancelled".toList then
    "cancelled attempt; may retry with a changed plan".toList
  else if status = "timed_out".toList then
    "timed-out attempt; may retry with a changed plan".toList
  else if status = "polling_timed_out".toList then
    "polling timed-out attempt; may retry with a changed plan".toList
  else "prior attempt; inspect status before retrying".toList

def ledgerEntryResultRenderCap : Nat := 120

def renderEntryLine (entry : LedgerEntry) : Text :=
  let line := "- [".toList ++ escapeContextText entry.status ++ "] ".toList ++
    escapeContextText entry.description ++ " (via ".toList ++
    escapeContextText entry.subagentType ++ "; ".toList ++
    statusGuidance entry.status entry.stopReason ++ ")".toList
  let resultBrief := entry.resultBrief.getD []
  if resultBrief ≠ [] then
    line ++ " -> ".toList ++ escapeContextText (boundText ledgerEntryResultRenderCap resultBrief)
  else line

def ledgerHeader : List Text :=
  ["## Work already delegated".toList,
    "Newest entries are shown first. In-progress entries are already delegated. ".toList ++
      "Completed entries are reusable results. Failed, cancelled, or timed-out entries ".toList ++
      "are prior attempts.".toList]

def omittedLine (omitted : Nat) : Text :=
  "- ... ".toList ++ (toString omitted).toList ++
    " older delegation entries omitted from this model view because of context ".toList ++
      "budget".toList

def fitsBudget (lines : List Text) (candidate : Text) (maxChars : Nat) : Bool :=
  (joinLines (lines ++ [candidate])).length ≤ maxChars

/-- The loop over the entries, newest first: the lines, and how many entries are omitted. -/
def addEntryLines (maxChars : Nat) (lines : List Text) : List LedgerEntry → List Text × Nat
  | [] => (lines, 0)
  | entry :: older =>
    let line := renderEntryLine entry
    if fitsBudget lines line maxChars then addEntryLines maxChars (lines ++ [line]) older
    else (lines, older.length + 1)

def popLines (maxChars : Nat) (lines : List Text) (omitted : Nat) : List Text × Nat :=
  if h : 1 < lines.length ∧ !fitsBudget lines (omittedLine omitted) maxChars then
    popLines maxChars lines.dropLast (omitted + 1)
  else (lines, omitted)
termination_by lines.length
decreasing_by
  rw [List.length_dropLast]
  omega

def ledgerLines (maxChars : Nat) (entries : List LedgerEntry) : List Text :=
  let (lines, omitted) := addEntryLines maxChars ledgerHeader entries.reverse
  if omitted = 0 then lines
  else
    let (lines, omitted) := popLines maxChars lines omitted
    if fitsBudget lines (omittedLine omitted) maxChars then lines ++ [omittedLine omitted]
    else lines

def ledgerRenderCharBudget : Nat := 6000

def renderDelegationLedger (entries : PyList LedgerEntry) (maxChars : Nat) : Text :=
  if entries.items = [] then []
  else
    let rendered := joinLines (ledgerLines maxChars entries.items)
    if rendered.length ≤ maxChars then rendered
    else rendered.take (maxChars - 4) ++ "\n...".toList

end Ledger

section Skills

/-- What an entry has for its description. One that is missing is the empty text, and one that is
no text is shown as `str` does. -/
inductive SkillDescription where
  | text (s : Text)
  | other (shown : Text)

structure SkillEntry where
  name : Text
  path : Text
  description : SkillDescription

def skillDescriptionMaxChars : Nat := 500

def SkillDescription.render : SkillDescription → Text
  | .text s => escapeHtml ((collapseSpaces s).take skillDescriptionMaxChars)
  | .other shown => escapeHtml shown

def skillLine (entry : SkillEntry) : Text :=
  let description := entry.description.render
  let suffix := if description ≠ [] then ": ".toList ++ description else []
  "- ".toList ++ escapeHtml entry.name ++ suffix ++ " -> ".toList ++ escapeHtml entry.path

def skillsHeader : Text :=
  "## Active skills (loaded earlier - re-read the file before applying its ".toList ++
    "instructions)".toList

def renderSkillContext (entries : List SkillEntry) : Text :=
  if entries = [] then [] else joinLines (skillsHeader :: entries.map skillLine)

end Skills

section Block

def summaryRenderCharBudget : Nat := 6000

def summaryBlock (summaryText : Option Text) : Text :=
  let summary := summaryText.getD []
  if summary = [] then []
  else "## Conversation summary so far\n".toList ++
    escapeHtml (boundText summaryRenderCharBudget summary)

def durableContextOpen : Text := "<durable_context_data>".toList

def durableContextClose : Text := "</durable_context_data>".toList

def renderDurableContextData (summaryText : Option Text) (ledger : PyList LedgerEntry)
    (skills : List SkillEntry) : Text :=
  let dataParts := [summaryBlock summaryText,
    renderDelegationLedger ledger ledgerRenderCharBudget, renderSkillContext skills].filter (· ≠ [])
  if dataParts = [] then []
  else durableContextOpen ++ '\n' :: "\n\n".toList.intercalate dataParts ++
    '\n' :: durableContextClose

end Block

end DeerFlow.Middlewares
