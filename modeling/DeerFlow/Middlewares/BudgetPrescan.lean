import DeerFlow.Middlewares.OutputCuts

/-! The quick look at the lengths against the patch it stands before. The two agree on
every message with a name; without one the look asks for the empty name and the patch
for `unknown`, so settings of these two names can let the look miss a message. -/

namespace DeerFlow.Middlewares.ToolOutputBudget

variable (config : ToolOutputConfig)

def ToolMessage.Nameless (m : ToolMessage) : Prop := m.name.getD "" = ""

/-- Under the name that stands in for a missing one the message is not exempt, and `exceeds` holds
of that name and the length of its text. -/
def ToolMessage.LongAs (m : ToolMessage) (default : String) (exceeds : String → Nat → Prop) :
    Prop :=
  m.nameOr default ∉ config.exemptTools ∧
    ∃ text, messageText m.content = some text ∧ exceeds (m.nameOr default) text.length

def OverCap (_toolName : String) (length : Nat) : Prop :=
  0 < config.fallbackMaxChars ∧ config.fallbackMaxChars < length

/-- The look finds one of the messages, or it misses none of them for want of a name. -/
def PrescanCovers (exceeds : String → Nat → Prop) (messages : List Message) : Prop :=
  (∃ m, .tool m ∈ messages ∧ m.LongAs config "" (Over config)) ∨
    ∀ m, .tool m ∈ messages → m.Nameless → ¬ m.LongAs config "unknown" exceeds

/-- The messages of a result that can be patched. -/
def ToolResult.messages : ToolResult → List Message
  | .message m => [.tool m]
  | .command (some (.list messages)) => messages
  | .command _ => []

section Names
variable {config} {m : ToolMessage} {exceeds : String → Nat → Prop}

theorem ToolMessage.nameOr_eq (hname : ¬ m.Nameless) (default default' : String) :
    m.nameOr default = m.nameOr default' := by
  unfold Nameless at hname
  unfold nameOr
  cases hm : m.name with
  | none => simp [hm] at hname
  | some name =>
    have hne : name ≠ "" := by simpa [hm] using hname
    simp [hne]

theorem ToolMessage.longAs_default_iff (hname : ¬ m.Nameless) (default default' : String) :
    m.LongAs config default exceeds ↔ m.LongAs config default' exceeds := by
  rw [LongAs, LongAs, m.nameOr_eq hname default default']

theorem ToolMessage.LongAs.mono {exceeds' : String → Nat → Prop} {default : String}
    (himp : ∀ toolName length, exceeds toolName length → exceeds' toolName length)
    (h : m.LongAs config default exceeds) : m.LongAs config default exceeds' := by
  obtain ⟨hname, text, htext, hover⟩ := h
  exact ⟨hname, text, htext, himp _ _ hover⟩

/-- A message that the patch finds long is found by the look, unless it is missed. -/
theorem prescanCovers_iff {messages : List Message}
    (himp : ∀ toolName length, exceeds toolName length → Over config toolName length) :
    ((∃ m, .tool m ∈ messages ∧ m.LongAs config "unknown" exceeds) →
      ∃ m, .tool m ∈ messages ∧ m.LongAs config "" (Over config)) ↔
      PrescanCovers config exceeds messages := by
  constructor
  · intro hfound
    by_cases hlook : ∃ m, .tool m ∈ messages ∧ m.LongAs config "" (Over config)
    · exact .inl hlook
    · exact .inr fun m hm _ hlong => hlook (hfound ⟨m, hm, hlong⟩)
  · rintro (hlook | hnone) ⟨m, hm, hlong⟩
    · exact hlook
    · have hname : ¬ m.Nameless := fun hname => hnone m hm hname hlong
      exact ⟨m, hm, ((m.longAs_default_iff hname _ _).mp hlong).mono himp⟩

end Names

section Patches
variable {config} {m : ToolMessage}

theorem any_overBudget_iff (messages : List Message) :
    messages.any (Message.overBudget config) = true ↔
      ∃ m, .tool m ∈ messages ∧ m.LongAs config "" (Over config) := by
  rw [List.any_eq_true]
  constructor
  · rintro ⟨m, hm, hover⟩
    cases m with
    | other content => cases hover
    | tool m => exact ⟨m, hm, (toolMessageOverBudget_iff config m).mp hover⟩
  · rintro ⟨m, hm, hlong⟩
    exact ⟨.tool m, hm, (toolMessageOverBudget_iff config m).mpr hlong⟩

theorem any_patch_iff (storage : Storage) (messages : List Message) :
    (messages.any fun m => (m.patch config storage).isSome) = true ↔
      ∃ m, .tool m ∈ messages ∧ (patchToolMessage config storage m).isSome := by
  rw [List.any_eq_true]
  constructor
  · rintro ⟨m, hm, hpatch⟩
    cases m with
    | other content => cases hpatch
    | tool m => exact ⟨m, hm, by simpa [Message.patch] using hpatch⟩
  · rintro ⟨m, hm, hpatch⟩
    exact ⟨.tool m, hm, by simpa [Message.patch] using hpatch⟩

theorem patchToolMessage_isSome_iff (storage : Storage) :
    (patchToolMessage config storage m).isSome ↔
      m.nameOr "unknown" ∉ config.exemptTools ∧ ∃ text, messageText m.content = some text ∧
        (budgetContent config storage (m.nameOr "unknown") text).isSome := by
  rw [patchToolMessage]
  split_ifs with hexempt
  · simp [hexempt]
  · cases messageText m.content <;> simp [hexempt]

theorem over_of_budgetContent {storage : Storage} {toolName : String} {content : Text}
    (h : (budgetContent config storage toolName content).isSome) :
    Over config toolName content.length := by
  by_contra hover
  obtain ⟨hthreshold, hcap⟩ := not_or.mp hover
  rw [budgetContent] at h
  simp only [if_neg hthreshold, if_neg hcap, ite_self, Option.isSome_none] at h
  cases h

def Storage.always : Storage := ⟨none, true, fun _ _ => some [], fun _ _ => some []⟩

theorem budgetContent_always {toolName : String} {content : Text}
    (hover : Over config toolName content.length) :
    (budgetContent config .always toolName content).isSome := by
  have hsave : Storage.always.save toolName content = some [] := rfl
  rw [budgetContent]
  simp only [hsave]
  unfold Over at hover
  split_ifs <;> first | rfl | omega

theorem longAs_of_patch {storage : Storage} (h : (patchToolMessage config storage m).isSome) :
    m.LongAs config "unknown" (Over config) := by
  obtain ⟨hname, text, htext, hbudget⟩ := (patchToolMessage_isSome_iff storage).mp h
  exact ⟨hname, text, htext, over_of_budgetContent hbudget⟩

theorem patch_always (h : m.LongAs config "unknown" (Over config)) :
    (patchToolMessage config .always m).isSome := by
  obtain ⟨hname, text, htext, hover⟩ := h
  exact (patchToolMessage_isSome_iff _).mpr ⟨hname, text, htext, budgetContent_always hover⟩

theorem patch_unavailable_iff : (patchToolMessage config .unavailable m).isSome ↔
    m.LongAs config "unknown" (OverCap config) := by
  rw [patchToolMessage_isSome_iff, ToolMessage.LongAs]
  simp only [budgetContent_unavailable, OverCap]
  refine and_congr_right fun _ => exists_congr fun text => and_congr_right fun _ => ?_
  split_ifs with hover <;> simp [hover]

theorem patchResult_list_isSome (storage : Nat → Storage) (messages : List Message) :
    (patchResult config storage (.command (some (.list messages)))).isSome =
      messages.zipIdx.any fun x => (x.1.patch config (storage x.2)).isSome := by
  rw [patchResult, patchMessages_eq]
  simp only [List.any_map, Function.comp_def]
  split_ifs with hchanged <;> simp [hchanged]

theorem longAs_of_patchResult {storage : Nat → Storage} {result : ToolResult}
    (h : (patchResult config storage result).isSome) :
    ∃ m, .tool m ∈ result.messages ∧ m.LongAs config "unknown" (Over config) := by
  match result with
  | .message m =>
    rw [patchResult, Option.isSome_map] at h
    exact ⟨m, List.mem_singleton.mpr rfl, longAs_of_patch h⟩
  | .command (some (.list messages)) =>
    rw [patchResult_list_isSome, List.any_eq_true] at h
    obtain ⟨⟨m, i⟩, hmem, hpatch⟩ := h
    cases m with
    | other content => cases hpatch
    | tool m =>
      rw [Message.patch, Option.isSome_map] at hpatch
      exact ⟨m, List.fst_mem_of_mem_zipIdx hmem, longAs_of_patch hpatch⟩
  | .command none | .command (some .absent) | .command (some (.other items)) => cases h

theorem patchResult_always {result : ToolResult} {m : ToolMessage}
    (hm : .tool m ∈ result.messages) (hlong : m.LongAs config "unknown" (Over config)) :
    (patchResult config (fun _ => .always) result).isSome := by
  have hpatch := patch_always hlong
  match result with
  | .message m' =>
    cases List.mem_singleton.mp hm
    rwa [patchResult, Option.isSome_map]
  | .command (some (.list messages)) =>
    obtain ⟨i, hi, hget⟩ := List.mem_iff_getElem.mp hm
    rw [patchResult_list_isSome, List.any_eq_true]
    refine ⟨(.tool m, i), ?_, by rwa [Message.patch, Option.isSome_map]⟩
    rw [List.mem_zipIdx_iff_getElem?]
    exact List.getElem?_eq_some_iff.mpr ⟨hi, hget⟩
  | .command none | .command (some .absent) | .command (some (.other items)) => cases hm

theorem needsBudget_iff {result : ToolResult} (hsome : result.messages ≠ []) :
    needsBudget config result = some true ↔
      ∃ m, .tool m ∈ result.messages ∧ m.LongAs config "" (Over config) := by
  match result with
  | .message m =>
    rw [← any_overBudget_iff]
    simp [needsBudget, ToolResult.messages, Message.overBudget]
  | .command (some (.list messages)) =>
    rw [← any_overBudget_iff]
    simp [needsBudget, ToolResult.messages]
  | .command none | .command (some .absent) | .command (some (.other items)) =>
    exact absurd rfl hsome

end Patches

/-- The look has no false negative on a result exactly where it covers its messages, and a
history changes exactly as its messages do where it covers these against the cap. -/
theorem prescan_exact_iff (config : ToolOutputConfig) (result : ToolResult)
    (history : List Message) :
    ((∀ storage, (patchResult config storage result).isSome →
        needsBudget config result = some true) ↔
      PrescanCovers config (Over config) result.messages) ∧
    (((patchModelMessages config history).isSome ↔
        ∃ m, .tool m ∈ history ∧ (patchToolMessage config .unavailable m).isSome) ↔
      PrescanCovers config (OverCap config) history) := by
  constructor
  · rw [← prescanCovers_iff fun _ _ h => h]
    constructor
    · rintro hlook ⟨m, hm, hlong⟩
      exact (needsBudget_iff (List.ne_nil_of_mem hm)).mp
        (hlook _ (patchResult_always hm hlong))
    · intro hcovers storage hchanged
      obtain ⟨m, hm, hlong⟩ := longAs_of_patchResult hchanged
      exact (needsBudget_iff (List.ne_nil_of_mem hm)).mpr (hcovers ⟨m, hm, hlong⟩)
  · have himp : ∀ toolName length, OverCap config toolName length →
        Over config toolName length := fun _ _ h => .inr h
    rw [← prescanCovers_iff himp, patchModelMessages_eq]
    simp only [← patch_unavailable_iff, ← any_overBudget_iff, ← any_patch_iff]
    by_cases hlook : history.any (Message.overBudget config) = true <;>
      by_cases hpatch : (history.any fun m => (m.patch config .unavailable).isSome) = true <;>
      simp only [hlook, hpatch] <;> simp

/-- A message without a name is over the threshold of `unknown` only. -/
theorem prescan_misses_nameless :
    let config : ToolOutputConfig := ⟨true, 12, 0, 0, 30, 0, 0, [], [("unknown", 2)]⟩
    ¬ ∀ storage, (patchResult config storage (.message ⟨.str "abc", none, "call", [], []⟩)).isSome →
      needsBudget config (.message ⟨.str "abc", none, "call", [], []⟩) = some true := by
  intro config h
  have hneeds := h (fun _ => .always) (by decide)
  revert hneeds
  decide

end DeerFlow.Middlewares.ToolOutputBudget
