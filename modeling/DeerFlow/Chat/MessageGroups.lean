import DeerFlow.Chat.ThreadMessages

/-! The groups in which the browser shows the messages of a chat. A message opens a group of its
own or joins the last one, and a result that comes before any group has none to join. -/

namespace DeerFlow.Chat

section Reasoning

/-- What the pattern of closed reasoning matches at the start of a text: its body, and how much. -/
def closedReasoning (text : Text) : Option (Text × Nat) :=
  let body := text.drop (openTag "think").length
  if (openTag "think").isPrefixOf text then
    (endOfTag (closeTag "think") body).map fun n =>
      (body.take (n - (closeTag "think").length), (openTag "think").length + n)
  else none

/-- The text without closed reasoning, and the bodies of it that are not blank; the rest of a part
that began before is skipped. -/
def stripReasoning : Nat → Text → Text × List Text
  | _, [] => ([], [])
  | skip + 1, _ :: text => stripReasoning skip text
  | 0, c :: text => match closedReasoning (c :: text) with
    | some (body, n) =>
      let rest := stripReasoning (n - 1) text
      (rest.1, (if trim body = [] then [] else [trim body]) ++ rest.2)
    | none =>
      let rest := stripReasoning 0 text
      (c :: rest.1, rest.2)

structure InlineReasoning where
  content : Text
  reasoning : Option Text

/-- Where a tag begins. -/
def indexOfTag (tag text : Text) : Option Nat := (endOfTag tag text).map (· - tag.length)

def splitInlineReasoning (content : Text) : InlineReasoning :=
  let closed := stripReasoning 0 content
  let parts := closed.2
  match indexOfTag (openTag "think") closed.1 with
  | some i =>
    -- right behind a backtick the tag is quoted
    if 0 < i ∧ closed.1[i - 1]? = some '\x60' then
      ⟨trim closed.1, if parts = [] then none else some ("\n\n".toList.intercalate parts)⟩
    else
      let tail := trim (closed.1.drop (i + (openTag "think").length))
      let parts := parts ++ if tail = [] then [] else [tail]
      ⟨trim (closed.1.take i), if parts = [] then none else some ("\n\n".toList.intercalate parts)⟩
  | none => ⟨trim closed.1, if parts = [] then none else some ("\n\n".toList.intercalate parts)⟩

end Reasoning

section Model

/-- A message with the names of the tools that it calls, none where `tool_calls` is missing. -/
structure ChatMessage extends Message where
  toolCalls : List String
  deriving DecidableEq

/-- Of a message of the model. -/
def hasContent (m : ChatMessage) : Bool :=
  match m.content with
  | .str text => (splitInlineReasoning text.toList).content ≠ []
  | .list blocks => blocks ≠ []
  | _ => false

def isThinking : Value → Bool
  | .dict block => Dict.get block "type" = some (.str "thinking")
  | _ => false

def hasReasoning (m : ChatMessage) : Bool :=
  match m.additionalKwargs.get "reasoning_content" with
  | some (.str _) => true
  | _ => match m.content with
    | .str text => (splitInlineReasoning text.toList).reasoning.isSome
    | .list blocks => blocks.head?.any isThinking
    | _ => false

def hasToolCalls (m : ChatMessage) : Bool := m.toolCalls ≠ []

def hasPresentFiles (m : ChatMessage) : Bool := "present_files" ∈ m.toolCalls

def hasSubagent (m : ChatMessage) : Bool := "task" ∈ m.toolCalls

def isClarificationToolMessage (m : ChatMessage) : Bool :=
  m.type = .tool && m.name = some "ask_clarification"

inductive GroupType where
  | human
  | processing
  | assistant
  | presentFiles
  | clarification
  | subagent
  deriving DecidableEq

/-- A message object: the place in the list tells it from one that says the same. -/
abbrev Entry := ChatMessage × Nat

structure MessageGroup where
  type : GroupType
  id : Text
  messages : List Entry

def GroupType.isOpen : GroupType → Bool
  | .human | .assistant | .clarification => false
  | .processing | .presentFiles | .subagent => true

/-- `groups.push`; the last group stands first. -/
def openGroup (groups : List MessageGroup) (type : GroupType) (e : Entry) : List MessageGroup :=
  ⟨type, e.1.id, [e]⟩ :: groups

def joinLast (e : Entry) : List MessageGroup → List MessageGroup
  | [] => []
  | last :: groups => { last with messages := last.messages ++ [e] } :: groups

def lastOpenGroup (groups : List MessageGroup) : Option MessageGroup :=
  groups.head?.filter (·.type.isOpen)

def becomesAssistantBubble (m : ChatMessage) : Bool := hasContent m && !hasToolCalls m

def addToolMessage (groups : List MessageGroup) (e : Entry) : List MessageGroup :=
  if isClarificationToolMessage e.1 then
    openGroup (if (lastOpenGroup groups).isSome then joinLast e groups else groups)
      .clarification e
  -- an orphan joins the last group although it is not open
  else joinLast e groups

def addAiMessage (groups : List MessageGroup) (e : Entry) : List MessageGroup :=
  let groups :=
    if hasPresentFiles e.1 then openGroup groups .presentFiles e
    else if hasSubagent e.1 then openGroup groups .subagent e
    else if !becomesAssistantBubble e.1 && (hasReasoning e.1 || hasToolCalls e.1) then
      if groups.head?.any (·.type = .processing) then joinLast e groups
      else openGroup groups .processing e
    else groups
  if becomesAssistantBubble e.1 then openGroup groups .assistant e else groups

def addMessage (groups : List MessageGroup) (e : Entry) : List MessageGroup :=
  if isHiddenFromUIMessage e.1.toMessage then groups
  else
    match e.1.type with
    | .human => openGroup groups .human e
    | .tool => addToolMessage groups e
    | .ai => addAiMessage groups e
    | .system | .remove | .other => groups

def getMessageGroups (messages : List ChatMessage) : List MessageGroup :=
  (messages.zipIdx.foldl addMessage []).reverse

def aiMessages (groups : List MessageGroup) : List Entry :=
  (groups.flatMap (·.messages)).filter (·.1.type = .ai)

/-- Of the groups from the start of the turn to the ones that follow: the messages of the model at
the end of each turn. -/
def usageMessagesFrom (turn : List MessageGroup) : List MessageGroup → List (Option (List Entry))
  | [] => []
  | group :: rest =>
    if group.type = .human then none :: usageMessagesFrom [] rest
    else if rest.head?.all (·.type = .human) then
      some (aiMessages (turn ++ [group])) :: usageMessagesFrom [] rest
    else none :: usageMessagesFrom (turn ++ [group]) rest

def getAssistantTurnUsageMessages (groups : List MessageGroup) : List (Option (List Entry)) :=
  usageMessagesFrom [] groups

end Model

section Properties

/-- The place of a message in a list is in the group at an index. -/
def HeldAt (groups : List MessageGroup) (e : Entry) (i : Nat) : Prop :=
  ∃ group, groups[i]? = some group ∧ e ∈ group.messages

/-- What a group has to hold: what is said, thought, called or returned. -/
def isGrouped (m : ChatMessage) : Bool :=
  isVisible m.toMessage && match m.type with
    | .human | .tool => true
    | .ai => hasContent m || hasReasoning m || hasToolCalls m
    | .system | .remove | .other => false

def isPlainResult (m : ChatMessage) : Bool := m.type = .tool && !isClarificationToolMessage m

/-- One comes after the other, or it is the second copy of a clarification. -/
def Follows (a b : Entry) : Prop :=
  a.2 < b.2 ∨ a = b ∧ isClarificationToolMessage a.1 = true

/-- Every message that belongs in a group is in one, in order, and every message of the model that
is in a group counts for one turn. -/
structure LosesNothing (messages : List ChatMessage) : Prop where
  single : ∀ e ∈ messages.zipIdx, isGrouped e.1 = true → isClarificationToolMessage e.1 = false →
    ∃! i, HeldAt (getMessageGroups messages) e i
  clarification : ∀ e ∈ messages.zipIdx, isGrouped e.1 = true →
    isClarificationToolMessage e.1 = true → ∃ i, HeldAt (getMessageGroups messages) e i
  ordered : ((getMessageGroups messages).flatMap (·.messages)).Pairwise Follows
  visible : ∀ group ∈ getMessageGroups messages, ∀ e ∈ group.messages,
    isVisible e.1.toMessage = true
  usage : ∀ e : Entry, e.1.type = .ai → (∃ i, HeldAt (getMessageGroups messages) e i) →
    ∃! j : Nat, ∃ turn : List Entry, (getAssistantTurnUsageMessages (getMessageGroups messages))[j]? =
      some (some turn) ∧ e ∈ turn

def ResultsFollow (messages : List ChatMessage) : Prop :=
  ∀ before m after, messages = before ++ m :: after → isVisible m.toMessage = true →
    isPlainResult m = true → ∃ m' ∈ before, isGrouped m' = true ∧ isPlainResult m' = false

end Properties

section Steps
variable {groups : List MessageGroup} {e : Entry}

theorem addAiMessage_cases (groups : List MessageGroup)
    (h : hasContent e.1 || hasReasoning e.1 || hasToolCalls e.1) :
    (groups.head?.any (·.type = .processing) = true ∧ addAiMessage groups e = joinLast e groups) ∨
    ∃ type ≠ .human, addAiMessage groups e = openGroup groups type e := by
  have hcalls {name : String} (hname : name ∈ e.1.toolCalls) :
      becomesAssistantBubble e.1 = false := by
    have hne : e.1.toolCalls ≠ [] := List.ne_nil_of_mem hname
    simp [becomesAssistantBubble, hasToolCalls, hne]
  unfold addAiMessage
  by_cases hfiles : hasPresentFiles e.1 = true
  · have hbubble := hcalls (of_decide_eq_true hfiles)
    right
    exact ⟨.presentFiles, by decide, by simp [hfiles, hbubble]⟩
  by_cases hsubagent : hasSubagent e.1 = true
  · have hbubble := hcalls (of_decide_eq_true hsubagent)
    right
    exact ⟨.subagent, by decide, by simp [hfiles, hsubagent, hbubble]⟩
  by_cases hbubble : becomesAssistantBubble e.1 = true
  · right
    exact ⟨.assistant, by decide, by simp [hfiles, hsubagent, hbubble]⟩
  · have hstep : (hasReasoning e.1 || hasToolCalls e.1) = true := by
      unfold becomesAssistantBubble at hbubble
      revert h hbubble
      cases hasContent e.1 <;> cases hasReasoning e.1 <;> cases hasToolCalls e.1 <;> simp
    by_cases hlast : groups.head?.any (·.type = .processing) = true
    · exact .inl ⟨hlast, by simp [hfiles, hsubagent, hbubble, hstep, hlast]⟩
    · right
      exact ⟨.processing, by decide, by simp [hfiles, hsubagent, hbubble, hstep, hlast]⟩

theorem addAiMessage_of_nothing
    (h : (hasContent e.1 || hasReasoning e.1 || hasToolCalls e.1) = false) :
    addAiMessage groups e = groups := by
  simp only [Bool.or_eq_false_iff] at h
  obtain ⟨⟨hcontent, hreasoning⟩, hcalls⟩ := h
  have hnone : e.1.toolCalls = [] := by simpa [hasToolCalls] using hcalls
  simp [addAiMessage, hasPresentFiles, hasSubagent, becomesAssistantBubble, hcontent, hreasoning,
    hcalls, hnone]

inductive Added (groups : List MessageGroup) (e : Entry) : List MessageGroup → Prop
  | nothing (h : isGrouped e.1 = false) : Added groups e groups
  | result (h : isGrouped e.1 = true) (hresult : isPlainResult e.1 = true) :
    Added groups e (joinLast e groups)
  | thought (h : isGrouped e.1 = true) (hai : e.1.type = .ai)
    (hlast : groups.head?.any (·.type = .processing) = true) : Added groups e (joinLast e groups)
  | opened (h : isGrouped e.1 = true) (hresult : isPlainResult e.1 = false) (type : GroupType)
    (htype : type = .human → e.1.type = .human) : Added groups e (openGroup groups type e)
  | asked (h : isGrouped e.1 = true) (hasked : isClarificationToolMessage e.1 = true)
    (hne : groups ≠ []) : Added groups e (openGroup (joinLast e groups) .clarification e)

theorem added_addMessage (groups : List MessageGroup) (e : Entry) :
    Added groups e (addMessage groups e) := by
  unfold addMessage
  by_cases hhidden : isHiddenFromUIMessage e.1.toMessage = true
  · rw [if_pos hhidden]
    exact .nothing (by simp [isGrouped, isVisible, hhidden])
  have hvisible : isVisible e.1.toMessage = true := by simp [isVisible, hhidden]
  rw [if_neg hhidden]
  cases htype : e.1.type with
  | human =>
    exact .opened (by simp [isGrouped, hvisible, htype]) (by simp [isPlainResult, htype]) .human
      fun _ => htype
  | system | remove | other => exact .nothing (by simp [isGrouped, htype])
  | tool =>
    have hgrouped : isGrouped e.1 = true := by simp [isGrouped, hvisible, htype]
    show Added groups e (addToolMessage groups e)
    unfold addToolMessage
    by_cases hasked : isClarificationToolMessage e.1 = true
    · rw [if_pos hasked]
      by_cases hopen : (lastOpenGroup groups).isSome = true
      · rw [if_pos hopen]
        refine .asked hgrouped hasked ?_
        rintro rfl
        cases hopen
      · rw [if_neg hopen]
        exact .opened hgrouped (by simp [isPlainResult, hasked]) .clarification nofun
    · rw [if_neg hasked]
      exact .result hgrouped (by simp [isPlainResult, htype, hasked])
  | ai =>
    show Added groups e (addAiMessage groups e)
    cases hsome : hasContent e.1 || hasReasoning e.1 || hasToolCalls e.1 with
    | false =>
      rw [addAiMessage_of_nothing hsome]
      exact .nothing (by simp [isGrouped, htype, hsome])
    | true =>
      have hgrouped : isGrouped e.1 = true := by simp [isGrouped, hvisible, htype, hsome]
      rcases addAiMessage_cases groups hsome with ⟨hlast, heq⟩ | ⟨type, hne, heq⟩
      · rw [heq]
        exact .thought hgrouped htype hlast
      · rw [heq]
        exact .opened hgrouped (by simp [isPlainResult, htype]) type fun h => absurd h hne

end Steps

section Runs
variable {groups : List MessageGroup} {messages : List ChatMessage} {e : Entry}

/-- What is in the groups, of which the last stands first, from the oldest on. -/
def entries (groups : List MessageGroup) : List Entry := groups.reverse.flatMap (·.messages)

theorem entries_cons (group : MessageGroup) (groups : List MessageGroup) :
    entries (group :: groups) = entries groups ++ group.messages := by
  unfold entries
  rw [List.reverse_cons, List.flatMap_append, List.flatMap_singleton]

theorem entries_openGroup (type : GroupType) :
    entries (openGroup groups type e) = entries groups ++ [e] := entries_cons _ _

theorem entries_joinLast (hne : groups ≠ []) :
    entries (joinLast e groups) = entries groups ++ [e] := by
  obtain ⟨last, rest, rfl⟩ := List.exists_cons_of_ne_nil hne
  show entries ({ last with messages := last.messages ++ [e] } :: rest) = _
  rw [entries_cons, entries_cons, List.append_assoc]

theorem follows_self (e : Entry) : Follows e e ↔ isClarificationToolMessage e.1 = true := by
  simp [Follows]

/-- The groups of the messages that have been read. -/
structure Grouping (messages : List ChatMessage) (groups : List MessageGroup) : Prop where
  sound : ∀ e ∈ entries groups, e ∈ messages.zipIdx ∧ isGrouped e.1 = true
  chronological : (entries groups).Pairwise Follows
  human : ∀ group ∈ groups, group.type = .human → ∀ e ∈ group.messages, e.1.type ≠ .ai
  started : groups ≠ [] ↔ ∃ m ∈ messages, isGrouped m = true ∧ isPlainResult m = false
  complete : ∀ e ∈ messages.zipIdx, isGrouped e.1 = true → (e ∈ entries groups ↔
    (isPlainResult e.1 = true →
      ∃ m ∈ messages.take e.2, isGrouped m = true ∧ isPlainResult m = false))

theorem Grouping.nil : Grouping [] [] where
  sound := nofun
  chronological := List.Pairwise.nil
  human := nofun
  started := by simp
  complete := nofun

variable {m : ChatMessage}

theorem mem_zipIdx_append : e ∈ (messages ++ [m]).zipIdx ↔
    e ∈ messages.zipIdx ∨ e = (m, messages.length) := by
  rw [List.zipIdx_append, List.mem_append, Nat.zero_add, List.zipIdx_singleton, List.mem_singleton]

theorem lt_of_mem_zipIdx (he : e ∈ messages.zipIdx) : e.2 < messages.length := by
  have hlt := List.snd_lt_of_mem_zipIdx he
  exact hlt

theorem Grouping.append (h : Grouping messages groups) {groups' : List MessageGroup}
    (added : List Entry) (hentries : entries groups' = entries groups ++ added)
    (hadded : ∀ a ∈ added, a = (m, messages.length) ∧ isGrouped m = true)
    (hself : added.Pairwise Follows)
    (hhuman : ∀ group ∈ groups', group.type = .human → ∀ e ∈ group.messages, e.1.type ≠ .ai)
    (hstarted : groups' ≠ [] ↔ groups ≠ [] ∨ isGrouped m = true ∧ isPlainResult m = false)
    (hcomplete : isGrouped m = true →
      (added ≠ [] ↔ (isPlainResult m = true → groups ≠ []))) :
    Grouping (messages ++ [m]) groups' where
  sound := by
    rw [hentries, List.forall_mem_append]
    refine ⟨fun e he => ?_, fun e he => ?_⟩
    · exact ⟨mem_zipIdx_append.mpr (.inl (h.sound e he).1), (h.sound e he).2⟩
    · obtain ⟨rfl, hgrouped⟩ := hadded e he
      exact ⟨mem_zipIdx_append.mpr (.inr rfl), hgrouped⟩
  chronological := by
    rw [hentries, List.pairwise_append]
    refine ⟨h.chronological, hself, fun a ha b hb => .inl ?_⟩
    rw [(hadded b hb).1]
    exact lt_of_mem_zipIdx (h.sound a ha).1
  human := hhuman
  started := by
    rw [hstarted, h.started]
    simp only [List.mem_append, List.mem_singleton]
    constructor
    · rintro (⟨m', hm', hopens⟩ | hopens)
      · exact ⟨m', .inl hm', hopens⟩
      · exact ⟨m, .inr rfl, hopens⟩
    · rintro ⟨m', hm' | rfl, hopens⟩
      · exact .inl ⟨m', hm', hopens⟩
      · exact .inr hopens
  complete := by
    intro e he hgrouped
    rw [hentries, List.mem_append]
    rcases mem_zipIdx_append.mp he with hold | rfl
    · have hlt := lt_of_mem_zipIdx hold
      have hnot : e ∉ added := by
        intro hmem
        rw [(hadded e hmem).1] at hlt
        exact lt_irrefl _ hlt
      rw [or_iff_left hnot, List.take_append_of_le_length hlt.le]
      exact h.complete e hold hgrouped
    · have hnot : (m, messages.length) ∉ entries groups := by
        intro hmem
        exact lt_irrefl _ (lt_of_mem_zipIdx (h.sound _ hmem).1)
      have hmem : (m, messages.length) ∈ added ↔ added ≠ [] := by
        refine ⟨List.ne_nil_of_mem, fun hne => ?_⟩
        obtain ⟨a, ha⟩ := List.exists_mem_of_ne_nil added hne
        rwa [(hadded a ha).1] at ha
      rw [or_iff_right hnot, hmem, hcomplete hgrouped, h.started, List.take_left]

theorem human_openGroup (h : Grouping messages groups) {type : GroupType}
    (htype : type = .human → e.1.type = .human) :
    ∀ group ∈ openGroup groups type e, group.type = .human →
      ∀ e ∈ group.messages, e.1.type ≠ .ai := by
  unfold openGroup
  rw [List.forall_mem_cons]
  refine ⟨fun hhuman => ?_, h.human⟩
  rw [List.forall_mem_singleton, htype hhuman]
  decide

/-- A message of the model joins the groups of its kind only. -/
theorem human_joinLast (h : Grouping messages groups)
    (hjoins : e.1.type = .ai → groups.head?.any (·.type = .processing) = true) :
    ∀ group ∈ joinLast e groups, group.type = .human → ∀ e ∈ group.messages, e.1.type ≠ .ai := by
  cases groups with
  | nil => exact nofun
  | cons last rest =>
    have hold := h.human
    rw [List.forall_mem_cons] at hold
    show ∀ group ∈ { last with messages := last.messages ++ [e] } :: rest, _
    rw [List.forall_mem_cons]
    refine ⟨fun hhuman => ?_, hold.2⟩
    rw [List.forall_mem_append, List.forall_mem_singleton]
    refine ⟨hold.1 hhuman, fun hai => ?_⟩
    have hprocessing := hjoins hai
    replace hhuman : last.type = .human := hhuman
    simp [hhuman] at hprocessing

theorem joinLast_ne_nil : joinLast e groups ≠ [] ↔ groups ≠ [] := by
  cases groups with
  | nil => exact iff_of_false (fun h => h rfl) fun h => h rfl
  | cons last rest => exact iff_of_true (List.cons_ne_nil _ _) (List.cons_ne_nil _ _)

theorem isPlainResult_of_ai (h : m.type = .ai) : isPlainResult m = false := by
  simp [isPlainResult, h]

theorem isPlainResult_of_clarification (h : isClarificationToolMessage m = true) :
    isPlainResult m = false := by
  simp [isPlainResult, h]

theorem Grouping.addMessage (h : Grouping messages groups) (m : ChatMessage) :
    Grouping (messages ++ [m]) (addMessage groups (m, messages.length)) := by
  have hadded := added_addMessage groups (m, messages.length)
  generalize Chat.addMessage groups (m, messages.length) = groups' at hadded
  cases hadded with
  | nothing hnot =>
    replace hnot : isGrouped m = false := hnot
    exact h.append [] (List.append_nil _).symm nofun List.Pairwise.nil h.human (by simp [hnot])
      (by simp [hnot])
  | result hgrouped hresult =>
    replace hgrouped : isGrouped m = true := hgrouped
    replace hresult : isPlainResult m = true := hresult
    have htype : (m, messages.length).1.type ≠ .ai := by
      intro hai
      rw [isPlainResult_of_ai hai] at hresult
      cases hresult
    have hhuman := human_joinLast (e := (m, messages.length)) h fun hai => absurd hai htype
    by_cases hne : groups = []
    · subst hne
      exact h.append [] rfl nofun List.Pairwise.nil hhuman (by simp [joinLast, hresult])
        (by simp [hresult])
    · exact h.append [_] (entries_joinLast hne) (by simp [hgrouped]) (List.pairwise_singleton _ _)
        hhuman (by simp [joinLast_ne_nil, hresult]) (by simp [hne])
  | thought hgrouped hai hlast =>
    replace hgrouped : isGrouped m = true := hgrouped
    have hresult : isPlainResult m = false := isPlainResult_of_ai hai
    have hne : groups ≠ [] := by
      rintro rfl
      cases hlast
    exact h.append [_] (entries_joinLast hne) (by simp [hgrouped]) (List.pairwise_singleton _ _)
      (human_joinLast h fun _ => hlast) (by simp [joinLast_ne_nil, hne]) (by simp [hresult])
  | opened hgrouped hresult type htype =>
    replace hgrouped : isGrouped m = true := hgrouped
    replace hresult : isPlainResult m = false := hresult
    exact h.append [_] (entries_openGroup type) (by simp [hgrouped]) (List.pairwise_singleton _ _)
      (human_openGroup h htype) (by simp [openGroup, hgrouped, hresult]) (by simp [hresult])
  | asked hgrouped hasked hne =>
    replace hgrouped : isGrouped m = true := hgrouped
    replace hasked : isClarificationToolMessage m = true := hasked
    have hresult : isPlainResult m = false := isPlainResult_of_clarification hasked
    have htype : (m, messages.length).1.type ≠ .ai := by
      intro hai
      replace hai : m.type = .ai := hai
      simp [isClarificationToolMessage, hai] at hasked
    have hentries : entries (openGroup (joinLast (m, messages.length) groups) .clarification
        (m, messages.length)) = entries groups ++ [(m, messages.length), (m, messages.length)] := by
      rw [entries_openGroup, entries_joinLast hne, List.append_assoc]
      rfl
    refine h.append _ hentries (by simp [hgrouped]) ?_ ?_ (by simp [openGroup, hgrouped, hresult])
      (by simp [hresult])
    · simp [Follows, hasked]
    · unfold openGroup
      rw [List.forall_mem_cons]
      exact ⟨nofun, human_joinLast h fun hai => absurd hai htype⟩

theorem grouping_foldl (messages : List ChatMessage) :
    Grouping messages (messages.zipIdx.foldl Chat.addMessage []) := by
  induction messages using List.reverseRecOn with
  | nil => exact .nil
  | append_singleton messages m ih =>
    have hstep := ih.addMessage m
    rw [List.zipIdx_append, List.foldl_append, Nat.zero_add]
    exact hstep

end Runs

section Turns

theorem aiMessages_append (xs ys : List MessageGroup) :
    aiMessages (xs ++ ys) = aiMessages xs ++ aiMessages ys := by
  unfold aiMessages
  rw [List.flatMap_append, List.filter_append]

theorem flatMap_usageMessagesFrom (turn groups : List MessageGroup)
    (h : turn ≠ [] → groups.head?.any (·.type ≠ .human) = true) :
    (usageMessagesFrom turn groups).flatMap (·.getD []) =
      aiMessages (turn ++ groups.filter (·.type ≠ .human)) := by
  induction groups generalizing turn with
  | nil =>
    have hturn : turn = [] := by
      by_contra hne
      cases h hne
    rw [hturn]
    rfl
  | cons group rest ih =>
    rw [usageMessagesFrom]
    by_cases hhuman : group.type = .human
    · have hturn : turn = [] := by
        by_contra hne
        have hany := h hne
        simp [hhuman] at hany
      rw [if_pos hhuman, hturn, List.filter_cons_of_neg (by simp [hhuman]), List.flatMap_cons,
        ih [] (fun hne => absurd rfl hne)]
      rfl
    · have hcons : turn ++ group :: rest.filter (·.type ≠ .human) =
          (turn ++ [group]) ++ rest.filter (·.type ≠ .human) := List.append_cons _ _ _
      rw [if_neg hhuman, List.filter_cons_of_pos (by simp [hhuman]), hcons]
      by_cases hend : rest.head?.all (·.type = .human) = true
      · rw [if_pos hend, List.flatMap_cons, ih [] (fun hne => absurd rfl hne),
          aiMessages_append (turn ++ [group])]
        rfl
      · rw [if_neg hend, List.flatMap_cons, ih (turn ++ [group]) fun _ => ?_]
        · rfl
        · cases hrest : rest.head? with
          | none => simp [hrest] at hend
          | some next => simpa [hrest] using hend

theorem aiMessages_filter {groups : List MessageGroup} (h : ∀ group ∈ groups,
    group.type = .human → ∀ e ∈ group.messages, e.1.type ≠ .ai) :
    aiMessages (groups.filter (·.type ≠ .human)) = aiMessages groups := by
  induction groups with
  | nil => rfl
  | cons group rest ih =>
    rw [List.forall_mem_cons] at h
    have hcons (gs : List MessageGroup) : aiMessages (group :: gs) =
        group.messages.filter (·.1.type = .ai) ++ aiMessages gs := by
      unfold aiMessages
      rw [List.flatMap_cons, List.filter_append]
    by_cases hhuman : group.type = .human
    · have hnone : group.messages.filter (·.1.type = .ai) = [] := by
        rw [List.filter_eq_nil_iff]
        intro e he
        simpa using h.1 hhuman e he
      rw [List.filter_cons_of_neg (by simp [hhuman]), ih h.2, hcons, hnone, List.nil_append]
    · rw [List.filter_cons_of_pos (by simp [hhuman]), hcons, hcons, ih h.2]

end Turns

section Places
variable {α β : Type*} {l : List α} {f : α → List β} {x : β} {r : β → β → Prop}

theorem exists_getElem?_of_mem_flatMap (hx : x ∈ l.flatMap f) :
    ∃ i : Nat, ∃ a, l[i]? = some a ∧ x ∈ f a := by
  obtain ⟨a, ha, hxa⟩ := List.mem_flatMap.mp hx
  obtain ⟨i, hi⟩ := List.mem_iff_getElem?.mp ha
  exact ⟨i, a, hi, hxa⟩

/-- What does not follow itself has one place among the parts. -/
theorem existsUnique_of_pairwise (h : (l.flatMap f).Pairwise r) (hr : ¬r x x)
    (hx : x ∈ l.flatMap f) : ∃! i : Nat, ∃ a, l[i]? = some a ∧ x ∈ f a := by
  obtain ⟨i, a, hi, hxa⟩ := exists_getElem?_of_mem_flatMap hx
  refine ⟨i, ⟨a, hi, hxa⟩, ?_⟩
  rintro j ⟨b, hj, hxb⟩
  have hparts := List.pairwise_iff_getElem.mp (List.pairwise_flatMap.mp h).2
  obtain ⟨hilt, rfl⟩ := List.getElem?_eq_some_iff.mp hi
  obtain ⟨hjlt, rfl⟩ := List.getElem?_eq_some_iff.mp hj
  rcases lt_trichotomy i j with hlt | heq | hlt
  · exact absurd (hparts i j hilt hjlt hlt x hxa x hxb) hr
  · exact heq.symm
  · exact absurd (hparts j i hjlt hilt hlt x hxb x hxa) hr

end Places

section Groups
variable {messages : List ChatMessage} {e : Entry}

theorem flatMap_getMessageGroups (messages : List ChatMessage) :
    (getMessageGroups messages).flatMap (·.messages) =
      entries (messages.zipIdx.foldl addMessage []) := rfl

theorem mem_getMessageGroups_iff (he : e ∈ messages.zipIdx) (hgrouped : isGrouped e.1 = true) :
    (∃ i, HeldAt (getMessageGroups messages) e i) ↔ (isPlainResult e.1 = true →
      ∃ m ∈ messages.take e.2, isGrouped m = true ∧ isPlainResult m = false) := by
  rw [← (grouping_foldl messages).complete e he hgrouped, ← flatMap_getMessageGroups]
  constructor
  · rintro ⟨i, group, hi, hmem⟩
    exact List.mem_flatMap.mpr ⟨group, List.mem_of_getElem? hi, hmem⟩
  · exact exists_getElem?_of_mem_flatMap

/-- A message is in one group only, unless it is a clarification. -/
theorem existsUnique_heldAt (h : ∃ i, HeldAt (getMessageGroups messages) e i)
    (hasked : isClarificationToolMessage e.1 = false) :
    ∃! i, HeldAt (getMessageGroups messages) e i := by
  obtain ⟨i, group, hi, hmem⟩ := h
  refine existsUnique_of_pairwise (grouping_foldl messages).chronological ?_
    (List.mem_flatMap.mpr ⟨group, List.mem_of_getElem? hi, hmem⟩)
  rw [follows_self, hasked]
  exact Bool.false_ne_true

theorem existsUnique_usage (hai : e.1.type = .ai)
    (h : ∃ i, HeldAt (getMessageGroups messages) e i) :
    ∃! j : Nat, ∃ turn : List Entry,
      (getAssistantTurnUsageMessages (getMessageGroups messages))[j]? = some (some turn) ∧
        e ∈ turn := by
  have hgrouping := grouping_foldl messages
  have hhuman : ∀ group ∈ getMessageGroups messages, group.type = .human →
      ∀ e ∈ group.messages, e.1.type ≠ .ai :=
    fun group hgroup => hgrouping.human group (List.mem_reverse.mp hgroup)
  have husage : (getAssistantTurnUsageMessages (getMessageGroups messages)).flatMap (·.getD []) =
      aiMessages (getMessageGroups messages) :=
    (flatMap_usageMessagesFrom [] _ fun hne => absurd rfl hne).trans (aiMessages_filter hhuman)
  have hpairwise : (aiMessages (getMessageGroups messages)).Pairwise Follows :=
    hgrouping.chronological.filter _
  have hself : ¬Follows e e := by
    rw [follows_self]
    simp [isClarificationToolMessage, hai]
  obtain ⟨i, group, hi, hmem⟩ := h
  have hcounted : e ∈ aiMessages (getMessageGroups messages) := by
    refine List.mem_filter.mpr ⟨?_, by simp [hai]⟩
    exact List.mem_flatMap.mpr ⟨group, List.mem_of_getElem? hi, hmem⟩
  rw [← husage] at hpairwise hcounted
  have hunique := existsUnique_of_pairwise hpairwise hself hcounted
  have hsame (j : Nat) : (∃ turn : Option (List Entry),
      (getAssistantTurnUsageMessages (getMessageGroups messages))[j]? = some turn ∧
        e ∈ turn.getD []) ↔ ∃ turn : List Entry,
      (getAssistantTurnUsageMessages (getMessageGroups messages))[j]? = some (some turn) ∧
        e ∈ turn := by
    constructor
    · rintro ⟨turn, hj, he⟩
      cases turn with
      | none => cases he
      | some turn => exact ⟨turn, hj, he⟩
    · rintro ⟨turn, hj, he⟩
      exact ⟨some turn, hj, he⟩
  simpa only [hsame] using hunique

theorem resultsFollow_iff : ResultsFollow messages ↔
    ∀ e ∈ messages.zipIdx, isGrouped e.1 = true → isPlainResult e.1 = true →
      ∃ m ∈ messages.take e.2, isGrouped m = true ∧ isPlainResult m = false := by
  constructor
  · rintro h ⟨m, i⟩ he hgrouped hresult
    have hget : messages[i]? = some m := List.mem_zipIdx_iff_getElem?.mp he
    obtain ⟨hlt, rfl⟩ := List.getElem?_eq_some_iff.mp hget
    refine h (messages.take i) _ (messages.drop (i + 1)) ?_ ?_ hresult
    · rw [← List.drop_eq_getElem_cons hlt, List.take_append_drop]
    · exact (Bool.and_eq_true _ _ ▸ hgrouped : _ ∧ _).1
  · rintro h before m after rfl hvisible hresult
    have hplace : (m, before.length) ∈ (before ++ m :: after).zipIdx :=
      List.mem_zipIdx_iff_getElem?.mpr (by simp)
    have htool : m.type = .tool := by
      simp only [isPlainResult, Bool.and_eq_true, decide_eq_true_eq] at hresult
      exact hresult.1
    have hgrouped : isGrouped m = true := by simp [isGrouped, hvisible, htool]
    have hbefore := h _ hplace hgrouped hresult
    rwa [List.take_left] at hbefore

/-- Nothing is lost if and only if every result comes after a message that opens a group. -/
theorem losesNothing_iff (messages : List ChatMessage) :
    LosesNothing messages ↔ ResultsFollow messages := by
  rw [resultsFollow_iff]
  constructor
  · intro h e he hgrouped hresult
    have hasked : isClarificationToolMessage e.1 = false := by
      simp only [isPlainResult, Bool.and_eq_true, Bool.not_eq_true'] at hresult
      exact hresult.2
    obtain ⟨i, hi, -⟩ := h.single e he hgrouped hasked
    exact (mem_getMessageGroups_iff he hgrouped).mp ⟨i, hi⟩ hresult
  · intro h
    have hgrouping := grouping_foldl messages
    refine ⟨fun e he hgrouped hasked => ?_, fun e he hgrouped _ => ?_, ?_, ?_, ?_⟩
    · exact existsUnique_heldAt ((mem_getMessageGroups_iff he hgrouped).mpr (h e he hgrouped)) hasked
    · exact (mem_getMessageGroups_iff he hgrouped).mpr (h e he hgrouped)
    · exact hgrouping.chronological
    · intro group hgroup e he
      have hgrouped := (hgrouping.sound e (List.mem_flatMap.mpr ⟨group, hgroup, he⟩)).2
      exact (Bool.and_eq_true _ _ ▸ hgrouped : _ ∧ _).1
    · exact fun e hai hheld => existsUnique_usage hai hheld

def orphanResult : ChatMessage where
  type := .tool
  id := "t-1".toList
  toolCallId := "call-1".toList
  name := some "bash"
  content := .str "output-1"
  additionalKwargs := []
  toolCalls := []

theorem orphanResult_lost : ¬LosesNothing [orphanResult] := by
  intro h
  obtain ⟨i, ⟨group, hgroup, -⟩, -⟩ := h.single (orphanResult, 0) (by decide) (by decide) (by decide)
  have hnone : getMessageGroups [orphanResult] = [] := by decide
  rw [hnone] at hgroup
  cases hgroup

end Groups

end DeerFlow.Chat
