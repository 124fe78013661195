import DeerFlow.Lib.Json
import DeerFlow.Runtime.Value

/-! What a channel takes from the messages of a run: the text of the answer, the files that it
presents, and whether it waits for a clarification. Each walks back to where the turn begins; one
of them also stops at the messages that the runtime hides in it. -/

namespace DeerFlow.Channels

section Model

def isHuman (msg : Dict Value) : Bool := msg.get "type" = some (.str "human")

def isHiddenHumanControlMessage (msg : Dict Value) : Bool :=
  isHuman msg && match msg.get "additional_kwargs" with
    | some (.dict kwargs) => Dict.get kwargs "hide_from_ui" = some (.bool true)
    | _ => false

def isClarification (msg : Dict Value) : Bool :=
  msg.get "type" = some (.str "tool") && msg.get "name" = some (.str "ask_clarification")

def contentOf (msg : Dict Value) : Value := (msg.get "content").getD (.str "")

def textParts (blocks : List Value) : List Value :=
  blocks.filterMap fun block => match block with
    | .dict block =>
      if Dict.get block "type" = some (.str "text") then some ((Dict.get block "text").getD (.str ""))
      else none
    | .str text => some (.str text)
    | _ => none

/-- `"".join(parts)`, which raises on a part that is no string. -/
def joinParts (parts : List Value) : Option Text :=
  List.flatten <$> parts.mapM fun part => match part with
    | .str text => some text.toList
    | _ => none

/-- The text that a message can answer with, empty where there is none. -/
def answerText (msg : Dict Value) : Option Text :=
  if isClarification msg then
    match contentOf msg with
    | .str text => some text.toList
    | _ => some []
  else if msg.get "type" = some (.str "ai") then
    match contentOf msg with
    | .str text => some text.toList
    | .list blocks => joinParts (textParts blocks)
    | _ => some []
  else some []

/-- A loop over the messages from the last one on, which goes on behind the messages that are hidden
and ends at the one of the user. -/
def scanBack {β : Type*} (done : β) (visit : Dict Value → β → β) : List Value → β
  | [] => done
  | .dict msg :: rest =>
    if isHuman msg then
      if isHiddenHumanControlMessage msg then scanBack done visit rest else done
    else visit msg (scanBack done visit rest)
  | _ :: rest => scanBack done visit rest

/-- The first text that is not empty; `none` where the code raises. -/
def responseTextFrom : List Value → Option Text :=
  scanBack (some []) fun msg rest => match answerText msg with
    | some [] => rest
    | result => result

def extractResponseText (messages : List Value) : Option Text := responseTextFrom messages.reverse

/-- What a `for` loop runs over. -/
def iterate : Value → Option (List Value)
  | .list items => some items
  | .str text => some (text.toList.map fun c => .str (String.singleton c))
  | .dict items => some (items.map fun item => .str item.1)
  | _ => none

def presentedFiles : Value → Option (List String)
  | .dict call =>
    if Dict.get call "name" = some (.str "present_files") then
      match (Dict.get call "args").getD (.dict []) with
      | .dict args => match Dict.get args "filepaths" with
        | some (.list paths) => some (paths.filterMap fun path => match path with
          | .str path => some path
          | _ => none)
        | _ => some []
      | _ => none
    else some []
  | _ => some []

def artifactsOf (msg : Dict Value) : Option (List String) :=
  if msg.get "type" = some (.str "ai") then do
    let calls ← iterate ((msg.get "tool_calls").getD (.list []))
    List.flatten <$> calls.mapM presentedFiles
  else some []

def artifactsFrom : List Value → Option (List String) :=
  scanBack (some []) fun msg rest => do
    let artifacts ← artifactsOf msg
    let others ← rest
    return artifacts ++ others

def extractArtifacts (messages : List Value) : Option (List String) :=
  artifactsFrom messages.reverse

def dict? : Value → Option (Dict Value)
  | .dict msg => some msg
  | _ => none

def currentTurnMessages (messages : List Value) : List (Dict Value) :=
  (messages.filterMap dict?).rtakeWhile fun msg => !isHuman msg

/-- From the last message of the turn on, going back. -/
def clarificationFrom : List (Dict Value) → Bool
  | [] => false
  | msg :: rest =>
    if msg.get "type" = some (.str "tool") then
      msg.get "name" = some (.str "ask_clarification")
    else if msg.get "type" = some (.str "ai") then
      if ((msg.get "content").getD .none).truthy then false
      else if ((msg.get "tool_calls").getD .none).truthy then false
      else clarificationFrom rest
    else clarificationFrom rest

def hasCurrentTurnClarification (messages : List Value) : Bool :=
  clarificationFrom (currentTurnMessages messages).reverse

end Model

section Turns

def beginsTurn (msg : Dict Value) : Bool := isHuman msg && !isHiddenHumanControlMessage msg

def visibleTurn (messages : List Value) : List (Dict Value) :=
  (messages.filterMap dict?).rtakeWhile fun msg => !beginsTurn msg

/-- What a turn answers, if all of its messages are looked at. -/
def turnText (turn : List (Dict Value)) : Option Text :=
  responseTextFrom (turn.map .dict).reverse

def turnArtifacts (turn : List (Dict Value)) : Option (List String) :=
  artifactsFrom (turn.map .dict).reverse

/-- The three look at the messages after the last one of the user, and a clarification that is the
last of them and is the answer is seen as one. -/
structure ExtractorsAgree (messages : List Value) : Prop where
  text : extractResponseText messages = turnText (visibleTurn messages)
  artifacts : extractArtifacts messages = turnArtifacts (visibleTurn messages)
  clarification : currentTurnMessages messages = visibleTurn messages
  asked : ∀ before msg after, messages = before ++ .dict msg :: after →
    isClarification msg = true → (∃ text, contentOf msg = .str text ∧ text ≠ "") →
    (∀ m ∈ after, ∀ other, dict? m = some other → isHiddenHumanControlMessage other = true) →
    hasCurrentTurnClarification messages = true

end Turns

section Scans
variable {messages : List Value} {msg : Dict Value}

theorem not_hidden_of_not_human (h : isHuman msg = false) :
    isHiddenHumanControlMessage msg = false := by
  unfold isHiddenHumanControlMessage
  rw [h, Bool.false_and]

theorem visibleTurn_reverse (messages : List Value) : (visibleTurn messages).reverse =
    (messages.reverse.filterMap dict?).takeWhile fun msg => !beginsTurn msg := by
  unfold visibleTurn List.rtakeWhile
  rw [List.reverse_reverse, List.filterMap_reverse]

theorem scanBack_eq {β : Type*} (done : β) (visit : Dict Value → β → β) (newestFirst : List Value) :
    scanBack done visit newestFirst = scanBack done visit
      (((newestFirst.filterMap dict?).takeWhile fun msg => !beginsTurn msg).map .dict) := by
  induction newestFirst with
  | nil => rfl
  | cons m rest ih =>
    cases m with
    | dict msg =>
      rw [List.filterMap_cons_some (by rfl)]
      by_cases hbegins : beginsTurn msg = true
      · rw [List.takeWhile_cons_of_neg (by simp [hbegins])]
        simp only [beginsTurn, Bool.and_eq_true, Bool.not_eq_true'] at hbegins
        rw [scanBack, if_pos hbegins.1, if_neg (by simp [hbegins.2])]
        rfl
      · rw [List.takeWhile_cons_of_pos (by simp [hbegins]), List.map_cons, scanBack, scanBack, ih]
    | none | bool | int | float | str | list =>
      rw [List.filterMap_cons_none (by rfl)]
      exact ih

theorem reverse_visibleTurn_map (messages : List Value) :
    ((visibleTurn messages).map Value.dict).reverse =
      ((messages.reverse.filterMap dict?).takeWhile fun msg => !beginsTurn msg).map .dict := by
  rw [← List.map_reverse, visibleTurn_reverse]

theorem extractResponseText_eq (messages : List Value) :
    extractResponseText messages = turnText (visibleTurn messages) := by
  unfold turnText extractResponseText responseTextFrom
  rw [reverse_visibleTurn_map]
  exact scanBack_eq _ _ _

theorem extractArtifacts_eq (messages : List Value) :
    extractArtifacts messages = turnArtifacts (visibleTurn messages) := by
  unfold turnArtifacts extractArtifacts artifactsFrom
  rw [reverse_visibleTurn_map]
  exact scanBack_eq _ _ _

/-- The turn that is cut at hidden messages too is the turn if and only if it has none. -/
theorem currentTurnMessages_eq_iff : currentTurnMessages messages = visibleTurn messages ↔
    ∀ msg ∈ visibleTurn messages, isHiddenHumanControlMessage msg = false := by
  have hcut (msgs : List (Dict Value)) : msgs.rtakeWhile (fun msg => !isHuman msg) =
      msgs.rtakeWhile (fun msg => !beginsTurn msg) ↔
        ∀ msg ∈ msgs.rtakeWhile (fun msg => !beginsTurn msg),
          isHiddenHumanControlMessage msg = false := by
    induction msgs using List.reverseRecOn with
    | nil => simp
    | append_singleton msgs msg ih =>
      by_cases hhuman : isHuman msg = true
      · rw [List.rtakeWhile_concat_neg _ _ _ (by simp [hhuman])]
        by_cases hhidden : isHiddenHumanControlMessage msg = true
        · rw [List.rtakeWhile_concat_pos _ _ _ (by simp [beginsTurn, hhidden])]
          simp [hhidden]
        · rw [List.rtakeWhile_concat_neg _ _ _ (by simp [beginsTurn, hhuman, hhidden])]
          simp
      · have hhidden := not_hidden_of_not_human (Bool.not_eq_true _ ▸ hhuman)
        rw [List.rtakeWhile_concat_pos _ _ _ (by simp [hhuman]),
          List.rtakeWhile_concat_pos _ _ _ (by simp [beginsTurn, hhuman]),
          List.append_left_inj, ih, List.forall_mem_append, List.forall_mem_singleton,
          and_iff_left hhidden]
  exact hcut _

theorem clarification_of_last {before after : List Value} (hmsg : isClarification msg = true)
    (hafter : after.filterMap dict? = []) :
    hasCurrentTurnClarification (before ++ .dict msg :: after) = true := by
  simp only [isClarification, Bool.and_eq_true, decide_eq_true_eq] at hmsg
  have hhuman : isHuman msg = false := by simp [isHuman, hmsg.1]
  have hmessages : (before ++ .dict msg :: after).filterMap dict? =
      before.filterMap dict? ++ [msg] := by
    rw [List.filterMap_append, List.filterMap_cons_some (by rfl), hafter]
  unfold hasCurrentTurnClarification currentTurnMessages
  rw [hmessages, List.rtakeWhile_concat_pos _ _ _ (by simp [hhuman]), List.reverse_concat,
    clarificationFrom, if_pos hmsg.1]
  exact decide_eq_true hmsg.2

end Scans

section Agreement
variable {messages : List Value}

/-- The three agree if and only if no hidden message stands in the turn. -/
theorem extractorsAgree_iff (messages : List Value) : ExtractorsAgree messages ↔
    ∀ msg ∈ visibleTurn messages, isHiddenHumanControlMessage msg = false := by
  constructor
  · exact fun h => currentTurnMessages_eq_iff.mp h.clarification
  · intro h
    refine ⟨extractResponseText_eq messages, extractArtifacts_eq messages,
      currentTurnMessages_eq_iff.mpr h, ?_⟩
    rintro before msg after rfl hmsg - hafter
    refine clarification_of_last hmsg ?_
    by_contra hne
    obtain ⟨msgs, other, hconcat⟩ := (List.eq_nil_or_concat _).resolve_left hne
    have hother : other ∈ after.filterMap dict? := by
      rw [hconcat]
      simp
    obtain ⟨m, hm, hm'⟩ := List.mem_filterMap.mp hother
    have hhidden := hafter m hm other hm'
    have hturn : other ∈ visibleTurn (before ++ .dict msg :: after) := by
      have hlast : (before ++ .dict msg :: after).filterMap dict? =
          (before.filterMap dict? ++ msg :: msgs) ++ [other] := by
        rw [List.filterMap_append, List.filterMap_cons_some (by rfl), hconcat]
        simp
      unfold visibleTurn
      rw [hlast, List.rtakeWhile_concat_pos _ _ _ (by simp [beginsTurn, hhidden])]
      simp
    have hvisible := h other hturn
    rw [hhidden] at hvisible
    cases hvisible

def question : Dict Value :=
  [("type", .str "tool"), ("name", .str "ask_clarification"), ("content", .str "Where?")]

def reminder : Dict Value :=
  [("type", .str "human"), ("content", .str "Todos"),
    ("additional_kwargs", .dict [("hide_from_ui", .bool true)])]

/-- A question of the model, and a reminder that the runtime puts behind it. -/
def remindedQuestion : List Value :=
  [.dict [("type", .str "human"), ("content", .str "Deploy it")], .dict question, .dict reminder]

theorem remindedQuestion_unseen : extractResponseText remindedQuestion = some "Where?".toList ∧
    hasCurrentTurnClarification remindedQuestion = false ∧ ¬ExtractorsAgree remindedQuestion := by
  have htext : extractResponseText remindedQuestion = some "Where?".toList := by decide +kernel
  have hunseen : hasCurrentTurnClarification remindedQuestion = false := by decide +kernel
  refine ⟨htext, hunseen, fun h => ?_⟩
  have hquestion : isClarification question = true := by decide +kernel
  have hreminder : isHiddenHumanControlMessage reminder = true := by decide +kernel
  have hasked := h.asked [_] question [.dict reminder] rfl hquestion ⟨"Where?", rfl, by decide⟩ ?_
  · rw [hunseen] at hasked
    cases hasked
  · rw [List.forall_mem_singleton]
    intro other hother
    rwa [← Option.some.inj hother]

end Agreement

end DeerFlow.Channels
