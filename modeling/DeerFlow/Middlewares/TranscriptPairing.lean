import DeerFlow.Lib.KeyedQueues
import DeerFlow.Middlewares.ToolCallNames

/-! The transcript that is sent to the model: behind each message stand the
results of its calls, in their order, and nowhere else. The middleware serves the
calls from one queue for each id; a second time every queue holds the results in
the order of the calls. -/

namespace DeerFlow.Middlewares.DanglingToolCalls
open KeyedQueues

/-- A message that is no result, or a result that no message asks for, or a message with the
results behind it. -/
inductive Block where
  | ai (m : AiMessage) (results : List ToolMessage)
  | tool (t : ToolMessage)
  | other (content : Value)

def Block.messages : Block → List Message
  | .ai m results => .ai m :: results.map .tool
  | .tool t => [.tool t]
  | .other content => [.other content]

/-- The ids of the calls of a message that are not empty. -/
def callIds (m : AiMessage) : List Value :=
  (((messageToolCalls m).getD []).map callId).filter Value.truthy

def allCallIds (messages : List Message) : List Value :=
  messages.flatMap fun
    | .ai m => callIds m
    | _ => []

/-- One result for each call, in the order of the calls; a result elsewhere has no id of a call. -/
def Block.Paired (ids : List Value) : Block → Prop
  | .ai m results => results.map (fun t => Value.str t.toolCallId) = callIds m
  | .tool t => Value.str t.toolCallId ∉ ids
  | .other _ => True

def isTool : Message → Bool
  | .tool _ => true
  | _ => false

@[simp] theorem isTool_ai (m : AiMessage) : isTool (.ai m) = false := rfl

@[simp] theorem isTool_tool (t : ToolMessage) : isTool (.tool t) = true := rfl

@[simp] theorem isTool_other (content : Value) : isTool (.other content) = false := rfl

def sanitizeMessage : Message → Message
  | .ai m => .ai (sanitizeAiMessageToolNames m)
  | m => m

structure WellFormed (messages out : List Message) : Prop where
  paired : ∃ blocks : List Block, out = blocks.flatMap Block.messages ∧
    ∀ b ∈ blocks, b.Paired (allCallIds out)
  order : out.filter (fun m => !isTool m) =
    (messages.filter fun m => !isTool m).map sanitizeMessage

section Calls
variable {m : AiMessage} {calls : List (Dict Value)}

/-- Every id of a call that is not empty is a string. -/
def StringCalls (calls : List (Dict Value)) : Prop :=
  ∀ c ∈ calls, (callId c).truthy = true → ∃ id, callId c = .str id

def StringIds (messages : List Message) : Prop :=
  ∀ m, .ai m ∈ messages → ∃ calls, messageToolCalls m = some calls ∧ StringCalls calls

theorem callIds_eq (h : messageToolCalls m = some calls) :
    callIds m = (calls.map callId).filter Value.truthy := by
  unfold callIds
  rw [h, Option.getD_some]

theorem map_callId_of_repaired {calls' : List (Dict Value)}
    (h : List.Forall₂ Repaired calls calls') : calls'.map callId = calls.map callId := by
  induction h with
  | nil => rfl
  | cons hc hcs ih =>
    have hid := hc.id
    simp [hid, ih]

theorem callIds_sanitize (h : messageToolCalls m = some calls) :
    callIds (sanitizeAiMessageToolNames m) = callIds m := by
  obtain ⟨calls', hcalls', hrepaired⟩ := messageToolCalls_sanitize h
  rw [callIds_eq hcalls', callIds_eq h, map_callId_of_repaired hrepaired]

def Asking (calls : List (Dict Value)) : List (Dict Value) :=
  calls.filter fun c => (callId c).truthy

def idText (c : Dict Value) : String :=
  match callId c with
  | .str id => id
  | _ => ""

theorem callId_of_asking (h : StringCalls calls) {c : Dict Value} (hc : c ∈ Asking calls) :
    callId c = .str (idText c) := by
  obtain ⟨hmem, htruthy⟩ := List.mem_filter.mp hc
  obtain ⟨id, hid⟩ := h c hmem htruthy
  unfold idText
  rw [hid]

theorem callIds_eq_asking (h : messageToolCalls m = some calls) (hstrings : StringCalls calls) :
    callIds m = ((Asking calls).map idText).map Value.str := by
  have hfilter : (calls.map callId).filter Value.truthy = (Asking calls).map callId := by
    rw [List.filter_map]
    rfl
  rw [callIds_eq h, hfilter, List.map_map]
  apply List.map_congr_left
  intro c hc
  exact callId_of_asking hstrings hc

end Calls

section Queues
variable {queues : ToolQueues}

/-- What waits under an id. -/
def pending (queues : ToolQueues) (id : String) : List ToolMessage := (queues.get id).getD []

theorem popResult_str (queues : ToolQueues) (id : String) :
    (popResult queues (.str id)).1 = (pending queues id).head? ∧
      pending (popResult queues (.str id)).2 = take (pending queues) id := by
  have hnothing : (pending queues id) = [] → take (pending queues) id = pending queues := by
    intro hempty
    unfold take
    rw [hempty]
    exact Function.update_eq_self_iff.mpr hempty.symm
  unfold popResult
  rcases hget : queues.get id with _ | results
  · have hempty : pending queues id = [] := by simp [pending, hget]
    simp [hget, hempty, hnothing hempty]
  · rcases results with _ | ⟨t, rest⟩
    · have hempty : pending queues id = [] := by simp [pending, hget]
      simp [hget, hempty, hnothing hempty]
    · have hfull : pending queues id = t :: rest := by simp [pending, hget]
      refine ⟨by simp [hget, hfull], ?_⟩
      funext k
      unfold take
      dsimp only
      by_cases hk : k = id
      · subst hk
        simp [pending, hget]
      · simp [pending, hget, Dict.get_set_ne hk, Function.update_of_ne hk]

theorem pending_toolMessagesById (messages : List Message) :
    pending (toolMessagesById messages) =
      gather ToolMessage.toolCallId (toolMessages messages) := by
  have hvalues : ∀ (ts : List ToolMessage) (id : String),
      Dict.valuesOf (ts.map fun t => (t.toolCallId, t)) id =
        gather ToolMessage.toolCallId ts id := by
    intro ts id
    induction ts with
    | nil => rfl
    | cons t ts ih =>
      unfold Dict.valuesOf gather at ih ⊢
      by_cases hid : t.toolCallId = id
      · simp [hid, ih]
      · simp [hid, ih]
  funext id
  unfold pending toolMessagesById
  rw [Dict.get_gather, hvalues]
  split_ifs with hempty
  · rw [hempty, Option.getD_none]
  · rw [Option.getD_some]

end Queues

section Answers
variable (str : Value → String)

def answer (c : Dict Value) : Option ToolMessage → ToolMessage
  | some t => renameResult c t
  | none => syntheticToolMessage str c

/-- The results of the calls of a message, and the queues that are left. -/
def answers (q : String → List ToolMessage) (calls : List (Dict Value)) :
    (String → List ToolMessage) × List ToolMessage :=
  let served := serve q ((Asking calls).map idText)
  (served.1, List.zipWith (answer str) (Asking calls) served.2)

theorem patchCalls_eq {calls : List (Dict Value)} (h : StringCalls calls) (queues : ToolQueues) :
    (pending (patchCalls str queues calls).1, (patchCalls str queues calls).2) =
      answers str (pending queues) calls := by
  induction calls generalizing queues with
  | nil => rfl
  | cons c calls ih =>
    have htail : StringCalls calls := fun d hd => h d (List.mem_cons_of_mem c hd)
    unfold patchCalls
    by_cases htruthy : (callId c).truthy = true
    · obtain ⟨id, hid⟩ := h c List.mem_cons_self htruthy
      have htext : idText c = id := by simp [idText, hid]
      have hpop := popResult_str queues id
      have hasking : Asking (c :: calls) = c :: Asking calls := by simp [Asking, htruthy]
      rw [if_pos htruthy, hid]
      rcases hresult : popResult queues (.str id) with ⟨existing, queues'⟩
      rw [hresult] at hpop
      dsimp only at hpop ⊢
      have hrest := ih htail queues'
      rw [hpop.2] at hrest
      unfold answers at hrest ⊢
      rw [hasking, List.map_cons, htext, serve]
      dsimp only at hrest ⊢
      rw [Prod.mk.injEq] at hrest ⊢
      refine ⟨hrest.1, ?_⟩
      rw [List.zipWith_cons_cons, hrest.2, ← hpop.1]
      cases existing with
      | none | some t => rfl
    · have hasking : Asking (c :: calls) = Asking calls := by simp [Asking, htruthy]
      rw [if_neg htruthy, ih htail queues]
      unfold answers
      rw [hasking]

theorem toolCallId_answer {c : Dict Value} {id : String} (hid : callId c = .str id)
    {t : Option ToolMessage} (ht : ∀ x ∈ t, x.toolCallId = id) :
    (answer str c t).toolCallId = id := by
  cases t with
  | none => simp [answer, syntheticToolMessage, hid]
  | some x =>
    have hx := ht x rfl
    show (renameResult c x).toolCallId = id
    unfold renameResult
    split_ifs
    · exact hx
    · exact hx

theorem toolCallIds_answers {q : String → List ToolMessage} {calls : List (Dict Value)}
    (hq : Sorted ToolMessage.toolCallId q) (h : StringCalls calls) :
    (answers str q calls).2.map ToolMessage.toolCallId = (Asking calls).map idText := by
  have hserved := hq.key_served ((Asking calls).map idText)
  have hids : ∀ c ∈ Asking calls, callId c = .str (idText c) := fun c hc => callId_of_asking h hc
  unfold answers
  dsimp only
  generalize (serve q ((Asking calls).map idText)).2 = served at hserved
  generalize Asking calls = asking at hserved hids
  induction asking generalizing served with
  | nil => rfl
  | cons c asking ih =>
    rw [List.map_cons] at hserved
    cases hserved with
    | cons hx hrest =>
      have hhead := toolCallId_answer str (hids c List.mem_cons_self) hx
      have htail := ih _ hrest fun d hd => hids d (List.mem_cons_of_mem c hd)
      simp [hhead, htail]

theorem validToolName_answer {c : Dict Value} (hname : validToolName (item c "name") = true)
    (hmarked : (item c "invalid_tool_name").truthy = true) (t : Option ToolMessage) :
    validToolName (answer str c t).name = true := by
  cases t with
  | none => exact hname
  | some x =>
    show validToolName (renameResult c x).name = true
    unfold renameResult
    by_cases hx : validToolName x.name = false
    · rw [if_pos ⟨hmarked, hx⟩]
      exact hname
    · rw [if_neg fun h => hx h.2]
      simpa using hx

/-- The calls of a repaired message take the results as they are. -/
theorem renameResult_answers {q : String → List ToolMessage} {calls calls' : List (Dict Value)}
    (hnames : ∀ c ∈ calls, validToolName (item c "name") = true)
    (h : List.Forall₂ Repaired calls calls') :
    List.Forall₂ (fun c t => renameResult c t = t) (Asking calls') (answers str q calls).2 := by
  have hasking : List.Forall₂ Repaired (Asking calls) (Asking calls') := by
    unfold Asking
    induction h with
    | nil => exact .nil
    | @cons c c' cs cs' hc hcs ih =>
      have htail := ih fun d hd => hnames d (List.mem_cons_of_mem c hd)
      by_cases htruthy : (callId c).truthy = true
      · have htruthy' : (callId c').truthy = true := by rw [hc.id]; exact htruthy
        rw [List.filter_cons_of_pos (by simpa using htruthy),
          List.filter_cons_of_pos (by simpa using htruthy')]
        exact .cons hc htail
      · have htruthy' : ¬ (callId c').truthy = true := by rw [hc.id]; exact htruthy
        rw [List.filter_cons_of_neg (by simpa using htruthy),
          List.filter_cons_of_neg (by simpa using htruthy')]
        exact htail
  have hvalid : ∀ c ∈ Asking calls, validToolName (item c "name") = true :=
    fun c hc => hnames c (List.mem_of_mem_filter hc)
  have hlength : (serve q ((Asking calls).map idText)).2.length = (Asking calls).length := by
    simp [length_served]
  unfold answers
  dsimp only
  generalize (serve q ((Asking calls).map idText)).2 = served at hlength
  generalize Asking calls = asking at hasking hvalid hlength
  generalize Asking calls' = asking' at hasking
  induction hasking generalizing served with
  | nil => exact .nil
  | @cons c c' cs cs' hc hcs ih =>
    cases served with
    | nil => cases hlength
    | cons x served =>
      refine .cons ?_ (ih served (fun d hd => hvalid d (List.mem_cons_of_mem c hd))
        (Nat.succ.inj hlength))
      unfold renameResult
      apply if_neg
      rintro ⟨hmarked, hinvalid⟩
      have hname := validToolName_answer str (hvalid c List.mem_cons_self) (hc.marked hmarked) x
      rw [hname] at hinvalid
      cases hinvalid

theorem answers_gather {q : String → List ToolMessage} {ids : List Value}
    {calls : List (Dict Value)} {results rest : List ToolMessage}
    (hq : ∀ id, .str id ∈ ids → q id = gather ToolMessage.toolCallId (results ++ rest) id)
    (hids : ∀ c ∈ Asking calls, .str (idText c) ∈ ids)
    (hresults : results.map ToolMessage.toolCallId = (Asking calls).map idText)
    (hrename : List.Forall₂ (fun c t => renameResult c t = t) (Asking calls) results) :
    (∀ id, .str id ∈ ids → (answers str q calls).1 id = gather ToolMessage.toolCallId rest id) ∧
      (answers str q calls).2 = results := by
  have hasked : ∀ id ∈ (Asking calls).map idText, id ∈ {id : String | Value.str id ∈ ids} := by
    intro id hid
    obtain ⟨c, hc, rfl⟩ := List.mem_map.mp hid
    exact hids c hc
  have hcongr := serve_congr (S := {id : String | Value.str id ∈ ids}) hq hasked
  have hserve : serve (gather ToolMessage.toolCallId (results ++ rest))
      (results.map ToolMessage.toolCallId) = (gather ToolMessage.toolCallId rest,
        results.map some) := serve_gather results rest
  rw [hresults] at hserve
  rw [hserve] at hcongr
  unfold answers
  dsimp only
  refine ⟨hcongr.1, ?_⟩
  rw [hcongr.2]
  clear hcongr hserve hasked hids hresults hq
  generalize Asking calls = asking at hrename
  induction hrename with
  | nil => rfl
  | cons ht hts ih =>
    rw [List.map_cons, List.zipWith_cons_cons, ih]
    exact congrArg (· :: _) ht

end Answers

section Blocks
variable (str : Value → String) {messages : List Message} {ids : List Value}

/-- The transcript block by block. -/
def blocksOf (ids : List Value) : (String → List ToolMessage) → List Message → List Block
  | _, [] => []
  | q, .ai m :: messages =>
    let (q', results) := answers str q ((messageToolCalls m).getD [])
    .ai (sanitizeAiMessageToolNames m) results :: blocksOf ids q' messages
  | q, .tool t :: messages =>
    if .str t.toolCallId ∈ ids then blocksOf ids q messages
    else .tool t :: blocksOf ids q messages
  | q, .other content :: messages => .other content :: blocksOf ids q messages

theorem StringIds.tail {m : Message} (h : StringIds (m :: messages)) : StringIds messages :=
  fun m' hm' => h m' (List.mem_cons_of_mem m hm')

theorem toolCallIds_eq (h : StringIds messages) :
    toolCallIds messages = some (allCallIds messages) := by
  induction messages with
  | nil => rfl
  | cons m messages ih =>
    have hrest := ih h.tail
    cases m with
    | ai m =>
      obtain ⟨calls, hcalls, hstrings⟩ := h m List.mem_cons_self
      have hhashable : ∀ c ∈ calls, (callId c).truthy = true → hashable (callId c) = true := by
        intro c hc htruthy
        obtain ⟨s, hs⟩ := hstrings c hc htruthy
        rw [hs]
        rfl
      have hall : allCallIds (.ai m :: messages) = callIds m ++ allCallIds messages := rfl
      rw [hall, callIds_eq hcalls]
      simpa [toolCallIds, hcalls, hrest] using hhashable
    | tool t | other content => exact hrest

theorem patchMessages_eq (h : StringIds messages) (queues : ToolQueues) :
    patchMessages str ids queues messages =
      some ((blocksOf str ids (pending queues) messages).flatMap Block.messages) := by
  induction messages generalizing queues with
  | nil => rfl
  | cons m messages ih =>
    cases m with
    | ai m =>
      obtain ⟨calls, hcalls, hstrings⟩ := h m List.mem_cons_self
      have hpatch := patchCalls_eq str hstrings queues
      unfold patchMessages blocksOf
      rw [hcalls, Option.bind_some, Option.getD_some]
      rcases hresult : patchCalls str queues calls with ⟨queues', results⟩
      rw [hresult] at hpatch
      dsimp only at hpatch ⊢
      rw [← hpatch, ih h.tail queues']
      simp [Block.messages]
    | tool t =>
      have hrest := ih h.tail queues
      unfold patchMessages blocksOf
      split_ifs
      · exact hrest
      · simp [hrest, Block.messages]
    | other content =>
      have hrest := ih h.tail queues
      unfold patchMessages blocksOf
      simp [hrest, Block.messages]

/-- The middleware sends the blocks, whether or not they differ from what it got. -/
theorem modelBound_eq (h : StringIds messages) :
    modelBound str messages = some ((blocksOf str (allCallIds messages)
      (gather ToolMessage.toolCallId (toolMessages messages)) messages).flatMap
        Block.messages) := by
  unfold modelBound buildPatchedMessages
  rw [toolCallIds_eq h, Option.bind_some, patchMessages_eq str h, pending_toolMessagesById,
    Option.map_some, Option.map_some]
  split_ifs with hsame
  · rw [Option.getD_none, hsame]
  · rw [Option.getD_some]

theorem sorted_answers {q : String → List ToolMessage} (hq : Sorted ToolMessage.toolCallId q)
    (calls : List (Dict Value)) : Sorted ToolMessage.toolCallId (answers str q calls).1 :=
  hq.serve _

/-- What holds of the blocks that the middleware builds, and keeps them as they are. -/
def Block.Settled (ids : List Value) : Block → Prop
  | .ai m results => sanitizeAiMessageToolNames m = m ∧ ∃ calls, messageToolCalls m = some calls ∧
      StringCalls calls ∧ (∀ c ∈ Asking calls, .str (idText c) ∈ ids) ∧
      results.map ToolMessage.toolCallId = (Asking calls).map idText ∧
      List.Forall₂ (fun c t => renameResult c t = t) (Asking calls) results
  | .tool t => .str t.toolCallId ∉ ids
  | .other _ => True

theorem StringCalls.repaired {calls calls' : List (Dict Value)} (h : StringCalls calls)
    (hrepaired : List.Forall₂ Repaired calls calls') : StringCalls calls' := by
  intro c' hc' htruthy
  obtain ⟨c, hc, hcc'⟩ := exists_of_forall₂_right hrepaired hc'
  rw [hcc'.id] at htruthy ⊢
  exact h c hc htruthy

theorem map_idText_of_repaired {calls calls' : List (Dict Value)}
    (h : List.Forall₂ Repaired calls calls') :
    (Asking calls').map idText = (Asking calls).map idText := by
  unfold Asking
  induction h with
  | nil => rfl
  | @cons c c' cs cs' hc hcs ih =>
    have hid := hc.id
    have htext : idText c' = idText c := by simp [idText, hid]
    by_cases htruthy : (callId c).truthy = true
    · simp [hid, htruthy, htext, ih]
    · simp [hid, htruthy, ih]

theorem settled_blocksOf (h : StringIds messages) (hids : ∀ id ∈ allCallIds messages, id ∈ ids)
    {q : String → List ToolMessage} (hq : Sorted ToolMessage.toolCallId q) :
    ∀ b ∈ blocksOf str ids q messages, b.Settled ids := by
  induction messages generalizing q with
  | nil =>
    intro b hb
    cases hb
  | cons m messages ih =>
    cases m with
    | ai m =>
      obtain ⟨calls, hcalls, hstrings⟩ := h m List.mem_cons_self
      have hall : allCallIds (.ai m :: messages) = callIds m ++ allCallIds messages := rfl
      rw [hall] at hids
      intro b hb
      unfold blocksOf at hb
      rw [hcalls, Option.getD_some] at hb
      rcases List.mem_cons.mp hb with rfl | hb
      · obtain ⟨calls', hcalls', hrepaired⟩ := messageToolCalls_sanitize hcalls
        have htexts := map_idText_of_repaired hrepaired
        refine ⟨sanitize_sanitize m, calls', hcalls', hstrings.repaired hrepaired, ?_, ?_, ?_⟩
        · intro c' hc'
          apply hids
          apply List.mem_append_left
          rw [callIds_eq_asking hcalls hstrings, ← htexts]
          exact List.mem_map_of_mem (List.mem_map_of_mem hc')
        · rw [htexts]
          exact toolCallIds_answers str hq hstrings
        · exact renameResult_answers str (validToolName_of_mem hcalls) hrepaired
      · exact ih h.tail (fun id hid => hids id (List.mem_append_right _ hid))
          (sorted_answers str hq calls) b hb
    | tool t =>
      have hrest := ih h.tail hids hq
      unfold blocksOf
      split_ifs with ht
      · exact hrest
      · intro b hb
        rcases List.mem_cons.mp hb with rfl | hb
        · exact ht
        · exact hrest b hb
    | other content =>
      have hrest := ih h.tail hids hq
      intro b hb
      unfold blocksOf at hb
      rcases List.mem_cons.mp hb with rfl | hb
      · trivial
      · exact hrest b hb

/-- The results in the blocks. -/
def Block.results : Block → List ToolMessage
  | .ai _ results => results
  | _ => []

theorem blocksOf_results {results : List ToolMessage} (h : ∀ t ∈ results, .str t.toolCallId ∈ ids)
    (q : String → List ToolMessage) (rest : List Message) :
    blocksOf str ids q (results.map .tool ++ rest) = blocksOf str ids q rest := by
  induction results with
  | nil => rfl
  | cons t results ih =>
    rw [List.map_cons, List.cons_append, blocksOf, if_pos (h t List.mem_cons_self)]
    exact ih fun x hx => h x (List.mem_cons_of_mem t hx)

/-- Settled blocks come out as they are, where each queue holds their results in order. -/
theorem blocksOf_settled {blocks : List Block} (h : ∀ b ∈ blocks, b.Settled ids)
    {q : String → List ToolMessage} (hq : ∀ id, .str id ∈ ids →
      q id = gather ToolMessage.toolCallId (blocks.flatMap Block.results) id) :
    blocksOf str ids q (blocks.flatMap Block.messages) = blocks := by
  induction blocks generalizing q with
  | nil => rfl
  | cons b blocks ih =>
    have hrest := fun x hx => h x (List.mem_cons_of_mem b hx)
    cases b with
    | ai m results =>
      obtain ⟨hsan, calls, hcalls, hstrings, hids, hresults, hrename⟩ := h _ List.mem_cons_self
      have hserved := answers_gather str hq hids hresults hrename
      have hmine : ∀ t ∈ results, .str t.toolCallId ∈ ids := by
        intro t ht
        have hid : t.toolCallId ∈ (Asking calls).map idText := by
          rw [← hresults]
          exact List.mem_map_of_mem ht
        obtain ⟨c, hc, htext⟩ := List.mem_map.mp hid
        rw [← htext]
        exact hids c hc
      rw [List.flatMap_cons]
      change blocksOf str ids q (.ai m :: (results.map .tool ++ _)) = _
      unfold blocksOf
      rw [hcalls, Option.getD_some]
      dsimp only
      rw [hsan, hserved.2, blocksOf_results str hmine, ih hrest hserved.1]
      rfl
    | tool t =>
      have ht := h _ List.mem_cons_self
      rw [List.flatMap_cons]
      change blocksOf str ids q (.tool t :: _) = _
      unfold blocksOf
      rw [if_neg ht]
      exact congrArg (_ :: ·) (ih hrest hq)
    | other content =>
      rw [List.flatMap_cons]
      change blocksOf str ids q (.other content :: _) = _
      unfold blocksOf
      exact congrArg (_ :: ·) (ih hrest hq)

theorem filter_blocksOf (q : String → List ToolMessage) (messages : List Message) :
    ((blocksOf str ids q messages).flatMap Block.messages).filter (fun m => !isTool m) =
      (messages.filter fun m => !isTool m).map sanitizeMessage := by
  induction messages generalizing q with
  | nil => rfl
  | cons m messages ih =>
    cases m with
    | ai m =>
      have hresults : ∀ results : List ToolMessage,
          (results.map Message.tool).filter (fun m => !isTool m) = [] := by
        intro results
        simp [List.filter_eq_nil_iff]
      have hrest := ih (answers str q ((messageToolCalls m).getD [])).1
      unfold blocksOf
      simp [Block.messages, hresults, hrest, sanitizeMessage]
    | tool t =>
      have hrest := ih q
      unfold blocksOf
      split_ifs
      · exact hrest
      · simp [Block.messages, hrest]
    | other content =>
      have hrest := ih q
      unfold blocksOf
      simp [Block.messages, hrest, sanitizeMessage]

/-- Under the id of a call there are only results that stand behind a message. -/
theorem gather_toolMessages {blocks : List Block} (h : ∀ b ∈ blocks, b.Settled ids) {id : String}
    (hid : .str id ∈ ids) :
    gather ToolMessage.toolCallId (toolMessages (blocks.flatMap Block.messages)) id =
      gather ToolMessage.toolCallId (blocks.flatMap Block.results) id := by
  have hresults : ∀ results : List ToolMessage, toolMessages (results.map .tool) = results := by
    intro results
    unfold toolMessages
    rw [List.filterMap_map]
    exact List.filterMap_some
  unfold gather
  induction blocks with
  | nil => rfl
  | cons b blocks ih =>
    have hrest := ih fun x hx => h x (List.mem_cons_of_mem b hx)
    have hb : (toolMessages b.messages).filter (fun t => decide (t.toolCallId = id)) =
        b.results.filter fun t => decide (t.toolCallId = id) := by
      cases b with
      | ai m results =>
        have hskip : toolMessages (Block.ai m results).messages =
            toolMessages (results.map .tool) := rfl
        rw [hskip, hresults]
        rfl
      | tool t =>
        have hne : t.toolCallId ≠ id := by
          rintro rfl
          exact h _ List.mem_cons_self hid
        simp [Block.messages, Block.results, toolMessages, Message.toolMessage?, hne]
      | other content => rfl
    have happend : toolMessages ((b :: blocks).flatMap Block.messages) =
        toolMessages b.messages ++ toolMessages (blocks.flatMap Block.messages) := by
      unfold toolMessages
      rw [List.flatMap_cons, List.filterMap_append]
    rw [happend, List.flatMap_cons, List.filter_append, List.filter_append, hb, hrest]

end Blocks

section Main
variable (str : Value → String) {messages : List Message}

theorem allCallIds_filter (messages : List Message) :
    allCallIds (messages.filter fun m => !isTool m) = allCallIds messages := by
  induction messages with
  | nil => rfl
  | cons m messages ih =>
    unfold allCallIds at ih ⊢
    cases m with
    | ai m | tool t | other content => simp [ih]

theorem allCallIds_map_sanitize (h : StringIds messages) :
    allCallIds (messages.map sanitizeMessage) = allCallIds messages := by
  induction messages with
  | nil => rfl
  | cons m messages ih =>
    have hrest := ih h.tail
    unfold allCallIds at hrest ⊢
    rw [List.map_cons, List.flatMap_cons, List.flatMap_cons, hrest]
    cases m with
    | ai m =>
      obtain ⟨calls, hcalls, -⟩ := h m List.mem_cons_self
      have hids := callIds_sanitize hcalls
      simp [sanitizeMessage, hids]
    | tool t | other content => rfl

/-- A message of the transcript that is sent is a repaired message of the one that came. -/
theorem exists_of_mem_order {out : List Message} (h : out.filter (fun m => !isTool m) =
    (messages.filter fun m => !isTool m).map sanitizeMessage) {m : AiMessage}
    (hm : .ai m ∈ out) : ∃ m', .ai m' ∈ messages ∧ m = sanitizeAiMessageToolNames m' := by
  have hmem : Message.ai m ∈ out.filter fun m => !isTool m := List.mem_filter.mpr ⟨hm, rfl⟩
  rw [h] at hmem
  obtain ⟨m', hm', heq⟩ := List.mem_map.mp hmem
  cases m' with
  | ai m' =>
    refine ⟨m', List.mem_of_mem_filter hm', ?_⟩
    exact (Message.ai.inj heq).symm
  | tool t | other content => cases heq

theorem messageToolCalls_of_toolCallIds {ids : List Value} (h : toolCallIds messages = some ids) :
    ∀ m, .ai m ∈ messages → ∃ calls, messageToolCalls m = some calls := by
  induction messages generalizing ids with
  | nil =>
    intro m hm
    cases hm
  | cons x messages ih =>
    intro m hm
    cases x with
    | ai x =>
      obtain ⟨calls, hcalls, hrest⟩ := Option.bind_eq_some_iff.mp h
      dsimp only at hrest
      split_ifs at hrest
      obtain ⟨ids', hids', -⟩ := Option.map_eq_some_iff.mp hrest
      rcases List.mem_cons.mp hm with heq | hm
      · obtain rfl := Message.ai.inj heq
        exact ⟨calls, hcalls⟩
      · exact ih hids' m hm
    | tool t | other content =>
      rcases List.mem_cons.mp hm with heq | hm
      · cases heq
      · exact ih h m hm

/-- The transcript that is sent is well formed, and the middleware leaves it as it is. -/
def Holds (messages : List Message) : Prop :=
  ∃ out, modelBound str messages = some out ∧ WellFormed messages out ∧
    modelBound str out = some out

theorem holds_of_stringIds (h : StringIds messages) : Holds str messages := by
  have hblocks := modelBound_eq str h
  have hsettled := settled_blocksOf str h (fun id hid => hid)
    (sorted_gather (toolMessages messages))
  have horder := @filter_blocksOf str (allCallIds messages)
    (gather ToolMessage.toolCallId (toolMessages messages)) messages
  generalize blocksOf str (allCallIds messages)
    (gather ToolMessage.toolCallId (toolMessages messages)) messages = blocks at *
  have hids : allCallIds (blocks.flatMap Block.messages) = allCallIds messages := by
    have hfilter : StringIds (messages.filter fun m => !isTool m) :=
      fun m hm => h m (List.mem_of_mem_filter hm)
    rw [← allCallIds_filter, horder, allCallIds_map_sanitize hfilter, allCallIds_filter]
  have hstrings : StringIds (blocks.flatMap Block.messages) := by
    intro m hm
    obtain ⟨m', hm', rfl⟩ := exists_of_mem_order horder hm
    obtain ⟨calls, hcalls, hstrings⟩ := h m' hm'
    obtain ⟨calls', hcalls', hrepaired⟩ := messageToolCalls_sanitize hcalls
    exact ⟨calls', hcalls', hstrings.repaired hrepaired⟩
  refine ⟨_, hblocks, ⟨⟨blocks, rfl, ?_⟩, horder⟩, ?_⟩
  · intro b hb
    rw [hids]
    have hb := hsettled b hb
    cases b with
    | ai m results =>
      obtain ⟨-, calls, hcalls, hstrings, -, hresults, -⟩ := hb
      have htexts : results.map (fun t => Value.str t.toolCallId) =
          (results.map ToolMessage.toolCallId).map Value.str := by
        rw [List.map_map]
        rfl
      show results.map (fun t => Value.str t.toolCallId) = callIds m
      rw [htexts, hresults, callIds_eq_asking hcalls hstrings]
    | tool t => exact hb
    | other content => trivial
  · rw [modelBound_eq str hstrings, hids]
    rw [blocksOf_settled str hsettled]
    intro id hid
    exact gather_toolMessages hsettled hid

theorem stringIds_of_holds (h : Holds str messages) : StringIds messages := by
  obtain ⟨out, hout, ⟨⟨blocks, rfl, hpaired⟩, horder⟩, -⟩ := h
  intro m hm
  obtain ⟨patched, hpatched, -⟩ := Option.map_eq_some_iff.mp hout
  obtain ⟨ids, hids, -⟩ := Option.bind_eq_some_iff.mp hpatched
  obtain ⟨calls, hcalls⟩ := messageToolCalls_of_toolCallIds hids m hm
  refine ⟨calls, hcalls, ?_⟩
  have hmem : Message.ai (sanitizeAiMessageToolNames m) ∈ blocks.flatMap Block.messages := by
    have hfilter : Message.ai (sanitizeAiMessageToolNames m) ∈
        (messages.filter fun m => !isTool m).map sanitizeMessage :=
      List.mem_map.mpr ⟨.ai m, List.mem_filter.mpr ⟨hm, rfl⟩, rfl⟩
    rw [← horder] at hfilter
    exact List.mem_of_mem_filter hfilter
  obtain ⟨b, hb, hmb⟩ := List.mem_flatMap.mp hmem
  have hb := hpaired b hb
  intro c hc htruthy
  have hid : callId c ∈ callIds m := by
    rw [callIds_eq hcalls]
    exact List.mem_filter.mpr ⟨List.mem_map_of_mem hc, htruthy⟩
  cases b with
  | ai m' results =>
    rcases List.mem_cons.mp hmb with heq | hresult
    · obtain rfl := Message.ai.inj heq
      have hpaired : results.map (fun t => Value.str t.toolCallId) =
          callIds (sanitizeAiMessageToolNames m) := hb
      rw [← callIds_sanitize hcalls, ← hpaired] at hid
      obtain ⟨t, -, ht⟩ := List.mem_map.mp hid
      exact ⟨t.toolCallId, ht.symm⟩
    · obtain ⟨t, -, heq⟩ := List.mem_map.mp hresult
      cases heq
  | tool t | other content => cases List.mem_singleton.mp hmb

/-- The transcript is put in order exactly when every id of a call is a string or empty. -/
theorem transcripts_paired_iff (str : Value → String) (messages : List Message) :
    Holds str messages ↔ StringIds messages :=
  ⟨stringIds_of_holds str, holds_of_stringIds str⟩

/-- A raw call with a number for its id: its result keeps the id as text. -/
theorem numbered_call_unpaired : ¬ ∀ str messages, Holds str messages := by
  intro hall
  have hstrings := stringIds_of_holds _ (hall (fun _ => "7") [.ai ⟨.str "", [],
    [("tool_calls", .list [.dict [("id", .int 7), ("name", .str "bash")]])], []⟩])
  obtain ⟨calls, hcalls, hids⟩ := hstrings _ List.mem_cons_self
  have hcall : messageToolCalls ⟨.str "", [], [("tool_calls", .list [.dict [("id", .int 7),
      ("name", .str "bash")]])], []⟩ =
        some [[("id", .int 7), ("name", .str "bash")]] := by decide +kernel
  rw [hcall] at hcalls
  obtain rfl := Option.some.inj hcalls
  obtain ⟨id, hid⟩ := hids _ List.mem_cons_self (by decide)
  cases hid

end Main

end DeerFlow.Middlewares.DanglingToolCalls
