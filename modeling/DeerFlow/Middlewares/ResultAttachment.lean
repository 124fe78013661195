import DeerFlow.Middlewares.TranscriptPairing

/-! Which call a result is put behind. The results of an id are served in their order to
the calls of that id in theirs, so a result stays with its message exactly as long as no
earlier call with the same id is still waiting for one. -/

namespace DeerFlow.Middlewares.DanglingToolCalls
open KeyedQueues

/-- How many results with the id there are. -/
def resultCount (messages : List Message) (id : String) : Nat :=
  ((toolMessages messages).map ToolMessage.toolCallId).count id

/-- How many calls with the id there are. -/
def callCount (messages : List Message) (id : String) : Nat :=
  (allCallIds messages).count (.str id)

/-- In what is sent to the model, the result stands directly behind the message `m` that comes
after `before`; only the name of the result may be repaired. -/
def StandsBehind (out before : List Message) (m : AiMessage) (t : ToolMessage) : Prop :=
  ∃ (outBefore : List Message) (results : List ToolMessage) (outRest : List Message),
    out = outBefore ++ .ai (sanitizeAiMessageToolNames m) :: (results.map .tool ++ outRest) ∧
    outBefore.filter (fun m => !isTool m) = (before.filter fun m => !isTool m).map sanitizeMessage ∧
    ∃ c ∈ (messageToolCalls m).getD [], callId c = .str t.toolCallId ∧ renameResult c t ∈ results

section Calls
variable {str : Value → String} {queues : ToolQueues} {id : String} {calls : List (Dict Value)}

theorem pending_popResult (queues : ToolQueues) (value : Value) (id : String) :
    pending (popResult queues value).2 id =
      if value = .str id then (pending queues id).tail else pending queues id := by
  cases value with
  | str other =>
    rw [(popResult_str queues other).2, take]
    by_cases h : other = id
    · subst h
      rw [Function.update_self, if_pos rfl]
    · rw [Function.update_of_ne (Ne.symm h), if_neg (by simpa using h)]
  | _ => rfl

def askedIds (calls : List (Dict Value)) : List Value := (calls.map callId).filter Value.truthy

theorem pending_patchCalls :
    pending (patchCalls str queues calls).1 id =
      (pending queues id).drop ((askedIds calls).count (.str id)) := by
  induction calls generalizing queues with
  | nil => rfl
  | cons call calls ih =>
    rw [patchCalls]
    by_cases htruthy : (callId call).truthy = true
    · have hasked : askedIds (call :: calls) = callId call :: askedIds calls := by
        simp [askedIds, htruthy]
      rw [if_pos htruthy, hasked, List.count_cons]
      show pending (patchCalls str (popResult queues (callId call)).2 calls).1 id = _
      rw [ih, pending_popResult]
      by_cases hid : callId call = .str id
      · simp [hid, List.drop_tail]
      · simp [hid]
    · have hasked : askedIds (call :: calls) = askedIds calls := by
        simp [askedIds, htruthy]
      rw [if_neg htruthy, hasked]
      exact ih

/-- A result that is reached in its queue is given to a call of the message. -/
theorem mem_patchCalls {n : Nat} {t : ToolMessage} (ht : (pending queues id)[n]? = some t)
    (hn : n < (askedIds calls).count (.str id)) :
    ∃ c ∈ calls, callId c = .str id ∧ renameResult c t ∈ (patchCalls str queues calls).2 := by
  induction calls generalizing queues n with
  | nil => cases hn
  | cons call calls ih =>
    rw [patchCalls]
    by_cases htruthy : (callId call).truthy = true
    · have hasked : askedIds (call :: calls) = callId call :: askedIds calls := by
        simp [askedIds, htruthy]
      rw [if_pos htruthy]
      rw [hasked, List.count_cons] at hn
      show ∃ c ∈ call :: calls, callId c = .str id ∧ renameResult c t ∈
        _ :: (patchCalls str (popResult queues (callId call)).2 calls).2
      by_cases hid : callId call = .str id
      · cases n with
        | zero =>
          refine ⟨call, List.mem_cons_self, hid, ?_⟩
          have hhead : (popResult queues (callId call)).1 = some t := by
            rw [hid, (popResult_str queues id).1, List.head?_eq_getElem?, ht]
          rw [hhead]
          exact List.mem_cons_self
        | succ n =>
          have htail : (pending (popResult queues (callId call)).2 id)[n]? = some t := by
            rw [pending_popResult, if_pos hid, List.getElem?_tail, ht]
          have hn' : n < (askedIds calls).count (.str id) := by
            simp only [hid, beq_self_eq_true, if_true] at hn
            omega
          obtain ⟨c, hc, hcid, hmem⟩ := ih htail hn'
          exact ⟨c, List.mem_cons_of_mem _ hc, hcid, List.mem_cons_of_mem _ hmem⟩
      · have hsame : (pending (popResult queues (callId call)).2 id)[n]? = some t := by
          rw [pending_popResult, if_neg hid, ht]
        have hn' : n < (askedIds calls).count (.str id) := by simpa [hid] using hn
        obtain ⟨c, hc, hcid, hmem⟩ := ih hsame hn'
        exact ⟨c, List.mem_cons_of_mem _ hc, hcid, List.mem_cons_of_mem _ hmem⟩
    · have hasked : askedIds (call :: calls) = askedIds calls := by
        simp [askedIds, htruthy]
      rw [if_neg htruthy]
      rw [hasked] at hn
      obtain ⟨c, hc, hcid, hmem⟩ := ih ht hn
      exact ⟨c, List.mem_cons_of_mem _ hc, hcid, hmem⟩

end Calls

section Transcript
variable {str : Value → String} {ids : List Value} {queues : ToolQueues}

theorem callIds_eq_askedIds {m : AiMessage} {calls : List (Dict Value)}
    (h : messageToolCalls m = some calls) : callIds m = askedIds calls := callIds_eq h

theorem patchMessages_append {before rest out : List Message}
    (h : patchMessages str ids queues (before ++ rest) = some out) :
    ∃ outBefore outRest queues', out = outBefore ++ outRest ∧
      patchMessages str ids queues' rest = some outRest ∧
      (∀ id, pending queues' id = (pending queues id).drop (callCount before id)) ∧
      outBefore.filter (fun m => !isTool m) =
        (before.filter fun m => !isTool m).map sanitizeMessage := by
  induction before generalizing queues out with
  | nil => exact ⟨[], out, queues, rfl, h, fun _ => rfl, rfl⟩
  | cons x before ih =>
    cases x with
    | ai m =>
      obtain ⟨calls, hcalls, h⟩ := Option.bind_eq_some_iff.mp h
      obtain ⟨later, hlater, rfl⟩ := Option.map_eq_some_iff.mp h
      obtain ⟨outBefore, outRest, queues', rfl, hrest, hpending, hfilter⟩ := ih hlater
      refine ⟨.ai (sanitizeAiMessageToolNames m) ::
        ((patchCalls str queues calls).2.map .tool ++ outBefore), outRest, queues', ?_, hrest, ?_,
        ?_⟩
      · simp
      · intro id
        rw [hpending, pending_patchCalls, List.drop_drop]
        have hcount : callCount (.ai m :: before) id =
            (askedIds calls).count (.str id) + callCount before id := by
          simp [callCount, allCallIds, callIds_eq_askedIds hcalls]
        rw [hcount]
      · have hresults : ((patchCalls str queues calls).2.map Message.tool).filter
            (fun m => !isTool m) = [] := by
          simp [List.filter_eq_nil_iff]
        simp [hresults, hfilter, sanitizeMessage]
    | tool t =>
      rw [List.cons_append, patchMessages] at h
      split_ifs at h
      · obtain ⟨outBefore, outRest, queues', rfl, hrest, hpending, hfilter⟩ := ih h
        exact ⟨outBefore, outRest, queues', rfl, hrest, hpending, by simpa using hfilter⟩
      · obtain ⟨later, hlater, rfl⟩ := Option.map_eq_some_iff.mp h
        obtain ⟨outBefore, outRest, queues', rfl, hrest, hpending, hfilter⟩ := ih hlater
        exact ⟨.tool t :: outBefore, outRest, queues', rfl, hrest, hpending, by simpa using hfilter⟩
    | other content =>
      obtain ⟨later, hlater, rfl⟩ := Option.map_eq_some_iff.mp h
      obtain ⟨outBefore, outRest, queues', rfl, hrest, hpending, hfilter⟩ := ih hlater
      exact ⟨.other content :: outBefore, outRest, queues', rfl, hrest, hpending,
        by simpa [sanitizeMessage] using hfilter⟩

theorem patchMessages_of_modelBound {messages out : List Message}
    (h : modelBound str messages = some out) :
    ∃ ids, patchMessages str ids (toolMessagesById messages) messages = some out := by
  obtain ⟨built, hbuilt, rfl⟩ := Option.map_eq_some_iff.mp h
  obtain ⟨ids, -, hpatched⟩ := Option.bind_eq_some_iff.mp hbuilt
  obtain ⟨patched, hids, rfl⟩ := Option.map_eq_some_iff.mp hpatched
  refine ⟨ids, hids.trans (congrArg some ?_)⟩
  split_ifs with hsame
  · rw [hsame, Option.getD_none]
  · rw [Option.getD_some]

theorem toolMessages_append (xs ys : List Message) :
    toolMessages (xs ++ ys) = toolMessages xs ++ toolMessages ys := List.filterMap_append

theorem callCount_append (xs ys : List Message) (id : String) :
    callCount (xs ++ ys) id = callCount xs id + callCount ys id := by
  rw [callCount, allCallIds, List.flatMap_append, List.count_append]
  rfl

/-- A result has as many results before it in its queue as in the transcript. -/
theorem pending_getElem? (earlier later : List Message) (t : ToolMessage) :
    (pending (toolMessagesById (earlier ++ .tool t :: later)) t.toolCallId)[
      resultCount earlier t.toolCallId]? = some t := by
  have hlength : resultCount earlier t.toolCallId =
      (gather ToolMessage.toolCallId (toolMessages earlier) t.toolCallId).length := by
    rw [resultCount, gather, List.count_eq_countP, List.countP_map, List.countP_eq_length_filter]
    congr 2
  have htool : toolMessages (.tool t :: later) = t :: toolMessages later := rfl
  rw [pending_toolMessagesById, toolMessages_append, htool, hlength]
  simp [gather]

/-- The result of a number goes to the call of that number. -/
theorem standsBehind_of_count {before earlier rest later out : List Message} {m : AiMessage}
    {t : ToolMessage} (h : modelBound str (earlier ++ .tool t :: later) = some out)
    (hsplit : earlier ++ .tool t :: later = before ++ .ai m :: rest)
    (hbefore : callCount before t.toolCallId ≤ resultCount earlier t.toolCallId)
    (hm : resultCount earlier t.toolCallId < callCount (before ++ [.ai m]) t.toolCallId) :
    StandsBehind out before m t := by
  have hqueue := pending_getElem? earlier later t
  obtain ⟨ids, hpatched⟩ := patchMessages_of_modelBound h
  generalize toolMessagesById (earlier ++ .tool t :: later) = queues at hqueue hpatched
  rw [hsplit] at hpatched
  obtain ⟨outBefore, outRest, queues', rfl, hrest, hpending, hfilter⟩ :=
    patchMessages_append hpatched
  obtain ⟨calls, hcalls, hrest⟩ := Option.bind_eq_some_iff.mp hrest
  obtain ⟨later', -, rfl⟩ := Option.map_eq_some_iff.mp hrest
  have hreached : (pending queues' t.toolCallId)[resultCount earlier t.toolCallId -
      callCount before t.toolCallId]? = some t := by
    rw [hpending, List.getElem?_drop, Nat.add_sub_cancel' hbefore]
    exact hqueue
  have hcount : callCount [.ai m] t.toolCallId = (askedIds calls).count (.str t.toolCallId) := by
    simp [callCount, allCallIds, callIds_eq_askedIds hcalls]
  rw [callCount_append, hcount] at hm
  have hn : resultCount earlier t.toolCallId - callCount before t.toolCallId <
      (askedIds calls).count (.str t.toolCallId) := by omega
  have hgiven : ∃ c ∈ calls, callId c = .str t.toolCallId ∧
      renameResult c t ∈ (patchCalls str queues' calls).2 := mem_patchCalls hreached hn
  obtain ⟨c, hc, hid, hmem⟩ := hgiven
  have hcalls' : c ∈ (messageToolCalls m).getD [] := by rwa [hcalls, Option.getD_some]
  exact ⟨outBefore, _, later', rfl, hfilter, c, hcalls', hid, hmem⟩

theorem exists_caller {messages : List Message} {id : String} {n : Nat}
    (h : n < callCount messages id) :
    ∃ before m rest, messages = before ++ .ai m :: rest ∧ callCount before id ≤ n ∧
      n < callCount (before ++ [.ai m]) id := by
  induction messages using List.reverseRecOn with
  | nil => cases h
  | append_singleton front x ih =>
    by_cases hfront : n < callCount front id
    · obtain ⟨before, m, rest, rfl, hbefore, hm⟩ := ih hfront
      exact ⟨before, m, rest ++ [x], by simp, hbefore, hm⟩
    · cases x with
      | ai m => exact ⟨front, m, [], rfl, not_lt.mp hfront, h⟩
      | tool t | other content =>
        rw [callCount_append] at h
        exact absurd h hfront

end Transcript

/-- The `n`-th result of an id goes to the message that makes the `n`-th call with it. So a result in
the block of a message that made its call stays there while no earlier call waits for it, and as
many results of an id are kept as there are calls for them. -/
theorem results_attached_in_order (str : Value → String) (messages out : List Message)
    (h : modelBound str messages = some out) :
    (∀ (earlier : List Message) (t : ToolMessage) (later before : List Message) (m : AiMessage)
      (rest : List Message), messages = earlier ++ .tool t :: later →
      messages = before ++ .ai m :: rest →
      callCount before t.toolCallId ≤ resultCount earlier t.toolCallId →
      resultCount earlier t.toolCallId < callCount (before ++ [.ai m]) t.toolCallId →
      StandsBehind out before m t) ∧
    (∀ (before : List Message) (m : AiMessage) (front : List ToolMessage) (t : ToolMessage)
      (rest : List Message), messages = before ++ .ai m :: (front.map .tool ++ .tool t :: rest) →
      callCount before t.toolCallId ≤
        resultCount (before ++ .ai m :: front.map .tool) t.toolCallId →
      resultCount (before ++ .ai m :: front.map .tool) t.toolCallId <
        callCount (before ++ [.ai m]) t.toolCallId → StandsBehind out before m t) ∧
    ∀ earlier t later, messages = earlier ++ .tool t :: later →
      resultCount earlier t.toolCallId < callCount messages t.toolCallId →
      ∃ before m rest, messages = before ++ .ai m :: rest ∧ StandsBehind out before m t := by
  refine ⟨?_, ?_, ?_⟩
  · rintro earlier t later before m rest rfl hcaller hbefore hm
    exact standsBehind_of_count h hcaller hbefore hm
  · intro before m front t rest hmessages hbefore hm
    have hsplit : messages = (before ++ .ai m :: front.map .tool) ++ .tool t :: rest := by
      simp [hmessages]
    rw [hsplit] at h
    exact standsBehind_of_count h (hsplit.symm.trans hmessages) hbefore hm
  · rintro earlier t later rfl hcount
    obtain ⟨before, m, rest, hsplit, hbefore, hm⟩ := exists_caller hcount
    exact ⟨before, m, rest, hsplit, standsBehind_of_count h hsplit hbefore hm⟩

namespace AttachmentExample

def caller : AiMessage := ⟨.str "", [.dict [("id", .str "a"), ("name", .str "bash")]], [], []⟩

def result : ToolMessage := ⟨.str "done", "a", .str "bash", "success"⟩

end AttachmentExample

open AttachmentExample in
theorem answered_call_keeps_result : StandsBehind [.ai caller, .tool result] [] caller result :=
  (results_attached_in_order (fun _ => "") [.ai caller, .tool result] _ (by decide +kernel)).2.1
    [] caller [] result [] rfl (by decide +kernel) (by decide +kernel)

open AttachmentExample in
/-- The result of a second call with the same id goes to the first, which has none. -/
theorem reused_id_moves_result :
    ¬ ∀ str messages out, modelBound str messages = some out →
      ∀ (before : List Message) (m : AiMessage) (front : List ToolMessage) (t : ToolMessage)
        (rest : List Message), messages = before ++ .ai m :: (front.map .tool ++ .tool t :: rest) →
        .str t.toolCallId ∈ callIds m → StandsBehind out before m t := by
  intro hall
  obtain ⟨outBefore, results, outRest, hout, hfilter, c, -, -, hmem⟩ :=
    hall (fun _ => "") [.ai caller, .ai caller, .tool result]
      [.ai caller, .tool result, .ai caller, .tool ⟨.str
        "[Tool call was interrupted and did not return a result.]", "a", .str "bash", "error"⟩]
      (by decide +kernel) [.ai caller] caller [] result [] rfl (by decide +kernel)
  match outBefore with
  | [] => cases hfilter
  | [x] => simp at hout
  | [x, y] =>
    simp only [List.cons_append, List.nil_append, List.cons.injEq] at hout
    obtain ⟨-, -, -, hout⟩ := hout
    have hplaced : Message.tool (renameResult c result) ∈ results.map Message.tool ++ outRest :=
      List.mem_append_left _ (List.mem_map_of_mem hmem)
    rw [← hout, List.mem_singleton, Message.tool.injEq] at hplaced
    have hcontent : (renameResult c result).content = .str "done" := by
      unfold renameResult
      split_ifs <;> rfl
    rw [hplaced] at hcontent
    simp at hcontent
  | [x, y, z] => simp at hout
  | x :: y :: z :: w :: rest => simp at hout

end DeerFlow.Middlewares.DanglingToolCalls
