import DeerFlow.Subagents.StepCapture

/-! Which steps of a subagent are captured and reported. The cursor stays at the length of the
longest snapshot, so steps that come in below it after a compaction are passed over. -/

namespace DeerFlow.Subagents
open Transition

section Fold
variable {β : Type}

def stepIds (messages : List (StreamedMessage β)) : List String :=
  (messages.filter (·.isStep)).filterMap (·.id?)

theorem stepIds_append (ms ns : List (StreamedMessage β)) :
    stepIds (ms ++ ns) = stepIds ms ++ stepIds ns := by
  rw [stepIds, List.filter_append, List.filterMap_append]
  rfl

theorem mem_stepIds {ms : List (StreamedMessage β)} {id : String} :
    id ∈ stepIds ms ↔ ∃ m ∈ ms, m.isStep = true ∧ m.id? = some id := by
  simp only [stepIds, List.mem_filterMap, List.mem_filter, and_assoc]

variable [DecidableEq β] {c : Captured β} {ids : List String} {m : StreamedMessage β}
  {ms : List (StreamedMessage β)}

/-- The messages captured are those with the given ids, and these ids are known. -/
structure Holds (c : Captured β) (ids : List String) : Prop where
  listed : c.messages.map (·.id?) = ids.map some
  seen : ∀ id, id ∈ c.seenIds ↔ id ∈ ids

theorem Holds.captureStepMessage (h : Holds c ids) (hm : m.id?.isSome = true)
    (hnodup : ids.Nodup) :
    Holds (captureStepMessage c m) (ids ++ stepIds [m]).eraseDups := by
  obtain ⟨id, hid⟩ := Option.isSome_iff_exists.mp hm
  unfold Subagents.captureStepMessage
  by_cases hstep : m.isStep = true
  · have hids : stepIds [m] = [id] := by simp [stepIds, hstep, hid]
    rw [if_neg (by simp [hstep]), hid, hids]
    by_cases hseen : id ∈ ids
    · rw [eraseDups_append_of_subset (by simpa using hseen), eraseDups_of_nodup hnodup]
      simp only [if_pos ((h.seen id).mpr hseen)]
      exact h
    · rw [eraseDups_append_singleton hseen, eraseDups_of_nodup hnodup]
      simp only [if_neg ((h.seen id).not.mpr hseen)]
      refine ⟨?_, fun x => ?_⟩
      · rw [List.map_append, List.map_append, h.listed, List.map_singleton, List.map_singleton, hid]
      · rw [Finset.mem_insert, h.seen, List.mem_append, List.mem_singleton, or_comm]
  · have hids : stepIds [m] = [] := by simp [stepIds, hstep]
    rw [if_pos (by simp [hstep]), hids, List.append_nil, eraseDups_of_nodup hnodup]
    exact h

theorem Holds.foldl (h : Holds c ids) (hnodup : ids.Nodup)
    (hms : ∀ m ∈ ms, m.id?.isSome = true) :
    Holds (ms.foldl Subagents.captureStepMessage c) (ids ++ stepIds ms).eraseDups := by
  induction ms generalizing c ids with
  | nil =>
    rw [List.foldl_nil, stepIds, List.filter_nil, List.filterMap_nil, List.append_nil,
      eraseDups_of_nodup hnodup]
    exact h
  | cons m ms ih =>
    have hfirst := h.captureStepMessage (hms m (List.mem_cons_self ..)) hnodup
    have hrest := ih hfirst (nodup_eraseDups _) fun x hx => hms x (List.mem_cons_of_mem _ hx)
    rw [eraseDups_eraseDups_append, List.append_assoc, ← stepIds_append,
      List.singleton_append] at hrest
    exact hrest

/-- The messages that are looked at: those from the cursor on, or the last one. -/
theorem captureNewStepMessages_eq (messages : List (StreamedMessage β)) (c : Captured β)
    (processedCount : Nat) :
    captureNewStepMessages messages c processedCount =
      ((messages.drop (min processedCount (messages.length - 1))).foldl
        Subagents.captureStepMessage c, max processedCount messages.length) := by
  unfold captureNewStepMessages
  by_cases hgrown : processedCount < messages.length
  · rw [if_pos hgrown, min_eq_left (by omega), max_eq_right hgrown.le]
  · rw [if_neg hgrown, min_eq_right (by omega)]
    rcases List.eq_nil_or_concat messages with rfl | ⟨init, last, rfl⟩
    · rfl
    · rw [List.concat_eq_append, List.getLast?_concat, List.length_append, List.length_singleton,
        Nat.add_sub_cancel, List.drop_left]
      rfl

theorem captureStepMessage_extends (c : Captured β) (m : StreamedMessage β) :
    c.messages <+: (captureStepMessage c m).messages := by
  unfold captureStepMessage
  split
  · exact List.prefix_rfl
  · split
    · split_ifs
      · exact List.prefix_rfl
      · exact List.prefix_append ..
    · split_ifs
      · exact List.prefix_rfl
      · exact List.prefix_append ..

theorem foldl_captureStepMessage_extends (c : Captured β) (ms : List (StreamedMessage β)) :
    c.messages <+: (ms.foldl captureStepMessage c).messages := by
  induction ms generalizing c with
  | nil => exact List.prefix_rfl
  | cons m ms ih => exact (captureStepMessage_extends c m).trans (ih _)

end Fold

namespace StepRun
variable {β : Type} [DecidableEq β] {s t : StepRun β}

/-- The ids of the steps that some snapshot showed. -/
def shown (s : StepRun β) : List String := stepIds s.streamed.flatten

def longest (s : StepRun β) : Nat := (s.streamed.map (·.length)).foldl max 0

/-- Every step that was shown is captured once, in the order in which they were first shown, and
there is one event for each with consecutive indexes: for the first ones while the polling goes on,
and for all when it is over. -/
structure CapturedOnce (s : StepRun β) : Prop where
  captured : s.captured.messages.map (·.id?) = s.shown.eraseDups.map some
  running : s.events.map (fun e => (e.message, e.messageIndex)) =
    (s.captured.messages.zipIdx 1).take s.events.length
  reported : s.poller = .returned → s.events.length = s.captured.messages.length

/-- A step that was not shown before comes in below the length of the longest snapshot so far and is
not the last message, or it comes in when the polling is over, or the polling ends when something
was captured since its last look at the messages. -/
def Misses (s : StepRun β) : StepEvent β → Prop
  | .chunk move =>
    let messages := move.apply s.messages
    (∃ id ∈ stepIds (messages.take (min s.longest (messages.length - 1))), id ∉ s.shown) ∨
      s.poller = .returned ∧ ∃ id ∈ stepIds messages, id ∉ s.shown
  | .readStatus => s.terminal = true ∧ s.lastMessageCount < s.captured.messages.length
  | .leave => s.lastMessageCount < s.captured.messages.length
  | .finish | .timeOut | .readMessages | .wake => False

instance (s : StepRun β) (event : StepEvent β) : Decidable (s.Misses event) := by
  cases event <;> unfold Misses <;> infer_instance

/-- What holds in every run: the cursor is at the length of the longest snapshot, and the events are
those of the first captured messages. -/
structure Polled (s : StepRun β) : Prop where
  cursor : s.processedCount = s.longest
  count : s.lastMessageCount ≤ s.captured.messages.length
  length : s.events.length = s.lastMessageCount
  running : s.events.map (fun e => (e.message, e.messageIndex)) =
    (s.captured.messages.zipIdx 1).take s.lastMessageCount

theorem longest_chunk (s : StepRun β) (messages : List (StreamedMessage β)) :
    (s.chunk messages).longest = max s.longest messages.length := by
  unfold longest chunk
  rw [List.map_append, List.foldl_append]
  rfl

theorem shown_chunk (s : StepRun β) (messages : List (StreamedMessage β)) :
    (s.chunk messages).shown = s.shown ++ stepIds messages := by
  unfold shown chunk
  rw [List.flatten_append, stepIds_append, List.flatten_singleton]

theorem captured_chunk_extends (s : StepRun β) (messages : List (StreamedMessage β)) :
    s.captured.messages <+: (s.chunk messages).captured.messages := by
  unfold chunk
  rw [captureNewStepMessages_eq]
  exact foldl_captureStepMessage_extends ..

theorem take_zipIdx_of_extends {α : Type*} {xs ys : List α} {n : Nat} (h : xs <+: ys)
    (hn : n ≤ xs.length) : (ys.zipIdx 1).take n = (xs.zipIdx 1).take n := by
  obtain ⟨zs, rfl⟩ := h
  rw [List.zipIdx_append, List.take_append_of_le_length (by rwa [List.length_zipIdx])]

theorem drop_zipIdx {α : Type*} {xs : List α} {n : Nat} (hn : n ≤ xs.length) :
    (xs.zipIdx 1).drop n = (xs.drop n).zipIdx (n + 1) := by
  have hsplit : xs.zipIdx 1 =
      (xs.take n).zipIdx 1 ++ (xs.drop n).zipIdx (1 + (xs.take n).length) := by
    rw [← List.zipIdx_append, List.take_append_drop]
  have hlength : (xs.take n).length = n := by rw [List.length_take, min_eq_left hn]
  rw [hsplit, List.drop_append_of_le_length (by rw [List.length_zipIdx, hlength]),
    List.drop_of_length_le (by rw [List.length_zipIdx, hlength]), hlength, List.nil_append,
    Nat.add_comm]

theorem Polled.chunk (h : s.Polled) (messages : List (StreamedMessage β)) :
    (s.chunk messages).Polled := by
  have hprefix := s.captured_chunk_extends messages
  refine ⟨?_, h.count.trans hprefix.length_le, h.length, ?_⟩
  · rw [longest_chunk, ← h.cursor]
    change (captureNewStepMessages _ _ _).2 = _
    rw [captureNewStepMessages_eq]
  · exact h.running.trans (take_zipIdx_of_extends hprefix h.count).symm

omit [DecidableEq β] in
theorem Polled.emit (h : s.Polled) : s.emit.Polled := by
  have hmax : max s.lastMessageCount s.captured.messages.length = s.captured.messages.length :=
    max_eq_right h.count
  have hlength := h.length
  have hcount := h.count
  refine ⟨h.cursor, ?_, ?_, ?_⟩
  · exact hmax.le
  · change (s.events ++ _).length = max _ _
    rw [hmax, List.length_append, List.length_map, List.length_zipIdx, List.length_drop]
    omega
  · change (s.events ++ _).map _ = (s.captured.messages.zipIdx 1).take (max _ _)
    rw [hmax, List.take_of_length_le (by rw [List.length_zipIdx]), List.map_append, h.running,
      List.map_map]
    conv_rhs => rw [← List.take_append_drop s.lastMessageCount (s.captured.messages.zipIdx 1)]
    congr 1
    have hindex := List.map_snd_add_zipIdx_eq_zipIdx (n := 1)
      (l := s.captured.messages.drop s.lastMessageCount) (k := s.lastMessageCount)
    rw [drop_zipIdx h.count, Nat.add_comm, ← hindex]
    rfl

theorem polled_of_any (h : Reachable (anySubagentRun β) s) : s.Polled := by
  refine h.invariant ?_ ?_
  · rintro s rfl
    exact ⟨rfl, Nat.zero_le _, rfl, rfl⟩
  · intro s event t _ hs ht
    change s.anyStep event = some t at ht
    cases event with
    | chunk move =>
      obtain ⟨-, ht⟩ := Option.ite_none_right_eq_some.mp ht
      cases ht
      exact hs.chunk _
    | finish | readStatus | wake | leave =>
      obtain ⟨-, ht⟩ := Option.ite_none_right_eq_some.mp ht
      cases ht
      exact ⟨hs.cursor, hs.count, hs.length, hs.running⟩
    | timeOut =>
      cases ht
      exact ⟨hs.cursor, hs.count, hs.length, hs.running⟩
    | readMessages =>
      obtain ⟨-, ht⟩ := Option.ite_none_right_eq_some.mp ht
      cases ht
      exact hs.emit

theorem anyStep_of_step {event : StepEvent β} (h : s.step event = some t) :
    s.anyStep event = some t := by
  cases event with
  | chunk move =>
    obtain ⟨⟨hstreaming, -⟩, h⟩ := Option.ite_none_right_eq_some.mp h
    exact (if_pos hstreaming).trans h
  | _ => exact h

theorem polled_of_reachable (h : Reachable (subagentRun β) s) : s.Polled :=
  polled_of_any (Reachable.of_ofFn rfl (fun _ _ _ => anyStep_of_step) h)

section Chunk
variable {messages : List (StreamedMessage β)}

def passed (s : StepRun β) (messages : List (StreamedMessage β)) : List String :=
  stepIds (messages.take (min s.longest (messages.length - 1)))

def lookedAt (s : StepRun β) (messages : List (StreamedMessage β)) : List String :=
  stepIds (messages.drop (min s.longest (messages.length - 1)))

omit [DecidableEq β] in
theorem stepIds_split (s : StepRun β) (messages : List (StreamedMessage β)) :
    stepIds messages = s.passed messages ++ s.lookedAt messages := by
  rw [passed, lookedAt, ← stepIds_append, List.take_append_drop]

omit [DecidableEq β] in
/-- A step that is passed over is not looked at further on. -/
theorem not_mem_lookedAt (hids : DistinctIds messages) {id : String}
    (hid : id ∈ s.passed messages) : id ∉ s.lookedAt messages := by
  intro hlater
  obtain ⟨m, hm, -, hmid⟩ := mem_stepIds.mp hid
  obtain ⟨n, hn, -, hnid⟩ := mem_stepIds.mp hlater
  have hnodup := hids.2
  rw [← List.take_append_drop (min s.longest (messages.length - 1)) messages, List.map_append,
    List.nodup_append] at hnodup
  exact hnodup.2.2 _ (List.mem_map_of_mem hm) _ (List.mem_map_of_mem hn) (hmid.trans hnid.symm)

/-- The ids that are captured after a chunk are those shown before and those it looks at. -/
theorem holds_chunk (hp : s.Polled) (h : Holds s.captured s.shown.eraseDups)
    (hids : DistinctIds messages) :
    Holds (s.chunk messages).captured (s.shown ++ s.lookedAt messages).eraseDups := by
  have hcaptured : (s.chunk messages).captured =
      (messages.drop (min s.longest (messages.length - 1))).foldl captureStepMessage
        s.captured := by
    change (captureNewStepMessages _ _ _).1 = _
    rw [captureNewStepMessages_eq, hp.cursor]
  have hlooked : ∀ m ∈ messages.drop (min s.longest (messages.length - 1)),
      m.id?.isSome = true := fun m hm => hids.1 m (List.mem_of_mem_drop hm)
  have hfold := h.foldl (nodup_eraseDups _) hlooked
  rw [eraseDups_eraseDups_append] at hfold
  rw [hcaptured]
  exact hfold

theorem holds_chunk_of_subset (hp : s.Polled) (h : Holds s.captured s.shown.eraseDups)
    (hids : DistinctIds messages) (hsubset : s.passed messages ⊆ s.shown) :
    Holds (s.chunk messages).captured (s.chunk messages).shown.eraseDups := by
  rw [shown_chunk, stepIds_split s, eraseDups_append_append_of_subset hsubset]
  exact holds_chunk hp h hids

/-- A chunk that is captured whole passes over no step that it shows first. -/
theorem passed_subset_of_captured (hp : s.Polled) (h : Holds s.captured s.shown.eraseDups)
    (hids : DistinctIds messages) (hall : (s.chunk messages).captured.messages.map (·.id?) =
      (s.chunk messages).shown.eraseDups.map some) : s.passed messages ⊆ s.shown := by
  intro id hid
  have hsame : (s.chunk messages).shown.eraseDups = (s.shown ++ s.lookedAt messages).eraseDups :=
    List.map_injective_iff.mpr (Option.some_injective _)
      (hall.symm.trans (holds_chunk hp h hids).listed)
  have hmem : id ∈ (s.chunk messages).shown.eraseDups := by
    rw [List.mem_eraseDups, shown_chunk, stepIds_split s]
    simp [hid]
  rw [hsame, List.mem_eraseDups, List.mem_append] at hmem
  exact hmem.resolve_right (not_mem_lookedAt hids hid)

end Chunk

structure Once (s : StepRun β) : Prop where
  holds : Holds s.captured s.shown.eraseDups
  reported : s.poller = .returned → s.lastMessageCount = s.captured.messages.length

omit [DecidableEq β] in
theorem Once.capturedOnce (h : s.Once) (hp : s.Polled) : s.CapturedOnce where
  captured := h.holds.listed
  running := by
    rw [hp.length]
    exact hp.running
  reported hreturned := hp.length.trans (h.reported hreturned)

theorem Once.chunk (h : s.Once) (hp : s.Polled) {move : SnapshotMove β}
    (hids : DistinctIds (move.apply s.messages)) (hmisses : ¬ s.Misses (.chunk move)) :
    (s.chunk (move.apply s.messages)).Once := by
  obtain ⟨hpassed, hlate⟩ := not_or.mp hmisses
  have hsubset : s.passed (move.apply s.messages) ⊆ s.shown := by
    intro id hid
    by_contra hnew
    exact hpassed ⟨id, hid, hnew⟩
  have hholds := holds_chunk_of_subset hp h.holds hids hsubset
  refine ⟨hholds, fun hreturned => ?_⟩
  have hold : stepIds (move.apply s.messages) ⊆ s.shown := by
    intro id hid
    by_contra hnew
    exact hlate ⟨hreturned, id, hid, hnew⟩
  have hsame : (s.chunk (move.apply s.messages)).shown.eraseDups = s.shown.eraseDups := by
    rw [shown_chunk, eraseDups_append_of_subset hold]
  have hlength := congrArg List.length (hholds.listed.trans (hsame ▸ h.holds.listed.symm))
  rw [List.length_map, List.length_map] at hlength
  rw [hlength]
  exact h.reported hreturned

theorem Once.step (h : s.Once) (hp : s.Polled) {event : StepEvent β}
    (hmisses : ¬ s.Misses event) (ht : s.step event = some t) : t.Once := by
  cases event with
  | chunk move =>
    obtain ⟨⟨-, hids⟩, ht⟩ := Option.ite_none_right_eq_some.mp ht
    cases ht
    exact h.chunk hp hids hmisses
  | finish =>
    obtain ⟨-, ht⟩ := Option.ite_none_right_eq_some.mp ht
    cases ht
    exact ⟨h.holds, h.reported⟩
  | timeOut =>
    cases ht
    exact ⟨h.holds, h.reported⟩
  | readMessages | wake =>
    obtain ⟨-, ht⟩ := Option.ite_none_right_eq_some.mp ht
    cases ht
    exact ⟨h.holds, nofun⟩
  | readStatus =>
    obtain ⟨-, ht⟩ := Option.ite_none_right_eq_some.mp ht
    cases ht
    refine ⟨h.holds, fun hreturned => ?_⟩
    by_cases hterminal : s.terminal = true
    · exact hp.count.antisymm (Nat.le_of_not_lt fun hlt => hmisses ⟨hterminal, hlt⟩)
    · simp [hterminal] at hreturned
  | leave =>
    obtain ⟨-, ht⟩ := Option.ite_none_right_eq_some.mp ht
    cases ht
    exact ⟨h.holds, fun _ => hp.count.antisymm (Nat.le_of_not_lt hmisses)⟩

/-- After a step that misses something, a step was lost or has no event. -/
theorem Once.not_capturedOnce (h : s.Once) (hp : s.Polled) {event : StepEvent β}
    (hmisses : s.Misses event) (ht : s.step event = some t) : ¬ t.CapturedOnce := by
  intro hall
  cases event with
  | chunk move =>
    obtain ⟨⟨-, hids⟩, ht⟩ := Option.ite_none_right_eq_some.mp ht
    cases ht
    rcases hmisses with ⟨id, hid, hnew⟩ | ⟨hreturned, id, hid, hnew⟩
    · exact hnew (passed_subset_of_captured hp h.holds hids hall.captured hid)
    · have hlength : s.captured.messages.length =
          (s.chunk (move.apply s.messages)).captured.messages.length := by
        rw [← h.reported hreturned, ← hp.length]
        exact hall.reported hreturned
      have hsame := (s.captured_chunk_extends (move.apply s.messages)).eq_of_length hlength
      have hlisted := h.holds.listed
      rw [hsame, hall.captured] at hlisted
      have hids := List.map_injective_iff.mpr (Option.some_injective _) hlisted
      apply hnew
      rw [← List.mem_eraseDups, ← hids, List.mem_eraseDups, shown_chunk]
      exact List.mem_append_right _ hid
  | readStatus =>
    obtain ⟨-, ht⟩ := Option.ite_none_right_eq_some.mp ht
    cases ht
    have hreported := hall.reported (if_pos hmisses.1)
    have hlength := hp.length
    have hlt := hmisses.2
    dsimp only at hreported
    omega
  | leave =>
    obtain ⟨-, ht⟩ := Option.ite_none_right_eq_some.mp ht
    cases ht
    have hreported := hall.reported rfl
    have hlength := hp.length
    have hlt : s.lastMessageCount < s.captured.messages.length := hmisses
    dsimp only at hreported
    omega
  | finish | timeOut | readMessages | wake => exact hmisses

/-- While nothing is missed, every step is captured and reported once; the first step that misses
something is the first after which this fails. -/
theorem steps_captured_once
    (h : Reachable ((subagentRun β).when fun s event => ¬ s.Misses event) s) :
    s.CapturedOnce ∧ ∀ event t, s.step event = some t → (t.CapturedOnce ↔ ¬ s.Misses event) := by
  have honce : s.Once := by
    refine h.invariant ?_ fun s event t hs hi ht => ?_
    · rintro s rfl
      exact ⟨⟨rfl, by simp [init, shown, stepIds]⟩, nofun⟩
    · exact hi.step (polled_of_reachable hs.of_when) ht.1 ht.2
  have hpolled := polled_of_reachable h.of_when
  refine ⟨honce.capturedOnce hpolled, fun event t ht => ⟨fun hall hmisses => ?_, fun hkept => ?_⟩⟩
  · exact honce.not_capturedOnce hpolled hmisses ht hall
  · have hstep : Reachable (subagentRun β) t := h.of_when.step ht
    exact (honce.step hpolled hkept ht).capturedOnce (polled_of_reachable hstep)

/-- In every run, whatever ids the messages have, the events are those of the first captured steps,
numbered from 1 without a gap. -/
theorem steps_reported_in_order (h : Reachable (anySubagentRun β) s) :
    s.events.length ≤ s.captured.messages.length ∧
      s.events.map (fun e => (e.message, e.messageIndex)) =
        (s.captured.messages.zipIdx 1).take s.events.length := by
  have hpolled := polled_of_any h
  rw [hpolled.length]
  exact ⟨hpolled.count, hpolled.running⟩

end StepRun

namespace StepScript

def human (id : String) : StreamedMessage Nat := ⟨.other, some id, 0⟩

def ai (id : String) : StreamedMessage Nat := ⟨.ai, some id, 0⟩

def tool (id : String) : StreamedMessage Nat := ⟨.tool, some id, 0⟩

/-- The history grows by several messages at once and is cut down to its last one. -/
def compacted : List (StepRun Nat → StepEvent Nat) :=
  [.chunk (.append [human "h", ai "a1"]), .readMessages, .readStatus,
    .chunk (.append [tool "t1", tool "t2", ai "a2"]), .wake, .readMessages, .readStatus,
    .chunk (.compact 4 [ai "a3"]), .finish, .wake, .readMessages, .readStatus].map
      fun event _ => event

def overtaken : List (StepRun Nat → StepEvent Nat) :=
  [.chunk (.append [human "h", ai "a1", tool "t1", ai "a2"]),
    .chunk (.compact 3 [ai "a3", tool "t3"]), .finish, .readMessages, .readStatus].map
      fun event _ => event

/-- Among new messages one has no id and two have the same. -/
def unidentified : List (StepRun Nat → StepEvent Nat) :=
  [.chunk (.append [human "h", ⟨.ai, none, 0⟩, tool "t1"]), .readMessages, .readStatus,
    .chunk (.append [tool "t1", ⟨.ai, none, 1⟩]), .wake, .readMessages].map fun event _ => event

end StepScript

theorem steps_captured_once_compacted :
    ∃ s, Reachable ((subagentRun Nat).when fun s event => ¬ s.Misses event) s ∧
      s.poller = .returned ∧ s.captured.messages.map (·.id) =
        [some "a1", some "t1", some "t2", some "a2", some "a3"] ∧
      s.events.map (·.messageIndex) = [1, 2, 3, 4, 5] ∧ s.CapturedOnce := by
  have hrun : (runScript (guarded (fun s event => ¬ StepRun.Misses s event) StepRun.step) .init
      StepScript.compacted).any (fun s => decide (s.poller = .returned ∧
        s.captured.messages.map (·.id) =
          [some "a1", some "t1", some "t2", some "a2", some "a3"] ∧
        s.events.map (·.messageIndex) = [1, 2, 3, 4, 5])) = true := by
    decide
  obtain ⟨s, hs, hreturned, hcaptured, hevents⟩ := exists_reachable_of_decide _ hrun
  exact ⟨s, when_of_guarded hs, hreturned, hcaptured, hevents,
    (StepRun.steps_captured_once (when_of_guarded hs)).1⟩

theorem steps_reported_in_order_unidentified :
    ∃ s, Reachable (anySubagentRun Nat) s ∧ s.events.map (·.messageIndex) = [1, 2, 3] ∧
      s.events.map (fun e => (e.message, e.messageIndex)) =
        (s.captured.messages.zipIdx 1).take s.events.length := by
  have hrun : (runScript StepRun.anyStep .init StepScript.unidentified).any (fun s =>
      decide (s.events.map (·.messageIndex) = [1, 2, 3])) = true := by
    decide
  obtain ⟨s, hs, h⟩ := exists_reachable_of_decide _ hrun
  exact ⟨s, hs, h, (StepRun.steps_reported_in_order hs).2⟩

/-- The assistant turn `a3` came in below the length of the history before the cut. -/
theorem step_below_cursor_lost :
    ∃ s, Reachable (subagentRun Nat) s ∧ s.streaming = false ∧ s.poller = .returned ∧
      s.messages = [StepScript.ai "a2", StepScript.ai "a3", StepScript.tool "t3"] ∧
      s.captured.messages.map (·.id) = [some "a1", some "t1", some "a2", some "t3"] ∧
      ¬ s.CapturedOnce := by
  have hrun : (runScript StepRun.step .init StepScript.overtaken).any (fun s =>
      decide (s.streaming = false ∧ s.poller = .returned ∧
        s.messages = [StepScript.ai "a2", StepScript.ai "a3", StepScript.tool "t3"] ∧
        s.captured.messages.map (·.id) = [some "a1", some "t1", some "a2", some "t3"] ∧
        s.captured.messages.map (·.id?) ≠ s.shown.eraseDups.map some)) = true := by
    decide
  obtain ⟨s, hs, hstreaming, hreturned, hmessages, hcaptured, hlost⟩ := exists_reachable_of_decide _ hrun
  exact ⟨s, hs, hstreaming, hreturned, hmessages, hcaptured, fun hall => hlost hall.captured⟩

end DeerFlow.Subagents
