import DeerFlow.Lib.Json
import DeerFlow.Runtime.Value

/-! The text of a streamed answer as a channel puts it together. A chunk is taken for a snapshot, a
repeat or the next part by comparing it with what is there; the text is whole as long as no next
part looks like one of the others. -/

namespace DeerFlow.Channels

section Model

def mappingText (content : Dict Value) : Text :=
  match content.get "text", content.get "content" with
  | some (.str text), _ => text.toList
  | _, some (.str text) => text.toList
  | _, _ => []

def contentBlockText : Value → Text
  | .str text => text.toList
  | .dict block => mappingText block
  | _ => []

def extractTextContent : Value → Text
  | .str text => text.toList
  | .list blocks => blocks.flatMap contentBlockText
  | .dict content => mappingText content
  | _ => []

def mergeStreamText (existing chunk : Text) : Text :=
  if chunk = [] then existing
  else if existing = [] ∨ chunk = existing then chunk
  else if existing <+: chunk then chunk
  else if chunk <:+ existing then existing
  else existing ++ chunk

def candidateId : Value → Option String
  | .dict candidate => ["id", "message_id"].findSome? fun key =>
    match Dict.get candidate key with
    | some (.str value) => if value = "" then none else some value
    | _ => none
  | _ => none

def extractStreamMessageId (payload metadata : Value) : Option String :=
  let kwargs := match payload with
    | .dict payload => [(Dict.get payload "kwargs").getD .none]
    | _ => []
  ([payload, metadata] ++ kwargs).findSome? candidateId

def payloadOf : Value → Value × Value
  | .list (payload :: rest) => (payload, rest.head?.getD .none)
  | eventData => (eventData, .none)

/-- `str` renders a value as text. -/
def isToolPayload (str : Value → Text) (payload : Dict Value) : Bool :=
  "tool".toList <:+: (str ((payload.get "type").getD (.str ""))).map Char.toLower

def payloadText (payload : Dict Value) : Text :=
  let text := extractTextContent ((payload.get "content").getD .none)
  if text ≠ [] then text
  else match payload.get "kwargs" with
    | some (.dict kwargs) => extractTextContent ((Dict.get kwargs "content").getD .none)
    | _ => []

def orDefault (id : Option String) : String := (id.filter (· ≠ "")).getD "__default__"

/-- What `_accumulate_stream_text` leaves and returns. -/
structure Accumulated where
  buffers : Dict Text
  text : Option Text
  messageId : Option String

def mergeInto (buffers : Dict Text) (messageId : String) (text : Text) : Accumulated :=
  let merged := mergeStreamText ((buffers.get messageId).getD []) text
  ⟨buffers.set messageId merged, some merged, some messageId⟩

def accumulateStreamText (str : Value → Text) (buffers : Dict Text)
    (currentMessageId : Option String) (eventData : Value) : Accumulated :=
  match payloadOf eventData with
  | (.str payload, _) => mergeInto buffers (orDefault currentMessageId) payload.toList
  | (.dict payload, metadata) =>
    if isToolPayload str payload then ⟨buffers, none, currentMessageId⟩
    else
      let text := payloadText payload
      if text = [] then ⟨buffers, none, currentMessageId⟩
      else
        mergeInto buffers (orDefault ((extractStreamMessageId (.dict payload) metadata).or
          currentMessageId)) text
  | _ => ⟨buffers, none, currentMessageId⟩

def accumulate (str : Value → Text) (events : List Value) : Dict Text × Option String :=
  events.foldl (fun s event =>
    let accumulated := accumulateStreamText str s.1 s.2 event
    (accumulated.buffers, accumulated.messageId)) ([], none)

end Model

section Streams

structure TextEvent (str : Value → Text) where
  eventData : Value
  id : String
  text : Text
  nonempty : text ≠ []
  carries : ∃ payload metadata, payloadOf eventData = (.dict payload, metadata) ∧
    isToolPayload str payload = false ∧ payloadText payload = text ∧
    extractStreamMessageId (.dict payload) metadata = some id

inductive StreamMode where
  | delta
  | cumulative
  deriving DecidableEq

/-- The chunk is neither a longer snapshot of what is there nor the end of it. -/
def LooksNew (existing chunk : Text) : Prop := ¬existing <+: chunk ∧ ¬chunk <:+ existing

/-- Each chunk looks new after those before it. -/
def Clean (chunks : List Text) : Prop :=
  ∀ before chunk after, chunks = before ++ chunk :: after → before ≠ [] →
    LooksNew before.flatten chunk

def Growing (snapshots : List Text) : Prop := snapshots.IsChain fun a b => a <+: b ∧ a ≠ b

variable {str : Value → Text}

def textsFor (events : List (TextEvent str)) (id : String) : List Text :=
  (events.filter (·.id = id)).map (·.text)

/-- The text that was sent for a message. -/
def sentText (mode : StreamMode) (texts : List Text) : Text :=
  match mode with
  | .delta => texts.flatten
  | .cumulative => texts.getLastD []

/-- What is held for a message is what was sent for it, all the time. -/
def Reassembled (mode : String → StreamMode) (events : List (TextEvent str)) : Prop :=
  ∀ before after, events = before ++ after → ∀ id,
    (((accumulate str (before.map (·.eventData))).1.get id).getD []) =
      sentText (mode id) (textsFor before id)

end Streams

section Chunks
variable {existing chunk : Text} {chunks : List Text}

theorem mergeStreamText_nil (hchunk : chunk ≠ []) : mergeStreamText [] chunk = chunk := by
  unfold mergeStreamText
  rw [if_neg hchunk, if_pos (.inl rfl)]

theorem mergeStreamText_snapshot (h : existing <+: chunk) : mergeStreamText existing chunk = chunk := by
  unfold mergeStreamText
  by_cases hchunk : chunk = []
  · rw [if_pos hchunk, hchunk]
    rw [hchunk] at h
    exact List.prefix_nil.mp h
  · rw [if_neg hchunk, if_pos h]
    split_ifs <;> rfl

theorem mergeStreamText_new (h : LooksNew existing chunk) :
    mergeStreamText existing chunk = existing ++ chunk := by
  have hchunk : chunk ≠ [] := by
    rintro rfl
    exact h.2 (List.nil_suffix)
  have hexisting : ¬(existing = [] ∨ chunk = existing) := by
    rintro (rfl | rfl)
    · exact h.1 (List.nil_prefix)
    · exact h.1 (List.prefix_refl _)
  unfold mergeStreamText
  rw [if_neg hchunk, if_neg hexisting, if_neg h.1, if_neg h.2]

theorem length_mergeStreamText (hexisting : existing ≠ []) (hchunk : chunk ≠ [])
    (h : ¬LooksNew existing chunk) :
    (mergeStreamText existing chunk).length < existing.length + chunk.length := by
  have hleft := List.length_pos_of_ne_nil hexisting
  have hright := List.length_pos_of_ne_nil hchunk
  by_cases hfront : existing <+: chunk
  · rw [mergeStreamText_snapshot hfront]
    omega
  · have hsuffix : chunk <:+ existing := by
      by_contra hsuffix
      exact h ⟨hfront, hsuffix⟩
    have hne : ¬(existing = [] ∨ chunk = existing) := by
      rintro (rfl | rfl)
      · exact hexisting rfl
      · exact hfront (List.prefix_refl _)
    unfold mergeStreamText
    rw [if_neg hchunk, if_neg hne, if_neg hfront, if_pos hsuffix]
    omega

theorem length_mergeStreamText_le (existing chunk : Text) :
    (mergeStreamText existing chunk).length ≤ existing.length + chunk.length := by
  unfold mergeStreamText
  split_ifs
  · omega
  · omega
  · omega
  · omega
  · rw [List.length_append]

theorem clean_append : Clean (chunks ++ [chunk]) ↔
    Clean chunks ∧ (chunks ≠ [] → LooksNew chunks.flatten chunk) := by
  constructor
  · intro h
    refine ⟨fun before c after heq hne => ?_, fun hne => h chunks chunk [] rfl hne⟩
    exact h before c (after ++ [chunk]) (by rw [heq]; simp) hne
  · rintro ⟨hclean, hlast⟩ before c after heq hne
    rcases List.eq_nil_or_concat after with rfl | ⟨after, d, rfl⟩
    · obtain ⟨rfl, hc⟩ := List.append_inj' heq rfl
      obtain rfl := (List.cons.inj hc).1
      exact hlast hne
    · have hinit : chunks = before ++ c :: after := by
        have happend : chunks ++ [chunk] = (before ++ c :: after) ++ [d] := by
          rw [heq]
          simp
        exact (List.append_inj' happend rfl).1
      exact hclean before c after hinit hne

/-- Parts are put together as they were cut, or some of the text is missing. -/
theorem foldl_mergeStreamText (h : ∀ c ∈ chunks, c ≠ []) :
    (Clean chunks ∧ chunks.foldl mergeStreamText [] = chunks.flatten) ∨
      (¬Clean chunks ∧ (chunks.foldl mergeStreamText []).length < chunks.flatten.length) := by
  induction chunks using List.reverseRecOn with
  | nil =>
    left
    refine ⟨fun before c after heq => ?_, rfl⟩
    simp at heq
  | append_singleton chunks chunk ih =>
    rw [List.forall_mem_append, List.forall_mem_singleton] at h
    obtain ⟨hchunks, hchunk⟩ := h
    rw [clean_append, List.foldl_append, List.foldl_cons, List.foldl_nil, List.flatten_append,
      List.flatten_singleton, List.length_append]
    rcases ih hchunks with ⟨hclean, heq⟩ | ⟨hunclean, hlt⟩
    · rw [heq]
      by_cases hne : chunks = []
      · left
        subst hne
        exact ⟨⟨hclean, fun hne => absurd rfl hne⟩, mergeStreamText_nil hchunk⟩
      · by_cases hnew : LooksNew chunks.flatten chunk
        · left
          exact ⟨⟨hclean, fun _ => hnew⟩, mergeStreamText_new hnew⟩
        · right
          have hflatten : chunks.flatten ≠ [] := by
            obtain ⟨c, hc⟩ := List.exists_mem_of_ne_nil chunks hne
            exact fun hnil => hchunks c hc (List.flatten_eq_nil_iff.mp hnil c hc)
          exact ⟨fun hclean => hnew (hclean.2 hne), length_mergeStreamText hflatten hchunk hnew⟩
    · right
      have hle := length_mergeStreamText_le (chunks.foldl mergeStreamText []) chunk
      exact ⟨fun hclean => hunclean hclean.1, by omega⟩

theorem foldl_mergeStreamText_iff (h : ∀ c ∈ chunks, c ≠ []) :
    chunks.foldl mergeStreamText [] = chunks.flatten ↔ Clean chunks := by
  rcases foldl_mergeStreamText h with ⟨hclean, heq⟩ | ⟨hunclean, hlt⟩
  · exact iff_of_true heq hclean
  · refine iff_of_false (fun heq => ?_) hunclean
    rw [heq] at hlt
    exact lt_irrefl _ hlt

theorem foldl_mergeStreamText_of_growing (h : Growing chunks) :
    chunks.foldl mergeStreamText [] = chunks.getLastD [] := by
  induction chunks using List.reverseRecOn with
  | nil => rfl
  | append_singleton chunks chunk ih =>
    unfold Growing at h ih
    rw [List.isChain_append] at h
    obtain ⟨hchunks, -, hlast⟩ := h
    rw [List.foldl_append, List.foldl_cons, List.foldl_nil, ih hchunks, List.getLastD_concat]
    refine mergeStreamText_snapshot ?_
    cases hget : chunks.getLast? with
    | none =>
      rw [List.getLastD_eq_getLast?, hget]
      exact List.nil_prefix
    | some last =>
      rw [List.getLastD_eq_getLast?, hget]
      exact (hlast last hget chunk rfl).1

end Chunks

section Events
variable {str : Value → Text} {events : List (TextEvent str)} {e : TextEvent str} {id : String}

theorem extractStreamMessageId_ne {payload metadata : Value}
    (h : extractStreamMessageId payload metadata = some id) : id ≠ "" := by
  obtain ⟨candidate, -, hcandidate⟩ := List.exists_of_findSome?_eq_some h
  cases candidate with
  | dict d =>
    obtain ⟨key, -, hkey⟩ := List.exists_of_findSome?_eq_some hcandidate
    revert hkey
    cases Dict.get d key with
    | none => exact nofun
    | some value =>
      cases value with
      | str text =>
        show (if text = "" then none else some text) = some id → _
        split_ifs with hempty
        · exact nofun
        · intro hkey
          rwa [← Option.some.inj hkey]
      | none | bool | int | float | list | dict => exact nofun
  | none | bool | int | float | str | list => cases hcandidate

theorem accumulateStreamText_event (buffers : Dict Text) (current : Option String)
    (e : TextEvent str) :
    accumulateStreamText str buffers current e.eventData = mergeInto buffers e.id e.text := by
  obtain ⟨payload, metadata, hpayload, htool, htext, hid⟩ := e.carries
  have hne : e.id ≠ "" := extractStreamMessageId_ne hid
  have hdefault : orDefault (some e.id) = e.id := by
    unfold orDefault
    rw [Option.filter_some, if_pos (decide_eq_true hne)]
    rfl
  unfold accumulateStreamText
  rw [hpayload]
  simp only [htool, htext, if_neg e.nonempty, hid, Option.some_or, hdefault]
  rfl

theorem accumulate_append (xs : List Value) (x : Value) : accumulate str (xs ++ [x]) =
    let accumulated := accumulateStreamText str (accumulate str xs).1 (accumulate str xs).2 x
    (accumulated.buffers, accumulated.messageId) := by
  unfold accumulate
  rw [List.foldl_append]
  rfl

theorem textsFor_append (before after : List (TextEvent str)) (id : String) :
    textsFor (before ++ after) id = textsFor before id ++ textsFor after id := by
  unfold textsFor
  rw [List.filter_append, List.map_append]

theorem get_accumulate (events : List (TextEvent str)) (id : String) :
    (((accumulate str (events.map (·.eventData))).1.get id).getD []) =
      (textsFor events id).foldl mergeStreamText [] := by
  induction events using List.reverseRecOn with
  | nil => rfl
  | append_singleton events e ih =>
    rw [List.map_append, List.map_singleton, accumulate_append, accumulateStreamText_event,
      textsFor_append, List.foldl_append]
    show ((Dict.set _ e.id _).get id).getD [] = _
    rw [Dict.get_set]
    by_cases hid : id = e.id
    · subst hid
      have hsingle : textsFor [e] e.id = [e.text] := by simp [textsFor]
      rw [if_pos rfl, hsingle, ih]
      rfl
    · have hnone : textsFor [e] id = [] := by
        have hne : ¬e.id = id := fun h => hid h.symm
        simp [textsFor, hne]
      rw [if_neg hid, hnone, ih]
      rfl

theorem textsFor_nonempty : ∀ c ∈ textsFor events id, c ≠ [] := by
  intro c hc
  obtain ⟨e, -, rfl⟩ := List.mem_map.mp hc
  exact e.nonempty

theorem clean_of_append {before after : List Text} (h : Clean (before ++ after)) : Clean before := by
  intro xs c ys heq hne
  exact h xs c (ys ++ after) (by rw [heq]; simp) hne

/-- What is sent in parts is held if and only if its parts look new. -/
theorem reassembled_iff (mode : String → StreamMode)
    (hgrowing : ∀ id, mode id = .cumulative → Growing (textsFor events id)) :
    Reassembled mode events ↔ ∀ id, mode id = .delta → Clean (textsFor events id) := by
  constructor
  · intro h id hmode
    have hheld := h events [] (List.append_nil _).symm id
    rw [get_accumulate, hmode] at hheld
    exact (foldl_mergeStreamText_iff textsFor_nonempty).mp hheld
  · rintro hclean before after rfl id
    rw [get_accumulate]
    cases hmode : mode id with
    | delta =>
      have hwhole := hclean id hmode
      rw [textsFor_append] at hwhole
      exact (foldl_mergeStreamText_iff textsFor_nonempty).mpr (clean_of_append hwhole)
    | cumulative =>
      have hwhole := hgrowing id hmode
      rw [textsFor_append] at hwhole
      exact foldl_mergeStreamText_of_growing (List.isChain_append.mp hwhole).1

end Events

section Reassembly

/-- The parts of a text and its snapshots are put together to it, and so are the events. -/
structure PutTogether {str : Value → Text} (text : Text) (chunks snapshots : List Text)
    (mode : String → StreamMode) (events : List (TextEvent str)) : Prop where
  delta : chunks.foldl mergeStreamText [] = text
  cumulative : snapshots.foldl mergeStreamText [] = text
  events : Reassembled mode events

/-- A text, cut into parts or sent in snapshots, and the events of several messages, are put
together exactly if the parts look new. -/
theorem putTogether_iff {str : Value → Text} {text : Text} {chunks snapshots : List Text}
    {mode : String → StreamMode} {events : List (TextEvent str)} (hcut : chunks.flatten = text)
    (hchunks : ∀ c ∈ chunks, c ≠ []) (hgrowing : Growing snapshots)
    (hend : snapshots.getLastD [] = text)
    (hevents : ∀ id, mode id = .cumulative → Growing (textsFor events id)) :
    PutTogether text chunks snapshots mode events ↔
      Clean chunks ∧ ∀ id, mode id = .delta → Clean (textsFor events id) := by
  subst hcut
  have hsnapshots := (foldl_mergeStreamText_of_growing hgrowing).trans hend
  rw [← reassembled_iff mode hevents, ← foldl_mergeStreamText_iff hchunks]
  constructor
  · exact fun h => ⟨h.delta, h.events⟩
  · exact fun h => ⟨h.1, hsnapshots, h.2⟩

/-- `str` of a text. -/
def strOf : Value → Text
  | .str text => text.toList
  | _ => []

def chunkPayload (id text : String) : Dict Value :=
  [("id", .str id), ("type", .str "AIMessageChunk"), ("content", .str text)]

/-- A part or a snapshot of a message, as the stream of messages carries it. -/
def chunkEvent (id text : String) (hid : id ≠ "") (htext : text.toList ≠ []) : TextEvent strOf where
  eventData := .list [.dict (chunkPayload id text)]
  id := id
  text := text.toList
  nonempty := htext
  carries := by
    refine ⟨chunkPayload id text, .none, rfl, ?_, if_pos htext, ?_⟩
    · have htype : isToolPayload strOf (chunkPayload "" "") = false := by decide +kernel
      exact htype
    · have hcandidate : candidateId (.dict (chunkPayload id text)) = some id := by
        simp [candidateId, chunkPayload, Dict.get, hid]
      rw [extractStreamMessageId, List.cons_append, List.findSome?_cons, hcandidate]

def haEvent : TextEvent strOf := chunkEvent "m1" "ha" (by decide) (by decide)

/-- A message in parts and one in snapshots, which take turns. -/
def turns : List (TextEvent strOf) :=
  [chunkEvent "m1" "he" (by decide) (by decide), chunkEvent "m2" "a" (by decide) (by decide),
    chunkEvent "m1" "llo" (by decide) (by decide), chunkEvent "m2" "ab" (by decide) (by decide)]

def turnsMode (id : String) : StreamMode := if id = "m2" then .cumulative else .delta

theorem putTogether_once :
    (PutTogether "hello".toList ["he".toList, "llo".toList] ["hel".toList, "hello".toList]
      turnsMode turns ↔ Clean ["he".toList, "llo".toList] ∧
        ∀ id, turnsMode id = .delta → Clean (textsFor turns id)) ∧
    (accumulate strOf (turns.map (·.eventData))).1 =
      [("m1", "hello".toList), ("m2", "ab".toList)] := by
  refine ⟨putTogether_iff (by decide) (by decide)
    (List.isChain_cons_cons.mpr ⟨by decide, List.isChain_singleton _⟩) (by decide) ?_, by decide +kernel⟩
  intro id hmode
  have hid : id = "m2" := by
    by_contra hid
    rw [turnsMode, if_neg hid] at hmode
    cases hmode
  subst hid
  exact List.isChain_cons_cons.mpr ⟨by decide, List.isChain_singleton _⟩

/-- The second half of a laugh is taken for a repeat of the first. -/
theorem laugh_halved : ["ha".toList, "ha".toList].flatten = "haha".toList ∧
    ["ha".toList, "ha".toList].foldl mergeStreamText [] = "ha".toList ∧
    ¬PutTogether "haha".toList ["ha".toList, "ha".toList] ["haha".toList] (fun _ => .delta)
      [haEvent, haEvent] := by
  refine ⟨by decide, by decide, fun h => ?_⟩
  have hdelta := h.delta
  revert hdelta
  decide

end Reassembly

end DeerFlow.Channels
