import DeerFlow.Lib.Assoc
import DeerFlow.Lib.JsonRoundTrip
import DeerFlow.Lib.Transition

/-! `ChannelStore`: the thread of a conversation, under one key that its channel, its chat and its
topic are joined into. It is a map of conversations as long as the key can be taken apart and
what is written reaches the file. -/

namespace DeerFlow.Channels
open Transition

structure ChatTopic where
  channelName : Text
  chatId : Text
  topicId : Option Text
  deriving DecidableEq

structure ThreadEntry where
  threadId : Text
  userId : Text
  createdAt : FloatLiteral
  updatedAt : FloatLiteral

/-- `json.dump` and `json.loads`, which reads what was written. -/
structure StoreFormat where
  dump : Assoc Text ThreadEntry → Text
  loads : Text → Option (Assoc Text ThreadEntry)
  loads_dump : ∀ data, loads (dump data) = some data

structure ChannelStore where
  data : Assoc Text ThreadEntry
  file : Option Text

structure ListedEntry where
  chatTopic : ChatTopic
  entry : ThreadEntry

inductive StoreError where
  | os
  deriving DecidableEq

section Keys

def ChatTopic.key (t : ChatTopic) : Text :=
  match t.topicId with
  | some (c :: topic) => t.channelName ++ ':' :: t.chatId ++ ':' :: c :: topic
  | _ => t.channelName ++ ':' :: t.chatId

/-- `text.split(":", n)`. -/
def splitColons : Nat → Text → List Text
  | 0, text => [text]
  | n + 1, text =>
    match text.dropWhile (· ≠ ':') with
    | [] => [text]
    | _ :: rest => text.takeWhile (· ≠ ':') :: splitColons n rest

/-- The parts that `list_entries` reads off a key. -/
def ChatTopic.ofKey (key : Text) : ChatTopic :=
  let parts := splitColons 2 key
  ⟨parts.getD 0 [], parts.getD 1 [], parts[2]?⟩

end Keys

namespace ChannelStore
variable (F : StoreFormat)

/-- `_load`: what cannot be read starts fresh. -/
def load (file : Option Text) : Assoc Text ThreadEntry :=
  (file.bind F.loads).getD Table.empty

def save (writes : Bool) (s : ChannelStore) : Except StoreError Unit × ChannelStore :=
  if writes then (.ok (), { s with file := some (F.dump s.data) }) else (.error .os, s)

def getThreadId (s : ChannelStore) (t : ChatTopic) : Option Text :=
  (s.data.find t.key).map ThreadEntry.threadId

def setThreadId (writes : Bool) (now : FloatLiteral) (t : ChatTopic) (threadId userId : Text)
    (s : ChannelStore) : Except StoreError Unit × ChannelStore :=
  let createdAt := match s.data.find t.key with
    | some existing => existing.createdAt
    | none => now
  save F writes { s with data := s.data.set t.key ⟨threadId, userId, createdAt, now⟩ }

def keysOfChat (s : ChannelStore) (channelName chatId : Text) : List Text :=
  let start := ChatTopic.key ⟨channelName, chatId, none⟩
  (s.data.rows.map Prod.fst).filter fun k => k = start ∨ (start ++ [':']).isPrefixOf k

/-- The keys that `remove` finds. -/
def keysToDelete (s : ChannelStore) (channelName chatId : Text) : Option Text → List Text
  | some topicId =>
    let key := ChatTopic.key ⟨channelName, chatId, some topicId⟩
    if (s.data.find key).isSome then [key] else []
  | none => s.keysOfChat channelName chatId

def remove (writes : Bool) (channelName chatId : Text) (topicId : Option Text) (s : ChannelStore) :
    Except StoreError Bool × ChannelStore :=
  match s.keysToDelete channelName chatId topicId with
  | [] => (.ok false, s)
  | keys =>
    let (saved, s) := save F writes { s with data := keys.foldl Table.erase s.data }
    (saved.map fun _ => true, s)

def listEntries (s : ChannelStore) (channelName : Option Text) : List ListedEntry :=
  (s.data.rows.map fun r => ⟨ChatTopic.ofKey r.1, r.2⟩).filter fun x =>
    ¬(channelName.any (· ≠ []) ∧ channelName ≠ some x.chatTopic.channelName)

end ChannelStore

/-- A call, at a time, and whether the file can be written. -/
inductive StoreOp where
  | setThreadId (writes : Bool) (now : FloatLiteral) (t : ChatTopic) (threadId userId : Text)
  | remove (writes : Bool) (channelName chatId : Text) (topicId : Option Text)
  | reload

namespace StoreOp
variable (F : StoreFormat)

/-- What a call answers or raises, and the store it leaves. -/
def run (s : ChannelStore) : StoreOp → Except StoreError (Option Bool) × ChannelStore
  | .setThreadId writes now t threadId userId =>
    let (saved, s) := ChannelStore.setThreadId F writes now t threadId userId s
    (saved.map fun _ => none, s)
  | .remove writes channelName chatId topicId =>
    let (removed, s) := ChannelStore.remove F writes channelName chatId topicId s
    (removed.map some, s)
  | .reload => (.ok none, { s with data := ChannelStore.load F s.file })

def channelName : StoreOp → Text
  | .setThreadId _ _ t _ _ => t.channelName
  | .remove _ channelName _ _ => channelName
  | .reload => []

/-- What a call makes of the thread that is set for `t`. -/
def after (t : ChatTopic) (threadId : Option Text) : StoreOp → Option Text
  | .setThreadId _ _ t' threadId' _ => if t' = t then some threadId' else threadId
  | .remove _ channelName chatId topicId =>
    if channelName = t.channelName ∧ chatId = t.chatId ∧ (topicId = none ∨ topicId = t.topicId)
      then none else threadId
  | .reload => threadId

end StoreOp

/-- The thread that was last set for `t` and not removed since. -/
def lastSet (t : ChatTopic) (ops : List StoreOp) : Option Text := ops.foldl (StoreOp.after t) none

/-- A store and the calls made on it, from a file that is not there. -/
def channelStore (F : StoreFormat) : System ChannelStore StoreOp :=
  .ofFn ⟨Table.empty, none⟩ fun s op => some (op.run F s).2

/-- A topic whose parts can be read off its key. -/
structure ChatTopic.Plain (t : ChatTopic) : Prop where
  channelName : ':' ∉ t.channelName
  chatId : ':' ∉ t.chatId
  topicId : t.topicId ≠ some []

/-- A plain topic is set and the file is written; so it is for a removal that finds anything. -/
def StoreOp.Fits (s : ChannelStore) : StoreOp → Prop
  | .setThreadId writes _ t _ _ => t.Plain ∧ writes = true
  | .remove writes channelName chatId topicId =>
    s.keysToDelete channelName chatId topicId = [] ∨
      (ChatTopic.Plain ⟨channelName, chatId, topicId⟩ ∧ writes = true)
  | .reload => True

section Keys
variable {t t' : ChatTopic} {a b : Text}

theorem splitColons_append (n : Nat) (ha : ':' ∉ a) :
    splitColons (n + 1) (a ++ ':' :: b) = a :: splitColons n b := by
  have hall : ∀ c ∈ a, c ≠ ':' := fun c hc => ne_of_mem_of_not_mem hc ha
  have hdrop : (a ++ ':' :: b).dropWhile (· ≠ ':') = ':' :: b := by
    rw [List.dropWhile_append_of_pos (by simpa using hall)]
    simp
  have htake : (a ++ ':' :: b).takeWhile (· ≠ ':') = a := by
    rw [List.takeWhile_append_of_pos (by simpa using hall)]
    simp
  rw [splitColons, hdrop, htake]

theorem splitColons_of_not_mem (n : Nat) (ha : ':' ∉ a) : splitColons n a = [a] := by
  cases n with
  | zero => rfl
  | succ n =>
    have hdrop : a.dropWhile (· ≠ ':') = [] := by
      rw [List.dropWhile_eq_nil_iff]
      intro c hc
      simpa using ne_of_mem_of_not_mem hc ha
    rw [splitColons, hdrop]

theorem ofKey_key (ht : t.Plain) : ChatTopic.ofKey t.key = t := by
  obtain ⟨channelName, chatId, topicId⟩ := t
  have hsplit := splitColons_of_not_mem 1 ht.chatId
  unfold ChatTopic.ofKey ChatTopic.key
  rcases topicId with _ | _ | ⟨c, topic⟩
  · simp [splitColons_append 1 ht.channelName, hsplit]
  · exact absurd rfl ht.topicId
  · have htopic : splitColons 1 (chatId ++ ':' :: c :: topic) = [chatId, c :: topic] :=
      splitColons_append 0 ht.chatId
    simp [splitColons_append 1 ht.channelName, htopic]

theorem key_inj (ht : t.Plain) (ht' : t'.Plain) : t.key = t'.key ↔ t = t' := by
  constructor
  · intro h
    rw [← ofKey_key ht, ← ofKey_key ht', h]
  · rintro rfl
    rfl

theorem key_of_chat (ht : t.Plain) {channelName chatId : Text} (hchannel : ':' ∉ channelName)
    (hchat : ':' ∉ chatId) : (t.key = ChatTopic.key ⟨channelName, chatId, none⟩ ∨
      (ChatTopic.key ⟨channelName, chatId, none⟩ ++ [':']) <+: t.key) ↔
    channelName = t.channelName ∧ chatId = t.chatId := by
  have hplain : ChatTopic.Plain ⟨channelName, chatId, none⟩ := ⟨hchannel, hchat, nofun⟩
  constructor
  · rintro (h | ⟨rest, h⟩)
    · obtain rfl := (key_inj ht hplain).mp h
      exact ⟨rfl, rfl⟩
    · have hread := ofKey_key ht
      rw [← h] at hread
      have hsplit : splitColons 2 (channelName ++ ':' :: (chatId ++ ':' :: rest)) =
          [channelName, chatId, rest] := by
        rw [splitColons_append 1 hchannel, splitColons_append 0 hchat]
        rfl
      rw [← hread]
      simp [ChatTopic.key, ChatTopic.ofKey, hsplit]
  · rintro ⟨rfl, rfl⟩
    rcases htopic : t.topicId with _ | _ | ⟨c, topic⟩
    · left
      simp [ChatTopic.key, htopic]
    · exact absurd htopic ht.topicId
    · right
      exact ⟨c :: topic, by simp [ChatTopic.key, htopic]⟩

end Keys

section Steps
variable {F : StoreFormat} {s : ChannelStore} {ops : List StoreOp} {op : StoreOp} {t : ChatTopic}

theorem lastSet_concat (t : ChatTopic) (ops : List StoreOp) (op : StoreOp) :
    lastSet t (ops ++ [op]) = op.after t (lastSet t ops) := by
  unfold lastSet
  rw [List.foldl_append]
  rfl

theorem find_foldl_erase (data : Assoc Text ThreadEntry) (keys : List Text) (k : Text) :
    Assoc.find (keys.foldl Table.erase data) k = if k ∈ keys then none else data.find k := by
  induction keys generalizing data with
  | nil => rfl
  | cons key keys ih =>
    rw [List.foldl_cons, ih, Assoc.find_erase]
    by_cases hk : k = key
    · simp [hk]
    · simp [hk]

/-- The store holds what was last set, each thread under the key of a plain topic. -/
structure Holds (F : StoreFormat) (ops : List StoreOp) (s : ChannelStore) : Prop where
  keys : ∀ k, (s.data.find k).isSome = true → ∃ t : ChatTopic, t.Plain ∧ t.key = k
  plain : ∀ t : ChatTopic, t.Plain → s.getThreadId t = lastSet t ops
  other : ∀ t : ChatTopic, ¬t.Plain → lastSet t ops = none
  file : ChannelStore.load F s.file = s.data

theorem holds_nil : Holds F [] ⟨Table.empty, none⟩ where
  keys k hk := by cases hk
  plain _ _ := rfl
  other _ _ := rfl
  file := rfl

theorem load_dump (data : Assoc Text ThreadEntry) :
    ChannelStore.load F (some (F.dump data)) = data := by
  unfold ChannelStore.load
  rw [Option.bind_some, F.loads_dump, Option.getD_some]

theorem holds_setThreadId {now : FloatLiteral} {threadId userId : Text} (h : Holds F ops s)
    (ht : t.Plain) : Holds F (ops ++ [.setThreadId true now t threadId userId])
      (ChannelStore.setThreadId F true now t threadId userId s).2 where
  keys k hk := by
    change (Assoc.find (Assoc.set ..) k).isSome = true at hk
    rw [Assoc.find_set] at hk
    split_ifs at hk with hkey
    · exact ⟨t, ht, hkey.symm⟩
    · exact h.keys k hk
  plain t' ht' := by
    show (Assoc.find (Assoc.set ..) t'.key).map _ = _
    rw [Assoc.find_set, lastSet_concat, StoreOp.after]
    by_cases htt : t = t'
    · rw [if_pos ((key_inj ht' ht).mpr htt.symm), if_pos htt]
      rfl
    · rw [if_neg fun hkey => htt ((key_inj ht' ht).mp hkey).symm, if_neg htt]
      exact h.plain t' ht'
  other t' ht' := by
    have hne : t ≠ t' := by
      rintro rfl
      exact ht' ht
    rw [lastSet_concat, StoreOp.after, if_neg hne]
    exact h.other t' ht'
  file := load_dump _

theorem mem_keysToDelete {channelName chatId : Text} {topicId : Option Text}
    (hat : ChatTopic.Plain ⟨channelName, chatId, topicId⟩) (ht : t.Plain) :
    t.key ∈ s.keysToDelete channelName chatId topicId ↔ (s.data.find t.key).isSome = true ∧
      channelName = t.channelName ∧ chatId = t.chatId ∧ (topicId = none ∨ topicId = t.topicId) := by
  cases topicId with
  | none =>
    have hchat := key_of_chat ht hat.channelName hat.chatId
    unfold ChannelStore.keysToDelete ChannelStore.keysOfChat
    simp only [List.mem_filter, ← Assoc.isSome_find, List.isPrefixOf_iff_prefix,
      decide_eq_true_eq, hchat, true_or, and_true]
  | some topicId =>
    have hkey := key_inj ht hat
    unfold ChannelStore.keysToDelete
    simp only
    split_ifs with hfound
    · rw [List.mem_singleton, hkey]
      constructor
      · rintro rfl
        exact ⟨hfound, rfl, rfl, .inr rfl⟩
      · rintro ⟨-, rfl, rfl, htopic⟩
        rw [htopic.resolve_left not_false]
    · refine ⟨fun hmem => (by cases hmem), ?_⟩
      rintro ⟨hsome, rfl, rfl, htopic⟩
      rw [htopic.resolve_left not_false] at hfound
      exact absurd hsome hfound

theorem removed_of_plain {channelName chatId : Text} {topicId : Option Text} (h : Holds F ops s)
    (hfound : s.keysToDelete channelName chatId topicId = []) (ht : channelName = t.channelName ∧
      chatId = t.chatId ∧ (topicId = none ∨ topicId = t.topicId)) : lastSet t ops = none := by
  by_cases hplain : t.Plain
  · have hat : ChatTopic.Plain ⟨channelName, chatId, topicId⟩ := by
      obtain ⟨rfl, rfl, htopic⟩ := ht
      refine ⟨hplain.channelName, hplain.chatId, ?_⟩
      rcases htopic with rfl | rfl
      · exact nofun
      · exact hplain.topicId
    have hnone : ¬(s.data.find t.key).isSome = true := by
      intro hsome
      have hmem := (mem_keysToDelete hat hplain).mpr ⟨hsome, ht⟩
      rw [hfound] at hmem
      cases hmem
    rw [← h.plain t hplain, ChannelStore.getThreadId, Option.not_isSome_iff_eq_none.mp hnone,
      Option.map_none]
  · exact h.other t hplain

theorem holds_remove_nothing {writes : Bool} {channelName chatId : Text} {topicId : Option Text}
    (h : Holds F ops s) (hfound : s.keysToDelete channelName chatId topicId = []) :
    Holds F (ops ++ [.remove writes channelName chatId topicId]) s := by
  have hlast (t : ChatTopic) :
      lastSet t (ops ++ [.remove writes channelName chatId topicId]) = lastSet t ops := by
    rw [lastSet_concat, StoreOp.after]
    split_ifs with ht
    · exact (removed_of_plain h hfound ht).symm
    · rfl
  refine ⟨h.keys, fun t ht => ?_, fun t ht => ?_, h.file⟩
  · rw [hlast]
    exact h.plain t ht
  · rw [hlast]
    exact h.other t ht

theorem remove_of_nil {writes : Bool} {channelName chatId : Text} {topicId : Option Text}
    (hfound : s.keysToDelete channelName chatId topicId = []) :
    ChannelStore.remove F writes channelName chatId topicId s = (.ok false, s) := by
  unfold ChannelStore.remove
  rw [hfound]

theorem remove_of_ne_nil {writes : Bool} {channelName chatId : Text} {topicId : Option Text}
    (hfound : s.keysToDelete channelName chatId topicId ≠ []) :
    ChannelStore.remove F writes channelName chatId topicId s =
      let (saved, s) := ChannelStore.save F writes
        { s with data := (s.keysToDelete channelName chatId topicId).foldl Table.erase s.data }
      (saved.map fun _ => true, s) := by
  unfold ChannelStore.remove
  split
  · next hnil => exact absurd hnil hfound
  · rfl

theorem holds_remove {channelName chatId : Text} {topicId : Option Text} (h : Holds F ops s)
    (hat : ChatTopic.Plain ⟨channelName, chatId, topicId⟩)
    (hfound : s.keysToDelete channelName chatId topicId ≠ []) :
    Holds F (ops ++ [.remove true channelName chatId topicId])
      (ChannelStore.remove F true channelName chatId topicId s).2 := by
  rw [remove_of_ne_nil hfound]
  constructor
  case keys =>
    intro k hk
    change (Assoc.find (List.foldl ..) k).isSome = true at hk
    rw [find_foldl_erase] at hk
    split_ifs at hk
    · cases hk
    · exact h.keys k hk
  case plain =>
    intro t ht
    show (Assoc.find (List.foldl ..) t.key).map _ = _
    rw [find_foldl_erase, lastSet_concat, StoreOp.after]
    by_cases hmem : t.key ∈ s.keysToDelete channelName chatId topicId
    · rw [if_pos hmem, if_pos ((mem_keysToDelete hat ht).mp hmem).2]
      rfl
    · rw [if_neg hmem]
      have hlast := h.plain t ht
      split_ifs with hremoved
      · have hnone : ¬(s.data.find t.key).isSome = true := by
          intro hsome
          exact hmem ((mem_keysToDelete hat ht).mpr ⟨hsome, hremoved⟩)
        rw [Option.not_isSome_iff_eq_none.mp hnone, Option.map_none]
      · exact hlast
  case other =>
    intro t ht
    rw [lastSet_concat, StoreOp.after]
    split_ifs
    · rfl
    · exact h.other t ht
  case file => exact load_dump _

theorem Holds.step (h : Holds F ops s) (hfits : op.Fits s) :
    Holds F (ops ++ [op]) (op.run F s).2 := by
  cases op with
  | setThreadId writes now t threadId userId =>
    obtain ⟨ht, rfl⟩ := hfits
    exact holds_setThreadId h ht
  | remove writes channelName chatId topicId =>
    by_cases hfound : s.keysToDelete channelName chatId topicId = []
    · show Holds F _ (ChannelStore.remove F writes channelName chatId topicId s).2
      rw [remove_of_nil hfound]
      exact holds_remove_nothing h hfound
    · obtain ⟨hat, rfl⟩ := hfits.resolve_left hfound
      exact holds_remove h hat hfound
  | reload =>
    have hreload : (StoreOp.run F s .reload).2 = s := by
      show { s with data := ChannelStore.load F s.file } = s
      rw [h.file]
    have hlast (t : ChatTopic) : lastSet t (ops ++ [.reload]) = lastSet t ops :=
      lastSet_concat t ops .reload
    rw [hreload]
    refine ⟨h.keys, fun t ht => ?_, fun t ht => ?_, h.file⟩
    · rw [hlast]
      exact h.plain t ht
    · rw [hlast]
      exact h.other t ht

theorem holds_of_run (h : Run ((channelStore F).when StoreOp.Fits) ops s) : Holds F ops s := by
  induction h with
  | nil hi =>
    obtain rfl := hi
    exact holds_nil
  | snoc _ ht ih =>
    obtain ⟨hfits, ht⟩ := ht
    cases ht
    exact ih.step hfits

theorem StoreOp.Fits.answers (h : op.Fits s) : ∃ answer, (op.run F s).1 = .ok answer := by
  cases op with
  | setThreadId writes now t threadId userId =>
    obtain ⟨-, rfl⟩ := h
    exact ⟨none, rfl⟩
  | remove writes channelName chatId topicId =>
    by_cases hfound : s.keysToDelete channelName chatId topicId = []
    · refine ⟨some false, ?_⟩
      show (ChannelStore.remove F writes channelName chatId topicId s).1.map some = _
      rw [remove_of_nil hfound]
      rfl
    · obtain ⟨-, rfl⟩ := h.resolve_left hfound
      refine ⟨some true, ?_⟩
      show (ChannelStore.remove F true channelName chatId topicId s).1.map some = _
      rw [remove_of_ne_nil hfound]
      rfl
  | reload => exact ⟨none, rfl⟩

theorem Holds.chatTopic (h : Holds F ops s) {r : Text × ThreadEntry} (hr : r ∈ s.data.rows) :
    (ChatTopic.ofKey r.1).Plain ∧ (ChatTopic.ofKey r.1).key = r.1 := by
  have hsome : (s.data.find r.1).isSome = true := Assoc.isSome_find.mpr (List.mem_map_of_mem hr)
  obtain ⟨t, ht, hkey⟩ := h.keys r.1 hsome
  rw [← hkey, ofKey_key ht]
  exact ⟨ht, rfl⟩

theorem nodup_listEntries (h : Holds F ops s) (filter : Option Text) :
    ((s.listEntries filter).map ListedEntry.chatTopic).Nodup := by
  have hall : (s.data.rows.map fun r => ChatTopic.ofKey r.1).Nodup := by
    refine (List.nodup_map_iff_inj_on s.data.nodup.of_map).mpr fun r hr r' hr' heq => ?_
    refine List.inj_on_of_nodup_map s.data.nodup hr hr' ?_
    rw [← (h.chatTopic hr).2, ← (h.chatTopic hr').2, heq]
  refine hall.sublist ?_
  have hmap : s.data.rows.map (fun r => ChatTopic.ofKey r.1) =
      (s.data.rows.map fun r => (⟨ChatTopic.ofKey r.1, r.2⟩ : ListedEntry)).map
        ListedEntry.chatTopic := by
    rw [List.map_map]
    rfl
  rw [hmap]
  exact (List.filter_sublist ..).map _

theorem mem_listEntries (h : Holds F ops s) (filter : Option Text) (t : ChatTopic)
    (threadId : Text) : (∃ x ∈ s.listEntries filter, x.chatTopic = t ∧
      x.entry.threadId = threadId) ↔ lastSet t ops = some threadId ∧
        ¬(filter.any (· ≠ []) ∧ filter ≠ some t.channelName) := by
  have hset : (∃ r ∈ s.data.rows, ChatTopic.ofKey r.1 = t ∧ r.2.threadId = threadId) ↔
      lastSet t ops = some threadId := by
    constructor
    · rintro ⟨r, hr, rfl, rfl⟩
      obtain ⟨ht, hkey⟩ := h.chatTopic hr
      rw [← h.plain _ ht, ChannelStore.getThreadId, hkey, Assoc.mem_rows.mp hr, Option.map_some]
    · intro hlast
      have ht : t.Plain := by
        by_contra hnot
        rw [h.other t hnot] at hlast
        cases hlast
      rw [← h.plain t ht] at hlast
      obtain ⟨entry, hentry, rfl⟩ := Option.map_eq_some_iff.mp hlast
      exact ⟨(t.key, entry), Assoc.mem_rows.mpr hentry, ofKey_key ht, rfl⟩
  rw [← hset]
  unfold ChannelStore.listEntries
  simp only [List.mem_filter, List.mem_map, decide_eq_true_eq]
  constructor
  · rintro ⟨_, ⟨⟨r, hr, rfl⟩, hfilter⟩, rfl, rfl⟩
    exact ⟨⟨r, hr, rfl, rfl⟩, hfilter⟩
  · rintro ⟨⟨r, hr, rfl, rfl⟩, hfilter⟩
    exact ⟨_, ⟨⟨r, hr, rfl⟩, hfilter⟩, rfl, rfl⟩

end Steps

section Format

def ThreadEntry.json (e : ThreadEntry) : Json :=
  .obj [("thread_id", .str (String.ofList e.threadId)), ("user_id", .str (String.ofList e.userId)),
    ("created_at", .float e.createdAt), ("updated_at", .float e.updatedAt)]

def ThreadEntry.ofJson : Json → Option ThreadEntry
  | .obj [(_, .str threadId), (_, .str userId), (_, .float createdAt), (_, .float updatedAt)] =>
    some ⟨threadId.toList, userId.toList, createdAt, updatedAt⟩
  | _ => none

theorem ofJson_json (e : ThreadEntry) : ThreadEntry.ofJson e.json = some e := by
  unfold ThreadEntry.ofJson ThreadEntry.json
  simp only [String.toList_ofList]

def itemJson (r : Text × ThreadEntry) : String × Json := (String.ofList r.1, r.2.json)

def itemOfJson (x : String × Json) : Option (Text × ThreadEntry) :=
  (ThreadEntry.ofJson x.2).map (x.1.toList, ·)

theorem mapM_itemOfJson (rows : List (Text × ThreadEntry)) :
    (rows.map itemJson).mapM itemOfJson = some rows := by
  induction rows with
  | nil => rfl
  | cons r rows ih =>
    have hitem : itemOfJson (itemJson r) = some r := by
      unfold itemOfJson itemJson
      simp only [ofJson_json, Option.map_some, String.toList_ofList]
    rw [List.map_cons, List.mapM_cons, hitem, ih]
    rfl

def jsonFormat : StoreFormat where
  dump data := (Json.obj (data.rows.map itemJson)).dumps
  loads text := match Json.loads text with
    | some (.obj items) => (items.mapM itemOfJson).bind fun rows =>
      if h : (rows.map Prod.fst).Nodup then some ⟨rows, h⟩ else none
    | _ => none
  loads_dump data := by
    have hkeys : ((data.rows.map itemJson).map Prod.fst).Nodup := by
      have hmap : (data.rows.map itemJson).map Prod.fst =
          (data.rows.map Prod.fst).map String.ofList := by
        rw [List.map_map, List.map_map]
        rfl
      rw [hmap]
      exact data.nodup.map fun _ _ h => String.ofList_injective h
    have hentry (e : ThreadEntry) : e.json.Unique := by
      have hfields : ["thread_id", "user_id", "created_at", "updated_at"].Nodup := by decide
      refine .obj hfields ?_
      simp only [List.forall_mem_cons, List.not_mem_nil, false_imp_iff, implies_true, and_true]
      exact ⟨.str _, .str _, .float _, .float _⟩
    have hunique : (Json.obj (data.rows.map itemJson)).Unique := by
      refine .obj hkeys ?_
      rw [List.forall_mem_map]
      exact fun r _ => hentry r.2
    rw [loads_dumps hunique]
    simp only [mapM_itemOfJson, Option.bind_some, data.nodup, dite_true]

end Format

section Conversations
variable {F : StoreFormat} {ops : List StoreOp} {s : ChannelStore}

/-- As long as the calls fit, a lookup finds what was last set, the list has what is set, and
nothing raises. -/
theorem keyed_of_run (h : Run ((channelStore F).when fun s op => op.Fits s) ops s) :
    (∀ t : ChatTopic, t.Plain → s.getThreadId t = lastSet t ops) ∧
    (∀ filter : Option Text, ((s.listEntries filter).map ListedEntry.chatTopic).Nodup ∧
      ∀ t threadId, (∃ x ∈ s.listEntries filter, x.chatTopic = t ∧ x.entry.threadId = threadId) ↔
        lastSet t ops = some threadId ∧ ¬(filter.any (· ≠ []) ∧ filter ≠ some t.channelName)) ∧
    ∀ op : StoreOp, op.Fits s → ∃ answer, (op.run F s).1 = .ok answer := by
  have hholds := holds_of_run h
  refine ⟨hholds.plain, fun filter => ⟨?_, ?_⟩, fun _ hfits => hfits.answers⟩
  · exact nodup_listEntries hholds filter
  · exact mem_listEntries hholds filter

def noon : FloatLiteral := ⟨false, 1700000000, some (Digits.ofNat 0), none, .inl rfl⟩

def setOp (writes : Bool) (t : ChatTopic) : StoreOp := .setThreadId writes noon t ['t'] []

/-- A topic is set and its chat is removed. -/
theorem keyed_of_run_removed :
    let ops := [setOp true ⟨['s'], ['a'], some ['b']⟩, .remove true ['s'] ['a'] none]
    ∃ s, Run ((channelStore jsonFormat).when fun s op => op.Fits s) ops s ∧
      ∀ t : ChatTopic, t.Plain → s.getThreadId t = lastSet t ops := by
  have hset : (setOp true ⟨['s'], ['a'], some ['b']⟩).Fits ⟨Table.empty, none⟩ :=
    ⟨⟨by decide, by decide, by decide⟩, rfl⟩
  have hremove (s : ChannelStore) : (StoreOp.remove true ['s'] ['a'] none).Fits s :=
    .inr ⟨⟨by decide, by decide, nofun⟩, rfl⟩
  have hrun := ((Run.nil (S := (channelStore jsonFormat).when fun s op => op.Fits s) rfl).snoc
    ⟨hset, rfl⟩).snoc ⟨hremove _, rfl⟩
  exact ⟨_, hrun, (keyed_of_run hrun).1⟩

/-- A chat whose id has a colon is a topic of another chat, and a thread that could not be written
is found. -/
theorem conversations_collide :
    (¬∀ ops s, Run ((channelStore jsonFormat).when fun _ op => ':' ∉ op.channelName) ops s →
      ∀ t : ChatTopic, ':' ∉ t.channelName → s.getThreadId t = lastSet t ops) ∧
    ¬∀ ops s, Run ((channelStore jsonFormat).when fun _ op => ':' ∉ op.channelName) ops s →
      ∀ op : StoreOp, (op.run jsonFormat s).1 = .error .os →
        (op.run jsonFormat s).2.data = s.data := by
  constructor
  · intro h
    have hrun := (Run.nil (S := (channelStore jsonFormat).when fun _ op => ':' ∉ op.channelName)
      rfl).snoc (a := setOp true ⟨['s'], ['a', ':', 'b'], none⟩) ⟨by decide, rfl⟩
    exact absurd (h _ _ hrun ⟨['s'], ['a'], some ['b']⟩ (by decide)) (by decide)
  · intro h
    have hdata := h [] ⟨Table.empty, none⟩ (.nil rfl) (setOp false ⟨['s'], ['a'], none⟩) rfl
    exact absurd (congrArg (fun data => data.rows.length) hdata) (by decide)

end Conversations

end DeerFlow.Channels
