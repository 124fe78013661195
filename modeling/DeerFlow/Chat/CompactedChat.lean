import DeerFlow.Chat.Compaction

/-! What the browser shows after a compaction: the loaded history, the messages
that the compaction takes out of the thread, and what is left of the thread. All
visible messages are there when no visible message is dropped behind one that is
rescued, and the history shows the dropped ones from the first one on. -/

namespace DeerFlow.Chat
open LastShown

/-- The messages of a thread: each has an identity, no two the same. An instruction to remove
messages is none of them. -/
structure LiveThread where
  messages : List Message
  named : ∀ m ∈ messages, messageIdentity m ≠ none
  distinct : (messages.map messageIdentity).Nodup
  stored : ∀ m ∈ messages, m.type ≠ .remove

def SummaryIds (messages : List Message) (ids : List Text) : Prop :=
  ∀ m ∈ messages, m.id ∈ ids → m.name = some "summary"

section View
variable (current retained history : List Message) (ids : List Text)

def compactedChat : List Message :=
  mergeMessages (resolvePreservedHistory history
    (computeSummarizationMovedMessages current retained ids)) retained []

/-- Nothing disappears: what leaves the thread is moved, and the list that is shown has each
visible message once, with its turn's duration, and those of the thread in their order. -/
structure Complete : Prop where
  moved : ∀ m ∈ current, isVisible m = true → m ∉ retained →
    m ∈ computeSummarizationMovedMessages current retained ids
  once : ∀ k, k ∈ visibleIdentities history ∨ k ∈ visibleIdentities current →
    ∃ m ∈ history ++ current, isVisible m = true ∧ messageIdentity m = some k ∧
      ∃ saved, (compactedChat current retained history ids).filter
        (fun m => messageIdentity m = some k) = [m.fillTurnDuration saved]
  unnamed : (compactedChat current retained history ids).filter
    (fun m => messageIdentity m = none) = history.filter fun m => messageIdentity m = none
  order : (visibleIdentities current).Sublist
    (visibleIdentities (compactedChat current retained history ids))

end View

/-- Before the cutoff no visible message that is dropped stands behind one that is rescued. -/
def KeepsTail (messages : List Message) (cutoff : Nat) : Prop :=
  ((messages.take cutoff).filter isVisible).Pairwise fun m m' =>
    isRescued (messages.take cutoff) m = true → isRescued (messages.take cutoff) m' = true

def droppedIdentities (messages : List Message) (cutoff : Nat) : List Text :=
  visibleIdentities ((messages.take cutoff).filter fun m => !isRescued (messages.take cutoff) m)

/-- The history shows the dropped messages from the first one on, in their order, and does not
have the rest of them. -/
def HistoryLeads (history : List Message) (dropped : List Text) : Prop :=
  ((visibleIdentities history).filter fun k => k ∈ dropped).dedup ++
    dropped.filter (fun k => k ∉ history.filterMap messageIdentity) = dropped

section Fill
variable (saved saved' : Option Value) (m : Message)

theorem messageIdentity_fill : messageIdentity (m.fillTurnDuration saved) = messageIdentity m := by
  unfold Message.fillTurnDuration
  split
  · rfl
  · rfl

theorem isVisible_fill : isVisible (m.fillTurnDuration saved) = isVisible m := by
  unfold Message.fillTurnDuration
  split
  · unfold isVisible isHiddenFromUIMessage
    rw [Dict.get_set_ne (by decide)]
  · rfl

theorem fill_fill : (m.fillTurnDuration saved).fillTurnDuration saved' =
    m.fillTurnDuration (saved.or saved') := by
  unfold Message.fillTurnDuration
  rcases hm : m.turnDuration with _ | duration
  · cases saved with
    | none => simp [hm]
    | some duration => simp [Message.turnDuration]
  · simp [hm]

theorem fill_none : m.fillTurnDuration none = m := by
  unfold Message.fillTurnDuration
  split
  · contradiction
  · rfl

end Fill

section Merge
variable {xs ys history thread : List Message} {k : Text}

theorem visibleIdentities_append (xs ys : List Message) :
    visibleIdentities (xs ++ ys) = visibleIdentities xs ++ visibleIdentities ys :=
  shownKeys_append xs ys

theorem visibleIdentities_fill (saved : Text → Option Value) (messages : List Message) :
    visibleIdentities (fillTurnDurations saved messages) = visibleIdentities messages :=
  shownKeys_map (fun m => messageIdentity_fill _ m) (fun m => isVisible_fill _ m) messages

theorem visibleIdentities_dedupe (messages : List Message) :
    visibleIdentities (dedupeMessagesByIdentity messages) = (visibleIdentities messages).dedup := by
  unfold dedupeMessagesByIdentity
  rw [visibleIdentities_fill]
  exact shownKeys_keepLast messages

theorem filter_fill (saved : Text → Option Value) (k : Option Text) (messages : List Message) :
    (fillTurnDurations saved messages).filter (fun m => messageIdentity m = k) =
      fillTurnDurations saved (messages.filter fun m => messageIdentity m = k) :=
  filter_map_of_key (fun m => messageIdentity_fill _ m) k messages

/-- What is left of the history, before the overlap with the thread. -/
def beforeOverlap (history thread : List Message) : List Message :=
  history.rdropWhile fun m =>
    (messageIdentity m).any (fun identity => identity ∈ visibleIdentities thread)

theorem mergeMessages_eq (history thread : List Message) :
    mergeMessages history thread [] = fillTurnDurations (savedTurnDurations history)
      (dedupeMessagesByIdentity (beforeOverlap history thread ++ thread)) := by
  unfold mergeMessages beforeOverlap
  dsimp only
  rw [List.append_nil]

/-- The part of the history that is cut off has identities of the thread. -/
theorem exists_beforeOverlap (history thread : List Message) :
    ∃ overlap, history = beforeOverlap history thread ++ overlap ∧
      ∀ m ∈ overlap, ∃ k ∈ visibleIdentities thread, messageIdentity m = some k := by
  refine ⟨history.rtakeWhile _, List.rdropWhile_append_rtakeWhile.symm, ?_⟩
  intro m hm
  have hany := List.mem_rtakeWhile_imp hm
  obtain ⟨k, hk, hmem⟩ := (Option.any_eq_true _ _).mp hany
  exact ⟨k, of_decide_eq_true hmem, hk⟩

theorem visibleIdentities_merge (history thread : List Message) :
    visibleIdentities (mergeMessages history thread []) =
      (visibleIdentities history ++ visibleIdentities thread).dedup := by
  obtain ⟨overlap, hhistory, hoverlap⟩ := exists_beforeOverlap history thread
  have hsubset : visibleIdentities overlap ⊆ visibleIdentities thread := by
    intro k hk
    obtain ⟨m, hm, -, hmk⟩ := mem_shownKeys.mp hk
    obtain ⟨k', hk', hmk'⟩ := hoverlap m hm
    rw [hmk] at hmk'
    rwa [Option.some.inj hmk']
  rw [mergeMessages_eq, visibleIdentities_fill, visibleIdentities_dedupe, visibleIdentities_append]
  conv_rhs => rw [hhistory, visibleIdentities_append]
  exact (dedup_append_subset hsubset).symm

theorem filter_merge_of_none (hthread : ∀ m ∈ thread, messageIdentity m ≠ none) :
    (mergeMessages history thread []).filter (fun m => messageIdentity m = none) =
      history.filter fun m => messageIdentity m = none := by
  obtain ⟨overlap, hhistory, hoverlap⟩ := exists_beforeOverlap history thread
  have hnone : ∀ ms : List Message, (∀ m ∈ ms, messageIdentity m ≠ none) →
      ms.filter (fun m => messageIdentity m = none) = [] := by
    intro ms hms
    rw [List.filter_eq_nil_iff]
    intro m hm
    simpa using hms m hm
  have hfill : ∀ (saved : Text → Option Value) (ms : List Message),
      fillTurnDurations saved (ms.filter fun m => messageIdentity m = none) =
        ms.filter fun m => messageIdentity m = none := by
    intro saved ms
    conv_rhs => rw [← List.map_id (ms.filter _)]
    apply List.map_congr_left
    intro m hm
    have hm : messageIdentity m = none := by simpa using (List.mem_filter.mp hm).2
    rw [hm]
    exact fill_none m
  rw [mergeMessages_eq, filter_fill]
  unfold dedupeMessagesByIdentity
  rw [filter_fill, filter_keepLast_of_none, hfill, hfill, List.filter_append, hnone _ hthread,
    List.append_nil]
  conv_rhs => rw [hhistory, List.filter_append]
  rw [hnone overlap, List.append_nil]
  intro m hm
  obtain ⟨k, -, hk⟩ := hoverlap m hm
  rw [hk]
  simp

theorem filter_merge_of_mem (hk : k ∈ visibleIdentities (mergeMessages history thread [])) :
    ∃ m ∈ history ++ thread, isVisible m = true ∧ messageIdentity m = some k ∧
      ∃ saved, (mergeMessages history thread []).filter (fun m => messageIdentity m = some k) =
        [m.fillTurnDuration saved] := by
  rw [mergeMessages_eq, visibleIdentities_fill, visibleIdentities_dedupe, List.mem_dedup] at hk
  obtain ⟨m, hm, hvisible, hmk, hkept⟩ := filter_keepLast_of_shown hk
  refine ⟨m, ?_, hvisible, hmk, ?_⟩
  · have hbefore : beforeOverlap history thread ⊆ history :=
      (List.rdropWhile_prefix _ _).subset
    rcases List.mem_append.mp hm with hm | hm
    · exact List.mem_append_left thread (hbefore hm)
    · exact List.mem_append_right history hm
  · rw [mergeMessages_eq, filter_fill]
    unfold dedupeMessagesByIdentity
    rw [filter_fill, hkept]
    exact ⟨_, congrArg (fun m => [m]) (fill_fill _ _ m)⟩

theorem resolvePreservedHistory_eq (history pending : List Message) :
    resolvePreservedHistory history pending = history ++ pending.filter fun m =>
      (messageIdentity m).any fun k => k ∉ history.filterMap messageIdentity := by
  unfold resolvePreservedHistory
  dsimp only
  split_ifs with hpending hmissing
  · rw [hpending, List.filter_nil, List.append_nil]
  · rw [hmissing, List.append_nil]
  · rfl

theorem visibleIdentities_resolve (history pending : List Message) :
    visibleIdentities (resolvePreservedHistory history pending) =
      visibleIdentities history ++ (visibleIdentities pending).filter
        fun k => k ∉ history.filterMap messageIdentity := by
  rw [resolvePreservedHistory_eq, visibleIdentities_append]
  congr 1
  induction pending with
  | nil => rfl
  | cons m pending ih =>
    unfold visibleIdentities at ih ⊢
    rcases hm : messageIdentity m with _ | k
    · rw [List.filter_cons_of_neg (by simp [hm]), shownKeys_cons_of_none fun _ => hm, ih]
    · by_cases hvisible : isVisible m = true
      · rw [shownKeys_cons_of_key hvisible hm]
        by_cases hk : k ∈ history.filterMap messageIdentity
        · rw [List.filter_cons_of_neg (by simpa [hm] using hk),
            List.filter_cons_of_neg (by simpa using hk), ih]
        · rw [List.filter_cons_of_pos (by simpa [hm] using hk),
            List.filter_cons_of_pos (by simpa using hk), shownKeys_cons_of_key hvisible hm, ih]
      · have hhidden : isVisible m = true → messageIdentity m = none := fun h => absurd h hvisible
        rw [shownKeys_cons_of_none hhidden, List.filter_cons]
        split_ifs
        · rw [shownKeys_cons_of_none hhidden, ih]
        · exact ih

end Merge

namespace LiveThread
variable {c : LiveThread} {retained : List Message} {ids : List Text} {cutoff : Nat}

theorem nodup_visibleIdentities (c : LiveThread) : (visibleIdentities c.messages).Nodup := by
  have hmap : ((c.messages.filter isVisible).map messageIdentity).Nodup :=
    c.distinct.sublist (List.filter_sublist.map messageIdentity)
  have hkeys : visibleIdentities c.messages =
      ((c.messages.filter isVisible).map messageIdentity).filterMap id := by
    rw [List.filterMap_map]
    rfl
  rw [hkeys]
  refine hmap.filterMap ?_
  intro k k' b hk hk'
  exact (Option.mem_def.mp hk).trans (Option.mem_def.mp hk').symm

theorem eq_of_identity {m m' : Message} (hm : m ∈ c.messages) (hm' : m' ∈ c.messages)
    (h : messageIdentity m = messageIdentity m') : m = m' :=
  List.inj_on_of_nodup_map c.distinct hm hm' h

theorem nodup (c : LiveThread) : c.messages.Nodup := c.distinct.of_map

end LiveThread

section Moved
variable {c : LiveThread} {retained : List Message} {ids : List Text}

theorem notMem_ids_of_visible (hids : SummaryIds c.messages ids) {m : Message}
    (hm : m ∈ c.messages) (hvisible : isVisible m = true) : m.id ∉ ids := by
  intro hid
  have hname := hids m hm hid
  unfold isVisible isHiddenFromUIMessage at hvisible
  rw [hname] at hvisible
  simp [hiddenControlMessageNames] at hvisible

theorem firstRetainedVisibleIdentity_eq (hsub : retained.Sublist c.messages) :
    firstRetainedVisibleIdentity retained =
      (retained.filter isVisible).head?.bind messageIdentity := by
  have hstored : retained.filter (fun m => m.type ≠ .remove) = retained := by
    rw [List.filter_eq_self]
    intro m hm
    simpa using c.stored m (hsub.subset hm)
  unfold firstRetainedVisibleIdentity
  rw [hstored]
  rcases hfilter : retained.filter isVisible with _ | ⟨x, rest⟩
  · rfl
  · have hx : x ∈ retained := List.mem_of_mem_filter (hfilter ▸ List.mem_cons_self)
    obtain ⟨k, hk⟩ := Option.ne_none_iff_exists'.mp (c.named x (hsub.subset hx))
    simp [hk]

theorem moved_subset : computeSummarizationMovedMessages c.messages retained ids ⊆ c.messages := by
  intro m hm
  unfold computeSummarizationMovedMessages at hm
  have hm := List.mem_of_mem_filter hm
  split at hm
  · exact (List.takeWhile_sublist _).subset hm
  · exact hm

/-- Of the visible messages those are moved that stand before the first one that is retained. -/
theorem filter_moved (hids : SummaryIds c.messages ids) (hsub : retained.Sublist c.messages) :
    (computeSummarizationMovedMessages c.messages retained ids).filter isVisible =
      (c.messages.filter isVisible).takeWhile fun m => m ∉ retained.filter isVisible := by
  have hdrop : ∀ ms : List Message, ms ⊆ c.messages →
      (ms.filter fun m => m.id ∉ ids).filter isVisible = ms.filter isVisible := by
    intro ms hms
    rw [List.filter_filter]
    apply List.filter_congr
    intro m hm
    by_cases hvisible : isVisible m = true
    · simp [hvisible, notMem_ids_of_visible hids (hms hm) hvisible]
    · simp [hvisible]
  unfold computeSummarizationMovedMessages
  rw [firstRetainedVisibleIdentity_eq hsub]
  rcases hfilter : retained.filter isVisible with _ | ⟨x, rest⟩
  · have htake : ((c.messages.filter isVisible).takeWhile fun m => m ∉ ([] : List Message)) =
        c.messages.filter isVisible := List.takeWhile_eq_self_iff.mpr (by simp)
    rw [htake]
    exact hdrop c.messages fun _ h => h
  · have hxr : x ∈ retained.filter isVisible := by
      rw [hfilter]
      exact List.mem_cons_self
    have hvisible : isVisible x = true := (List.mem_filter.mp hxr).2
    have hx : x ∈ c.messages := hsub.subset (List.mem_of_mem_filter hxr)
    obtain ⟨k, hk⟩ := Option.ne_none_iff_exists'.mp (c.named x hx)
    have hfirst : ∀ m ∈ c.messages, (messageIdentity m = some k ↔ m = x) := by
      intro m hm
      constructor
      · intro hmk
        exact c.eq_of_identity hm hx (hmk.trans hk.symm)
      · rintro rfl
        exact hk
    have htake : (c.messages.takeWhile fun m => messageIdentity m ≠ some k) =
        c.messages.takeWhile fun m => m ≠ x := by
      apply takeWhile_congr
      intro m hm
      simp [hfirst m hm]
    have hvis : (c.messages.takeWhile fun m => m ≠ x).filter isVisible =
        (c.messages.filter isVisible).takeWhile fun m => m ≠ x := by
      apply filter_takeWhile
      intro m hm hmx
      have hmx : m = x := by simpa using hmx
      rw [hmx]
      exact hvisible
    have hvisibles : (x :: rest).Sublist (c.messages.filter isVisible) := by
      rw [← hfilter]
      exact hsub.filter isVisible
    rw [List.head?_cons, Option.bind_some, hk]
    dsimp only
    rw [htake, hdrop _ (List.takeWhile_sublist _).subset, hvis,
      takeWhile_ne_head (c.nodup.filter _) hvisibles]

/-- What is retained visibly is behind what is dropped visibly. -/
theorem mem_moved_iff (hids : SummaryIds c.messages ids) (hsub : retained.Sublist c.messages)
    {m : Message} (hvisible : isVisible m = true) :
    m ∈ computeSummarizationMovedMessages c.messages retained ids ↔
      m ∈ (c.messages.filter isVisible).takeWhile fun m => m ∉ retained.filter isVisible := by
  rw [← filter_moved hids hsub, List.mem_filter]
  simp [hvisible]

end Moved

section Compacted
variable {c : LiveThread} {cutoff : Nat} {dropped retained history : List Message}
  {ids : List Text}

theorem filter_filter_visible (q : Message → Bool) (messages : List Message) :
    (messages.filter isVisible).filter q = (messages.filter q).filter isVisible := by
  rw [List.filter_filter, List.filter_filter]
  apply List.filter_congr
  intro m _
  rw [Bool.and_comm]

/-- The visible messages that are dropped, and behind them those that are retained. -/
theorem filter_visible_of_keepsTail (hkeeps : KeepsTail c.messages cutoff)
    (h : prepareCompaction c.messages cutoff = some (dropped, retained)) :
    dropped.filter isVisible ++ retained.filter isVisible = c.messages.filter isVisible := by
  obtain ⟨hdropped, hretained⟩ := prepareCompaction_eq_some h
  have hparted := filter_append_filter hkeeps
  rw [filter_filter_visible, filter_filter_visible] at hparted
  conv_rhs => rw [← List.take_append_drop cutoff c.messages, List.filter_append, ← hparted]
  rw [hdropped, hretained, List.filter_append, List.append_assoc]

theorem retained_sublist (h : prepareCompaction c.messages cutoff = some (dropped, retained)) :
    retained.Sublist c.messages := by
  obtain ⟨-, hretained⟩ := prepareCompaction_eq_some h
  have hparts : retained.Sublist (c.messages.take cutoff ++ c.messages.drop cutoff) := by
    rw [hretained]
    exact List.filter_sublist.append_right _
  rwa [List.take_append_drop] at hparts

theorem filter_moved_of_keepsTail (hids : SummaryIds c.messages ids)
    (hkeeps : KeepsTail c.messages cutoff)
    (h : prepareCompaction c.messages cutoff = some (dropped, retained)) :
    (computeSummarizationMovedMessages c.messages retained ids).filter isVisible =
      dropped.filter isVisible := by
  have hparts := filter_visible_of_keepsTail hkeeps h
  have hnodup : (dropped.filter isVisible ++ retained.filter isVisible).Nodup := by
    rw [hparts]
    exact c.nodup.filter _
  have hoff : ∀ m ∈ dropped.filter isVisible, m ∉ retained.filter isVisible :=
    fun m hm hmr => (List.nodup_append'.mp hnodup).2.2 hm hmr
  rw [filter_moved hids (retained_sublist h), ← hparts,
    List.takeWhile_append_of_pos fun m hm => decide_eq_true (hoff m hm)]
  have hnone : (retained.filter isVisible).takeWhile (fun m => m ∉ retained.filter isVisible) =
      [] := by
    rw [List.takeWhile_eq_nil_iff]
    intro hpos
    simp
  rw [hnone, List.append_nil]

theorem keepsTail_of_moved (hids : SummaryIds c.messages ids)
    (h : prepareCompaction c.messages cutoff = some (dropped, retained))
    (hmoved : ∀ m ∈ c.messages, isVisible m = true → m ∉ retained →
      m ∈ computeSummarizationMovedMessages c.messages retained ids) :
    KeepsTail c.messages cutoff := by
  obtain ⟨-, hretained⟩ := prepareCompaction_eq_some h
  have hparts := List.take_append_drop cutoff c.messages
  have hnodup := c.nodup
  rw [← hparts] at hnodup
  obtain ⟨-, -, hdisjoint⟩ := List.nodup_append'.mp hnodup
  unfold KeepsTail
  rw [List.pairwise_iff_forall_sublist]
  intro m m' hsub hrescued
  by_contra hnot
  obtain ⟨front, back, hvisibles, hm, hback⟩ := List.cons_sublist_iff.mp hsub
  have hm' : m' ∈ back := List.singleton_sublist.mp hback
  have hmem' : m' ∈ (c.messages.take cutoff).filter isVisible := by
    rw [hvisibles]
    exact List.mem_append_right front hm'
  obtain ⟨htake', hvisible'⟩ := List.mem_filter.mp hmem'
  have hmem : m ∈ (c.messages.take cutoff).filter isVisible := by
    rw [hvisibles]
    exact List.mem_append_left back hm
  obtain ⟨htake, hvisible⟩ := List.mem_filter.mp hmem
  have hlost : m' ∉ retained := by
    rw [hretained]
    intro hmem
    rcases List.mem_append.mp hmem with hmem | hmem
    · exact hnot (List.mem_filter.mp hmem).2
    · exact hdisjoint htake' hmem
  have hkept : m ∈ retained.filter isVisible := by
    rw [hretained]
    exact List.mem_filter.mpr
      ⟨List.mem_append_left _ (List.mem_filter.mpr ⟨htake, hrescued⟩), hvisible⟩
  have hbefore := hmoved m' (List.mem_of_mem_take htake') hvisible' hlost
  rw [mem_moved_iff hids (retained_sublist h) hvisible'] at hbefore
  obtain ⟨s, t, rfl⟩ := List.append_of_mem hm
  have hall : c.messages.filter isVisible =
      s ++ m :: (t ++ back ++ (c.messages.drop cutoff).filter isVisible) := by
    conv_lhs => rw [← hparts, List.filter_append, hvisibles]
    simp
  have hfilter := c.nodup.filter isVisible
  rw [hall] at hbefore hfilter
  have hs : m' ∈ s := takeWhile_append_subset (by simpa using hkept) hbefore
  have hrest : m' ∈ m :: (t ++ back ++ (c.messages.drop cutoff).filter isVisible) := by
    simp [hm']
  exact (List.nodup_append'.mp hfilter).2.2 hs hrest

theorem filter_compactedChat_of_mem (hsub : retained.Sublist c.messages) {k : Text}
    (hk : k ∈ visibleIdentities (compactedChat c.messages retained history ids)) :
    ∃ m ∈ history ++ c.messages, isVisible m = true ∧ messageIdentity m = some k ∧
      ∃ saved, (compactedChat c.messages retained history ids).filter
        (fun m => messageIdentity m = some k) = [m.fillTurnDuration saved] := by
  obtain ⟨m, hm, hvisible, hmk, hfilter⟩ := filter_merge_of_mem hk
  refine ⟨m, ?_, hvisible, hmk, hfilter⟩
  rw [resolvePreservedHistory_eq] at hm
  rcases List.mem_append.mp hm with hm | hm
  · rcases List.mem_append.mp hm with hm | hm
    · exact List.mem_append_left _ hm
    · exact List.mem_append_right _ (moved_subset (List.mem_of_mem_filter hm))
  · exact List.mem_append_right _ (hsub.subset hm)

theorem filter_compactedChat_of_none (hsub : retained.Sublist c.messages) :
    (compactedChat c.messages retained history ids).filter (fun m => messageIdentity m = none) =
      history.filter fun m => messageIdentity m = none := by
  have hnamed : ∀ m ∈ retained, messageIdentity m ≠ none :=
    fun m hm => c.named m (hsub.subset hm)
  have hpending : ((computeSummarizationMovedMessages c.messages retained ids).filter fun m =>
      (messageIdentity m).any fun k => k ∉ history.filterMap messageIdentity).filter
        (fun m => messageIdentity m = none) = [] := by
    rw [List.filter_eq_nil_iff]
    intro m hm
    simpa using c.named m (moved_subset (List.mem_of_mem_filter hm))
  unfold compactedChat
  rw [filter_merge_of_none hnamed, resolvePreservedHistory_eq, List.filter_append, hpending,
    List.append_nil]

/-- Where the thread keeps its tail, its order is that of the chat when the history leads. -/
theorem order_iff (hids : SummaryIds c.messages ids) (hkeeps : KeepsTail c.messages cutoff)
    (h : prepareCompaction c.messages cutoff = some (dropped, retained)) :
    (visibleIdentities c.messages).Sublist
        (visibleIdentities (compactedChat c.messages retained history ids)) ↔
      HistoryLeads history (visibleIdentities dropped) := by
  have hmoved : visibleIdentities (computeSummarizationMovedMessages c.messages retained ids) =
      visibleIdentities dropped := by
    unfold visibleIdentities shownKeys
    rw [filter_moved_of_keepsTail hids hkeeps h]
  have hparts : visibleIdentities dropped ++ visibleIdentities retained =
      visibleIdentities c.messages := by
    unfold visibleIdentities shownKeys
    rw [← List.filterMap_append, filter_visible_of_keepsTail hkeeps h]
  have hnodup := c.nodup_visibleIdentities
  rw [← hparts] at hnodup
  have hknown : ∀ k ∈ visibleIdentities history,
      decide (k ∈ history.filterMap messageIdentity) = true := by
    intro k hk
    obtain ⟨m, hm, -, hmk⟩ := mem_shownKeys.mp hk
    exact decide_eq_true (List.mem_filterMap.mpr ⟨m, hm, hmk⟩)
  have horder := sublist_dedup_iff hnodup hknown
  unfold compactedChat HistoryLeads
  rw [visibleIdentities_merge, visibleIdentities_resolve, hmoved, ← hparts]
  simp only [decide_not]
  convert horder

/-- Compaction leaves the chat complete exactly when it keeps the thread's tail and the history
leads. -/
theorem compacted_chat_complete_iff (c : LiveThread) (history : List Message) (cutoff : Nat)
    {dropped retained : List Message} {ids : List Text} (hids : SummaryIds c.messages ids)
    (h : prepareCompaction c.messages cutoff = some (dropped, retained)) :
    Complete c.messages retained history ids ↔ KeepsTail c.messages cutoff ∧
      HistoryLeads history (droppedIdentities c.messages cutoff) := by
  obtain ⟨hdropped, -⟩ := prepareCompaction_eq_some h
  have hleads : droppedIdentities c.messages cutoff = visibleIdentities dropped := by
    rw [hdropped]
    rfl
  have hsub := retained_sublist h
  rw [hleads]
  constructor
  · intro hcomplete
    have hkeeps := keepsTail_of_moved hids h hcomplete.moved
    exact ⟨hkeeps, (order_iff hids hkeeps h).mp hcomplete.order⟩
  · rintro ⟨hkeeps, hhistory⟩
    have horder := (order_iff hids hkeeps h).mpr hhistory
    have hshown : ∀ k, k ∈ visibleIdentities history ∨ k ∈ visibleIdentities c.messages →
        k ∈ visibleIdentities (compactedChat c.messages retained history ids) := by
      rintro k (hk | hk)
      · unfold compactedChat
        rw [visibleIdentities_merge, visibleIdentities_resolve, List.mem_dedup]
        exact List.mem_append_left _ (List.mem_append_left _ hk)
      · exact horder.subset hk
    refine ⟨?_, ?_, ?_, horder⟩
    · intro m hm hvisible hlost
      have hmem : m ∈ dropped.filter isVisible ++ retained.filter isVisible := by
        rw [filter_visible_of_keepsTail hkeeps h]
        exact List.mem_filter.mpr ⟨hm, hvisible⟩
      rcases List.mem_append.mp hmem with hdrop | hkept
      · rw [← filter_moved_of_keepsTail hids hkeeps h] at hdrop
        exact List.mem_of_mem_filter hdrop
      · exact absurd (List.mem_of_mem_filter hkept) hlost
    · intro k hk
      exact filter_compactedChat_of_mem hsub (hshown k hk)
    · exact filter_compactedChat_of_none hsub

def turnMessage (id : String) (type : MessageType) : Message :=
  ⟨type, id.toList, [], none, .str id, []⟩

/-- The first question as it is after the date was put in front of it. -/
def datedThread : LiveThread where
  messages := [
    ⟨.system, "q1".toList, [], none, .str "date",
      Middlewares.reminderKwargs.set Middlewares.reminderDateKey (.str "2026-01-05, Monday")⟩,
    turnMessage "q1__user" .human, turnMessage "a1" .ai, turnMessage "q2" .human,
    turnMessage "a2" .ai]
  named := by decide +kernel
  distinct := by decide +kernel
  stored := by decide +kernel

/-- The second question came on another day. -/
def redatedThread : LiveThread where
  messages := [turnMessage "q1" .human, turnMessage "a1" .ai,
    ⟨.system, "q2".toList, [], none, .str "date",
      Middlewares.reminderKwargs.set Middlewares.reminderDateKey (.str "2026-01-06, Tuesday")⟩,
    turnMessage "q2__user" .human, turnMessage "a2" .ai]
  named := by decide +kernel
  distinct := by decide +kernel
  stored := by decide +kernel

/-- The date and the question behind it are rescued from the messages that are dropped. -/
theorem compacted_chat_complete_redated :
    Complete redatedThread.messages (redatedThread.messages.drop 2)
      (redatedThread.messages.take 1) [] := by
  have h : prepareCompaction redatedThread.messages 4 =
      some (redatedThread.messages.take 2, redatedThread.messages.drop 2) := by decide +kernel
  have hids : SummaryIds redatedThread.messages [] := fun m _ hid => absurd hid List.not_mem_nil
  refine (compacted_chat_complete_iff redatedThread (redatedThread.messages.take 1) 4 hids h).mpr ?_
  unfold KeepsTail HistoryLeads
  decide +kernel

/-- The rescued question is the first that is retained: the turns behind it are not moved. -/
theorem turns_behind_question_vanish : ¬ ∀ (c : LiveThread) (history : List Message)
    (cutoff : Nat) (dropped retained : List Message) (ids : List Text),
    SummaryIds c.messages ids → prepareCompaction c.messages cutoff = some (dropped, retained) →
      Complete c.messages retained history ids := by
  intro hall
  obtain ⟨⟨dropped, retained⟩, h⟩ : ∃ x, prepareCompaction datedThread.messages 4 = some x :=
    Option.isSome_iff_exists.mp (by decide +kernel)
  have hids : SummaryIds datedThread.messages [] := fun m _ hid => absurd hid List.not_mem_nil
  have hcomplete := hall datedThread [] 4 dropped retained [] hids h
  have hkeeps := keepsTail_of_moved hids h hcomplete.moved
  unfold KeepsTail at hkeeps
  revert hkeeps
  decide +kernel

end Compacted

end DeerFlow.Chat
