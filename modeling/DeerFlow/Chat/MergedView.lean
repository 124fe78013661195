import DeerFlow.Chat.CompactedChat
import DeerFlow.Lib.Overlay

/-! The merged view of a chat: each identity once, in the version that wins, and the optimistic
messages last. It is chronological when the history ends with what the live thread takes over, and
the thread begins with what the history keeps. -/

namespace DeerFlow.Chat
open LastShown

def identities (messages : List Message) : List Text := messages.filterMap messageIdentity

/-- The version in the live thread wins, unless it is hidden and the one in the history is not. -/
def LiveWins (history thread : List Message) (identity : Text) : Prop :=
  identity ∈ identities thread ∧
    ¬(identity ∈ visibleIdentities history ∧ identity ∉ visibleIdentities thread)

/-- The version in the history wins over the one in the live thread. -/
def HistoryWins (history thread : List Message) (identity : Text) : Prop :=
  identity ∈ visibleIdentities history ∧ identity ∉ visibleIdentities thread

/-- The message of an identity that is shown, with the duration that another version of it had. -/
def ShownAs (view : List Message) (m : Message) (identity : Text) : Prop :=
  ∃ saved, view.filter (fun m' => messageIdentity m' = some identity) = [m.fillTurnDuration saved]

/-- Two lists of messages with their common identities in one order, and messages that are new. -/
structure Mergeable (history thread optimistic : List Message) : Prop where
  onceHistory : (identities history).Nodup
  onceThread : (identities thread).Nodup
  onceOptimistic : (identities optimistic).Nodup
  fresh : ∀ k ∈ identities optimistic, k ∉ identities history ∧ k ∉ identities thread
  common : (identities history).filter (fun k => k ∈ identities thread) =
    (identities thread).filter fun k => k ∈ identities history

/-- Every identity is there once, in the version that wins; the history and the thread are in order,
and the optimistic messages are last. -/
structure Chronological (history thread optimistic view : List Message) : Prop where
  live : ∀ m ∈ thread, ∀ k, messageIdentity m = some k → LiveWins history thread k →
    ShownAs view m k
  archived : ∀ m ∈ history, ∀ k, messageIdentity m = some k → ¬LiveWins history thread k →
    ShownAs view m k
  once : (identities view).Nodup
  only : ∀ k ∈ identities view, k ∈ identities (history ++ thread ++ optimistic)
  historyOrder : (identities history).Sublist (identities view)
  threadOrder : (identities thread).Sublist (identities view)
  last : ∃ front, view = front ++ optimistic

/-- Behind a message of the history whose live version wins stand only such messages, and in front
of one of the thread whose version in the history wins stand only such messages. -/
structure Overlapping (history thread : List Message) : Prop where
  takenOver : (identities history).Pairwise fun j k =>
    LiveWins history thread j → LiveWins history thread k
  kept : (identities thread).Pairwise fun j k =>
    HistoryWins history thread k → HistoryWins history thread j

section View
variable {history thread optimistic xs : List Message} {m : Message} {k : Text}
  {saved : Text → Option Value}

theorem identities_append (xs ys : List Message) :
    identities (xs ++ ys) = identities xs ++ identities ys := List.filterMap_append

theorem identities_fill (saved : Text → Option Value) (xs : List Message) :
    identities (fillTurnDurations saved xs) = identities xs := by
  unfold identities fillTurnDurations
  rw [List.filterMap_map]
  refine List.filterMap_congr fun m _ => ?_
  exact messageIdentity_fill _ m

theorem mem_identities : k ∈ identities xs ↔ ∃ m ∈ xs, messageIdentity m = some k :=
  List.mem_filterMap

theorem fillTurnDurations_append (saved : Text → Option Value) (xs ys : List Message) :
    fillTurnDurations saved (xs ++ ys) = fillTurnDurations saved xs ++ fillTurnDurations saved ys :=
  List.map_append

theorem fill_eq_self (h : ∀ m' ∈ xs, ∀ k, messageIdentity m = some k → messageIdentity m' = some k →
    m' = m) : m.fillTurnDuration ((messageIdentity m).bind (savedTurnDurations xs)) = m := by
  unfold Message.fillTurnDuration
  split
  · next duration hnone hsome =>
    obtain ⟨k, hk, hsaved⟩ := Option.bind_eq_some_iff.mp hsome
    obtain ⟨m', hm', hduration⟩ := List.exists_of_findSome?_eq_some hsaved
    split_ifs at hduration with hk'
    rw [h m' (List.mem_reverse.mp hm') k hk hk', hnone] at hduration
    cases hduration
  · rfl

def keptHistory (history thread optimistic : List Message) : List Message :=
  (beforeOverlap history thread).filter (stays messageIdentity isVisible (thread ++ optimistic))

def keptThread (history thread : List Message) : List Message :=
  thread.filter fun m => !displaced messageIdentity isVisible (beforeOverlap history thread) m

theorem nodup_beforeOverlap (thread : List Message) (h : (identities history).Nodup) :
    (identities (beforeOverlap history thread)).Nodup := by
  obtain ⟨overlap, hsplit, -⟩ := exists_beforeOverlap history thread
  rw [hsplit, identities_append] at h
  exact h.of_append_left

theorem beforeOverlap_subset : beforeOverlap history thread ⊆ history :=
  (List.rdropWhile_prefix _ _).subset

theorem fresh_beforeOverlap (h : Mergeable history thread optimistic) (hm : m ∈ optimistic)
    (hk : messageIdentity m = some k) : k ∉ identities (beforeOverlap history thread) := by
  intro hmem
  obtain ⟨m', hm', hk'⟩ := mem_identities.mp hmem
  refine (h.fresh k (mem_identities.mpr ⟨m, hm, hk⟩)).1 ?_
  exact mem_identities.mpr ⟨m', beforeOverlap_subset hm', hk'⟩

theorem fill_optimistic (h : Mergeable history thread optimistic)
    (hxs : xs ⊆ history ++ thread ++ optimistic) :
    fillTurnDurations (savedTurnDurations xs) optimistic = optimistic := by
  have hself : ∀ m ∈ optimistic,
      m.fillTurnDuration ((messageIdentity m).bind (savedTurnDurations xs)) = m := by
    intro m hm
    refine fill_eq_self fun m' hm' k hk hk' => ?_
    have hfresh := h.fresh k (mem_identities.mpr ⟨m, hm, hk⟩)
    rcases List.mem_append.mp (hxs hm') with hm' | hm'
    · rcases List.mem_append.mp hm' with hm' | hm'
      · exact absurd (mem_identities.mpr ⟨m', hm', hk'⟩) hfresh.1
      · exact absurd (mem_identities.mpr ⟨m', hm', hk'⟩) hfresh.2
    · exact eq_of_key h.onceOptimistic hm' hm hk' hk
  unfold fillTurnDurations
  rw [List.map_congr_left hself, List.map_id']

theorem mergeMessages_split (h : Mergeable history thread optimistic) :
    ∃ saved saved', mergeMessages history thread optimistic =
      fillTurnDurations saved' (fillTurnDurations saved
        (keptHistory history thread optimistic ++ keptThread history thread)) ++ optimistic := by
  have hbefore := nodup_beforeOverlap thread h.onceHistory
  have hrest : (identities (thread ++ optimistic)).Nodup := by
    rw [identities_append]
    exact h.onceThread.append h.onceOptimistic fun k hk hko => (h.fresh k hko).2 hk
  have hnew : (optimistic.filter fun m =>
      !displaced messageIdentity isVisible (beforeOverlap history thread) m) = optimistic := by
    rw [List.filter_eq_self]
    intro m hm
    rw [Bool.not_eq_true']
    cases hk : messageIdentity m with
    | none => exact not_displaced_of_none hk
    | some k =>
      rw [Bool.eq_false_iff, ne_eq, displaced_of_key hk]
      exact fun hshown => fresh_beforeOverlap h hm hk (shownKeys_subset _ hshown.1)
  have hkept := @keepLast_append _ _ _ isVisible _ _ _ hbefore hrest
  rw [List.filter_append, hnew, ← List.append_assoc, ← List.append_assoc] at hkept
  have hbeforeAll : beforeOverlap history thread ++ thread ++ optimistic ⊆
      history ++ thread ++ optimistic := by
    intro m hm
    simp only [List.mem_append] at hm ⊢
    exact hm.imp_left (Or.imp_left fun hm => beforeOverlap_subset hm)
  refine ⟨savedTurnDurations (beforeOverlap history thread ++ thread ++ optimistic),
    savedTurnDurations history, ?_⟩
  show fillTurnDurations (savedTurnDurations history) (fillTurnDurations (savedTurnDurations
    (beforeOverlap history thread ++ thread ++ optimistic)) (keepLast messageIdentity isVisible
      (beforeOverlap history thread ++ thread ++ optimistic))) = _
  rw [hkept, fillTurnDurations_append, fill_optimistic h hbeforeAll, fillTurnDurations_append,
    fill_optimistic h]
  · rfl
  · rw [List.append_assoc]
    exact List.subset_append_left _ _

/-- Whether the version in the history is kept, of those that the thread has too. -/
def isArchived (history thread : List Message) (identity : Text) : Bool :=
  identity ∈ visibleIdentities history ∧ identity ∉ visibleIdentities thread

theorem isArchived_iff : isArchived history thread k = true ↔ HistoryWins history thread k :=
  decide_eq_true_iff

theorem liveWins_iff : LiveWins history thread k ↔
    k ∈ identities thread ∧ isArchived history thread k = false := by
  rw [← Bool.not_eq_true, isArchived_iff]
  rfl

theorem joined_identities (h : Mergeable history thread optimistic) :
    ∃ overlap, history = beforeOverlap history thread ++ overlap ∧
      Joined (identities (beforeOverlap history thread)) (identities overlap) (identities thread)
        (identities optimistic) (isArchived history thread) := by
  obtain ⟨overlap, hsplit, hoverlap⟩ := exists_beforeOverlap history thread
  have hidentities : identities history =
      identities (beforeOverlap history thread) ++ identities overlap := by
    rw [← identities_append, ← hsplit]
  have hvisible : ∀ k ∈ identities overlap, k ∈ visibleIdentities thread := by
    intro k hk
    obtain ⟨m, hm, hmk⟩ := mem_identities.mp hk
    obtain ⟨k', hk', hmk'⟩ := hoverlap m hm
    rw [hmk] at hmk'
    rwa [Option.some.inj hmk']
  have hcommon := h.common
  refine ⟨overlap, hsplit, ⟨hidentities ▸ h.onceHistory, h.onceThread, h.onceOptimistic,
    hidentities ▸ h.fresh, ?_, ?_, ?_⟩⟩
  · rw [hidentities] at hcommon
    convert hcommon
  · intro k _ hk
    obtain ⟨hshown, hhidden⟩ := isArchived_iff.mp hk
    have hmem : k ∈ identities history := shownKeys_subset _ hshown
    rw [hidentities, List.mem_append] at hmem
    exact hmem.resolve_right fun hk => hhidden (hvisible k hk)
  · exact fun k hk => shownKeys_subset _ (hvisible k hk)

theorem identities_keptHistory (h : Mergeable history thread optimistic) :
    identities (keptHistory history thread optimistic) =
      (identities (beforeOverlap history thread)).filter fun k =>
        k ∉ identities thread ∨ isArchived history thread k = true := by
  refine filterMap_filter_key fun m hm k hk => ?_
  have hmem : m ∈ history := beforeOverlap_subset hm
  have hold : k ∉ identities optimistic := fun hmem' =>
    (h.fresh k hmem').1 (mem_identities.mpr ⟨m, hmem, hk⟩)
  have hshown : k ∈ shownKeys messageIdentity isVisible history ↔ isVisible m = true :=
    mem_shownKeys_of_mem h.onceHistory hmem hk
  have hnone : k ∉ shownKeys messageIdentity isVisible optimistic := fun hmem' =>
    hold (shownKeys_subset _ hmem')
  rw [Bool.eq_iff_iff, stays_of_key hk, decide_eq_true_eq, isArchived_iff, ← hshown,
    shownKeys_append, List.mem_append, or_iff_left hnone, and_comm]
  change k ∉ identities (thread ++ optimistic) ∨ _ ↔ _
  rw [identities_append, List.mem_append, or_iff_left hold]
  rfl

theorem identities_keptThread (h : Mergeable history thread optimistic) :
    identities (keptThread history thread) =
      (identities thread).filter fun k => !isArchived history thread k := by
  refine filterMap_filter_key fun m hm k hk => ?_
  have hshown : k ∈ shownKeys messageIdentity isVisible thread ↔ isVisible m = true :=
    mem_shownKeys_of_mem h.onceThread hm hk
  have hbefore : k ∈ shownKeys messageIdentity isVisible (beforeOverlap history thread) ∧
      isVisible m = false ↔ HistoryWins history thread k := by
    rw [← Bool.not_eq_true, ← hshown]
    refine and_congr_left fun hhidden => ?_
    obtain ⟨overlap, hsplit, hoverlap⟩ := exists_beforeOverlap history thread
    have hnone : k ∉ visibleIdentities overlap := by
      intro hmem
      obtain ⟨m', hm', hk'⟩ := mem_identities.mp (shownKeys_subset _ hmem)
      obtain ⟨k', hvisible, hk''⟩ := hoverlap m' hm'
      rw [hk'] at hk''
      exact hhidden (Option.some.inj hk'' ▸ hvisible)
    have hvisible : visibleIdentities history = visibleIdentities (beforeOverlap history thread) ++
        visibleIdentities overlap := by
      rw [← visibleIdentities_append, ← hsplit]
    rw [hvisible, List.mem_append, or_iff_left hnone]
    rfl
  rw [Bool.not_inj_iff, Bool.eq_iff_iff, displaced_of_key hk, hbefore, isArchived_iff]

theorem identities_mergeMessages (h : Mergeable history thread optimistic) :
    identities (mergeMessages history thread optimistic) =
      joined (identities (beforeOverlap history thread)) (identities thread)
        (identities optimistic) (isArchived history thread) := by
  obtain ⟨saved, saved', hsplit⟩ := mergeMessages_split h
  rw [hsplit, identities_append, identities_fill, identities_fill, identities_append,
    identities_keptHistory h, identities_keptThread h]
  refine congrArg (· ++ _ ++ _) (List.filter_congr fun k _ => ?_)
  exact decide_eq_decide.mpr Iff.rfl

theorem shownAs_of_filter (h : Mergeable history thread optimistic)
    (hkept : (keptHistory history thread optimistic ++ keptThread history thread).filter
      (fun m => messageIdentity m = some k) = [m]) (hk : k ∉ identities optimistic) :
    ShownAs (mergeMessages history thread optimistic) m k := by
  obtain ⟨saved, saved', hsplit⟩ := mergeMessages_split h
  have hnone : optimistic.filter (fun m => messageIdentity m = some k) = [] :=
    filter_key_of_notMem hk
  have hfilled : fillTurnDurations saved' (fillTurnDurations saved [m]) =
      [m.fillTurnDuration (Option.or _ _)] := congrArg (fun m => [m]) (fill_fill _ _ m)
  refine ⟨_, Eq.trans ?_ hfilled⟩
  rw [hsplit, List.filter_append, filter_fill, filter_fill, hkept, hnone, List.append_nil]

theorem mem_of_identity {ys : List Message} (hnodup : (identities xs).Nodup) (hsub : ys ⊆ xs)
    (hm : m ∈ xs) (hk : messageIdentity m = some k) (hmem : k ∈ identities ys) : m ∈ ys := by
  obtain ⟨m', hm', hk'⟩ := mem_identities.mp hmem
  rwa [eq_of_key hnodup hm (hsub hm') hk hk']

theorem shownAs_live (h : Mergeable history thread optimistic) (hm : m ∈ thread)
    (hk : messageIdentity m = some k) (hlive : LiveWins history thread k) :
    ShownAs (mergeMessages history thread optimistic) m k := by
  obtain ⟨hmem, hkept⟩ := liveWins_iff.mp hlive
  have hhistory : k ∉ identities (keptHistory history thread optimistic) := by
    rw [identities_keptHistory h, List.mem_filter]
    simp [hmem, hkept]
  have hthread : k ∈ identities (keptThread history thread) := by
    rw [identities_keptThread h, List.mem_filter]
    simp [hmem, hkept]
  have hnodup : (identities (keptThread history thread)).Nodup := by
    rw [identities_keptThread h]
    exact h.onceThread.filter _
  have hm' := mem_of_identity h.onceThread (List.filter_subset_self _) hm hk hthread
  refine shownAs_of_filter h ?_ fun hold => (h.fresh k hold).2 hmem
  rw [List.filter_append, filter_key_of_notMem hhistory, filter_key_of_mem hnodup hm' hk]
  rfl

theorem shownAs_archived (h : Mergeable history thread optimistic) (hm : m ∈ history)
    (hk : messageIdentity m = some k) (hlive : ¬LiveWins history thread k) :
    ShownAs (mergeMessages history thread optimistic) m k := by
  rw [liveWins_iff, not_and, Bool.not_eq_false] at hlive
  obtain ⟨overlap, hsplit, hjoined⟩ := joined_identities h
  have hmem : k ∈ identities history := mem_identities.mpr ⟨m, hm, hk⟩
  have hbefore : k ∈ identities (beforeOverlap history thread) := by
    have hboth := hmem
    rw [hsplit, identities_append, List.mem_append] at hboth
    refine hboth.resolve_right fun hoverlap => ?_
    have hkept := hlive (hjoined.ending k hoverlap)
    rw [hjoined.not_kept k hoverlap] at hkept
    cases hkept
  have hhistory : k ∈ identities (keptHistory history thread optimistic) := by
    rw [identities_keptHistory h, List.mem_filter, decide_eq_true_eq]
    exact ⟨hbefore, imp_iff_not_or.mp hlive⟩
  have hthread : k ∉ identities (keptThread history thread) := by
    rw [identities_keptThread h, List.mem_filter]
    rintro ⟨hmem', hkept⟩
    simp [hlive hmem'] at hkept
  have hnodup : (identities (keptHistory history thread optimistic)).Nodup := by
    rw [identities_keptHistory h]
    exact (nodup_beforeOverlap thread h.onceHistory).filter _
  have hsub : keptHistory history thread optimistic ⊆ history := fun _ hmem' =>
    beforeOverlap_subset (List.mem_of_mem_filter hmem')
  have hm' := mem_of_identity h.onceHistory hsub hm hk hhistory
  refine shownAs_of_filter h ?_ fun hold => (h.fresh k hold).1 hmem
  rw [List.filter_append, filter_key_of_notMem hthread, filter_key_of_mem hnodup hm' hk]
  rfl

/-- The merged view is chronological exactly when history and thread overlap as it expects. -/
theorem chronological_iff (h : Mergeable history thread optimistic) :
    Chronological history thread optimistic (mergeMessages history thread optimistic) ↔
      Overlapping history thread := by
  obtain ⟨overlap, hsplit, hjoined⟩ := joined_identities h
  have hidentities : identities history =
      identities (beforeOverlap history thread) ++ identities overlap := by
    rw [← identities_append, ← hsplit]
  have hview := identities_mergeMessages h
  have hhistory : (identities history).Sublist
      (identities (mergeMessages history thread optimistic)) ↔
        (identities history).Pairwise fun j k =>
          LiveWins history thread j → LiveWins history thread k := by
    simp only [liveWins_iff]
    rw [hview, hidentities, hjoined.sublist_first_iff]
  have hthread : (identities thread).Sublist
      (identities (mergeMessages history thread optimistic)) ↔
        (identities thread).Pairwise fun j k =>
          HistoryWins history thread k → HistoryWins history thread j := by
    simp only [← isArchived_iff]
    rw [hview, hjoined.sublist_second_iff]
  constructor
  · exact fun hview => ⟨hhistory.mp hview.historyOrder, hthread.mp hview.threadOrder⟩
  · intro hoverlapping
    refine ⟨fun m hm k hk => shownAs_live h hm hk, fun m hm k hk => shownAs_archived h hm hk, ?_,
      ?_, hhistory.mpr hoverlapping.takenOver, hthread.mpr hoverlapping.kept, ?_⟩
    · rw [hview]
      exact hjoined.nodup
    · intro k hk
      rw [hview, joined] at hk
      rw [identities_append, identities_append, List.mem_append, List.mem_append]
      rcases List.mem_append.mp hk with hk | hk
      · rcases List.mem_append.mp hk with hk | hk
        · refine .inl (.inl ?_)
          rw [hidentities]
          exact List.mem_append_left _ (List.mem_of_mem_filter hk)
        · exact .inl (.inr (List.mem_of_mem_filter hk))
      · exact .inr hk
    · obtain ⟨saved, saved', heq⟩ := mergeMessages_split h
      exact ⟨_, heq⟩

def questions (ids : List String) : List Message := ids.map fun id => turnMessage id .human

/-- The thread goes on where the history ends. -/
theorem chronological_continued : Chronological (questions ["q1", "q2"]) (questions ["q2", "q3"])
    (questions ["q4"]) (mergeMessages (questions ["q1", "q2"]) (questions ["q2", "q3"])
      (questions ["q4"])) := by
  have hmergeable : Mergeable (questions ["q1", "q2"]) (questions ["q2", "q3"])
      (questions ["q4"]) := by
    constructor
    all_goals decide +kernel
  refine (chronological_iff hmergeable).mpr ⟨?_, ?_⟩
  · unfold LiveWins
    decide +kernel
  · unfold HistoryWins
    decide +kernel

/-- The thread kept an early question: those behind it are put in front of it. -/
theorem early_question_moves : ¬∀ history thread optimistic, Mergeable history thread optimistic →
    Chronological history thread optimistic (mergeMessages history thread optimistic) := by
  intro h
  have hmergeable : Mergeable (questions ["q1", "q2", "q3", "q4"]) (questions ["q1", "q4", "q5"])
      [] := by
    constructor
    all_goals decide +kernel
  have horder := (h _ _ _ hmergeable).historyOrder
  revert horder
  decide +kernel

end View

end DeerFlow.Chat
