import DeerFlow.Middlewares.DynamicContext

/-! When an injected reminder leaves the transcript as it was. The reducer can only replace a
message or append one, so the companions of the date reminder stand where they belong only if
what follows the target makes room for them. -/

namespace DeerFlow.Middlewares

namespace ChatMessage

def isOther (m : ChatMessage) : Bool := !m.isDynamicContextReminder

def renamed (m : ChatMessage) : ChatMessage := { m with id := m.id ++ userSuffix }

end ChatMessage

section Statement
variable (str : Value → Text) (today : CurrentDate) (s : ReminderSources)

def injectionTarget (messages : List ChatMessage) : Option ChatMessage :=
  (injectionIndex str today messages).bind (messages[·]?)

def injected (messages : Transcript) : Transcript :=
  match inject str today messages.rows s with
  | none => messages
  | some update => addMessages messages update

/-- What an injection should leave behind. -/
structure PreservesTranscript (messages : Transcript) : Prop where
  others : (injected str today s messages).rows.filter (·.isOther) =
    (messages.rows.filter (·.isOther)).map fun m =>
      if (injectionTarget str today messages.rows).any (·.id = m.id) then m.renamed else m
  placed : ∀ update original, inject str today messages.rows s = some update →
    injectionTarget str today messages.rows = some original →
    update.filter (·.isDynamicContextReminder) ++ [original.renamed] <:+:
      (injected str today s messages).rows
  settled : ∀ s', inject str today (injected str today s messages).rows s' = none

/-- What follows the date reminder in an update. -/
def companions (memory : Option String) (original : ChatMessage) (id : Text) : List ChatMessage :=
  memory.toList.map (memoryMessage id) ++ [userMessage original id]

/-- Each message finds its id on the next one behind the target, or, once those are used up,
on none at all. -/
def LandsBehind (seen : List Text) : List ChatMessage → List ChatMessage → Prop
  | [], _ => True
  | m :: ms, [] => m.id ∉ seen ∧ LandsBehind seen ms []
  | m :: ms, p :: post => p.id = m.id ∧ LandsBehind seen ms post

/-- There is room for the reminder in front of `original`. -/
structure HasRoom (messages pre : List ChatMessage) (original : ChatMessage)
    (post : List ChatMessage) : Prop where
  known : original.id ≠ []
  lands : LandsBehind (pre.map (·.id))
    (companions (injectedMemory str messages s) original original.id) post
  spares : ∀ m ∈ post.take
    (companions (injectedMemory str messages s) original original.id).length,
    m.isDynamicContextReminder = true
  /-- No other date follows, or there is nobody left to remind. -/
  latest :
    let rest := post.drop (companions (injectedMemory str messages s) original original.id).length
    (∀ date, lastInjectedDate str rest = some date → date = today.text.toList) ∨
      ∀ m ∈ pre ++ rest, m.isUserInjectionTarget = false

end Statement

section Lands
variable {t : Transcript} {seen : List Text} {done post ms rest : List ChatMessage}

theorem rows_putAll_of_lands (hrows : t.rows = done ++ post) (hms : (ms.map (·.id)).Nodup)
    (hseen : ∀ m ∈ ms, m.id ∈ done.map (·.id) → m.id ∈ seen) (h : LandsBehind seen ms post) :
    (t.putAll ms).rows = done ++ ms ++ post.drop ms.length := by
  induction ms generalizing t done post with
  | nil => simpa [Table.putAll] using hrows
  | cons m ms ih =>
    rw [List.map_cons, List.nodup_cons] at hms
    have hseen' : ∀ n ∈ ms, n.id ∈ (done ++ [m]).map (·.id) → n.id ∈ seen := by
      intro n hn hmem
      rw [List.map_append, List.map_singleton, List.mem_append, List.mem_singleton] at hmem
      rcases hmem with hmem | hmem
      · exact hseen n (List.mem_cons_of_mem _ hn) hmem
      · exact absurd (hmem ▸ List.mem_map_of_mem hn) hms.1
    change ((t.put m).putAll ms).rows = _
    cases post with
    | nil =>
      obtain ⟨hnew, hlands⟩ := h
      have hnone : t.get m.id = none := by
        apply Table.get_eq_none
        intro r hr he
        rw [hrows, List.append_nil] at hr
        exact hnew (hseen m (List.mem_cons_self ..) (he ▸ List.mem_map_of_mem hr))
      have hput : (t.put m).rows = (done ++ [m]) ++ [] := by
        rw [Table.rows_put_of_get_none hnone, hrows, List.append_nil, List.append_nil]
      rw [ih hput hms.2 hseen' hlands]
      simp
    | cons p post =>
      obtain ⟨hid, hlands⟩ := h
      have hput : (t.put m).rows = (done ++ [m]) ++ post := by
        rw [Table.rows_put_of_rows_eq hrows hid.symm, List.append_assoc, List.singleton_append]
      rw [ih hput hms.2 hseen' hlands]
      simp

theorem lands_of_ids {ids extra : List Text}
    (h : ms.map (·.id) ++ ids = post.map (·.id) ++ extra) (hextra : ∀ k ∈ extra, k ∉ seen) :
    LandsBehind seen ms post := by
  induction ms generalizing post extra with
  | nil => cases post <;> trivial
  | cons m ms ih =>
    cases post with
    | nil =>
      rw [List.map_nil, List.nil_append] at h
      subst h
      have htail : ∀ k ∈ ms.map (·.id) ++ ids, k ∉ seen := fun k hk =>
        hextra k (List.mem_cons_of_mem _ hk)
      exact ⟨hextra m.id (List.mem_cons_self ..), ih (List.nil_append _).symm htail⟩
    | cons p post =>
      simp only [List.map_cons, List.cons_append, List.cons.injEq] at h
      exact ⟨h.1.symm, ih h.2 hextra⟩

/-- The new messages stand together only where they landed one behind the other. -/
theorem lands_of_infix {m : ChatMessage} (hrows : t.rows = done ++ m :: post)
    (hms : (ms.map (·.id)).Nodup) (h : m :: ms <:+: (t.putAll ms).rows) :
    LandsBehind (done.map (·.id)) ms post := by
  obtain ⟨before, behind, hinfix⟩ := h
  have hkeys := t.keys_putAll hms
  have hnodup := (t.putAll ms).nodup
  rw [← hinfix] at hkeys hnodup
  rw [hrows] at hkeys
  simp only [List.map_append, List.map_cons, List.append_assoc, List.cons_append] at hkeys hnodup
  have hapart := List.nodup_append.mp hnodup
  have hbefore : m.id ∉ before.map (·.id) := fun hm =>
    hapart.2.2 m.id hm m.id (List.mem_cons_self ..) rfl
  have hbehind := (List.nodup_cons.mp hapart.2.1).1
  have hsplit := (List.append_cons_inj_of_notMem hbefore hbehind).mp hkeys
  apply lands_of_ids hsplit.2.2
  intro k hk hseen
  have hsome : (t.get k).isSome = true := by
    rw [Table.isSome_get, hrows, List.map_append]
    exact List.mem_append_left _ hseen
  rw [List.mem_filter, Option.isNone_iff_eq_none] at hk
  simp [hk.2] at hsome

end Lands

section Dates
variable {str : Value → Text} {today : CurrentDate} {s : ReminderSources}
variable {ms : List ChatMessage} {i : Nat}

theorem lastInjectedDate_append (xs ys : List ChatMessage) :
    lastInjectedDate str (xs ++ ys) = (lastInjectedDate str ys).or (lastInjectedDate str xs) := by
  unfold lastInjectedDate
  rw [List.reverse_append, List.findSome?_append]

theorem lastInjectedDate_eq_none (h : ∀ m ∈ ms, m.injectedDate? str = none) :
    lastInjectedDate str ms = none := by
  unfold lastInjectedDate
  rw [List.findSome?_eq_none_iff]
  intro m hm
  exact h m (List.mem_reverse.mp hm)

theorem exists_of_firstTarget (h : firstTarget ms = some i) :
    ∃ m, ms[i]? = some m ∧ m.isUserInjectionTarget = true := by
  obtain ⟨hi, htarget, -⟩ := List.findIdx?_eq_some_iff_getElem.mp h
  exact ⟨ms[i], List.getElem?_eq_getElem hi, htarget⟩

theorem exists_of_lastTarget (h : lastTarget ms = some i) :
    ∃ m, ms[i]? = some m ∧ m.isUserInjectionTarget = true := by
  have htarget := List.find?_some h
  rcases hm : ms[i]? with _ | m
  · simp [hm] at htarget
  · exact ⟨m, rfl, by simpa [hm] using htarget⟩

theorem firstTarget_eq_none :
    firstTarget ms = none ↔ ∀ m ∈ ms, m.isUserInjectionTarget = false :=
  List.findIdx?_eq_none_iff

theorem lastTarget_eq_none :
    lastTarget ms = none ↔ ∀ m ∈ ms, m.isUserInjectionTarget = false := by
  unfold lastTarget
  rw [List.find?_eq_none]
  constructor
  · intro h m hm
    obtain ⟨i, hi, rfl⟩ := List.getElem_of_mem hm
    have hat := h i (List.mem_reverse.mpr (List.mem_range.mpr hi))
    rw [List.getElem?_eq_getElem hi] at hat
    simpa using hat
  · intro h i hi
    have hlt := List.mem_range.mp (List.mem_reverse.mp hi)
    rw [List.getElem?_eq_getElem hlt]
    simpa using h ms[i] (List.getElem_mem hlt)

theorem exists_of_injectionIndex (h : injectionIndex str today ms = some i) :
    ∃ m, ms[i]? = some m ∧ m.isUserInjectionTarget = true := by
  unfold injectionIndex at h
  split at h
  · exact exists_of_firstTarget h
  · split_ifs at h
    exact exists_of_lastTarget h

theorem injectionIndex_eq_none :
    injectionIndex str today ms = none ↔
      lastInjectedDate str ms = some today.text.toList ∨
        ∀ m ∈ ms, m.isUserInjectionTarget = false := by
  unfold injectionIndex
  split
  · next hlast => simp [hlast, firstTarget_eq_none]
  · next date hlast =>
    rw [hlast, Option.some.injEq]
    split_ifs with hdate
    · simp [hdate]
    · simp [hdate, lastTarget_eq_none]

theorem inject_eq_none :
    inject str today ms s = none ↔
      lastInjectedDate str ms = some today.text.toList ∨
        ∀ m ∈ ms, m.isUserInjectionTarget = false := by
  rw [← injectionIndex_eq_none]
  unfold inject
  rcases h : injectionIndex str today ms with _ | i
  · simp
  · obtain ⟨m, hm, -⟩ := exists_of_injectionIndex h
    simp [hm]

theorem inject_eq_some {original : ChatMessage} (h : injectionIndex str today ms = some i)
    (hi : ms[i]? = some original) :
    inject str today ms s = some (dateMessage (stableId s original) s.dateReminder today ::
      companions (injectedMemory str ms s) original (stableId s original)) := by
  unfold inject
  rw [h, Option.bind_eq_bind, Option.bind_some, hi]
  rfl

end Dates

namespace ChatMessage
variable {str : Value → Text} {m : ChatMessage} {id : Text}

theorem role_of_isUserInjectionTarget (h : m.isUserInjectionTarget = true) : m.role = .human := by
  simp only [isUserInjectionTarget, Bool.and_eq_true, decide_eq_true_eq] at h
  exact h.1.1.1

theorem isOther_of_isUserInjectionTarget (h : m.isUserInjectionTarget = true) :
    m.isDynamicContextReminder = false := by
  simp only [isUserInjectionTarget, Bool.and_eq_true, Bool.not_eq_true'] at h
  exact h.1.1.2

end ChatMessage

section Made
variable {str : Value → Text} {today : CurrentDate} {original m : ChatMessage} {id : Text}

theorem isDynamicContextReminder_dateMessage (content : String) :
    (dateMessage id content today).isDynamicContextReminder = true := rfl

theorem isDynamicContextReminder_memoryMessage (content : String) :
    (memoryMessage id content).isDynamicContextReminder = true := rfl

theorem injectedDate?_dateMessage (content : String) :
    (dateMessage id content today).injectedDate? str = some today.text.toList := by
  have hdate : (dateMessage id content today).additionalKwargs.get reminderDateKey =
      some (.str today.text) := rfl
  simp [ChatMessage.injectedDate?, isDynamicContextReminder_dateMessage, hdate, today.nonempty]

theorem injectedDate?_memoryMessage (content : String) :
    (memoryMessage id content).injectedDate? str = none := rfl

theorem userMessage_eq_renamed (h : original.isUserInjectionTarget = true) :
    userMessage original original.id = original.renamed := by
  have hrole := ChatMessage.role_of_isUserInjectionTarget h
  simp [userMessage, ChatMessage.renamed, ← hrole]

theorem isDynamicContextReminder_userMessage (id : Text) (h : original.isUserInjectionTarget = true) :
    (userMessage original id).isDynamicContextReminder = false := by
  have hrole := ChatMessage.role_of_isUserInjectionTarget h
  have hother := ChatMessage.isOther_of_isUserInjectionTarget h
  simpa [ChatMessage.isDynamicContextReminder, userMessage, hrole] using hother

theorem isUserInjectionTarget_userMessage :
    (userMessage original id).isUserInjectionTarget = false := by
  have hsuffix : userSuffix.isSuffixOf (id ++ userSuffix) = true := by
    simp [List.isSuffixOf_iff_suffix]
  have hid : id ++ userSuffix ≠ [] := by simp [userSuffix]
  simp [ChatMessage.isUserInjectionTarget, userMessage, hsuffix, hid]

theorem mem_companions {memory : Option String} (hm : m ∈ companions memory original id) :
    (∃ content, m = memoryMessage id content) ∨ m = userMessage original id := by
  simp only [companions, List.mem_append, List.mem_map, Option.mem_toList, List.mem_singleton] at hm
  rcases hm with ⟨content, -, rfl⟩ | rfl
  · exact .inl ⟨content, rfl⟩
  · exact .inr rfl

theorem injectedDate?_companion {memory : Option String}
    (h : original.isUserInjectionTarget = true) (hm : m ∈ companions memory original id) :
    m.injectedDate? str = none := by
  rcases mem_companions hm with ⟨content, rfl⟩ | rfl
  · exact injectedDate?_memoryMessage content
  · simp [ChatMessage.injectedDate?, isDynamicContextReminder_userMessage id h]

theorem isUserInjectionTarget_companion {memory : Option String}
    (hm : m ∈ companions memory original id) : m.isUserInjectionTarget = false := by
  rcases mem_companions hm with ⟨content, rfl⟩ | rfl
  · rfl
  · exact isUserInjectionTarget_userMessage

theorem nodup_ids_update (original : ChatMessage) (id : Text) (today : CurrentDate)
    (memory : Option String) (content : String) :
    ((dateMessage id content today :: companions memory original id).map (·.id)).Nodup := by
  have hsuffixes : memorySuffix ≠ userSuffix := by decide
  have hmemory : memorySuffix ≠ [] := by decide
  have huser : userSuffix ≠ [] := by decide
  cases memory with
  | none => simp [companions, dateMessage, userMessage, huser]
  | some content =>
    simp [companions, dateMessage, userMessage, memoryMessage, hsuffixes, hmemory, huser]

theorem filter_reminders_companions {memory : Option String}
    (h : original.isUserInjectionTarget = true) :
    (companions memory original id).filter (·.isDynamicContextReminder) ++
      [userMessage original id] = companions memory original id := by
  have huser := isDynamicContextReminder_userMessage id h
  have hmemory : (memory.toList.map (memoryMessage id)).filter (·.isDynamicContextReminder) =
      memory.toList.map (memoryMessage id) := by
    rw [List.filter_eq_self]
    intro m hm
    obtain ⟨content, -, rfl⟩ := List.mem_map.mp hm
    exact isDynamicContextReminder_memoryMessage content
  rw [companions, List.filter_append, hmemory, List.filter_cons_of_neg (by simp [huser]),
    List.filter_nil, List.append_nil]

theorem filter_others_companions {memory : Option String}
    (h : original.isUserInjectionTarget = true) :
    (companions memory original id).filter (·.isOther) = [userMessage original id] := by
  have huser := isDynamicContextReminder_userMessage id h
  have hmemory : (memory.toList.map (memoryMessage id)).filter (·.isOther) = [] := by
    rw [List.filter_eq_nil_iff]
    intro m hm
    obtain ⟨content, -, rfl⟩ := List.mem_map.mp hm
    simp [ChatMessage.isOther, isDynamicContextReminder_memoryMessage]
  rw [companions, List.filter_append, hmemory, List.nil_append,
    List.filter_cons_of_pos (by simp [ChatMessage.isOther, huser]), List.filter_nil]

end Made

section Layout
variable {str : Value → Text} {today : CurrentDate} {s : ReminderSources} {messages : Transcript}
variable {pre post : List ChatMessage} {original : ChatMessage}

theorem injectionTarget_eq (hrows : messages.rows = pre ++ original :: post)
    (hindex : injectionIndex str today messages.rows = some pre.length) :
    injectionTarget str today messages.rows = some original := by
  rw [injectionTarget, hindex, Option.bind_some, hrows]
  simp

theorem isUserInjectionTarget_of_index (hrows : messages.rows = pre ++ original :: post)
    (hindex : injectionIndex str today messages.rows = some pre.length) :
    original.isUserInjectionTarget = true := by
  obtain ⟨m, hm, htarget⟩ := exists_of_injectionIndex hindex
  rw [hrows] at hm
  have hsame : original = m := by simpa using hm
  exact hsame ▸ htarget

theorem injected_eq (hrows : messages.rows = pre ++ original :: post)
    (hindex : injectionIndex str today messages.rows = some pre.length) :
    injected str today s messages =
      (messages.put (dateMessage (stableId s original) s.dateReminder today)).putAll
        (companions (injectedMemory str messages.rows s) original (stableId s original)) := by
  have hat : messages.rows[pre.length]? = some original := by
    rw [hrows]
    simp
  rw [injected, inject_eq_some hindex hat]
  rfl

theorem rows_put_dateMessage (hrows : messages.rows = pre ++ original :: post)
    (today : CurrentDate) (content : String) :
    (messages.put (dateMessage original.id content today)).rows =
      pre ++ dateMessage original.id content today :: post :=
  Table.rows_put_of_rows_eq hrows rfl

/-- Where there is room, the update takes the place of the target and of the reminders that
already have the ids of its messages. -/
theorem rows_injected (hrows : messages.rows = pre ++ original :: post)
    (hindex : injectionIndex str today messages.rows = some pre.length) (hid : original.id ≠ [])
    (hlands : LandsBehind (pre.map (·.id))
      (companions (injectedMemory str messages.rows s) original original.id) post) :
    (injected str today s messages).rows =
      pre ++ dateMessage original.id s.dateReminder today ::
        (companions (injectedMemory str messages.rows s) original original.id ++
          post.drop (companions (injectedMemory str messages.rows s) original original.id).length) := by
  have hstable : stableId s original = original.id := if_pos hid
  have hput := rows_put_dateMessage hrows today s.dateReminder
  have hnodup := nodup_ids_update original original.id today
    (injectedMemory str messages.rows s) s.dateReminder
  rw [List.map_cons, List.nodup_cons] at hnodup
  have hdone : ∀ m ∈ companions (injectedMemory str messages.rows s) original original.id,
      m.id ∈ (pre ++ [dateMessage original.id s.dateReminder today]).map (·.id) →
        m.id ∈ pre.map (·.id) := by
    intro m hm hseen
    rw [List.map_append, List.mem_append, List.map_singleton, List.mem_singleton] at hseen
    rcases hseen with hseen | hseen
    · exact hseen
    · have hagain := List.mem_map_of_mem (f := (·.id)) hm
      rw [hseen] at hagain
      exact absurd hagain hnodup.1
  rw [← List.singleton_append, ← List.append_assoc] at hput
  rw [injected_eq hrows hindex, hstable, rows_putAll_of_lands hput hnodup.2 hdone hlands]
  simp

theorem id_of_mem_rest (hrows : messages.rows = pre ++ original :: post) {m : ChatMessage}
    (hm : m ∈ pre ∨ m ∈ post) : m.id ≠ original.id := by
  have hnodup := messages.nodup
  rw [hrows, List.map_append, List.map_cons] at hnodup
  have hapart := List.nodup_append.mp hnodup
  intro he
  rcases hm with hm | hm
  · exact hapart.2.2 m.id (List.mem_map_of_mem hm) original.id (List.mem_cons_self ..) he
  · exact (List.nodup_cons.mp hapart.2.1).1 (he ▸ List.mem_map_of_mem hm)

theorem map_renamed (hrows : messages.rows = pre ++ original :: post)
    (hindex : injectionIndex str today messages.rows = some pre.length) :
    ((messages.rows.filter (·.isOther)).map fun m =>
        if (injectionTarget str today messages.rows).any (·.id = m.id) then m.renamed else m) =
      pre.filter (·.isOther) ++ original.renamed :: post.filter (·.isOther) := by
  have htarget := isUserInjectionTarget_of_index hrows hindex
  have hother : original.isOther = true := by
    simp [ChatMessage.isOther, ChatMessage.isOther_of_isUserInjectionTarget htarget]
  have hsame (ms : List ChatMessage) (h : ∀ m ∈ ms, m.id ≠ original.id) :
      ((ms.filter (·.isOther)).map fun m => if original.id = m.id then m.renamed else m) =
        ms.filter (·.isOther) := by
    have hid : ∀ m ∈ ms.filter (·.isOther),
        (if original.id = m.id then m.renamed else m) = m := by
      intro m hm
      rw [if_neg fun he => h m (List.mem_of_mem_filter hm) he.symm]
    rw [List.map_congr_left hid, List.map_id']
  rw [injectionTarget_eq hrows hindex, hrows, List.filter_append,
    List.filter_cons_of_pos hother, List.map_append, List.map_cons]
  simp only [Option.any_some, decide_eq_true_eq, if_true]
  rw [hsame pre fun m hm => id_of_mem_rest hrows (.inl hm),
    hsame post fun m hm => id_of_mem_rest hrows (.inr hm)]

theorem others_iff_spares (hrows : messages.rows = pre ++ original :: post)
    (hindex : injectionIndex str today messages.rows = some pre.length) (hid : original.id ≠ [])
    (hlands : LandsBehind (pre.map (·.id))
      (companions (injectedMemory str messages.rows s) original original.id) post) :
    ((injected str today s messages).rows.filter (·.isOther) =
      (messages.rows.filter (·.isOther)).map fun m =>
        if (injectionTarget str today messages.rows).any (·.id = m.id) then m.renamed else m) ↔
    ∀ m ∈ post.take (companions (injectedMemory str messages.rows s) original original.id).length,
      m.isDynamicContextReminder = true := by
  have htarget := isUserInjectionTarget_of_index hrows hindex
  have hdate : (dateMessage original.id s.dateReminder today).isOther = false := rfl
  generalize hn : (companions (injectedMemory str messages.rows s) original original.id).length = n
  have hsplit : post.filter (·.isOther) =
      (post.take n).filter (·.isOther) ++ (post.drop n).filter (·.isOther) := by
    rw [← List.filter_append, List.take_append_drop]
  rw [map_renamed hrows hindex, rows_injected hrows hindex hid hlands, hn, List.filter_append,
    List.filter_cons_of_neg (by simp [hdate]), List.filter_append,
    filter_others_companions htarget, userMessage_eq_renamed htarget, List.append_cancel_left_eq,
    List.singleton_append, List.cons.injEq, hsplit]
  simp only [true_and, List.self_eq_append_left, List.filter_eq_nil_iff, ChatMessage.isOther,
    Bool.not_eq_true', Bool.not_eq_false]

theorem settled_iff_latest (hrows : messages.rows = pre ++ original :: post)
    (hindex : injectionIndex str today messages.rows = some pre.length) (hid : original.id ≠ [])
    (hlands : LandsBehind (pre.map (·.id))
      (companions (injectedMemory str messages.rows s) original original.id) post)
    (s' : ReminderSources) :
    inject str today (injected str today s messages).rows s' = none ↔
      let rest := post.drop
        (companions (injectedMemory str messages.rows s) original original.id).length
      (∀ date, lastInjectedDate str rest = some date → date = today.text.toList) ∨
        ∀ m ∈ pre ++ rest, m.isUserInjectionTarget = false := by
  have htarget := isUserInjectionTarget_of_index hrows hindex
  have hcompanions : lastInjectedDate str
      (companions (injectedMemory str messages.rows s) original original.id) = none :=
    lastInjectedDate_eq_none fun m hm => injectedDate?_companion htarget hm
  rw [inject_eq_none, rows_injected hrows hindex hid hlands]
  generalize post.drop _ = rest
  apply or_congr
  · rw [lastInjectedDate_append, ← List.singleton_append, lastInjectedDate_append,
      lastInjectedDate_append, hcompanions]
    have hdate : lastInjectedDate str [dateMessage original.id s.dateReminder today] =
        some today.text.toList := by
      simp [lastInjectedDate, injectedDate?_dateMessage]
    rw [hdate]
    rcases lastInjectedDate str rest with _ | date
    · simp
    · simp
  · have hdate : (dateMessage original.id s.dateReminder today).isUserInjectionTarget = false := rfl
    have hcomp : ∀ m ∈ companions (injectedMemory str messages.rows s) original original.id,
        m.isUserInjectionTarget = false := fun m hm => isUserInjectionTarget_companion hm
    simp only [List.mem_append, List.mem_cons]
    constructor
    · rintro h m (hm | hm)
      · exact h m (.inl hm)
      · exact h m (.inr (.inr (.inr hm)))
    · rintro h m (hm | rfl | hm | hm)
      · exact h m (.inl hm)
      · exact hdate
      · exact hcomp m hm
      · exact h m (.inr hm)

theorem update_infix_of_placed (hrows : messages.rows = pre ++ original :: post)
    (hindex : injectionIndex str today messages.rows = some pre.length) (hid : original.id ≠ [])
    (h : PreservesTranscript str today s messages) :
    dateMessage original.id s.dateReminder today ::
      companions (injectedMemory str messages.rows s) original original.id <:+:
        (injected str today s messages).rows := by
  have htarget := isUserInjectionTarget_of_index hrows hindex
  have hstable : stableId s original = original.id := if_pos hid
  have hat : messages.rows[pre.length]? = some original := by
    rw [hrows]
    simp
  have hplaced := h.placed _ original (inject_eq_some hindex hat) (injectionTarget_eq hrows hindex)
  rw [hstable, List.filter_cons_of_pos (isDynamicContextReminder_dateMessage _),
    ← userMessage_eq_renamed htarget, List.cons_append, filter_reminders_companions htarget]
    at hplaced
  exact hplaced

/-- The copy of a message without an id is added to it. -/
theorem not_preserves_of_id_eq_nil (hrows : messages.rows = pre ++ original :: post)
    (hindex : injectionIndex str today messages.rows = some pre.length) (hid : original.id = []) :
    ¬ PreservesTranscript str today s messages := by
  intro h
  have htarget := isUserInjectionTarget_of_index hrows hindex
  have hstable : stableId s original = s.uuid := if_neg (not_not_intro hid)
  have hmem : original ∈ messages.rows := by
    rw [hrows]
    exact List.mem_append_right _ (List.mem_cons_self ..)
  have hunseen : original.id ∉
      (companions (injectedMemory str messages.rows s) original s.uuid).map (·.id) := by
    rw [hid, List.mem_map]
    rintro ⟨m, hm, hnil⟩
    rcases mem_companions hm with ⟨content, rfl⟩ | rfl
    · exact s.uuid_nonempty (List.append_eq_nil_iff.mp hnil).1
    · exact s.uuid_nonempty (List.append_eq_nil_iff.mp hnil).1
  have hkept : (injected str today s messages).get original.id = some original := by
    have hne : original.id ≠ s.uuid := fun he => s.uuid_nonempty (he.symm.trans hid)
    rw [injected_eq hrows hindex, hstable, Table.get_putAll_of_notMem _ hunseen, Table.get_put]
    exact (if_neg hne).trans (Table.mem_rows.mp hmem)
  have hother : original.isOther = true := by
    simp [ChatMessage.isOther, ChatMessage.isOther_of_isUserInjectionTarget htarget]
  have hstays := List.mem_filter.mpr ⟨Table.mem_of_get hkept, hother⟩
  rw [h.others, map_renamed hrows hindex, List.mem_append, List.mem_cons] at hstays
  rcases hstays with hm | hm | hm
  · exact id_of_mem_rest hrows (.inl (List.mem_of_mem_filter hm)) rfl
  · have hsuffix : original.id = original.id ++ userSuffix := congrArg ChatMessage.id hm
    rw [hid, List.nil_append] at hsuffix
    cases hsuffix
  · exact id_of_mem_rest hrows (.inr (List.mem_of_mem_filter hm)) rfl

theorem preserves_iff_hasRoom (hrows : messages.rows = pre ++ original :: post)
    (hindex : injectionIndex str today messages.rows = some pre.length) :
    PreservesTranscript str today s messages ↔
      HasRoom str today s messages.rows pre original post := by
  by_cases hid : original.id = []
  · exact iff_of_false (not_preserves_of_id_eq_nil hrows hindex hid) fun h => h.known hid
  have htarget := isUserInjectionTarget_of_index hrows hindex
  have hstable : stableId s original = original.id := if_pos hid
  have hat : messages.rows[pre.length]? = some original := by
    rw [hrows]
    simp
  constructor
  · intro h
    have hnodup := nodup_ids_update original original.id today
      (injectedMemory str messages.rows s) s.dateReminder
    rw [List.map_cons, List.nodup_cons] at hnodup
    have hinfix := update_infix_of_placed hrows hindex hid h
    rw [injected_eq hrows hindex, hstable] at hinfix
    have hlands := lands_of_infix (rows_put_dateMessage hrows today s.dateReminder) hnodup.2 hinfix
    exact {
      known := hid
      lands := hlands
      spares := (others_iff_spares hrows hindex hid hlands).mp h.others
      latest := (settled_iff_latest hrows hindex hid hlands s).mp (h.settled s) }
  · intro h
    have hlayout := rows_injected hrows hindex hid h.lands
    refine ⟨(others_iff_spares hrows hindex hid h.lands).mpr h.spares, ?_,
      fun s' => (settled_iff_latest hrows hindex hid h.lands s').mpr h.latest⟩
    intro update original' hupdate horiginal
    rw [inject_eq_some hindex hat, Option.some.injEq] at hupdate
    rw [injectionTarget_eq hrows hindex, Option.some.injEq] at horiginal
    subst hupdate horiginal
    rw [hstable, List.filter_cons_of_pos (isDynamicContextReminder_dateMessage _),
      ← userMessage_eq_renamed htarget, List.cons_append, filter_reminders_companions htarget,
      hlayout, ← List.cons_append, ← List.append_assoc]
    exact List.infix_append ..

end Layout

/-- An injection keeps the transcript exactly if none is due or there is room for it. -/
theorem preserves_transcript_iff (str : Value → Text) (today : CurrentDate) (s : ReminderSources)
    (messages : Transcript) :
    PreservesTranscript str today s messages ↔
      ∀ pre original post, messages.rows = pre ++ original :: post →
        injectionIndex str today messages.rows = some pre.length →
          HasRoom str today s messages.rows pre original post := by
  rcases hindex : injectionIndex str today messages.rows with _ | i
  · have hnone : inject str today messages.rows s = none :=
      inject_eq_none.mpr (injectionIndex_eq_none.mp hindex)
    have hsame : injected str today s messages = messages := by rw [injected, hnone]
    have hpreserves : PreservesTranscript str today s messages := by
      refine ⟨?_, ?_, ?_⟩
      · simp [hsame, injectionTarget, hindex]
      · intro update original hupdate
        rw [hnone] at hupdate
        cases hupdate
      · intro s'
        rw [hsame]
        exact inject_eq_none.mpr (injectionIndex_eq_none.mp hindex)
    exact iff_of_true hpreserves nofun
  · obtain ⟨original, hat, -⟩ := exists_of_injectionIndex hindex
    obtain ⟨hi, hget⟩ := List.getElem?_eq_some_iff.mp hat
    have hrows : messages.rows = messages.rows.take i ++ original :: messages.rows.drop (i + 1) := by
      rw [← hget, List.getElem_cons_drop, List.take_append_drop]
    have hlength : (messages.rows.take i).length = i := List.length_take_of_le (Nat.le_of_lt hi)
    rw [← hlength] at hindex
    constructor
    · intro h pre original' post hsplit hpre
      rw [Option.some.injEq] at hpre
      rw [hpre] at hlength hindex
      exact (preserves_iff_hasRoom hsplit (by rw [hindex, hlength])).mp h
    · intro h
      exact (preserves_iff_hasRoom hrows hindex).mpr
        (h _ _ _ hrows (by rw [hlength]))

namespace Injections

def friday : CurrentDate := ⟨"2026-05-08, Friday", by decide⟩

def sources : ReminderSources := ⟨friday, "likes tea", "u1".toList, by decide⟩

def human (id : String) (text : String) : ChatMessage := ⟨id.toList, .human, .str text, none, []⟩

def ai (id : String) (text : String) : ChatMessage := ⟨id.toList, .ai, .str text, none, []⟩

/-- The injection before the first turn timed out. -/
def skipped : Transcript := ⟨[human "h1" "hi", ai "a1" "hello", human "h2" "bye"], by decide⟩

end Injections

/-- After an injection that was skipped the first user message ends up behind the second. -/
theorem reminder_reorders_transcript :
    (injected (fun _ => []) Injections.friday Injections.sources
        Injections.skipped).rows.map (fun m => String.ofList m.id) =
      ["h1", "a1", "h2", "h1__memory", "h1__user"] ∧
    ¬ PreservesTranscript (fun _ => []) Injections.friday Injections.sources
      Injections.skipped := by
  constructor
  · decide +kernel
  · intro h
    have hsame := congrArg (List.map ChatMessage.id) h.others
    revert hsame
    decide +kernel

end DeerFlow.Middlewares
