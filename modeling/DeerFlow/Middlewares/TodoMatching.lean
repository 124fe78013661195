import DeerFlow.Middlewares.TodoActions

/-! Which previous todo a next one is matched with. Todos of one content are matched in their order,
less those that a todo of a new content takes over by its position. -/

namespace DeerFlow.Middlewares
open Ranks

section TakenOver
variable (previous next : List Todo)

def wanted (content : Text) : List Todo := next.filter (·.named = some content)

/-- The todos of a content that are left for its next todos. -/
def kept (taken : List Nat) (content : Text) : List (Todo × Nat) :=
  (indexed previous content).filter (·.2 ∉ taken)

/-- A todo of a new content takes over the previous todo at its position, unless there have been
enough todos of that one's content before. -/
def takesOver (taken : List Nat) (n : Nat) : Bool :=
  match next[n]?.bind Todo.named, previous[n]?.bind Todo.named with
  | some content, some displaced =>
    !knows previous content && n ∉ ((kept previous taken displaced).take
      (wanted (next.take n) displaced).length).map Prod.snd
  | _, _ => false

/-- The positions, among the first `n`, at which a todo of a new content takes over. -/
def takenOver : Nat → List Nat
  | 0 => []
  | n + 1 =>
    let taken := takenOver n
    if takesOver previous next taken n then n :: taken else taken

end TakenOver

section Prefixes
variable {previous next : List Todo} {taken : List Nat} {n : Nat}

theorem takesOver_append (h : n < next.length) (t : Todo) :
    takesOver previous (next ++ [t]) taken n = takesOver previous next taken n := by
  unfold takesOver
  rw [List.getElem?_append_left h, List.take_append_of_le_length h.le]

theorem takenOver_append (h : n ≤ next.length) (t : Todo) :
    takenOver previous (next ++ [t]) n = takenOver previous next n := by
  induction n with
  | zero => rfl
  | succ n ih =>
    rw [takenOver, takenOver, ih (by omega), takesOver_append (by omega)]

theorem lt_of_mem_takenOver (h : n ∈ takenOver previous next k) : n < k := by
  induction k with
  | zero => cases h
  | succ k ih =>
    unfold takenOver at h
    extract_lets taken at h
    split_ifs at h
    · rcases List.mem_cons.mp h with rfl | hmem
      · exact Nat.lt_succ_self n
      · exact (ih hmem).trans (Nat.lt_succ_self k)
    · exact (ih h).trans (Nat.lt_succ_self k)

theorem wanted_append (next : List Todo) (t : Todo) (content : Text) :
    wanted (next ++ [t]) content =
      wanted next content ++ if t.named = some content then [t] else [] := by
  unfold wanted
  rw [List.filter_append]
  split_ifs with h
  · simp [h]
  · simp [h]

theorem mem_indexed {p : Todo × Nat} {content : Text} : p ∈ indexed previous content ↔
    previous[p.2]? = some p.1 ∧ p.1.named = some content := by
  unfold indexed
  rw [List.mem_filter, List.mem_zipIdx_iff_getElem?, decide_eq_true_eq]

theorem nodup_indexed (previous : List Todo) (content : Text) :
    ((indexed previous content).map Prod.snd).Nodup := by
  have hsub : ((indexed previous content).map Prod.snd).Sublist (previous.zipIdx.map Prod.snd) :=
    List.filter_sublist.map Prod.snd
  rw [List.zipIdx_map_snd] at hsub
  exact List.Nodup.sublist hsub List.nodup_range'

theorem indexed_of_not_knows {content : Text} (h : knows previous content = false) :
    indexed previous content = [] := by
  rw [List.eq_nil_iff_forall_not_mem]
  intro p hp
  obtain ⟨hread, hnamed⟩ := mem_indexed.mp hp
  have hknows : knows previous content = true :=
    List.any_eq_true.mpr ⟨p.1, List.mem_of_getElem? hread, decide_eq_true hnamed⟩
  exact Bool.noConfusion (h.symm.trans hknows)

theorem takenOver_snoc (previous next : List Todo) (t : Todo) :
    takenOver previous (next ++ [t]) (next ++ [t]).length =
      if takesOver previous (next ++ [t]) (takenOver previous next next.length) next.length then
        next.length :: takenOver previous next next.length
      else takenOver previous next next.length := by
  rw [List.length_append, List.length_singleton, takenOver, takenOver_append le_rfl]

theorem takesOver_snoc (previous next : List Todo) (t : Todo) (taken : List Nat) :
    takesOver previous (next ++ [t]) taken next.length =
      match t.named, previous[next.length]?.bind Todo.named with
      | some content, some displaced => !knows previous content &&
          next.length ∉ ((kept previous taken displaced).take
            (wanted next displaced).length).map Prod.snd
      | _, _ => false := by
  unfold takesOver
  rw [List.getElem?_concat_length, List.take_left, Option.bind_some]

end Prefixes

section Marks
variable {previous : List Todo} {content : Text} {matched : List Nat} {p : Todo × Nat}

/-- The todos of a content that have not been matched. -/
def unmatched (previous : List Todo) (matched : List Nat) (content : Text) : List (Todo × Nat) :=
  (indexed previous content).filter (·.2 ∉ matched)

theorem filter_mark (l : List (Todo × Nat)) (i : Nat) (matched : List Nat) :
    l.filter (fun p => decide (p.2 ∉ i :: matched)) =
      (l.filter (fun p => decide (p.2 ∉ matched))).filter (fun p => decide (p.2 ≠ i)) := by
  rw [List.filter_filter]
  apply List.filter_congr
  intro p _
  simp [List.mem_cons, not_or]

theorem mem_unmatched : p ∈ unmatched previous matched content ↔
    previous[p.2]? = some p.1 ∧ p.1.named = some content ∧ p.2 ∉ matched := by
  unfold unmatched
  rw [List.mem_filter, mem_indexed, decide_eq_true_eq, and_assoc]

theorem unmatched_of_ne {i : Nat} (h : previous[i]?.bind Todo.named ≠ some content) :
    unmatched previous (i :: matched) content = unmatched previous matched content := by
  unfold unmatched
  rw [filter_mark, List.filter_eq_self]
  intro p hp
  obtain ⟨hread, hnamed, -⟩ := mem_unmatched.mp hp
  rw [decide_eq_true_eq]
  rintro rfl
  rw [hread, Option.bind_some] at h
  exact h hnamed

theorem unmatched_of_cons {rest : List (Todo × Nat)}
    (h : unmatched previous matched content = p :: rest) :
    unmatched previous (p.2 :: matched) content = rest := by
  have hnodup : ((p :: rest).map Prod.snd).Nodup := by
    rw [← h]
    exact (nodup_indexed previous content).sublist (List.filter_sublist.map Prod.snd)
  rw [List.map_cons, List.nodup_cons] at hnodup
  unfold unmatched at h ⊢
  rw [filter_mark, h, List.filter_cons_of_neg (by simp), List.filter_eq_self]
  intro q hq
  rw [decide_eq_true_eq]
  intro heq
  exact hnodup.1 (heq ▸ List.mem_map_of_mem hq)

theorem filter_dropWhile_mem (matched : List Nat) (l : List (Todo × Nat)) :
    (l.dropWhile (fun p => decide (p.2 ∈ matched))).filter (fun p => decide (p.2 ∉ matched)) =
      l.filter (fun p => decide (p.2 ∉ matched)) := by
  induction l with
  | nil => rfl
  | cons p l ih =>
    by_cases hp : p.2 ∈ matched
    · rw [List.dropWhile_cons_of_pos (by simpa using hp), ih, List.filter_cons_of_neg (by simpa)]
    · rw [List.dropWhile_cons_of_neg (by simpa using hp)]

end Marks

section Steps
variable {previous : List Todo} {queues : Text → List (Todo × Nat)} {matched : List Nat}
  {diff diff' : TodoDiff} {content : Text} {found : Option (Todo × Nat)}

/-- The queues hold what has not been matched, and may hold matched todos besides. -/
def QueuesHold (previous : List Todo) (queues : Text → List (Todo × Nat)) (matched : List Nat) :
    Prop :=
  ∀ c, (queues c).filter (·.2 ∉ matched) = unmatched previous matched c

theorem unmatched_mark (i : Nat) : unmatched previous (i :: matched) content =
    (unmatched previous matched content).filter (·.2 ≠ i) :=
  filter_mark _ i matched

theorem QueuesHold.mark (h : QueuesHold previous queues matched) (i : Nat) :
    QueuesHold previous queues (i :: matched) := by
  intro c
  rw [filter_mark, h c, unmatched_mark]

theorem QueuesHold.update (h : QueuesHold previous queues matched) {queue : List (Todo × Nat)}
    (hqueue : queue.filter (·.2 ∉ matched) = unmatched previous matched content) :
    QueuesHold previous (Function.update queues content queue) matched := by
  intro c
  by_cases hc : c = content
  · subst hc
    rw [Function.update_self]
    exact hqueue
  · rw [Function.update_of_ne hc]
    exact h c

theorem matchByContent_spec
    (h : QueuesHold previous diff.previousByContent diff.matchedPreviousIndices)
    (hmatch : matchByContent diff content = (diff', found)) :
    found = (unmatched previous diff.matchedPreviousIndices content).head? ∧
      diff'.matchedPreviousIndices =
        (found.map Prod.snd).toList ++ diff.matchedPreviousIndices ∧
      diff'.steps = diff.steps ∧
      QueuesHold previous diff'.previousByContent diff'.matchedPreviousIndices := by
  have hqueue := filter_dropWhile_mem diff.matchedPreviousIndices (diff.previousByContent content)
  rw [h content] at hqueue
  unfold matchByContent at hmatch
  split at hmatch
  · next hnone =>
    obtain ⟨rfl, rfl⟩ := Prod.mk.inj hmatch
    rw [hnone, List.filter_nil] at hqueue
    refine ⟨?_, rfl, rfl, h.update hqueue⟩
    rw [← hqueue]
    rfl
  · next p rest hsome =>
    obtain ⟨rfl, rfl⟩ := Prod.mk.inj hmatch
    have hfree : p.2 ∉ diff.matchedPreviousIndices := by
      have hhead := List.head?_dropWhile_not (fun p : Todo × Nat =>
        decide (p.2 ∈ diff.matchedPreviousIndices)) (diff.previousByContent content)
      rw [hsome] at hhead
      simpa using hhead
    rw [hsome, List.filter_cons_of_pos (by simpa using hfree)] at hqueue
    refine ⟨?_, rfl, rfl, (h.mark p.2).update ?_⟩
    · rw [← hqueue]
      rfl
    · rw [filter_mark, unmatched_mark, ← hqueue, List.filter_cons_of_neg (by simp)]

theorem matchTodo_spec {n : Nat}
    (h : QueuesHold previous diff.previousByContent diff.matchedPreviousIndices)
    (hmatch : matchTodo previous diff n content = (diff', found)) :
    diff'.matchedPreviousIndices =
        (found.map Prod.snd).toList ++ diff.matchedPreviousIndices ∧
      diff'.steps = diff.steps ∧
      QueuesHold previous diff'.previousByContent diff'.matchedPreviousIndices ∧
      (knows previous content = true →
        found = (unmatched previous diff.matchedPreviousIndices content).head?) ∧
      (knows previous content = false → found =
        if n ∈ diff.matchedPreviousIndices then none else previous[n]?.map fun t => (t, n)) := by
  unfold matchTodo at hmatch
  rcases hcontent : matchByContent diff content with ⟨d, _ | p⟩
  · rw [hcontent] at hmatch
    obtain ⟨hhead, hmatched, hsteps, hqueues⟩ := matchByContent_spec h hcontent
    rw [Option.map_none, Option.toList_none, List.nil_append] at hmatched
    replace hmatch : matchByPosition previous d n content = (diff', found) := hmatch
    unfold matchByPosition at hmatch
    split at hmatch
    · next todo hread =>
      split_ifs at hmatch with htake
      · obtain ⟨rfl, rfl⟩ := Prod.mk.inj hmatch
        simp only [Bool.and_eq_true, Bool.not_eq_true', decide_eq_true_eq, hmatched] at htake
        refine ⟨by rw [← hmatched]; rfl, hsteps, hqueues.mark n, fun hknows => ?_, fun _ => ?_⟩
        · exact Bool.noConfusion (htake.1.symm.trans hknows)
        · rw [if_neg htake.2, hread]
          rfl
      · obtain ⟨rfl, rfl⟩ := Prod.mk.inj hmatch
        refine ⟨hmatched, hsteps, hqueues, fun _ => hhead, fun hknows => ?_⟩
        have hmem : n ∈ diff.matchedPreviousIndices := by
          simpa [hknows, hmatched] using htake
        rw [if_pos hmem]
    · next hread =>
      obtain ⟨rfl, rfl⟩ := Prod.mk.inj hmatch
      refine ⟨hmatched, hsteps, hqueues, fun _ => hhead, fun _ => ?_⟩
      rw [hread]
      exact (ite_self none).symm
  · rw [hcontent] at hmatch
    obtain ⟨rfl, rfl⟩ := Prod.mk.inj hmatch
    obtain ⟨hhead, hmatched, hsteps, hqueues⟩ := matchByContent_spec h hcontent
    refine ⟨hmatched, hsteps, hqueues, fun _ => hhead, fun hknows => ?_⟩
    rw [unmatched, indexed_of_not_knows hknows] at hhead
    cases hhead

end Steps

section Tracking
variable {previous next : List Todo} {diff : TodoDiff}

/-- What is left of a content after some of the next todos, and what those of it were given. -/
structure Tracks (previous next : List Todo) (diff : TodoDiff) : Prop where
  queues : QueuesHold previous diff.previousByContent diff.matchedPreviousIndices
  left : ∀ c, unmatched previous diff.matchedPreviousIndices c =
    (kept previous (takenOver previous next next.length) c).drop (wanted next c).length
  served : ∀ c, knows previous c = true →
    diff.steps.filter (·.content = c) =
      (partners (wanted next c) (kept previous (takenOver previous next next.length) c)).map
        fun p => ⟨p.1, c, p.2⟩

theorem tracks_start (previous : List Todo) : Tracks previous [] ⟨indexed previous, [], []⟩ := by
  refine ⟨fun c => rfl, fun c => rfl, fun c _ => rfl⟩

theorem displaced_iff (h : Tracks previous next diff) {d : Todo} {c : Text}
    (hread : previous[next.length]? = some d) (hnamed : d.named = some c) :
    next.length ∉ diff.matchedPreviousIndices ↔
      next.length ∉ ((kept previous (takenOver previous next next.length) c).take
        (wanted next c).length).map Prod.snd := by
  set taken := takenOver previous next next.length
  have hfree : next.length ∉ taken := fun hmem => Nat.lt_irrefl _ (lt_of_mem_takenOver hmem)
  have hkept : (d, next.length) ∈ kept previous taken c :=
    List.mem_filter.mpr ⟨mem_indexed.mpr ⟨hread, hnamed⟩, by simpa using hfree⟩
  have hnodup : ((kept previous taken c).map Prod.snd).Nodup :=
    List.Nodup.sublist (List.filter_sublist.map Prod.snd) (nodup_indexed previous c)
  have hunmatched : next.length ∉ diff.matchedPreviousIndices ↔
      (d, next.length) ∈ (kept previous taken c).drop (wanted next c).length := by
    rw [← h.left c, mem_unmatched]
    exact ⟨fun hmem => ⟨hread, hnamed, hmem⟩, fun hmem => hmem.2.2⟩
  rw [← List.take_append_drop (wanted next c).length (kept previous taken c), List.map_append,
    List.nodup_append] at hnodup
  rw [hunmatched]
  constructor
  · intro hdrop htake
    exact hnodup.2.2 _ htake _ (List.mem_map_of_mem hdrop) rfl
  · intro htake
    rw [← List.take_append_drop (wanted next c).length (kept previous taken c)] at hkept
    rcases List.mem_append.mp hkept with hmem | hmem
    · exact absurd (List.mem_map_of_mem hmem) htake
    · exact hmem

theorem Tracks.unnamed (h : Tracks previous next diff) {t : Todo} (ht : t.named = none) :
    Tracks previous (next ++ [t]) diff := by
  have htaken : takenOver previous (next ++ [t]) (next ++ [t]).length =
      takenOver previous next next.length := by
    rw [takenOver_snoc, takesOver_snoc, ht]
    rfl
  have hwanted (c : Text) : wanted (next ++ [t]) c = wanted next c := by
    rw [wanted_append, ht]
    exact List.append_nil _
  refine ⟨h.queues, fun c => ?_, fun c hc => ?_⟩
  · rw [htaken, hwanted]
    exact h.left c
  · rw [htaken, hwanted]
    exact h.served c hc

theorem unmatched_head (previous : List Todo) (matched : List Nat) (c : Text) :
    unmatched previous (((unmatched previous matched c).head?.map Prod.snd).toList ++ matched) c =
      (unmatched previous matched c).tail := by
  rcases hcases : unmatched previous matched c with _ | ⟨p, rest⟩
  · rw [List.head?_nil, Option.map_none, Option.toList_none, List.nil_append, hcases]
    rfl
  · exact unmatched_of_cons hcases

/-- A todo of a known content gets the first one that is left of it. -/
theorem Tracks.known (h : Tracks previous next diff) {t : Todo} {content : Text}
    {diff' : TodoDiff} {found : Option (Todo × Nat)} (ht : t.named = some content)
    (hknows : knows previous content = true)
    (hmatch : matchTodo previous diff next.length content = (diff', found)) :
    Tracks previous (next ++ [t]) { diff' with steps := diff'.steps ++ [⟨t, content, found⟩] } := by
  obtain ⟨hmatched, hsteps, hqueues, hfound, -⟩ := matchTodo_spec h.queues hmatch
  have hfound := hfound hknows
  have htaken : takenOver previous (next ++ [t]) (next ++ [t]).length =
      takenOver previous next next.length := by
    rw [takenOver_snoc, takesOver_snoc, ht]
    rcases previous[next.length]?.bind Todo.named with _ | displaced
    · rfl
    · simp [hknows]
  have hother {c : Text} (hc : c ≠ content) : wanted (next ++ [t]) c = wanted next c := by
    rw [wanted_append, ht, if_neg fun heq => hc (Option.some.inj heq).symm, List.append_nil]
  have hsame : wanted (next ++ [t]) content = wanted next content ++ [t] := by
    rw [wanted_append, ht, if_pos rfl]
  refine ⟨hqueues, fun c => ?_, fun c hc => ?_⟩
  · rw [htaken]
    change unmatched previous diff'.matchedPreviousIndices c = _
    by_cases heq : c = content
    · subst heq
      rw [hmatched, hfound, unmatched_head, h.left c, hsame, List.length_append,
        List.length_singleton, List.tail_drop]
    · rw [hother heq, ← h.left c, hmatched, hfound]
      rcases hcases : unmatched previous diff.matchedPreviousIndices content with _ | ⟨p, rest⟩
      · rfl
      · have hp : p ∈ unmatched previous diff.matchedPreviousIndices content := by
          rw [hcases]
          exact List.mem_cons_self ..
        obtain ⟨hread, hnamed, -⟩ := mem_unmatched.mp hp
        apply unmatched_of_ne
        rw [hread, Option.bind_some, hnamed]
        exact fun heq' => heq (Option.some.inj heq').symm
  · rw [htaken]
    change (diff'.steps ++ [_]).filter _ = _
    rw [List.filter_append, hsteps, h.served c hc]
    by_cases heq : c = content
    · subst heq
      rw [hsame, partners_append_singleton, List.map_append, List.filter_cons_of_pos (by simp),
        hfound, h.left c, List.head?_drop]
      rfl
    · rw [hother heq, List.filter_cons_of_neg (by simpa using fun h => heq h.symm)]
      exact List.append_nil _

/-- The position that a todo of a new content takes over. -/
def newlyTaken (previous next : List Todo) (t : Todo) : Bool :=
  takesOver previous (next ++ [t]) (takenOver previous next next.length) next.length

theorem kept_snoc (previous next : List Todo) (t : Todo) (c : Text) :
    kept previous (takenOver previous (next ++ [t]) (next ++ [t]).length) c =
      (kept previous (takenOver previous next next.length) c).filter
        fun p => !(newlyTaken previous next t && p.2 = next.length) := by
  rw [takenOver_snoc]
  change kept previous (if newlyTaken previous next t = true then _ else _) c = _
  cases newlyTaken previous next t with
  | false => simp
  | true =>
    rw [if_pos rfl, kept, filter_mark]
    exact List.filter_congr fun p _ => by simp

theorem newlyTaken_iff (h : Tracks previous next diff) {t : Todo} {content : Text}
    (ht : t.named = some content) (hknows : knows previous content = false) :
    newlyTaken previous next t = true ↔
      (previous[next.length]?.bind Todo.named).isSome = true ∧
        next.length ∉ diff.matchedPreviousIndices := by
  rw [newlyTaken, takesOver_snoc, ht]
  rcases hread : previous[next.length]? with _ | d
  · simp
  · rcases hnamed : d.named with _ | displaced
    · simp [hnamed]
    · rw [Option.bind_some, hnamed, displaced_iff h hread hnamed]
      simp only [hknows, Bool.not_false, Bool.true_and, decide_eq_true_eq, Option.isSome_some,
        true_and]

/-- What has been given to a next todo is not taken over. -/
theorem first_stay {t : Todo} (c : Text) {p : Todo × Nat}
    (hp : p ∈ (kept previous (takenOver previous next next.length) c).take
      (wanted next c).length) : (!(newlyTaken previous next t && p.2 = next.length)) = true := by
  rw [Bool.not_eq_true', Bool.and_eq_false_iff, decide_eq_false_iff_not]
  by_cases heq : p.2 = next.length
  · left
    obtain ⟨hread, hnamed⟩ := mem_indexed.mp (List.mem_filter.mp (List.mem_of_mem_take hp)).1
    rw [newlyTaken, takesOver_snoc, ← heq, hread, Option.bind_some, hnamed]
    rcases t.named with _ | content
    · rfl
    · have hmem : p.2 ∈ ((kept previous (takenOver previous next next.length) c).take
          (wanted next c).length).map Prod.snd := List.mem_map_of_mem hp
      rw [heq] at hmem ⊢
      simp only [hmem, not_true_eq_false, decide_false, Bool.and_false]
  · exact .inr heq

theorem unmatched_new (h : Tracks previous next diff) {t : Todo} {content : Text}
    {diff' : TodoDiff} {found : Option (Todo × Nat)} (ht : t.named = some content)
    (hknows : knows previous content = false)
    (hmatch : matchTodo previous diff next.length content = (diff', found)) (c : Text) :
    unmatched previous diff'.matchedPreviousIndices c =
      (unmatched previous diff.matchedPreviousIndices c).filter
        fun p => !(newlyTaken previous next t && p.2 = next.length) := by
  obtain ⟨hmatched, -, -, -, hfound⟩ := matchTodo_spec h.queues hmatch
  have hiff := newlyTaken_iff h ht hknows
  rw [hmatched, hfound hknows]
  by_cases hmem : next.length ∈ diff.matchedPreviousIndices
  · have hstays : newlyTaken previous next t = false := by
      rw [← Bool.not_eq_true, hiff]
      exact fun hnew => hnew.2 hmem
    rw [if_pos hmem, hstays]
    simp
  · rw [if_neg hmem]
    rcases hread : previous[next.length]? with _ | d
    · have hstays : newlyTaken previous next t = false := by
        rw [← Bool.not_eq_true, hiff, hread]
        simp
      rw [hstays]
      simp
    · change unmatched previous (next.length :: diff.matchedPreviousIndices) c = _
      rw [unmatched_mark]
      apply List.filter_congr
      intro p hp
      by_cases heq : p.2 = next.length
      · obtain ⟨hp', hnamed, -⟩ := mem_unmatched.mp hp
        have hnew : newlyTaken previous next t = true := by
          rw [hiff, ← heq, hp', Option.bind_some, hnamed]
          exact ⟨rfl, heq ▸ hmem⟩
        simp [heq, hnew]
      · simp [heq]

/-- A todo of a new content takes over what stands at its position, if it has not been matched. -/
theorem Tracks.new (h : Tracks previous next diff) {t : Todo} {content : Text}
    {diff' : TodoDiff} {found : Option (Todo × Nat)} (ht : t.named = some content)
    (hknows : knows previous content = false)
    (hmatch : matchTodo previous diff next.length content = (diff', found)) :
    Tracks previous (next ++ [t]) { diff' with steps := diff'.steps ++ [⟨t, content, found⟩] } := by
  obtain ⟨-, hsteps, hqueues, -, -⟩ := matchTodo_spec h.queues hmatch
  have hwanted {c : Text} (hc : c ≠ content) : wanted (next ++ [t]) c = wanted next c := by
    rw [wanted_append, ht, if_neg fun heq => hc (Option.some.inj heq).symm, List.append_nil]
  refine ⟨hqueues, fun c => ?_, fun c hc => ?_⟩
  · change unmatched previous diff'.matchedPreviousIndices c = _
    by_cases heq : c = content
    · subst heq
      rw [unmatched, kept, indexed_of_not_knows hknows, List.filter_nil, List.filter_nil,
        List.drop_nil]
    · rw [hwanted heq, unmatched_new h ht hknows hmatch, kept_snoc, h.left c,
        (filter_of_take fun p hp => first_stay c hp).2]
  · have heq : c ≠ content := by
      rintro rfl
      exact Bool.noConfusion (hknows.symm.trans hc)
    change (diff'.steps ++ [_]).filter _ = _
    rw [List.filter_append, List.filter_cons_of_neg (by simpa using fun h => heq h.symm),
      List.filter_nil, List.append_nil, hsteps, h.served c hc, hwanted heq, kept_snoc]
    refine congrArg (List.map _) (partners_congr ?_)
    exact (filter_of_take fun p hp => first_stay c hp).1.symm

theorem nextTodo_unnamed {t : Todo} (ht : t.named = none) (n : Nat) :
    nextTodo previous diff (t, n) = diff := by
  simp only [nextTodo, ht]

theorem nextTodo_named {t : Todo} {n : Nat} {content : Text} {diff' : TodoDiff}
    {found : Option (Todo × Nat)} (ht : t.named = some content)
    (hmatch : matchTodo previous diff n content = (diff', found)) :
    nextTodo previous diff (t, n) =
      { diff' with steps := diff'.steps ++ [⟨t, content, found⟩] } := by
  simp only [nextTodo, ht, hmatch]

theorem diffTodos_append (previous next : List Todo) (t : Todo) :
    diffTodos previous (next ++ [t]) =
      nextTodo previous (diffTodos previous next) (t, next.length) := by
  rw [diffTodos, List.zipIdx_append, List.foldl_append, Nat.zero_add]
  rfl

theorem tracks_diffTodos (previous next : List Todo) :
    Tracks previous next (diffTodos previous next) := by
  induction next using List.reverseRecOn with
  | nil => exact tracks_start previous
  | append_singleton next t ih =>
    rw [diffTodos_append]
    rcases ht : t.named with _ | content
    · rw [nextTodo_unnamed ht]
      exact ih.unnamed ht
    · rcases hmatch : matchTodo previous (diffTodos previous next) next.length content
        with ⟨diff', found⟩
      rw [nextTodo_named ht hmatch]
      cases hknows : knows previous content with
      | true => exact ih.known ht hknows hmatch
      | false => exact ih.new ht hknows hmatch

end Tracking

end DeerFlow.Middlewares
