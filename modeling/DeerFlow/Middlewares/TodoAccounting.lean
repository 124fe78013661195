import DeerFlow.Middlewares.TodoMatching

/-! What a call of `write_todos` accounts for. A todo that is still there is not reported, unless a
todo of a new content or another status stands where it would have been found. -/

namespace DeerFlow.Middlewares
open Ranks

section Sound
variable {previous next : List Todo} {diff : TodoDiff}

/-- The indices of the previous todos that were paired with a next one. -/
def pairedIndices (steps : List TodoStep) : List Nat :=
  (steps.filterMap (·.previousMatch)).map Prod.snd

structure Sound (previous next : List Todo) (diff : TodoDiff) : Prop where
  queues : QueuesHold previous diff.previousByContent diff.matchedPreviousIndices
  todos : diff.steps.map (·.todo) = next.filter (·.named.isSome)
  named : ∀ step ∈ diff.steps, step.todo.named = some step.content
  read : ∀ step ∈ diff.steps, ∀ p, step.previousMatch = some p → previous[p.2]? = some p.1
  matched : diff.matchedPreviousIndices = (pairedIndices diff.steps).reverse
  nodup : diff.matchedPreviousIndices.Nodup

theorem found_free {n : Nat} {content : Text} {diff' : TodoDiff} {p : Todo × Nat}
    (h : QueuesHold previous diff.previousByContent diff.matchedPreviousIndices)
    (hmatch : matchTodo previous diff n content = (diff', some p)) :
    previous[p.2]? = some p.1 ∧ p.2 ∉ diff.matchedPreviousIndices := by
  obtain ⟨-, -, -, hknown, hnew⟩ := matchTodo_spec h hmatch
  cases hknows : knows previous content with
  | true =>
    have hmem := List.mem_of_mem_head? (hknown hknows).symm
    obtain ⟨hread, -, hfree⟩ := mem_unmatched.mp hmem
    exact ⟨hread, hfree⟩
  | false =>
    have hfound := hnew hknows
    split_ifs at hfound with hmem
    rcases hread : previous[n]? with _ | t
    · rw [hread] at hfound
      cases hfound
    · rw [hread] at hfound
      cases hfound
      exact ⟨hread, hmem⟩

theorem sound_diffTodos (previous next : List Todo) :
    Sound previous next (diffTodos previous next) := by
  induction next using List.reverseRecOn with
  | nil =>
    refine ⟨fun c => rfl, rfl, ?_, ?_, rfl, List.nodup_nil⟩
    · intro step hstep
      cases hstep
    · intro step hstep
      cases hstep
  | append_singleton next t ih =>
    rw [diffTodos_append]
    rcases ht : t.named with _ | content
    · rw [nextTodo_unnamed ht]
      refine ⟨ih.queues, ?_, ih.named, ih.read, ih.matched, ih.nodup⟩
      rw [ih.todos, List.filter_append, List.filter_cons_of_neg (by simp [ht])]
      exact (List.append_nil _).symm
    · rcases hmatch : matchTodo previous (diffTodos previous next) next.length content
        with ⟨diff', found⟩
      obtain ⟨hmatched, hsteps, hqueues, -⟩ := matchTodo_spec ih.queues hmatch
      rw [nextTodo_named ht hmatch]
      refine ⟨hqueues, ?_, ?_, ?_, ?_, ?_⟩
      · rw [List.map_append, hsteps, ih.todos, List.filter_append,
          List.filter_cons_of_pos (by simp [ht])]
        rfl
      · intro step hstep
        rcases List.mem_append.mp hstep with hmem | hmem
        · exact ih.named step (hsteps ▸ hmem)
        · rw [List.mem_singleton.mp hmem]
          exact ht
      · intro step hstep p hp
        rcases List.mem_append.mp hstep with hmem | hmem
        · exact ih.read step (hsteps ▸ hmem) p hp
        · rw [List.mem_singleton.mp hmem] at hp
          have hfound : found = some p := hp
          exact (found_free ih.queues (hfound ▸ hmatch)).1
      · change diff'.matchedPreviousIndices = _
        rw [hmatched, ih.matched, hsteps, pairedIndices, pairedIndices, List.filterMap_append,
          List.map_append, List.reverse_append]
        cases found <;> rfl
      · change diff'.matchedPreviousIndices.Nodup
        rw [hmatched]
        rcases found with _ | p
        · exact ih.nodup
        · exact List.nodup_cons.mpr ⟨(found_free ih.queues hmatch).2, ih.nodup⟩

end Sound

section Accounts
variable (previous next : List Todo) (content : Text) (status : Option TodoStatus)

/-- A previous todo of that content and status that is taken over, or that no equal next todo
stands beside. -/
def Lost : Prop :=
  (∃ p ∈ indexed previous content,
    p.2 ∈ takenOver previous next next.length ∧ p.1.status = status) ∨
  ∃ q ∈ partners (kept previous (takenOver previous next next.length) content)
    (wanted next content), q.1.1.status = status ∧ ¬ q.2.any (·.status = status) = true

/-- A next todo of that content and status that no equal previous todo stands beside. -/
def Unserved : Prop :=
  ∃ q ∈ partners (wanted next content)
    (kept previous (takenOver previous next next.length) content),
    q.1.status = status ∧ ¬ q.2.any (·.1.status = status) = true

/-- How many next todos of that content and status nothing is reported for. -/
def silent : Nat :=
  (diffTodos previous next).steps.countP fun step =>
    step.todo = ⟨some content, status⟩ && step.action? = none

/-- Every next todo is paired with a previous one of its own or reported as new, every other
previous todo is reported as removed, and what is still there is not reported. -/
structure TodosAccounted : Prop where
  todos : (diffTodos previous next).steps.map (·.todo) = next.filter (·.named.isSome)
  paired : ∀ step ∈ (diffTodos previous next).steps, ∀ p, step.previousMatch = some p →
    previous[p.2]? = some p.1
  distinct : (pairedIndices (diffTodos previous next).steps).Nodup
  new : ∀ step ∈ (diffTodos previous next).steps, step.previousMatch = none →
    ⟨todoStatusKind step.todo.status, step.content⟩ ∈ buildTodoActions previous next
  removed : (buildTodoActions previous next).filter (·.kind = .todoRemove) =
    todoRemovals previous (pairedIndices (diffTodos previous next).steps)
  kept : ∀ content ≠ [], ∀ status,
    min (previous.count ⟨some content, status⟩) (next.count ⟨some content, status⟩) ≤
      silent previous next content status

end Accounts

section Counts
variable {previous next : List Todo} {content : Text} {status : Option TodoStatus} {t : Todo}

theorem eq_todo_iff (hc : content ≠ []) : t = ⟨some content, status⟩ ↔
    t.named = some content ∧ t.status = status := by
  rcases t with ⟨c, s⟩
  unfold Todo.named
  rcases c with _ | c
  · simp
  · by_cases hnil : c = []
    · subst hnil
      simp [Ne.symm hc]
    · have hnamed : (some c).filter (fun c : Text => decide (c ≠ [])) = some c := by
        simp [hnil]
      rw [hnamed, Todo.mk.injEq]

theorem count_eq (hc : content ≠ []) (todos : List Todo) :
    todos.count ⟨some content, status⟩ =
      (todos.filter (·.named = some content)).countP (·.status = status) := by
  rw [List.count, List.countP_filter]
  apply List.countP_congr
  intro t _
  rw [beq_iff_eq, eq_todo_iff hc, Bool.and_eq_true, decide_eq_true_eq, decide_eq_true_eq, and_comm]

theorem count_next (hc : content ≠ []) : next.count ⟨some content, status⟩ =
    (wanted next content).countP (·.status = status) := count_eq hc next

theorem count_previous (hc : content ≠ []) : previous.count ⟨some content, status⟩ =
    (indexed previous content).countP (·.1.status = status) := by
  have hmap : previous.filter (·.named = some content) =
      (indexed previous content).map Prod.fst := by
    conv_lhs => rw [← List.zipIdx_map_fst 0 previous]
    rw [List.filter_map]
    rfl
  rw [count_eq hc, hmap, List.countP_map]
  rfl

/-- The next todos of a known content that nothing is reported for are those that an equal previous
todo stands beside. -/
theorem silent_eq (hc : content ≠ []) (hknows : knows previous content = true) :
    silent previous next content status =
      (partners (wanted next content)
        (kept previous (takenOver previous next next.length) content)).countP
        fun q => q.1.status = status && q.2.any (·.1.status = status) := by
  have hserved := (tracks_diffTodos previous next).served content hknows
  have hsound := sound_diffTodos previous next
  have hsplit : silent previous next content status =
      ((diffTodos previous next).steps.filter (·.content = content)).countP
        fun step => step.todo.status = status && step.unchanged := by
    rw [silent, List.countP_filter]
    apply List.countP_congr
    intro step hstep
    have hnamed := hsound.named step hstep
    simp only [Bool.and_eq_true, decide_eq_true_eq, eq_todo_iff hc, hnamed, Option.some.injEq,
      TodoStep.action?, ite_eq_left_iff, reduceCtorEq, imp_false, not_not]
    tauto
  rw [hsplit, hserved, List.countP_map]
  apply List.countP_congr
  intro q hq
  have hkept : ∀ p, q.2 = some p → p.1.content = some content := by
    intro p hp
    have hmem := mem_of_mem_partners hq hp
    obtain ⟨-, hnamed⟩ := mem_indexed.mp (List.mem_filter.mp hmem).1
    exact (Option.filter_eq_some_iff.mp hnamed).1
  rcases q with ⟨t, _ | p⟩
  · simp [TodoStep.unchanged]
  · have hcontent := hkept p rfl
    simp only [Function.comp_apply, TodoStep.unchanged, Option.any_some, hcontent, decide_true,
      Bool.true_and, Bool.and_eq_true, decide_eq_true_eq]
    constructor
    · rintro ⟨rfl, heq⟩
      exact ⟨rfl, heq⟩
    · rintro ⟨rfl, heq⟩
      exact ⟨rfl, heq⟩

theorem exists_iff_countP_pos {α : Type} {P Q : α → Bool} {l : List α} :
    (∃ q ∈ l, P q = true ∧ ¬ Q q = true) ↔ 0 < l.countP fun q => P q && !Q q := by
  rw [List.countP_pos_iff]
  simp

/-- Nothing is reported for as many todos as there can be, unless some are lost and others would
have needed them. -/
theorem min_le_silent_iff (hc : content ≠ []) :
    min (previous.count ⟨some content, status⟩) (next.count ⟨some content, status⟩) ≤
        silent previous next content status ↔
      ¬ (Lost previous next content status ∧ Unserved previous next content status) := by
  cases hknows : knows previous content with
  | false =>
    have hnone := indexed_of_not_knows hknows
    have hlost : ¬ Lost previous next content status := by
      unfold Lost kept
      rw [hnone]
      rintro (⟨p, hp, -⟩ | ⟨q, hq, -⟩)
      · cases hp
      · cases hq
    rw [count_previous hc, hnone, List.countP_nil, Nat.zero_min]
    exact ⟨fun _ h => hlost h.1, fun _ => Nat.zero_le _⟩
  | true =>
    set taken := takenOver previous next next.length with htaken
    have hnext := countP_partners_add (fun t : Todo => t.status = status)
      (fun p : Todo × Nat => p.1.status = status) (wanted next content)
      (kept previous taken content)
    have hkept := countP_partners_add (fun p : Todo × Nat => p.1.status = status)
      (fun t : Todo => t.status = status) (kept previous taken content) (wanted next content)
    have hcomm := countP_partners_comm (fun p : Todo × Nat => p.1.status = status)
      (fun t : Todo => t.status = status) (kept previous taken content) (wanted next content)
    have hsilent : silent previous next content status = _ := silent_eq hc hknows
    rw [← htaken] at hsilent
    have hgone := List.countP_eq_countP_filter_add (indexed previous content)
      (fun p => decide (p.1.status = status)) (fun p => decide (p.2 ∉ taken))
    have hlost : Lost previous next content status ↔
        0 < (((indexed previous content).filter fun p => !decide (p.2 ∉ taken)).countP
            fun p => p.1.status = status) ∨
          0 < (partners (kept previous taken content) (wanted next content)).countP
            fun q => q.1.1.status = status && !q.2.any (·.status = status) := by
      unfold Lost
      rw [← exists_iff_countP_pos, List.countP_pos_iff, ← htaken]
      simp [List.mem_filter, and_assoc]
    have hunserved : Unserved previous next content status ↔
        0 < (partners (wanted next content) (kept previous taken content)).countP
          fun q => q.1.status = status && !q.2.any (·.1.status = status) := by
      unfold Unserved
      rw [← exists_iff_countP_pos, ← htaken]
      simp
    rw [hlost, hunserved, count_previous hc, count_next hc, hsilent, hgone, ← hnext]
    change min ((kept previous taken content).countP _ + _) _ ≤ _ ↔ _
    rw [← hkept, hcomm]
    omega

theorem todoActionKind_ne (previous : Option Todo) (current : Todo) :
    todoActionKind previous current ≠ .todoRemove := by
  have hstatus (s : Option TodoStatus) : todoStatusKind s ≠ .todoRemove := by
    unfold todoStatusKind
    split <;> exact TodoActionKind.noConfusion
  unfold todoActionKind
  split
  · exact hstatus _
  · split_ifs
    · exact TodoActionKind.noConfusion
    · exact hstatus _

theorem removals_buildTodoActions (previous next : List Todo) :
    (buildTodoActions previous next).filter (·.kind = .todoRemove) =
      todoRemovals previous (pairedIndices (diffTodos previous next).steps) := by
  have hsteps : ((diffTodos previous next).steps.filterMap TodoStep.action?).filter
      (·.kind = .todoRemove) = [] := by
    rw [List.filter_eq_nil_iff]
    intro action haction
    obtain ⟨step, -, hstep⟩ := List.mem_filterMap.mp haction
    unfold TodoStep.action? at hstep
    split_ifs at hstep
    cases hstep
    simpa using todoActionKind_ne _ _
  have hremovals (matched : List Nat) :
      (todoRemovals previous matched).filter (·.kind = .todoRemove) =
        todoRemovals previous matched := by
    rw [List.filter_eq_self]
    intro action haction
    obtain ⟨p, -, hp⟩ := List.mem_filterMap.mp haction
    obtain ⟨content, -, rfl⟩ := Option.map_eq_some_iff.mp hp
    rfl
  have hsame : todoRemovals previous (diffTodos previous next).matchedPreviousIndices =
      todoRemovals previous (pairedIndices (diffTodos previous next).steps) := by
    rw [(sound_diffTodos previous next).matched]
    unfold todoRemovals
    simp only [List.mem_reverse]
  rw [buildTodoActions, List.filter_append, hsteps, List.nil_append, hremovals, hsame]

theorem new_mem_buildTodoActions {step : TodoStep}
    (hstep : step ∈ (diffTodos previous next).steps) (hnone : step.previousMatch = none) :
    ⟨todoStatusKind step.todo.status, step.content⟩ ∈ buildTodoActions previous next := by
  refine List.mem_append_left _ (List.mem_filterMap.mpr ⟨step, hstep, ?_⟩)
  have hchanged : step.unchanged = false := by
    rw [TodoStep.unchanged, hnone]
    rfl
  rw [TodoStep.action?, hchanged, hnone]
  rfl

end Counts

/-- Every todo is accounted for, unless a previous todo is lost to one that took over its position
or stands beside one of another status, and an equal next todo is left without one. -/
theorem todosAccounted_iff (previous next : List Todo) : TodosAccounted previous next ↔
    ∀ content status,
      ¬ (Lost previous next content status ∧ Unserved previous next content status) := by
  have hsound := sound_diffTodos previous next
  constructor
  · intro haccounted content status
    by_cases hc : content = []
    · have hnone : wanted next content = [] := by
        rw [wanted, List.filter_eq_nil_iff]
        intro t _
        rw [decide_eq_true_eq, hc]
        intro hnamed
        exact absurd rfl (of_decide_eq_true (Option.filter_eq_some_iff.mp hnamed).2)
      rintro ⟨-, q, hq, -⟩
      rw [hnone] at hq
      cases hq
    · exact (min_le_silent_iff hc).mp (haccounted.kept content hc status)
  · intro h
    refine ⟨hsound.todos, hsound.read, ?_, ?_, ?_, ?_⟩
    · have hnodup := hsound.nodup
      rwa [hsound.matched, List.nodup_reverse] at hnodup
    · exact fun step hstep hnone => new_mem_buildTodoActions hstep hnone
    · exact removals_buildTodoActions previous next
    · exact fun content hc status => (min_le_silent_iff hc).mpr (h content status)

/-- A todo that is put in front takes over the one behind it, which is then reported though nothing
has changed about it. -/
theorem insertedTodo_reports_unchanged :
    let previous : List Todo := [⟨some ['a'], some .pending⟩, ⟨some ['b'], some .pending⟩]
    let next := ⟨some ['n'], some .pending⟩ :: previous
    buildTodoActions previous next = [⟨.todoUpdate, ['n']⟩, ⟨.todoUpdate, ['a']⟩] ∧
      ¬ TodosAccounted previous next := by
  intro previous next
  refine ⟨by decide, fun haccounted => ?_⟩
  have hkept := haccounted.kept ['a'] (by decide) (some .pending)
  exact absurd hkept (by decide)

end DeerFlow.Middlewares
