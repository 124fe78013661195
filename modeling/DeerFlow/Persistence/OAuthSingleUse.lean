import DeerFlow.Persistence.OAuthStates

/-! A binding code is consumed at most once, for its own provider and in time,
and an owner never has more usable codes than the cap. What a statement does to
the table is said once, by `Move`; the cap rests on the lock, and single use on
the condition of the `UPDATE`. -/

namespace DeerFlow.Persistence
open Transition

namespace OAuthStates
variable {τ : Type} {maxPending : Nat} {s t : OAuthStates τ} {i : Nat} {c : OAuthCall τ}

section Tables

/-- The rows of the table, those a call is about to delete with them. -/
def stored (s : OAuthStates τ) : List (OAuthStateRow τ) := s.table.rows.map (·.row)

theorem delete_eq {p : OAuthStateRow τ → Bool} (h : s.delete i p = some t) :
    t.stored = s.stored ∧ t.clock = s.clock ∧ t.calls = s.calls ∧ t.created = s.created ∧
      t.returned = s.returned ∧ ∀ x ∈ t.table.rows, x ∈ s.table.rows ∨ p x.row = true := by
  unfold delete at h
  split_ifs at h
  cases h
  refine ⟨?_, rfl, rfl, rfl, rfl, ?_⟩
  · unfold stored Table.mapRows
    rw [List.map_map]
    apply List.map_congr_left
    intro x _
    rw [Function.comp_apply]
    split_ifs <;> rfl
  · intro x hx
    obtain ⟨y, hy, rfl⟩ := List.mem_map.mp hx
    split_ifs with hp
    · exact .inr hp
    · exact .inl hy

theorem stored_commit (s : OAuthStates τ) (i : Nat) : List.Sublist (s.commit i).stored s.stored :=
  List.filter_sublist.map _

theorem stored_rollback (s : OAuthStates τ) (i : Nat) : (s.rollback i).stored = s.stored := by
  unfold stored rollback Table.mapRows
  rw [List.map_map]
  apply List.map_congr_left
  intro x _
  rw [Function.comp_apply]
  split_ifs <;> rfl

theorem subset_of_stored_eq (h : t.stored = s.stored) : t.stored ⊆ s.stored := by
  rw [h]
  exact List.Subset.refl _

end Tables

variable [LinearOrder τ]

/-- What the next statement of a call does. -/
inductive Move (maxPending : Nat) (s : OAuthStates τ) (i : Nat) (c : OAuthCall τ) :
    OAuthStates τ → Prop
  | lock {args : OAuthStateArgs τ} : c.request = .create args → c.pc = .start →
      s.lockFree args.ownerUserId args.provider = true → Move maxPending s i c (s.goto i .locked)
  | prune {args : OAuthStateArgs τ} {p : OAuthStateRow τ → Bool} {u : OAuthStates τ} :
      c.request = .create args → c.pc = .locked → s.delete i p = some u →
      (∀ r, p r = true → r.expiresAt < c.now) → Move maxPending s i c (u.goto i .pruned)
  | count {args : OAuthStateArgs τ} : c.request = .create args → c.pc = .pruned →
      Move maxPending s i c (s.goto i (.counted
        (pending (s.visible i) args.ownerUserId args.provider c.now).length))
  | insert {args : OAuthStateArgs τ} {n : Nat} {row : OAuthStateRow τ} :
      c.request = .create args → c.pc = .counted n → n < maxPending → args.row = some row →
      Move maxPending s i c (s.insert i row)
  | sweep {provider state : String} {p : OAuthStateRow τ → Bool} {u : OAuthStates τ} :
      c.request = .consume provider state → c.pc = .start → s.delete i p = some u →
      (∀ r, p r = true → r.expiresAt < c.now) → Move maxPending s i c (u.goto i .swept)
  | find {provider state : String} {r : OAuthStateRow τ} :
      c.request = .consume provider state → c.pc = .swept → r ∈ s.visible i →
      r.stateHash = hashState state → r.provider = provider → c.now ≤ r.expiresAt →
      Move maxPending s i c (s.goto i (.read r))
  | consume {provider state : String} {r : OAuthStateRow τ} {x : StoredState τ} :
      c.request = .consume provider state → c.pc = .read r →
      s.table.get (hashState state) = some x → x.row.consumedAt = none → x.deletedBy = none →
      Move maxPending s i c (s.consume i c provider state r x)
  | expire {p : OAuthStateRow τ → Bool} {u : OAuthStates τ} : c.request = .deleteExpired →
      s.delete i p = some u → (∀ r, p r = true → r.expiresAt < c.now) →
      Move maxPending s i c (u.commit i)
  | commit : Move maxPending s i c (s.commit i)
  | rollback : Move maxPending s i c (s.rollback i)

section Moves

theorem move_of_createStep {args : OAuthStateArgs τ} (hrequest : c.request = .create args)
    (h : s.createStep maxPending i c args = some t) : Move maxPending s i c t := by
  unfold createStep at h
  split at h
  · next hpc =>
    split_ifs at h with hfree
    cases h
    exact .lock hrequest hpc hfree
  · next hpc =>
    obtain ⟨u, hu, rfl⟩ := Option.map_eq_some_iff.mp h
    exact .prune hrequest hpc hu (by simp)
  · next hpc =>
    cases h
    exact .count hrequest hpc
  · next n hpc =>
    split_ifs at h with hfull
    · cases h
      exact .rollback
    · split at h
      · cases h
        exact .rollback
      · next row hrow =>
        have hinsert : Move maxPending s i c (s.insert i row) :=
          .insert hrequest hpc (Nat.lt_of_not_le hfull) hrow
        split at h
        · cases h
          exact hinsert
        · split_ifs at h
          · cases h
            exact hinsert
          · cases h
            exact .rollback
  · cases h

theorem move_of_consumeStep {provider state : String}
    (hrequest : c.request = .consume provider state)
    (h : s.consumeStep i c provider state = some t) : Move maxPending s i c t := by
  unfold consumeStep at h
  split at h
  · next hpc =>
    obtain ⟨u, hu, rfl⟩ := Option.map_eq_some_iff.mp h
    exact .sweep hrequest hpc hu (by simp)
  · next hpc =>
    split at h
    · cases h
      exact .commit
    · next r hr =>
      have hhash : r.stateHash = hashState state := by
        simpa using List.find?_some hr
      split_ifs at h with hrejected
      · cases h
        exact .commit
      · cases h
        unfold rejected at hrejected
        simp only [ne_eq, Bool.or_eq_true, decide_eq_true_eq, not_or, not_not, not_lt]
          at hrejected
        exact .find hrequest hpc (List.mem_of_find?_eq_some hr) hhash hrejected.1.1 hrejected.2
  · next r hpc =>
    split at h
    · cases h
      exact .commit
    · next x hx =>
      split_ifs at h with hgone hfree
      · cases h
        exact .commit
      · cases h
        rw [not_or, Bool.not_eq_true, Option.isSome_eq_false_iff, Option.isNone_iff_eq_none]
          at hgone
        exact .consume hrequest hpc hx hgone.2 hfree
  · cases h

theorem move_of_callStep (h : s.callStep maxPending i c = some t) :
    Move maxPending s i c t := by
  unfold callStep at h
  split at h
  · next args hrequest => exact move_of_createStep hrequest h
  · next provider state hrequest => exact move_of_consumeStep hrequest h
  · next hrequest =>
    unfold deleteExpiredStep at h
    split at h
    · obtain ⟨u, hu, rfl⟩ := Option.map_eq_some_iff.mp h
      exact .expire hrequest hu (by simp)
    · cases h

end Moves

section Cap

def pendingCount (s : OAuthStates τ) (owner provider : String) : Nat :=
  (pending s.stored owner provider s.clock).length

theorem pendingCount_le (hstored : t.stored.Sublist s.stored) (hclock : s.clock ≤ t.clock)
    (owner provider : String) : t.pendingCount owner provider ≤ s.pendingCount owner provider := by
  have hfewer : (pending t.stored owner provider t.clock).Sublist
      (pending t.stored owner provider s.clock) := by
    apply List.monotone_filter_right
    intro r hr
    unfold usable at hr ⊢
    simp only [Bool.and_eq_true, decide_eq_true_eq] at hr ⊢
    exact ⟨hr.1, hclock.trans hr.2⟩
  exact (hfewer.trans (hstored.filter _)).length_le

theorem length_pending_put (table : Table (@StoredState.stateHash τ)) (x : StoredState τ)
    (owner provider : String) (now : τ) :
    (pending ((table.put x).rows.map (·.row)) owner provider now).length ≤
      (pending (table.rows.map (·.row)) owner provider now).length +
        if usable owner provider now x.row then 1 else 0 := by
  unfold pending
  rw [List.filter_map, List.filter_map, List.length_map, List.length_map]
  exact length_filter_upsert_le _ _ x table.rows

/-- Within its transaction a call has the lock to itself, and what it has counted is no fewer
than there are. -/
structure Capped (maxPending : Nat) (s : OAuthStates τ) : Prop where
  expired : ∀ x ∈ s.table.rows, x.deletedBy ≠ none → x.row.expiresAt < s.clock
  past : ∀ c ∈ s.calls, c.now ≤ s.clock
  locked : ∀ (i j : Nat) (c d : OAuthCall τ), s.calls[i]? = some c → s.calls[j]? = some d →
    ∀ scope, c.scope? = some scope → d.scope? = some scope → i = j
  counted : ∀ c ∈ s.calls, ∀ args n, c.request = .create args → c.pc = .counted n →
    s.pendingCount args.ownerUserId args.provider ≤ n
  bound : ∀ owner provider, s.pendingCount owner provider ≤ maxPending

theorem Capped.keep (h : s.Capped maxPending) (pc : OAuthPc τ) (hc : s.calls[i]? = some c)
    (hcalls : t.calls = s.calls.modify i fun c => { c with pc := pc }) (hclock : t.clock = s.clock)
    (hexpired : ∀ x ∈ t.table.rows, x.deletedBy ≠ none → x.row.expiresAt < s.clock)
    (hscope : ∀ scope, ({ c with pc := pc } : OAuthCall τ).scope? = some scope →
      c.scope? = some scope ∨ ∀ d ∈ s.calls, d.scope? ≠ some scope)
    (hcount : ∀ args n, c.request = .create args → pc = .counted n →
      t.pendingCount args.ownerUserId args.provider ≤ n)
    (hpending : ∀ owner provider, t.pendingCount owner provider ≤ s.pendingCount owner provider ∨
      c.scope? = some (owner, provider) ∧ t.pendingCount owner provider ≤ maxPending) :
    t.Capped maxPending := by
  have hfrom (j : Nat) (d : OAuthCall τ) (hd : t.calls[j]? = some d) :
      i = j ∧ d = { c with pc := pc } ∨ i ≠ j ∧ s.calls[j]? = some d := by
    rw [hcalls] at hd
    rcases Slots.modify_cases hc hd with ⟨rfl, rfl⟩ | ⟨hne, hd'⟩
    · exact .inl ⟨rfl, rfl⟩
    · exact .inr ⟨hne, hd'⟩
  refine ⟨?_, ?_, ?_, ?_, ?_⟩
  · rw [hclock]
    exact hexpired
  · intro d hd
    obtain ⟨j, hj⟩ := List.getElem?_of_mem hd
    rw [hclock]
    rcases hfrom j d hj with ⟨-, rfl⟩ | ⟨-, hd'⟩
    · exact h.past c (List.mem_of_getElem? hc)
    · exact h.past d (List.mem_of_getElem? hd')
  · intro j k d e hd he scope hdscope hescope
    rcases hfrom j d hd with ⟨rfl, rfl⟩ | ⟨hj, hd'⟩
    · rcases hfrom k e he with ⟨rfl, rfl⟩ | ⟨hk, he'⟩
      · rfl
      · rcases hscope scope hdscope with hold | hfree
        · exact h.locked i k c e hc he' scope hold hescope
        · exact absurd hescope (hfree e (List.mem_of_getElem? he'))
    · rcases hfrom k e he with ⟨rfl, rfl⟩ | ⟨hk, he'⟩
      · rcases hscope scope hescope with hold | hfree
        · exact h.locked j i d c hd' hc scope hdscope hold
        · exact absurd hdscope (hfree d (List.mem_of_getElem? hd'))
      · exact h.locked j k d e hd' he' scope hdscope hescope
  · intro d hd args n hrequest hpc
    obtain ⟨j, hj⟩ := List.getElem?_of_mem hd
    rcases hfrom j d hj with ⟨-, rfl⟩ | ⟨hne, hd'⟩
    · exact hcount args n hrequest hpc
    · have hold := h.counted d (List.mem_of_getElem? hd') args n hrequest hpc
      rcases hpending args.ownerUserId args.provider with hle | ⟨hcscope, -⟩
      · exact hle.trans hold
      · have hdscope : d.scope? = some (args.ownerUserId, args.provider) := by
          unfold OAuthCall.scope?
          rw [hrequest, hpc]
        exact absurd (h.locked i j c d hc hd' _ hcscope hdscope) hne
  · intro owner provider
    rcases hpending owner provider with hle | ⟨-, hle⟩
    · exact hle.trans (h.bound owner provider)
    · exact hle

/-- A call counts every row that can be used now: those that another call has deleted have
expired. -/
theorem Capped.pendingCount_le_visible (h : s.Capped maxPending) (i : Nat) {now : τ}
    (hnow : now ≤ s.clock) (owner provider : String) :
    s.pendingCount owner provider ≤ (pending (s.visible i) owner provider now).length := by
  have hfilter : (s.table.rows.filter (fun x => usable owner provider s.clock x.row)) =
      ((s.table.rows.filter fun x => x.deletedBy ≠ some i).filter
        fun x => usable owner provider now x.row).filter
          fun x => usable owner provider s.clock x.row := by
    rw [List.filter_filter, List.filter_filter]
    apply List.filter_congr
    intro x hx
    by_cases husable : usable owner provider s.clock x.row = true
    · have hlater : usable owner provider now x.row = true := by
        unfold usable at husable ⊢
        simp only [Bool.and_eq_true, decide_eq_true_eq] at husable ⊢
        exact ⟨husable.1, hnow.trans husable.2⟩
      have hlive : x.deletedBy ≠ some i := by
        intro hdeleted
        have hexpired := h.expired x hx (by simp [hdeleted])
        unfold usable at husable
        simp only [Bool.and_eq_true, decide_eq_true_eq] at husable
        exact absurd husable.2 (not_le_of_gt hexpired)
      simp [husable, hlater, hlive]
    · simp [husable]
  unfold pendingCount pending stored visible
  rw [List.filter_map, List.filter_map, List.length_map, List.length_map]
  change (s.table.rows.filter (fun x => usable owner provider s.clock x.row)).length ≤ _
  rw [hfilter]
  exact List.length_filter_le _ _

theorem Capped.goto (h : s.Capped maxPending) (hc : s.calls[i]? = some c) (pc : OAuthPc τ)
    (hscope : ∀ scope, ({ c with pc := pc } : OAuthCall τ).scope? = some scope →
      c.scope? = some scope ∨ ∀ d ∈ s.calls, d.scope? ≠ some scope)
    (hcount : ∀ args n, c.request = .create args → pc = .counted n →
      s.pendingCount args.ownerUserId args.provider ≤ n) : (s.goto i pc).Capped maxPending :=
  h.keep pc hc rfl rfl h.expired hscope hcount fun _ _ => .inl (Nat.le_refl _)

theorem Capped.delete {p : OAuthStateRow τ → Bool} (h : s.Capped maxPending)
    (hp : ∀ r, p r = true → r.expiresAt < s.clock) (ht : s.delete i p = some t) :
    t.Capped maxPending := by
  obtain ⟨hstored, hclock, hcalls, -, -, hrows⟩ := delete_eq ht
  have hpending : t.pendingCount = s.pendingCount := by
    funext owner provider
    unfold pendingCount
    rw [hstored, hclock]
  refine ⟨?_, ?_, ?_, ?_, ?_⟩
  · intro x hx hdeleted
    rw [hclock]
    rcases hrows x hx with hold | hpx
    · exact h.expired x hold hdeleted
    · exact hp x.row hpx
  · rw [hcalls, hclock]
    exact h.past
  · rw [hcalls]
    exact h.locked
  · rw [hcalls, hpending]
    exact h.counted
  · rw [hpending]
    exact h.bound

theorem Capped.commit (h : s.Capped maxPending) (hc : s.calls[i]? = some c) :
    (s.commit i).Capped maxPending := by
  refine h.keep .done hc rfl rfl ?_ ?_ ?_ ?_
  · intro x hx
    exact h.expired x (List.mem_of_mem_filter hx)
  · intro scope hscope
    rw [OAuthCall.scope?_done] at hscope
    cases hscope
  · intro args n _ hpc
    cases hpc
  · intro owner provider
    exact .inl (pendingCount_le (stored_commit s i) (le_refl s.clock) owner provider)

theorem Capped.rollback (h : s.Capped maxPending) (hc : s.calls[i]? = some c) :
    (s.rollback i).Capped maxPending := by
  refine h.keep .done hc rfl rfl ?_ ?_ ?_ ?_
  · intro x hx hdeleted
    obtain ⟨y, hy, rfl⟩ := List.mem_map.mp hx
    split_ifs at hdeleted ⊢ with hi
    · exact absurd rfl hdeleted
    · exact h.expired y hy hdeleted
  · intro scope hscope
    rw [OAuthCall.scope?_done] at hscope
    cases hscope
  · intro args n _ hpc
    cases hpc
  · intro owner provider
    have hsame : List.Sublist (s.rollback i).stored s.stored := by
      rw [stored_rollback]
    exact .inl (pendingCount_le hsame (le_refl s.clock) owner provider)

theorem Capped.insert {args : OAuthStateArgs τ} {n : Nat} {row : OAuthStateRow τ}
    (h : s.Capped maxPending) (hc : s.calls[i]? = some c) (hrequest : c.request = .create args)
    (hpc : c.pc = .counted n) (hn : n < maxPending) (hrow : args.row = some row) :
    (s.insert i row).Capped maxPending := by
  obtain ⟨-, howner, hprovider, -, -⟩ := OAuthStateArgs.row_eq hrow
  refine h.keep .done hc rfl rfl ?_ ?_ ?_ ?_
  · intro x hx hdeleted
    rcases Table.mem_put hx with rfl | hx
    · exact absurd rfl hdeleted
    · exact h.expired x (List.mem_of_mem_filter hx) hdeleted
  · intro scope hscope
    rw [OAuthCall.scope?_done] at hscope
    cases hscope
  · intro args n _ hpc
    cases hpc
  · intro owner provider
    have hput := length_pending_put (s.commit i).table ⟨row, none⟩ owner provider s.clock
    have hcommit := pendingCount_le (stored_commit s i) (le_refl s.clock) owner provider
    change (s.insert i row).pendingCount owner provider ≤ _ at hput
    change (pending ((s.commit i).table.rows.map (·.row)) owner provider s.clock).length ≤ _
      at hcommit
    by_cases husable : usable owner provider s.clock row = true
    · rw [if_pos husable] at hput
      unfold usable at husable
      simp only [Bool.and_eq_true, decide_eq_true_eq] at husable
      obtain ⟨⟨⟨rfl, rfl⟩, -⟩, -⟩ := husable
      have hcounted := h.counted c (List.mem_of_getElem? hc) args n hrequest hpc
      rw [← howner, ← hprovider] at hcounted
      refine .inr ⟨?_, by omega⟩
      unfold OAuthCall.scope?
      rw [hrequest, hpc, howner, hprovider]
    · rw [if_neg husable] at hput
      exact .inl (by omega)

theorem Capped.consume {provider state : String} {row : OAuthStateRow τ} {x : StoredState τ}
    (h : s.Capped maxPending) (hc : s.calls[i]? = some c)
    (hfree : x.deletedBy = none) : (s.consume i c provider state row x).Capped maxPending := by
  refine h.keep .done hc rfl rfl ?_ ?_ ?_ ?_
  · intro y hy hdeleted
    rcases Table.mem_put (List.mem_of_mem_filter hy) with rfl | hy
    · exact absurd hfree hdeleted
    · exact h.expired y hy hdeleted
  · intro scope hscope
    rw [OAuthCall.scope?_done] at hscope
    cases hscope
  · intro args n _ hpc
    cases hpc
  · intro owner provider'
    have hput := length_pending_put s.table { x with row := { x.row with consumedAt := some c.now } }
      owner provider' s.clock
    have hused : usable owner provider' s.clock { x.row with consumedAt := some c.now } = false := by
      simp [usable]
    rw [hused] at hput
    refine .inl (le_trans ?_ hput)
    exact ((List.filter_sublist.map _).filter _).length_le

theorem Capped.move (h : s.Capped maxPending) (hc : s.calls[i]? = some c)
    (ht : Move maxPending s i c t) : t.Capped maxPending := by
  have hpast (p : OAuthStateRow τ → Bool) (hp : ∀ r, p r = true → r.expiresAt < c.now) :
      ∀ r, p r = true → r.expiresAt < s.clock := by
    intro r hr
    exact lt_of_lt_of_le (hp r hr) (h.past c (List.mem_of_getElem? hc))
  cases ht with
  | lock hrequest hpc hfree =>
    refine h.goto hc _ ?_ ?_
    · intro scope hscope
      unfold OAuthCall.scope? at hscope
      rw [hrequest] at hscope
      cases hscope
      refine .inr ?_
      intro d hd
      have hall := List.all_eq_true.mp hfree d hd
      simpa using hall
    · intro args n _ hcounted
      cases hcounted
  | prune hrequest hpc hu hp =>
    have hcalls := (delete_eq hu).2.2.1
    refine (h.delete (hpast _ hp) hu).goto (c := c) (by rw [hcalls]; exact hc) _ ?_ ?_
    · intro scope hscope
      unfold OAuthCall.scope? at hscope ⊢
      rw [hrequest] at hscope ⊢
      rw [hpc]
      exact .inl hscope
    · intro args n _ hcounted
      cases hcounted
  | count hrequest hpc =>
    refine h.goto hc _ ?_ ?_
    · intro scope hscope
      unfold OAuthCall.scope? at hscope ⊢
      rw [hrequest] at hscope ⊢
      rw [hpc]
      exact .inl hscope
    · intro args n hargs hcounted
      rw [hrequest] at hargs
      cases hargs
      cases hcounted
      exact h.pendingCount_le_visible i (h.past c (List.mem_of_getElem? hc)) _ _
  | insert hrequest hpc hn hrow => exact h.insert hc hrequest hpc hn hrow
  | sweep hrequest hpc hu hp =>
    have hcalls := (delete_eq hu).2.2.1
    refine (h.delete (hpast _ hp) hu).goto (c := c) (by rw [hcalls]; exact hc) _ ?_ ?_
    · intro scope hscope
      unfold OAuthCall.scope? at hscope
      rw [hrequest] at hscope
      cases hscope
    · intro args n _ hcounted
      cases hcounted
  | find hrequest hpc hr hhash hprovider hnow =>
    refine h.goto hc _ ?_ ?_
    · intro scope hscope
      unfold OAuthCall.scope? at hscope
      rw [hrequest] at hscope
      cases hscope
    · intro args n _ hcounted
      cases hcounted
  | consume hrequest hpc hx hconsumed hfree => exact h.consume hc hfree
  | expire hrequest hu hp =>
    have hcalls := (delete_eq hu).2.2.1
    exact (h.delete (hpast _ hp) hu).commit (c := c) (by rw [hcalls]; exact hc)
  | commit => exact h.commit hc
  | rollback => exact h.rollback hc

end Cap

section Use

/-- The row is a created one, up to its consumption. -/
def Created (s : OAuthStates τ) (x : OAuthStateRow τ) : Prop :=
  ∃ r ∈ s.created, x = { r with consumedAt := x.consumedAt }

/-- What `consume_oauth_state` has returned are created states, each once, for their own provider,
in time, and with their owner. -/
structure SingleUse (s : OAuthStates τ) : Prop where
  named : (s.created.map (·.stateHash)).Nodup
  once : (s.returned.map fun x => hashState x.state).Nodup
  answered : ∀ x ∈ s.returned, ∃ r ∈ s.created, r.stateHash = hashState x.state ∧
    r.provider = x.provider ∧ x.now ≤ r.expiresAt ∧ x.answer = r.consumed

structure Tracked (s : OAuthStates τ) : Prop extends SingleUse s where
  distinct : ∀ (i j : Nat) (c d : OAuthCall τ), s.calls[i]? = some c → s.calls[j]? = some d →
    ∀ hash, c.drawn? = some hash → d.drawn? = some hash → i = j
  origin : ∀ r ∈ s.created, ∃ c ∈ s.calls, c.drawn? = some r.stateHash ∧ c.pc = .done
  known : ∀ x ∈ s.stored, s.Created x
  reading : ∀ c ∈ s.calls, ∀ provider state r, c.request = .consume provider state →
    c.pc = .read r → s.Created r ∧ r.stateHash = hashState state ∧ r.provider = provider ∧
      c.now ≤ r.expiresAt
  used : ∀ x ∈ s.returned, ∀ r ∈ s.stored, r.stateHash = hashState x.state → r.consumedAt ≠ none

omit [LinearOrder τ] in
theorem Created.mono {x : OAuthStateRow τ} (hsub : s.created ⊆ t.created) (h : s.Created x) :
    t.Created x := by
  obtain ⟨r, hr, heq⟩ := h
  exact ⟨r, hsub hr, heq⟩

section Calls
variable {pc : OAuthPc τ} (h : s.Tracked) (hc : s.calls[i]? = some c)
  (hcalls : t.calls = s.calls.modify i fun c => { c with pc := pc })
include h hc hcalls

omit hc in
theorem Tracked.distinct_modify (j k : Nat) (d e : OAuthCall τ) (hd : t.calls[j]? = some d)
    (he : t.calls[k]? = some e) (hash : Sha256.State) (hdrawn : d.drawn? = some hash)
    (hdrawn' : e.drawn? = some hash) : j = k := by
  rw [hcalls] at hd he
  obtain ⟨d', hd', hdcase⟩ := Slots.getElem?_modify hd
  obtain ⟨e', he', hecase⟩ := Slots.getElem?_modify he
  have hold : d'.drawn? = some hash := by
    rcases hdcase with ⟨-, rfl⟩ | ⟨-, rfl⟩ <;> exact hdrawn
  have hold' : e'.drawn? = some hash := by
    rcases hecase with ⟨-, rfl⟩ | ⟨-, rfl⟩ <;> exact hdrawn'
  exact h.distinct j k d' e' hd' he' hash hold hold'

theorem Tracked.origin_modify (hdone : c.pc ≠ .done ∨ pc = .done) (r : OAuthStateRow τ)
    (hr : r ∈ s.created) : ∃ d ∈ t.calls, d.drawn? = some r.stateHash ∧ d.pc = .done := by
  obtain ⟨d, hd, hdrawn, hpc⟩ := h.origin r hr
  obtain ⟨j, hj⟩ := List.getElem?_of_mem hd
  obtain ⟨e, he, ⟨rfl, rfl⟩ | ⟨-, rfl⟩⟩ := Slots.modify_of_getElem? (i := i)
    (f := fun c => { c with pc := pc }) hj
  · rw [hc] at hj
    cases hj
    rw [← hcalls] at he
    exact ⟨_, List.mem_of_getElem? he, hdrawn, hdone.resolve_left fun hne => hne hpc⟩
  · rw [← hcalls] at he
    exact ⟨_, List.mem_of_getElem? he, hdrawn, hpc⟩

theorem Tracked.reading_modify (hsub : s.created ⊆ t.created)
    (hread : ∀ provider state r, c.request = .consume provider state → pc = .read r →
      s.Created r ∧ r.stateHash = hashState state ∧ r.provider = provider ∧ c.now ≤ r.expiresAt)
    (d : OAuthCall τ) (hd : d ∈ t.calls) (provider state : String) (r : OAuthStateRow τ)
    (hrequest : d.request = .consume provider state) (hpc : d.pc = .read r) :
    t.Created r ∧ r.stateHash = hashState state ∧ r.provider = provider ∧
      d.now ≤ r.expiresAt := by
  obtain ⟨j, hj⟩ := List.getElem?_of_mem hd
  rw [hcalls] at hj
  rcases Slots.modify_cases hc hj with ⟨rfl, rfl⟩ | ⟨-, he⟩
  · obtain ⟨hcreated, hrest⟩ := hread provider state r hrequest hpc
    exact ⟨hcreated.mono hsub, hrest⟩
  · obtain ⟨hcreated, hrest⟩ :=
      h.reading d (List.mem_of_getElem? he) provider state r hrequest hpc
    exact ⟨hcreated.mono hsub, hrest⟩

variable (pc) in
theorem Tracked.keep (hdone : c.pc ≠ .done ∨ pc = .done) (hstored : t.stored ⊆ s.stored)
    (hcreated : t.created = s.created) (hreturned : t.returned = s.returned)
    (hread : ∀ provider state r, c.request = .consume provider state → pc = .read r →
      s.Created r ∧ r.stateHash = hashState state ∧ r.provider = provider ∧
        c.now ≤ r.expiresAt) : t.Tracked := by
  have hsub : s.created ⊆ t.created := by rw [hcreated]; exact List.Subset.refl _
  refine ⟨⟨?_, ?_, ?_⟩, h.distinct_modify hcalls, ?_, ?_,
    h.reading_modify hc hcalls hsub hread, ?_⟩
  · rw [hcreated]
    exact h.named
  · rw [hreturned]
    exact h.once
  · rw [hcreated, hreturned]
    exact h.answered
  · rw [hcreated]
    exact h.origin_modify hc hcalls hdone
  · intro x hx
    exact (h.known x (hstored hx)).mono hsub
  · rw [hreturned]
    intro x hx r hr
    exact h.used x hx r (hstored hr)

end Calls

theorem Tracked.insert {args : OAuthStateArgs τ} {n : Nat} {row : OAuthStateRow τ}
    (h : s.Tracked) (hc : s.calls[i]? = some c) (hrequest : c.request = .create args)
    (hpc : c.pc = .counted n) (hrow : args.row = some row) : (s.insert i row).Tracked := by
  obtain ⟨hhash, -, -, -, hconsumed⟩ := OAuthStateArgs.row_eq hrow
  have hdrawn : c.drawn? = some row.stateHash := by
    unfold OAuthCall.drawn?
    rw [hrequest, hhash]
  -- the code was drawn by this call alone, which has not created its row yet
  have hnew : ∀ r ∈ s.created, r.stateHash ≠ row.stateHash := by
    intro r hr hsame
    obtain ⟨d, hd, hdrawn', hdone⟩ := h.origin r hr
    obtain ⟨j, hj⟩ := List.getElem?_of_mem hd
    rw [hsame] at hdrawn'
    obtain rfl := h.distinct i j c d hc hj _ hdrawn hdrawn'
    rw [hc] at hj
    cases hj
    rw [hpc] at hdone
    cases hdone
  have hcreated : (s.insert i row).created = s.created ++ [row] := rfl
  have hsub : s.created ⊆ (s.insert i row).created := List.subset_append_left _ _
  have hstored : ∀ r ∈ (s.insert i row).stored, r = row ∨ r ∈ s.stored := by
    intro r hr
    obtain ⟨x, hx, rfl⟩ := List.mem_map.mp hr
    rcases Table.mem_put hx with rfl | hx
    · exact .inl rfl
    · exact .inr (List.mem_map_of_mem (List.mem_of_mem_filter hx))
  have hself : (s.insert i row).Created row := by
    refine ⟨row, ?_, rfl⟩
    rw [hcreated]
    exact List.mem_append_right _ (List.mem_singleton_self row)
  have hcalls : (s.insert i row).calls = s.calls.modify i fun c => { c with pc := .done } := rfl
  refine ⟨⟨?_, h.once, ?_⟩, h.distinct_modify hcalls, ?_, ?_,
    h.reading_modify hc hcalls hsub ?_, ?_⟩
  · rw [hcreated, List.map_append, List.map_singleton, List.nodup_append]
    refine ⟨h.named, List.nodup_singleton _, ?_⟩
    intro a ha b hb hab
    obtain ⟨r, hr, rfl⟩ := List.mem_map.mp ha
    rw [List.mem_singleton.mp hb] at hab
    exact hnew r hr hab
  · intro x hx
    obtain ⟨r, hr, hrest⟩ := h.answered x hx
    exact ⟨r, hsub hr, hrest⟩
  · intro r hr
    rcases List.mem_append.mp hr with hr | hr
    · exact h.origin_modify hc hcalls (.inr rfl) r hr
    · rw [List.mem_singleton.mp hr]
      exact ⟨_, List.mem_of_getElem? (Slots.modify_self hc), hdrawn, rfl⟩
  · intro r hr
    rcases hstored r hr with rfl | hr
    · exact hself
    · exact (h.known r hr).mono hsub
  · intro provider state r hconsume
    rw [hrequest] at hconsume
    cases hconsume
  · intro x hx r hr hsame
    rcases hstored r hr with rfl | hr
    · obtain ⟨r', hr', hhash', -⟩ := h.answered x hx
      exact absurd (hhash'.trans hsame.symm) (hnew r' hr')
    · exact h.used x hx r hr hsame

theorem Tracked.consume {provider state : String} {row : OAuthStateRow τ} {x : StoredState τ}
    (h : s.Tracked) (hc : s.calls[i]? = some c) (hrequest : c.request = .consume provider state)
    (hpc : c.pc = .read row) (hx : s.table.get (hashState state) = some x)
    (hunused : x.row.consumedAt = none) : (s.consume i c provider state row x).Tracked := by
  obtain ⟨⟨r₀, hr₀, hrow⟩, hhash, hprovider, hnow⟩ :=
    h.reading c (List.mem_of_getElem? hc) provider state row hrequest hpc
  have hkey : x.stateHash = hashState state := Table.key_of_get hx
  change x.row.stateHash = hashState state at hkey
  have hmem : x.row ∈ s.stored := List.mem_map_of_mem (Table.mem_of_get hx)
  have hstored : ∀ r ∈ (s.consume i c provider state row x).stored,
      r = { x.row with consumedAt := some c.now } ∨
        r ∈ s.stored ∧ r.stateHash ≠ hashState state := by
    intro r hr
    obtain ⟨y, hy, rfl⟩ := List.mem_map.mp hr
    have hget := Table.mem_rows.mp (List.mem_of_mem_filter hy)
    rw [Table.get_put] at hget
    split_ifs at hget with hsame
    · rw [← Option.some.inj hget]
      exact .inl rfl
    · refine .inr ⟨List.mem_map_of_mem (Table.mem_of_get hget), ?_⟩
      intro he
      exact hsame (he.trans hkey.symm)
  have hcalls : (s.consume i c provider state row x).calls =
    s.calls.modify i fun c => { c with pc := .done } := rfl
  have hreturned : (s.consume i c provider state row x).returned =
    s.returned ++ [⟨provider, state, c.now, row.consumed⟩] := rfl
  refine ⟨⟨h.named, ?_, ?_⟩, h.distinct_modify hcalls, h.origin_modify hc hcalls (.inr rfl), ?_,
    h.reading_modify hc hcalls (List.Subset.refl _) ?_, ?_⟩
  · rw [hreturned, List.map_append, List.map_singleton, List.nodup_append]
    refine ⟨h.once, List.nodup_singleton _, ?_⟩
    intro a ha b hb hab
    obtain ⟨y, hy, rfl⟩ := List.mem_map.mp ha
    rw [List.mem_singleton.mp hb] at hab
    exact h.used y hy x.row hmem (hkey.trans hab.symm) hunused
  · intro y hy
    rw [hreturned] at hy
    rcases List.mem_append.mp hy with hy | hy
    · exact h.answered y hy
    · rw [List.mem_singleton.mp hy]
      rw [hrow] at hhash hprovider hnow ⊢
      exact ⟨r₀, hr₀, hhash, hprovider, hnow, rfl⟩
  · intro r hr
    rcases hstored r hr with rfl | ⟨hr, -⟩
    · obtain ⟨r', hr', heq⟩ := h.known x.row hmem
      refine ⟨r', hr', ?_⟩
      rw [heq]
    · exact h.known r hr
  · intro provider' state' r _ hread
    cases hread
  · intro y hy r hr hsame
    rcases hstored r hr with rfl | ⟨hr, hne⟩
    · exact Option.some_ne_none _
    · rw [hreturned] at hy
      rcases List.mem_append.mp hy with hy | hy
      · exact h.used y hy r hr hsame
      · rw [List.mem_singleton.mp hy] at hsame
        exact absurd hsame hne

theorem Tracked.move (h : s.Tracked) (hc : s.calls[i]? = some c)
    (ht : Move maxPending s i c t) : t.Tracked := by
  have hcommit (s : OAuthStates τ) : (s.commit i).stored ⊆ s.stored :=
    (stored_commit s i).subset
  cases ht with
  | lock hrequest hpc hfree | count hrequest hpc =>
    refine h.keep _ hc rfl (.inl ?_) (List.Subset.refl _) rfl rfl ?_
    · rw [hpc]
      exact nofun
    · intro provider state r _ hread
      cases hread
  | prune hrequest hpc hu hp =>
    obtain ⟨hstored, -, hcalls, hcreated, hreturned, -⟩ := delete_eq hu
    refine h.keep .pruned hc ?_ (.inl ?_) (subset_of_stored_eq hstored) hcreated
      hreturned ?_
    · exact congrArg (List.modify · i _) hcalls
    · rw [hpc]
      exact nofun
    · intro provider state r _ hread
      cases hread
  | insert hrequest hpc hn hrow => exact h.insert hc hrequest hpc hrow
  | sweep hrequest hpc hu hp =>
    obtain ⟨hstored, -, hcalls, hcreated, hreturned, -⟩ := delete_eq hu
    refine h.keep .swept hc ?_ (.inl ?_) (subset_of_stored_eq hstored) hcreated
      hreturned ?_
    · exact congrArg (List.modify · i _) hcalls
    · rw [hpc]
      exact nofun
    · intro provider state r _ hread
      cases hread
  | @find provider state r hrequest hpc hr hhash hprovider hnow =>
    refine h.keep _ hc rfl (.inl ?_) (List.Subset.refl _) rfl rfl ?_
    · rw [hpc]
      exact nofun
    · intro provider' state' r' hrequest' hread
      rw [hrequest] at hrequest'
      cases hrequest'
      cases hread
      obtain ⟨x, hx, rfl⟩ := List.mem_map.mp hr
      exact ⟨h.known x.row (List.mem_map_of_mem (List.mem_of_mem_filter hx)), hhash, hprovider,
        hnow⟩
  | consume hrequest hpc hx hunused hfree => exact h.consume hc hrequest hpc hx hunused
  | @expire p u hrequest hu hp =>
    obtain ⟨hstored, -, hcalls, hcreated, hreturned, -⟩ := delete_eq hu
    refine h.keep .done hc ?_ (.inr rfl) ?_ hcreated hreturned ?_
    · exact congrArg (List.modify · i _) hcalls
    · rw [← hstored]
      exact hcommit u
    · intro provider state r _ hread
      cases hread
  | commit =>
    refine h.keep .done hc rfl (.inr rfl) (hcommit s) rfl rfl ?_
    intro provider state r _ hread
    cases hread
  | rollback =>
    refine h.keep .done hc rfl (.inr rfl) (subset_of_stored_eq (stored_rollback s i)) rfl rfl
      ?_
    intro provider state r _ hread
    cases hread

end Use

end OAuthStates

section Runs
variable {τ : Type} [LinearOrder τ] {maxPending : Nat} {clock : τ} {s t : OAuthStates τ}

theorem capped_step {e : OAuthEvent τ} (h : s.Capped maxPending)
    (ht : s.step maxPending e = some t) : t.Capped maxPending := by
  cases e with
  | tick now =>
    simp only [OAuthStates.step] at ht
    split_ifs at ht with hle
    cases ht
    have hfewer := OAuthStates.pendingCount_le (s := s) (t := { s with clock := now })
      (List.Sublist.refl _) hle
    refine ⟨?_, ?_, h.locked, ?_, ?_⟩
    · intro x hx hdeleted
      exact lt_of_lt_of_le (h.expired x hx hdeleted) hle
    · intro c hc
      exact (h.past c hc).trans hle
    · intro c hc args n hrequest hpc
      exact (hfewer _ _).trans (h.counted c hc args n hrequest hpc)
    · intro owner provider
      exact (hfewer _ _).trans (h.bound owner provider)
  | call request =>
    cases ht
    have hscope : (⟨request, s.clock, .start⟩ : OAuthCall τ).scope? = none := by
      unfold OAuthCall.scope?
      cases request <;> rfl
    refine ⟨h.expired, ?_, ?_, ?_, h.bound⟩
    · intro c hc
      rcases List.mem_append.mp hc with hc | hc
      · exact h.past c hc
      · rw [List.mem_singleton.mp hc]
    · intro i j c d hc hd scope hcscope hdscope
      rcases Slots.getElem?_concat hc with hc | ⟨-, rfl⟩
      · rcases Slots.getElem?_concat hd with hd | ⟨-, rfl⟩
        · exact h.locked i j c d hc hd scope hcscope hdscope
        · rw [hscope] at hdscope
          cases hdscope
      · rw [hscope] at hcscope
        cases hcscope
    · intro c hc args n hrequest hpc
      rcases List.mem_append.mp hc with hc | hc
      · exact h.counted c hc args n hrequest hpc
      · rw [List.mem_singleton.mp hc] at hpc
        cases hpc
  | step i =>
    obtain ⟨c, hc, hstep⟩ := Option.bind_eq_some_iff.mp ht
    exact h.move hc (OAuthStates.move_of_callStep hstep)
  | abort i =>
    obtain ⟨c, hc, rfl⟩ := Option.map_eq_some_iff.mp ht
    exact h.rollback hc

/-- A connect request draws a code that none before it has drawn: `secrets.token_urlsafe(16)`. -/
def OAuthStates.Fresh (s : OAuthStates τ) : OAuthEvent τ → Prop
  | .call (.create args) => some (hashState args.state) ∉ s.calls.map (·.drawn?)
  | _ => True

instance (s : OAuthStates τ) : (e : OAuthEvent τ) → Decidable (s.Fresh e)
  | .call (.create _) => inferInstanceAs (Decidable (_ ∉ _))
  | .call (.consume _ _) | .call .deleteExpired | .tick _ | .step _ | .abort _ => isTrue trivial

theorem tracked_step {e : OAuthEvent τ} (h : s.Tracked) (hfresh : s.Fresh e)
    (ht : s.step maxPending e = some t) : t.Tracked := by
  cases e with
  | tick now =>
    simp only [OAuthStates.step] at ht
    split_ifs at ht with hle
    cases ht
    exact ⟨⟨h.named, h.once, h.answered⟩, h.distinct, h.origin, h.known, h.reading, h.used⟩
  | call request =>
    cases ht
    have hnew : ∀ c ∈ s.calls, ∀ hash, c.drawn? = some hash →
        (⟨request, s.clock, .start⟩ : OAuthCall τ).drawn? ≠ some hash := by
      intro c hc hash hdrawn hsame
      cases request with
      | create args =>
        cases hsame
        exact hfresh (hdrawn ▸ List.mem_map_of_mem hc)
      | consume provider state | deleteExpired => cases hsame
    refine ⟨⟨h.named, h.once, h.answered⟩, ?_, ?_, h.known, ?_, h.used⟩
    · intro i j c d hc hd hash hcdrawn hddrawn
      rcases Slots.getElem?_concat hc with hc | ⟨rfl, rfl⟩
      · rcases Slots.getElem?_concat hd with hd | ⟨-, rfl⟩
        · exact h.distinct i j c d hc hd hash hcdrawn hddrawn
        · exact absurd hddrawn (hnew c (List.mem_of_getElem? hc) hash hcdrawn)
      · rcases Slots.getElem?_concat hd with hd | ⟨rfl, -⟩
        · exact absurd hcdrawn (hnew d (List.mem_of_getElem? hd) hash hddrawn)
        · rfl
    · intro r hr
      obtain ⟨c, hc, hrest⟩ := h.origin r hr
      exact ⟨c, List.mem_append_left _ hc, hrest⟩
    · intro c hc provider state r hrequest hpc
      rcases List.mem_append.mp hc with hc | hc
      · exact h.reading c hc provider state r hrequest hpc
      · rw [List.mem_singleton.mp hc] at hpc
        cases hpc
  | step i =>
    obtain ⟨c, hc, hstep⟩ := Option.bind_eq_some_iff.mp ht
    exact h.move hc (OAuthStates.move_of_callStep hstep)
  | abort i =>
    obtain ⟨c, hc, rfl⟩ := Option.map_eq_some_iff.mp ht
    have hmove : OAuthStates.Move maxPending s i c (s.rollback i) := .rollback
    exact h.move hc hmove

theorem capped_of_reachable (h : Reachable (oauthStates maxPending clock) s) :
    s.Capped maxPending := by
  refine h.invariant (I := OAuthStates.Capped maxPending) ?_ ?_
  · rintro s rfl
    refine ⟨?_, ?_, ?_, ?_, ?_⟩
    · intro x hx
      cases hx
    · intro c hc
      cases hc
    · intro i j c d hc
      cases hc
    · intro c hc
      cases hc
    · intro owner provider
      exact Nat.zero_le _
  · intro s e t _ hcapped ht
    exact capped_step hcapped ht

theorem tracked_of_reachable
    (h : Reachable ((oauthStates maxPending clock).when fun s e => s.Fresh e) s) : s.Tracked := by
  refine h.invariant (I := OAuthStates.Tracked) ?_ ?_
  · rintro s rfl
    refine ⟨⟨List.nodup_nil, List.nodup_nil, ?_⟩, ?_, ?_, ?_, ?_, ?_⟩
    · intro x hx
      cases hx
    · intro i j c d hc
      cases hc
    · intro r hr
      cases hr
    · intro x hx
      cases hx
    · intro c hc
      cases hc
    · intro x hx
      cases hx
  · intro s e t _ htracked ht
    exact tracked_step htracked ht.1 ht.2

/-- The cap holds in every run, and single use where no code is drawn twice. -/
theorem binding_codes_single_use (maxPending : Nat) (clock : τ) :
    (∀ s, Reachable (oauthStates maxPending clock) s →
      ∀ owner provider, s.pendingCount owner provider ≤ maxPending) ∧
    ∀ s, Reachable ((oauthStates maxPending clock).when fun s e => s.Fresh e) s →
      s.SingleUse :=
  ⟨fun _ h => (capped_of_reachable h).bound, fun _ h => (tracked_of_reachable h).toSingleUse⟩

private def bindingArgs (owner code : String) : OAuthStateArgs Nat where
  ownerUserId := owner
  provider := "slack"
  state := code
  expiresAt := 600
  codeVerifier := none
  nonceHash := none
  redirectAfter := none
  requestedScopes := none
  metadata := none
  encrypt := none

private def oauthScript (events : List (OAuthEvent Nat)) : List (OAuthStates Nat → OAuthEvent Nat) :=
  events.map fun e _ => e

private def created (call : Nat) (owner : String) (expiresAt : Nat) : List (OAuthEvent Nat) :=
  .call (.create { bindingArgs owner "code" with expiresAt := expiresAt }) ::
    List.replicate 4 (.step call)

private def readTwice : List (OAuthEvent Nat) :=
  [.tick 10, .call (.consume "slack" "code"), .call (.consume "slack" "code"), .step 1, .step 2]

private def pruned : List (OAuthEvent Nat) :=
  [.step 1, .tick 601, .call .deleteExpired, .step 3]

/-- Two workers read alice's code before either has consumed it; one of them returns it. -/
theorem binding_codes_single_use_raced : ∃ s : OAuthStates Nat,
    s.returned.map (fun x => x.answer.ownerUserId) = ["alice"] ∧ s.SingleUse := by
  have hrun : (runScript (guarded (fun s e => OAuthStates.Fresh s e) (OAuthStates.step 5))
      (.init 0) (oauthScript (created 0 "alice" 600 ++ readTwice ++
        [.step 1, .step 2, .step 2, .step 1]))).any (fun s =>
          decide (s.returned.map (fun x => x.answer.ownerUserId) = ["alice"])) = true := by
    decide +kernel
  obtain ⟨s, hs, h⟩ := exists_reachable_of_decide _ hrun
  exact ⟨s, h, (binding_codes_single_use 5 0).2 s (when_of_guarded hs)⟩

/-- Two workers have read alice's code; one consumes it, it expires and is pruned, and bob's request
draws the same code. The other worker returns alice's state again and consumes bob's. -/
theorem code_drawn_again_is_consumed : ∃ s : OAuthStates Nat, Reachable (oauthStates 5 0) s ∧
    (s.created.map (·.ownerUserId) = ["alice", "bob"] ∧
      s.returned.map (fun x => x.answer.ownerUserId) = ["alice", "alice"] ∧
      s.stored.map (fun r => (r.ownerUserId, r.consumedAt)) = [("bob", some 10)]) ∧
        ¬ s.SingleUse := by
  have hrun : (runScript (OAuthStates.step 5) (.init 0)
      (oauthScript (created 0 "alice" 600 ++ readTwice ++ [.step 1, .step 2] ++ pruned ++
        created 4 "bob" 1200 ++ [.step 2]))).any (fun s => decide (
          (s.created.map (·.ownerUserId) = ["alice", "bob"] ∧
            s.returned.map (fun x => x.answer.ownerUserId) = ["alice", "alice"] ∧
            s.stored.map (fun r => (r.ownerUserId, r.consumedAt)) = [("bob", some 10)]) ∧
              ¬ (s.returned.map fun x => hashState x.state).Nodup)) = true := by
    decide +kernel
  obtain ⟨s, hs, hfacts, htwice⟩ := exists_reachable_of_decide _ hrun
  exact ⟨s, hs, hfacts, fun hsingle => htwice hsingle.once⟩

end Runs

end DeerFlow.Persistence
