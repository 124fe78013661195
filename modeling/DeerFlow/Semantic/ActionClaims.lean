import DeerFlow.Semantic.ActionApproval

/-! When a claim finds work. The claim query picks one oldest candidate by the
status of the execution alone and looks at its proposal afterwards, so a queued
execution whose proposal went back to review hides every younger one. -/

namespace DeerFlow.Semantic
open Transition ActionStatus

/-- Where some execution can be claimed, a claim returns one. -/
def ClaimsWork (s : Store) : Prop :=
  ∀ (now : Time) (e : ExecutionRow) (p : ProposalRow), s.executions.get e.id = some e →
    claimCandidate now e = true → s.proposals.get e.proposalId = some p → p.status.Claimable →
    ∀ (selected : Option ExecutionRow) (workerId : String) (leaseSeconds : Int),
      ClaimSelects s [] now selected →
      ∃ claimed w, claimReady selected workerId leaseSeconds now s = .ok (some claimed, w)

/-- No accepted preview is of a proposal that needs approval and whose execution is queued. -/
def SparesQueued (s : Store) : Op → Prop
  | .call (.preview str o proposalId a target now) =>
      (∃ p ∈ s.proposals.get proposalId, p.approvalRequired = true) →
      (∃ e ∈ s.executions.rows, e.proposalId = proposalId ∧ e.status = .ready) →
      ((Call.preview str o proposalId a target now).load s).isOk = false
  | _ => True

instance (s : Store) (op : Op) : Decidable (SparesQueued s op) :=
  match op with
  | .call (.preview ..) => inferInstanceAs (Decidable (_ → _ → _ = _))
  | .propose .. | .call (.approve ..) | .call (.enqueueExecution ..) | .call (.claimReady ..)
  | .call (.beginCompensation ..) | .call (.finishCompensation ..) | .call (.finish ..) =>
    isTrue trivial

def QueuedReady (s : Store) : Prop :=
  ∀ k e, s.executions.get k = some e → e.status = .ready →
    ∃ p, s.proposals.get e.proposalId = some p ∧ p.status = .ready

section Queue
variable {s t : Store} {op : Op}

theorem ExecutionMove.not_ready {e f : ExecutionRow} {c : Call} {rows : List TransitionRow}
    (h : ExecutionMove s e c f rows) : f.status ≠ .ready := by
  have hne : ∀ st : ActionStatus, st.Active ∨ st.Terminal → st ≠ .ready := by
    rintro st h rfl
    revert h
    decide
  cases h with
  | claim => exact hne _ (.inl (claimedStatus_active e))
  | begin => exact hne _ (.inl (.inr rfl))
  | finishCompensation _ _ err => exact hne _ (.inr (compensationStatus_terminal err))
  | finish _ _ code => exact hne _ (.inr (finishStatus_terminal code))

theorem QueuedReady.step (hq : QueuedReady s) (hs : Sync s) (h : repository.step s op t)
    (hc : SparesQueued s op) : QueuedReady t := by
  have ht : Sync t := hs.step h
  intro k e he hready
  rcases execution_step hs h k with ⟨hg, -⟩ | ⟨f, p, -, hf, -, hp, hst, hprop, -⟩ |
    ⟨c, x, f, rows, rfl, hx, hf, hm, -⟩
  · rw [hg] at he
    obtain ⟨p, hp, hst⟩ := hq k e he hready
    rcases proposal_step hs h e.proposalId with ⟨hg', -⟩ | ⟨q, hn, -⟩ |
      ⟨c, w, p', q, rows, rfl, hl, hp', hq', hm, -⟩
    · exact ⟨p, by rw [hg']; exact hp, hst⟩
    · rw [hn] at hp
      cases hp
    · obtain rfl := Option.some.inj (hp.symm.trans hp')
      refine ⟨q, hq', ?_⟩
      have hid : p.id = e.proposalId := Table.key_of_get hp
      cases hm with
      | approve => rfl
      | preview str o a target now =>
        have hauto : p.approvalRequired = false := by
          by_contra ha
          have hno := hc ⟨p, by rw [hid]; exact hp, eq_true_of_ne_false ha⟩
            ⟨e, Table.mem_of_get he, hid.symm, hready⟩
          rw [hl] at hno
          cases hno
        change nextStatus p = .ready
        rw [nextStatus, hauto]
        rfl
      | work c reason now hcl hto =>
        -- a worker moves the execution along with its proposal
        obtain ⟨r, hr, hin⟩ := ht.proposal (hg ▸ he)
        obtain rfl := Option.some.inj (hq'.symm.trans hr)
        rcases hin with ⟨-, hw⟩ | ⟨hmoved, -⟩
        · exact absurd hto (not_or.mpr hw)
        · rw [hready] at hmoved
          exact absurd hmoved (by decide)
  · obtain rfl := Option.some.inj (he.symm.trans hf)
    exact ⟨p, by rw [hprop]; exact hp, hst⟩
  · obtain rfl := Option.some.inj (he.symm.trans hf)
    exact absurd hready hm.not_ready

theorem claimCandidate_status {now : Time} {e : ExecutionRow}
    (h : claimCandidate now e = true) : e.status = .ready ∨ e.status.Active := by
  unfold claimCandidate at h
  simp only [Bool.and_eq_true, Bool.or_eq_true, decide_eq_true_eq] at h
  rcases h.1 with (h | h) | h
  · exact .inl h
  · exact .inr (.inl h)
  · exact .inr (.inr h)

theorem claimReady_some {e : ExecutionRow} {p : ProposalRow}
    (hp : s.proposals.get e.proposalId = some p) (hst : p.status.Claimable) (workerId : String)
    (leaseSeconds : Int) (now : Time) :
    ∃ claimed w, claimReady (some e) workerId leaseSeconds now s = .ok (some claimed, w) := by
  unfold claimReady
  simp only [hp]
  rw [if_neg (not_not.mpr hst)]
  exact ⟨_, _, rfl⟩

theorem QueuedReady.claimsWork (hq : QueuedReady s) (hs : Sync s) : ClaimsWork s := by
  intro now e p he hc hp hst selected workerId leaseSeconds hsel
  have hmem : e ∈ claimCandidates s [] now :=
    List.mem_filter.mpr ⟨Table.mem_rows.mpr he, by simpa using hc⟩
  rcases selected with _ | x
  · rw [show claimCandidates s [] now = [] from hsel] at hmem
    cases hmem
  · obtain ⟨hx, hxc⟩ := List.mem_filter.mp hsel.1
    have hcand : claimCandidate now x = true := (Bool.and_eq_true_iff.mp hxc).1
    have hget := Table.mem_rows.mp hx
    rcases claimCandidate_status hcand with hready | hactive
    · obtain ⟨q, hq, hqr⟩ := hq _ x hget hready
      exact claimReady_some hq (.inl hqr) workerId leaseSeconds now
    · obtain ⟨q, hq, hin⟩ := hs.proposal hget
      exact claimReady_some hq (InStep.claimable hin hactive) workerId leaseSeconds now

/-- A run that never sends a queued proposal back to review never starves its claims. -/
theorem claims_work_when_queue_spared (h : Reachable (repository.when SparesQueued) s) :
    ClaimsWork s := by
  have hq : QueuedReady s := by
    refine h.invariant (I := QueuedReady) ?_ ?_
    · rintro s rfl k e he
      exact nomatch he
    · intro s op t hs hq ht
      exact hq.step (sync_of_reachable hs.of_when) ht.2 ht.1
  exact hq.claimsWork (sync_of_reachable h.of_when)

theorem claims_work_on_two_queued :
    ∃ s, Reachable (repository.when SparesQueued) s ∧
      (∃ e, e ∈ claimCandidates s [] 5 ∧ e.id = "execution-2") ∧ ClaimsWork s := by
  obtain ⟨s, hs, h⟩ := exists_reachable_when
    (C := SparesQueued)
    (p := fun s => decide (∃ e ∈ claimCandidates s [] 5, e.id = "execution-2"))
    (Rename.queued "proposal-1" "execution-1" 1 ++ Rename.queued "proposal-2" "execution-2" 2)
    (by decide +kernel)
  exact ⟨s, hs, of_decide_eq_true h, claims_work_when_queue_spared hs⟩

/-- The claim finds a due execution with a claimable proposal, and returns none. -/
def starves (s : Store) : Bool :=
  (s.executions.get "execution-2").any fun e => claimCandidate 5 e &&
    ((s.proposals.get e.proposalId).any fun p => decide p.status.Claimable) &&
    (s.executions.get "execution-1").any fun x =>
      decide (ClaimSelects s [] 5 (some x)) &&
      match claimReady (some x) "worker" 10 5 s with
      | .ok (none, _) => true
      | _ => false

/-- `execution-1` is queued and its proposal previewed again; `execution-2` is claimable and
the claim still returns nothing. -/
theorem repreview_starves_claims : ¬ ∀ s, Reachable repository s → ClaimsWork s := by
  intro hall
  obtain ⟨s, hs, h⟩ := exists_reachable
    (p := fun s => starves s)
    (Rename.queued "proposal-1" "execution-1" 1 ++ Rename.queued "proposal-2" "execution-2" 2 ++
      [fun _ => Rename.preview "proposal-1" 3]) (by decide +kernel)
  obtain ⟨e, he, h⟩ := (Option.any_eq_true _ _).mp h
  obtain ⟨h, hx⟩ := Bool.and_eq_true_iff.mp h
  obtain ⟨hc, hp⟩ := Bool.and_eq_true_iff.mp h
  obtain ⟨p, hp, hst⟩ := (Option.any_eq_true _ _).mp hp
  obtain ⟨x, -, hx⟩ := (Option.any_eq_true _ _).mp hx
  obtain ⟨hsel, hnone⟩ := Bool.and_eq_true_iff.mp hx
  have hid : e.id = "execution-2" := Table.key_of_get he
  obtain ⟨claimed, w, hw⟩ := hall s hs 5 e p (by rw [hid]; exact he) hc hp
    (of_decide_eq_true hst) (some x) "worker" 10 (of_decide_eq_true hsel)
  rw [hw] at hnone
  cases hnone

end Queue

end DeerFlow.Semantic
