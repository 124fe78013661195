import DeerFlow.Semantic.ActionLog

/-! No execution starts without review: its proposal was previewed, and where the
Action asks for approval it was approved after the last preview. -/

namespace DeerFlow.Semantic
open Transition ActionStatus

def PreviewRow (r : TransitionRow) : Prop := r.toStatus = .previewed

def ApprovalRow (r : TransitionRow) : Prop := r.toStatus = .ready ∧ r.reason = some "approved"

def Previewed (s : Store) (proposalId : String) : Prop :=
  ∃ r ∈ s.log .proposal proposalId, PreviewRow r

/-- `approve` recorded READY, and no preview came after it. -/
def ApprovedSincePreview (s : Store) (proposalId : String) : Prop :=
  Log.Since ApprovalRow PreviewRow (s.log .proposal proposalId)

/-- The review that each status of a proposal stands for. -/
structure Reviewed (s : Store) (p : ProposalRow) : Prop where
  previewed : p.status ≠ .proposed → Previewed s p.id
  approved : p.status ≠ .proposed → p.status ≠ .pendingApproval → p.approvalRequired = true →
    ApprovedSincePreview s p.id

section Review
variable {s t : Store} {op : Op}

theorem Previewed.append {id : String} {rows : List TransitionRow} (h : Previewed s id)
    (hlog : t.log .proposal id = s.log .proposal id ++ rows) : Previewed t id := by
  obtain ⟨r, hr, hp⟩ := h
  exact ⟨r, by rw [hlog]; exact List.mem_append_left _ hr, hp⟩

theorem Claimable.reviewed {st : ActionStatus} (h : st.Claimable) :
    st ≠ .proposed ∧ st ≠ .pendingApproval := by
  rcases h with rfl | rfl | rfl <;> decide

theorem Reviewed.move {p q : ProposalRow} {c : Call} {rows : List TransitionRow}
    (h : Reviewed s p) (hm : ProposalMove p c q rows)
    (hlog : t.log .proposal p.id = s.log .proposal p.id ++ rows) : Reviewed t q := by
  cases hm with
  | approve a approvedBy now hst =>
    have hne : p.status ≠ .proposed := by rw [hst]; decide
    refine ⟨fun _ => (h.previewed hne).append hlog, fun _ _ _ => ?_⟩
    change Log.Since _ _ (t.log .proposal p.id)
    rw [hlog]
    exact Log.since_snoc ⟨rfl, rfl⟩
  | preview str o a target now hst =>
    refine ⟨fun _ => ⟨proposalTransition p (some .validated) .previewed none, ?_, rfl⟩, ?_⟩
    · change _ ∈ t.log .proposal p.id
      rw [hlog]
      exact List.mem_append_right _ (.tail _ (.head _))
    · intro _ hpending happroval
      -- a preview sends a proposal that needs approval back to PENDING_APPROVAL
      change p.approvalRequired = true at happroval
      exact absurd (show nextStatus p = .pendingApproval by rw [nextStatus, if_pos happroval])
        hpending
  | @work _ st reason now hst hto =>
    obtain ⟨hne, hne'⟩ := Claimable.reviewed hst
    refine ⟨fun _ => (h.previewed hne).append hlog, fun _ _ happroval => ?_⟩
    change Log.Since _ _ (t.log .proposal p.id)
    rw [hlog]
    refine (h.approved hne hne' happroval).append fun r hr => ?_
    obtain rfl := List.mem_singleton.mp hr
    change st ≠ .previewed
    rintro rfl
    revert hto
    decide

theorem reviewed_step (hs : Sync s) (h : repository.step s op t)
    (hr : ∀ k p, s.proposals.get k = some p → Reviewed s p) {k : String} {q : ProposalRow}
    (hq : t.proposals.get k = some q) : Reviewed t q := by
  obtain rfl : q.id = k := Table.key_of_get hq
  rcases proposal_step hs h q.id with ⟨hg, hlog⟩ | ⟨q', -, hq', hst, -⟩ |
    ⟨c, w, p, q', rows, -, -, hp, hq', hm, hlog⟩
  · have hold := hr q.id q (hg ▸ hq)
    exact ⟨fun hn => by rw [Previewed, hlog]; exact hold.previewed hn,
      fun hn hn' ha => by rw [ApprovedSincePreview, hlog]; exact hold.approved hn hn' ha⟩
  · obtain rfl := Option.some.inj (hq.symm.trans hq')
    exact ⟨fun hn => absurd hst hn, fun hn => absurd hst hn⟩
  · obtain rfl := Option.some.inj (hq.symm.trans hq')
    rw [hm.keeps.1] at hlog
    exact (hr _ p hp).move hm hlog

theorem reviewed_of_reachable (h : Reachable repository s) :
    ∀ k p, s.proposals.get k = some p → Reviewed s p := by
  refine h.invariant (I := fun s => ∀ k p, s.proposals.get k = some p → Reviewed s p) ?_ ?_
  · rintro s rfl k p hp
    exact nomatch hp
  · intro s op t hs hr ht k q hq
    exact reviewed_step (sync_of_reachable hs) ht hr hq

/-- An execution that is EXECUTING after a step had a claimable proposal before it. -/
theorem claimable_of_executing (hs : Sync s) (h : repository.step s op t) {k : String}
    {e : ExecutionRow} (he : t.executions.get k = some e) (hst : e.status = .executing) :
    ∃ p, s.proposals.get e.proposalId = some p ∧ p.status.Claimable := by
  rcases execution_step hs h k with ⟨hg, -⟩ | ⟨f, _, -, hf, hready, -⟩ |
    ⟨c, x, f, rows, rfl, hx, hf, hm, -⟩
  · obtain ⟨p, hp, hin⟩ := hs.proposal (hg ▸ he)
    exact ⟨p, hp, InStep.claimable hin (.inl hst)⟩
  · obtain rfl := Option.some.inj (he.symm.trans hf)
    rw [hready] at hst
    cases hst
  · obtain rfl := Option.some.inj (he.symm.trans hf)
    cases hm with
    | claim _ _ _ _ hp hp' => exact ⟨_, hp, hp'⟩
    | begin => cases hst
    | finishCompensation _ _ err => cases err <;> cases hst
    | finish _ _ code =>
      have ht := finishStatus_terminal code
      rw [show finishStatus code = .executing from hst] at ht
      exact absurd ht (by decide)

/-- Whatever step leaves an execution EXECUTING, the review came before that step. -/
theorem executing_only_after_review {k : String} {e : ExecutionRow} (hs : Reachable repository s)
    (h : repository.step s op t) (he : t.executions.get k = some e)
    (hst : e.status = .executing) :
    ∃ p, s.proposals.get e.proposalId = some p ∧ Previewed s p.id ∧
      (p.approvalRequired = true → ApprovedSincePreview s p.id) := by
  obtain ⟨p, hp, hc⟩ := claimable_of_executing (sync_of_reachable hs) h he hst
  obtain ⟨hne, hne'⟩ := Claimable.reviewed hc
  have hr := reviewed_of_reachable hs _ p hp
  exact ⟨p, hp, hr.previewed hne, hr.approved hne hne'⟩

theorem rename_executes_after_review :
    ∃ (s t : Store) (op : Op) (e : ExecutionRow), Reachable repository s ∧
      repository.step s op t ∧ t.executions.get "execution-1" = some e ∧
      e.status = .executing ∧ ∃ p, s.proposals.get e.proposalId = some p ∧ Previewed s p.id ∧
        (p.approvalRequired = true → ApprovedSincePreview s p.id) := by
  obtain ⟨s, hs, h⟩ := exists_reachable
    (p := fun s => ((Rename.claim "worker" 5 s).step s).any fun t =>
      (t.executions.get "execution-1").any fun e => e.status = .executing)
    (Rename.queued "proposal-1" "execution-1" 1) (by decide +kernel)
  obtain ⟨t, ht, h⟩ := (Option.any_eq_true _ _).mp h
  obtain ⟨e, he, hst⟩ := (Option.any_eq_true _ _).mp h
  exact ⟨s, t, _, e, hs, ht, he, of_decide_eq_true hst,
    executing_only_after_review hs ht he (of_decide_eq_true hst)⟩

end Review

end DeerFlow.Semantic
