import DeerFlow.Semantic.ActionSubmission

/-! Submitting an Action twice. `propose` recovers from the unique constraint on
its key: whoever loses the race answers with the winner's proposal.
`enqueue_execution` raises what the unique constraint on the proposal raises. -/

namespace DeerFlow.Semantic
open Transition

def conflictError : Exc :=
  .action ⟨"ACTION_CONFLICT",
    "Idempotency key was already used for a different Action proposal", 409⟩

theorem answerExisting_eq (existing row : ProposalRow) :
    answerExisting existing row =
      if existing.Differs row then .error conflictError else .ok existing := by
  unfold answerExisting raiseIf
  split_ifs <;> rfl

namespace ProposalRow

/-- The columns that no transaction writes again, as far as a request is compared by them. -/
structure Same (p row : ProposalRow) : Prop where
  id : p.id = row.id
  principalId : p.principalId = row.principalId
  idempotencyKey : p.idempotencyKey = row.idempotencyKey
  differs : ∀ x, p.Differs x ↔ row.Differs x

theorem Same.refl (p : ProposalRow) : p.Same p := ⟨rfl, rfl, rfl, fun _ => Iff.rfl⟩

theorem Same.trans {p q r : ProposalRow} (h : p.Same q) (h' : q.Same r) : p.Same r :=
  ⟨h.id.trans h'.id, h.principalId.trans h'.principalId,
    h.idempotencyKey.trans h'.idempotencyKey, fun x => (h.differs x).trans (h'.differs x)⟩

theorem same_write (loaded new current : ProposalRow) : (loaded.write new current).Same current :=
  ⟨rfl, rfl, rfl, fun _ => Iff.rfl⟩

theorem sameKey_iff {row x : ProposalRow} :
    row.sameKey x = true ↔
      x.principalId = row.principalId ∧ x.idempotencyKey = row.idempotencyKey := by
  simp [sameKey]

end ProposalRow

namespace Submissions
variable {s t : Submissions} {i : Nat} {c : SubmitCall}

/-- The id of a new row is in use, or an execution was stored after the call has looked for one. -/
def CallSlips (s : Submissions) (c : SubmitCall) : Prop :=
  match c.request, c.pc with
  | .propose row, .start =>
    (∃ x ∈ s.store.proposals.rows, x.id = row.id) ∧
      ∀ x ∈ s.store.proposals.rows, row.sameKey x = false
  | .enqueue .., .adding execution => s.store.insertConflict execution = true
  | _, _ => False

instance (s : Submissions) (c : SubmitCall) : Decidable (s.CallSlips c) := by
  unfold CallSlips
  split <;> infer_instance

def Slips (s : Submissions) : SubmitEvent → Prop
  | .step i => ∃ c ∈ s.calls[i]?, s.CallSlips c
  | _ => False

instance (s : Submissions) : (e : SubmitEvent) → Decidable (s.Slips e)
  | .step _ => inferInstanceAs (Decidable (∃ _ ∈ _, _))
  | .propose .. | .enqueue .. | .other _ => isFalse id

/-- The call has read the proposal when it could be executed. -/
def SawExecutable (c : SubmitCall) : Prop :=
  ∃ p ∈ c.proposal, p.status = .ready ∨ p.status = .executing

structure Idempotent (s : Submissions) : Prop where
  proposals : ∀ p ∈ s.store.proposals.rows, ∀ q ∈ s.store.proposals.rows,
    p.sameKey q = true → p = q
  executions : ∀ e ∈ s.store.executions.rows, ∀ f ∈ s.store.executions.rows,
    e.proposalId = f.proposalId → e = f
  proposed : ∀ c ∈ s.calls, ∀ row result, c.request = .propose row → c.pc = .done result →
    ∃ p ∈ s.store.proposals.rows, row.sameKey p = true ∧
      (result = .ok p.id ∨ p.Differs row ∧ result = .error conflictError)
  agreed : ∀ principalId key, (∀ (i j : Nat) (c d : SubmitCall) row row', i ≠ j →
      s.calls[i]? = some c → s.calls[j]? = some d → c.request = .propose row →
      d.request = .propose row' → row.principalId = principalId → row.idempotencyKey = key →
      row'.principalId = principalId → row'.idempotencyKey = key → ¬ row.Differs row') →
    ∃ id, ∀ c ∈ s.calls, ∀ row result, c.request = .propose row →
      row.principalId = principalId → row.idempotencyKey = key → c.pc = .done result →
        result = .ok id
  enqueued : ∀ c ∈ s.calls, ∀ proposalId authorization id now result,
    c.request = .enqueue proposalId authorization id now → SawExecutable c →
    c.pc = .done result →
      ∃ e ∈ s.store.executions.rows, e.proposalId = proposalId ∧ result = .ok e.id

def CallTracked (s : Submissions) (c : SubmitCall) : Prop :=
  match c.request, c.pc with
  | .propose row, .conflicted => ∃ p ∈ s.store.proposals.rows, row.sameKey p = true
  | .propose row, .done result => ∃ p ∈ s.store.proposals.rows, row.sameKey p = true ∧
      (result = .ok p.id ∨ p.Differs row ∧ result = .error conflictError)
  | .enqueue .., .start => c.proposal = none
  | .enqueue proposalId _ _ _, .adding execution => execution.proposalId = proposalId
  | .enqueue proposalId _ _ _, .done result => SawExecutable c →
      ∃ e ∈ s.store.executions.rows, e.proposalId = proposalId ∧ result = .ok e.id
  | _, _ => True

structure Tracked (s : Submissions) : Prop where
  proposals : ∀ p ∈ s.store.proposals.rows, ∀ q ∈ s.store.proposals.rows,
    p.sameKey q = true → p = q
  executions : ∀ e ∈ s.store.executions.rows, ∀ f ∈ s.store.executions.rows,
    e.proposalId = f.proposalId → e = f
  origin : ∀ p ∈ s.store.proposals.rows, ∃ (i : Nat) (c : SubmitCall) (row : ProposalRow),
    s.calls[i]? = some c ∧ c.request = .propose row ∧ c.pc = .done (.ok row.id) ∧ p.Same row
  calls : ∀ c ∈ s.calls, s.CallTracked c

/-- No row is lost, and none takes another key. -/
structure Carries (s t : Store) : Prop where
  proposals : ∀ p ∈ s.proposals.rows, ∃ q ∈ t.proposals.rows, q.Same p
  executions : ∀ e ∈ s.executions.rows, ∃ f ∈ t.executions.rows,
    f.id = e.id ∧ f.proposalId = e.proposalId

theorem Carries.refl (s : Store) : Carries s s :=
  ⟨fun p hp => ⟨p, hp, .refl p⟩, fun e he => ⟨e, he, rfl, rfl⟩⟩

theorem CallTracked.carry (h : s.CallTracked c) (hst : Carries s.store t.store) :
    t.CallTracked c := by
  have hkey {p q row : ProposalRow} (hsame : q.Same p) (hp : row.sameKey p = true) :
      row.sameKey q = true := by
    rw [ProposalRow.sameKey_iff] at hp ⊢
    exact ⟨hsame.principalId.trans hp.1, hsame.idempotencyKey.trans hp.2⟩
  unfold CallTracked at h ⊢
  split at h
  · obtain ⟨p, hp, hrow⟩ := h
    obtain ⟨q, hq, hsame⟩ := hst.proposals p hp
    exact ⟨q, hq, hkey hsame hrow⟩
  · obtain ⟨p, hp, hrow, hresult⟩ := h
    obtain ⟨q, hq, hsame⟩ := hst.proposals p hp
    refine ⟨q, hq, hkey hsame hrow, ?_⟩
    rw [hsame.id, hsame.differs]
    exact hresult
  · exact h
  · exact h
  · intro hsaw
    obtain ⟨e, he, hproposal, hresult⟩ := h hsaw
    obtain ⟨f, hf, hid, hfproposal⟩ := hst.executions e he
    refine ⟨f, hf, hfproposal.trans hproposal, ?_⟩
    rw [hid]
    exact hresult
  · trivial

theorem Tracked.idempotent (h : s.Tracked) : s.Idempotent := by
  have hproposed : ∀ c ∈ s.calls, ∀ row result, c.request = .propose row →
      c.pc = .done result → ∃ p ∈ s.store.proposals.rows, row.sameKey p = true ∧
        (result = .ok p.id ∨ p.Differs row ∧ result = .error conflictError) := by
    intro c hc row result hrequest hpc
    have hcall := h.calls c hc
    unfold CallTracked at hcall
    rw [hrequest, hpc] at hcall
    exact hcall
  refine ⟨h.proposals, h.executions, hproposed, ?_, ?_⟩
  · intro principalId key hagree
    by_cases hstored : ∃ p ∈ s.store.proposals.rows,
        p.principalId = principalId ∧ p.idempotencyKey = key
    · obtain ⟨p, hp, hprincipal, hkey⟩ := hstored
      refine ⟨p.id, ?_⟩
      intro c hc row result hrequest hrowPrincipal hrowKey hpc
      obtain ⟨q, hq, hsame, hresult⟩ := hproposed c hc row result hrequest hpc
      rw [ProposalRow.sameKey_iff, hrowPrincipal, hrowKey] at hsame
      have hpq : p = q := by
        apply h.proposals p hp q hq
        rw [ProposalRow.sameKey_iff, hprincipal, hkey]
        exact hsame
      subst hpq
      rcases hresult with hok | ⟨hdiffers, -⟩
      · exact hok
      · -- the winner of the race is another call, and agrees with this one
        obtain ⟨i, d, row', hd, hdrequest, hdone, hfrom⟩ := h.origin p hp
        obtain ⟨j, hj⟩ := List.getElem?_of_mem hc
        by_cases hij : i = j
        · subst hij
          rw [hd] at hj
          cases hj
          rw [hpc] at hdone
          rw [SubmitPc.done.inj hdone, hfrom.id]
        · rw [hfrom.differs] at hdiffers
          exact absurd hdiffers (hagree i j d c row' row hij hd hj hdrequest hrequest
            (hfrom.principalId.symm.trans hprincipal) (hfrom.idempotencyKey.symm.trans hkey)
            hrowPrincipal hrowKey)
    · refine ⟨"", ?_⟩
      intro c hc row result hrequest hrowPrincipal hrowKey hpc
      obtain ⟨q, hq, hsame, -⟩ := hproposed c hc row result hrequest hpc
      rw [ProposalRow.sameKey_iff, hrowPrincipal, hrowKey] at hsame
      exact absurd ⟨q, hq, hsame⟩ hstored
  · intro c hc proposalId authorization id now result hrequest hsaw hpc
    have hcall := h.calls c hc
    unfold CallTracked at hcall
    rw [hrequest, hpc] at hcall
    exact hcall hsaw

section Calls

theorem Tracked.keep {c' : SubmitCall} (h : s.Tracked) (hc : s.calls[i]? = some c)
    (hpc : ∀ result, c.pc ≠ .done result) (hcalls : t.calls = s.calls.modify i fun _ => c')
    (hst : Carries s.store t.store)
    (hproposals : ∀ p ∈ t.store.proposals.rows, ∀ q ∈ t.store.proposals.rows,
      p.sameKey q = true → p = q)
    (hexecutions : ∀ e ∈ t.store.executions.rows, ∀ f ∈ t.store.executions.rows,
      e.proposalId = f.proposalId → e = f)
    (horigin : ∀ p ∈ t.store.proposals.rows, (∃ q ∈ s.store.proposals.rows, p.Same q) ∨
      ∃ row, c'.request = .propose row ∧ c'.pc = .done (.ok row.id) ∧ p.Same row)
    (hcall : t.CallTracked c') : t.Tracked := by
  refine ⟨hproposals, hexecutions, ?_, ?_⟩
  · intro p hp
    rcases horigin p hp with ⟨q, hq, hsame⟩ | ⟨row, hrequest, hdone, hsame⟩
    · obtain ⟨j, d, row, hd, hrequest, hdone, hfrom⟩ := h.origin q hq
      have hij : i ≠ j := by
        rintro rfl
        rw [hc] at hd
        cases hd
        exact hpc _ hdone
      refine ⟨j, d, row, ?_, hrequest, hdone, hsame.trans hfrom⟩
      rw [hcalls]
      exact Slots.modify_ne hij hd
    · refine ⟨i, c', row, ?_, hrequest, hdone, hsame⟩
      rw [hcalls]
      exact Slots.modify_self hc
  · intro d hd
    obtain ⟨j, hj⟩ := List.getElem?_of_mem hd
    rw [hcalls] at hj
    obtain ⟨e, he, ⟨-, rfl⟩ | ⟨-, rfl⟩⟩ := Slots.getElem?_modify hj
    · exact hcall
    · exact (h.calls d (List.mem_of_getElem? he)).carry hst

theorem Tracked.setCall {c' : SubmitCall} (h : s.Tracked) (hc : s.calls[i]? = some c)
    (hpc : ∀ result, c.pc ≠ .done result) (hcall : s.CallTracked c') :
    (s.setCall i c').Tracked := by
  refine h.keep hc hpc rfl (.refl _) h.proposals h.executions ?_ hcall
  intro p hp
  exact .inl ⟨p, hp, .refl p⟩

end Calls

section Steps

theorem not_proposeConflict {store : Store} {row : ProposalRow}
    (h : ¬ store.proposeConflict row = true) :
    (store.addProposal row).proposals.rows = store.proposals.rows ++ [row] ∧
      ∀ x ∈ store.proposals.rows, row.sameKey x = false := by
  unfold Store.proposeConflict at h
  rw [Bool.not_eq_true, List.any_eq_false] at h
  have hnone : store.proposals.get row.id = none := by
    apply Table.get_eq_none
    intro x hx hid
    exact h x hx (by simp [hid])
  refine ⟨Table.rows_put_of_get_none hnone, ?_⟩
  intro x hx
  have hx := h x hx
  rw [Bool.or_eq_true, not_or, Bool.not_eq_true, Bool.not_eq_true] at hx
  exact hx.2

theorem unique_of_append {α : Type*} {R : α → α → Prop} {rows rows' : List α} {x : α}
    (hrows : rows' = rows ++ [x]) (hsymm : ∀ a b, R a b → R b a)
    (hunique : ∀ a ∈ rows, ∀ b ∈ rows, R a b → a = b) (hnew : ∀ a ∈ rows, ¬ R a x) :
    ∀ a ∈ rows', ∀ b ∈ rows', R a b → a = b := by
  intro a ha b hb hab
  rw [hrows] at ha hb
  rcases List.mem_append.mp ha with haold | hanew
  · rcases List.mem_append.mp hb with hbold | hbnew
    · exact hunique a haold b hbold hab
    · rw [List.mem_singleton.mp hbnew] at hab
      exact absurd hab (hnew a haold)
  · rcases List.mem_append.mp hb with hbold | hbnew
    · rw [List.mem_singleton.mp hanew] at hab
      exact absurd (hsymm x b hab) (hnew b hbold)
    · exact (List.mem_singleton.mp hanew).trans (List.mem_singleton.mp hbnew).symm

theorem Tracked.addProposal {row : ProposalRow} (h : s.Tracked) (hc : s.calls[i]? = some c)
    (hrequest : c.request = .propose row) (hpc : ∀ result, c.pc ≠ .done result)
    (hfree : ¬ s.store.proposeConflict row = true) :
    Tracked { s.setCall i { c with pc := .done (.ok row.id) } with
      store := s.store.addProposal row } := by
  obtain ⟨hrows, hnew⟩ := not_proposeConflict hfree
  have hsymm : ∀ p q : ProposalRow, p.sameKey q = true → q.sameKey p = true := by
    intro p q hpq
    rw [ProposalRow.sameKey_iff] at hpq ⊢
    exact ⟨hpq.1.symm, hpq.2.symm⟩
  have hother : ∀ p ∈ s.store.proposals.rows, ¬ p.sameKey row = true := by
    intro p hp hsame
    have hnone := hnew p hp
    rw [hsymm p row hsame] at hnone
    cases hnone
  refine h.keep hc hpc rfl ⟨?_, (Carries.refl s.store).executions⟩
    (unique_of_append hrows hsymm h.proposals hother) h.executions ?_ ?_
  · intro p hp
    refine ⟨p, ?_, .refl p⟩
    change p ∈ (s.store.addProposal row).proposals.rows
    rw [hrows]
    exact List.mem_append_left _ hp
  · intro p hp
    change p ∈ (s.store.addProposal row).proposals.rows at hp
    rw [hrows] at hp
    rcases List.mem_append.mp hp with hpold | hpnew
    · exact .inl ⟨p, hpold, .refl p⟩
    · rw [List.mem_singleton.mp hpnew]
      exact .inr ⟨row, hrequest, rfl, .refl row⟩
  · unfold CallTracked
    rw [hrequest]
    refine ⟨row, ?_, ProposalRow.sameKey_iff.mpr ⟨rfl, rfl⟩, .inl rfl⟩
    change row ∈ (s.store.addProposal row).proposals.rows
    rw [hrows]
    exact List.mem_append_right _ (List.mem_singleton_self row)

theorem Tracked.proposeStep {row : ProposalRow} (h : s.Tracked) (hc : s.calls[i]? = some c)
    (hrequest : c.request = .propose row) (hslip : ¬ s.CallSlips c)
    (ht : s.proposeStep i c row = some t) : t.Tracked := by
  unfold Submissions.proposeStep at ht
  split at ht
  · next hpc =>
    have hnotdone : ∀ result, c.pc ≠ .done result := by
      rw [hpc]
      exact nofun
    split_ifs at ht with hconflict
    · cases ht
      apply h.setCall hc hnotdone
      unfold CallTracked
      rw [hrequest]
      unfold CallSlips at hslip
      rw [hrequest, hpc] at hslip
      by_contra hnone
      apply hslip
      have hother : ∀ x ∈ s.store.proposals.rows, row.sameKey x = false := by
        intro x hx
        rw [Bool.eq_false_iff]
        intro hsame
        exact hnone ⟨x, hx, hsame⟩
      refine ⟨?_, hother⟩
      obtain ⟨x, hx, hcase⟩ := List.any_eq_true.mp hconflict
      rw [hother x hx, Bool.or_false, decide_eq_true_eq] at hcase
      exact ⟨x, hx, hcase⟩
    · cases ht
      exact h.addProposal hc hrequest hnotdone hconflict
  · next hpc =>
    cases ht
    have hcall := h.calls c (List.mem_of_getElem? hc)
    unfold CallTracked at hcall
    rw [hrequest, hpc] at hcall
    obtain ⟨p, hp, hsame⟩ := hcall
    apply h.setCall hc
    · rw [hpc]
      exact nofun
    · unfold CallTracked
      rw [hrequest]
      rcases hfind : s.store.proposals.rows.find? row.sameKey with _ | existing
      · rw [List.find?_eq_none] at hfind
        exact absurd hsame (hfind p hp)
      · refine ⟨existing, List.mem_of_find?_eq_some hfind, List.find?_some hfind, ?_⟩
        dsimp only
        rw [answerExisting_eq]
        split_ifs with hdiffers
        · exact .inr ⟨hdiffers, rfl⟩
        · exact .inl rfl
  · cases ht

/-- `enqueue_execution` does not refuse a proposal that is ready or executing. -/
theorem checkExecutable_error {p : ProposalRow} {e : Exc} (h : checkExecutable p = .error e) :
    ¬ (p.status = .ready ∨ p.status = .executing) := by
  rintro (hstatus | hstatus)
  · unfold checkExecutable raiseIf at h
    rw [hstatus] at h
    cases h
  · unfold checkExecutable raiseIf at h
    rw [hstatus] at h
    cases h

theorem Tracked.addExecution {proposalId id : String} {authorization : AuthorizationContext}
    {now : Time} {execution : ExecutionRow} {store : Store} (h : s.Tracked)
    (hc : s.calls[i]? = some c)
    (hrequest : c.request = .enqueue proposalId authorization id now)
    (hpc : ∀ result, c.pc ≠ .done result) (hproposal : execution.proposalId = proposalId)
    (hfree : s.store.insertConflict execution = false)
    (hproposals : store.proposals = s.store.proposals)
    (hexecutions : store.executions = s.store.executions.put execution) :
    Tracked { s.setCall i { c with pc := .done (.ok execution.id) } with store := store } := by
  unfold Store.insertConflict at hfree
  rw [List.any_eq_false] at hfree
  have hnew : ∀ e ∈ s.store.executions.rows,
      e.id ≠ execution.id ∧ e.proposalId ≠ execution.proposalId := by
    intro e he
    simpa using hfree e he
  have hrows : store.executions.rows = s.store.executions.rows ++ [execution] := by
    rw [hexecutions]
    apply Table.rows_put_of_get_none
    exact Table.get_eq_none fun e he => (hnew e he).1
  have hunique : ∀ e ∈ store.executions.rows, ∀ f ∈ store.executions.rows,
      e.proposalId = f.proposalId → e = f :=
    unique_of_append hrows (fun _ _ => Eq.symm) h.executions fun e he => (hnew e he).2
  refine h.keep hc hpc rfl ⟨?_, ?_⟩ ?_ hunique ?_ ?_
  · intro p hp
    exact ⟨p, hproposals ▸ hp, .refl p⟩
  · intro e he
    refine ⟨e, ?_, rfl, rfl⟩
    change e ∈ store.executions.rows
    rw [hrows]
    exact List.mem_append_left _ he
  · change ∀ p ∈ store.proposals.rows, ∀ q ∈ store.proposals.rows, p.sameKey q = true → p = q
    rw [hproposals]
    exact h.proposals
  · intro p hp
    exact .inl ⟨p, hproposals ▸ hp, .refl p⟩
  · unfold CallTracked
    rw [hrequest]
    intro _
    refine ⟨execution, ?_, hproposal, rfl⟩
    change execution ∈ store.executions.rows
    rw [hrows]
    exact List.mem_append_right _ (List.mem_singleton_self execution)

theorem Tracked.enqueueStep {proposalId id : String} {authorization : AuthorizationContext}
    {now : Time} (h : s.Tracked) (hc : s.calls[i]? = some c)
    (hrequest : c.request = .enqueue proposalId authorization id now) (hslip : ¬ s.CallSlips c)
    (ht : s.enqueueStep i c proposalId authorization id now = some t) : t.Tracked := by
  have hcall := h.calls c (List.mem_of_getElem? hc)
  unfold CallTracked at hcall
  rw [hrequest] at hcall
  unfold Submissions.enqueueStep at ht
  split at ht
  · next hpc =>
    rw [hpc] at hcall
    have hnotdone : ∀ result, c.pc ≠ .done result := by
      rw [hpc]
      exact nofun
    split at ht
    · cases ht
      apply h.setCall hc hnotdone
      unfold CallTracked
      rw [hrequest]
      rintro ⟨p, hp, -⟩
      rw [hcall] at hp
      cases hp
    · next proposal hproposal =>
      split at ht
      · next e he =>
        cases ht
        apply h.setCall hc hnotdone
        unfold CallTracked
        rw [hrequest]
        rintro ⟨p, hp, hstatus⟩
        cases hp
        exact absurd hstatus (checkExecutable_error he)
      · cases ht
        apply h.setCall hc hnotdone
        unfold CallTracked
        rw [hrequest]
        trivial
  · next hpc =>
    have hnotdone : ∀ result, c.pc ≠ .done result := by
      rw [hpc]
      exact nofun
    split at ht
    · next existing hexisting =>
      cases ht
      apply h.setCall hc hnotdone
      unfold CallTracked
      rw [hrequest]
      intro _
      have hid : existing.proposalId = proposalId := by
        simpa using List.find?_some hexisting
      exact ⟨existing, List.mem_of_find?_eq_some hexisting, hid, rfl⟩
    · cases ht
      apply h.setCall hc hnotdone
      unfold CallTracked
      rw [hrequest]
      rfl
  · next execution hpc =>
    rw [hpc] at hcall
    have hnotdone : ∀ result, c.pc ≠ .done result := by
      rw [hpc]
      exact nofun
    have hfree : s.store.insertConflict execution = false := by
      unfold CallSlips at hslip
      rw [hrequest, hpc, Bool.not_eq_true] at hslip
      exact hslip
    unfold Store.commit at ht
    simp only [hfree, Bool.false_eq_true, if_false] at ht
    cases ht
    exact h.addExecution hc hrequest hnotdone hcall hfree rfl rfl
  · cases ht

theorem Tracked.callStep (h : s.Tracked) (hc : s.calls[i]? = some c) (hslip : ¬ s.CallSlips c)
    (ht : s.callStep i c = some t) : t.Tracked := by
  unfold Submissions.callStep at ht
  split at ht
  · next hrequest => exact h.proposeStep hc hrequest hslip ht
  · next hrequest => exact h.enqueueStep hc hrequest hslip ht

theorem Tracked.begin (h : s.Tracked) (request : SubmitRequest) :
    Tracked { s with calls := s.calls ++ [⟨request, .start, none⟩] } := by
  refine ⟨h.proposals, h.executions, ?_, ?_⟩
  · intro p hp
    obtain ⟨i, c, row, hc, hrow⟩ := h.origin p hp
    exact ⟨i, c, row, Slots.concat_of_getElem? hc, hrow⟩
  · intro c hc
    rcases List.mem_append.mp hc with hc | hc
    · exact (h.calls c hc).carry (.refl _)
    · obtain rfl := List.mem_singleton.mp hc
      unfold CallTracked
      rcases request with row | ⟨proposalId, authorization, id, now⟩
      · trivial
      · rfl

theorem exists_writeProposal (store : Store) (w : Option (ProposalRow × ProposalRow)) :
    ∃ f : ProposalRow → ProposalRow, (∀ p, (f p).Same p) ∧
      (store.writeProposal w).rows = store.proposals.rows.map f := by
  rcases w with _ | ⟨loaded, new⟩
  · exact ⟨id, .refl, (List.map_id _).symm⟩
  · refine ⟨fun p => if p.id = loaded.id then loaded.write new p else p, ?_, ?_⟩
    · intro p
      dsimp only
      split_ifs
      · exact ProposalRow.same_write loaded new p
      · exact .refl p
    · have hkey : ∀ p, (loaded.write new p).id = p.id := fun _ => rfl
      exact Table.rows_update hkey loaded.id

theorem exists_writeExecution (store : Store) (w : Option (ExecutionRow × ExecutionRow)) :
    ∃ f : ExecutionRow → ExecutionRow,
      (∀ e, (f e).id = e.id ∧ (f e).proposalId = e.proposalId) ∧
      (store.writeExecution w).rows = store.executions.rows.map f := by
  rcases w with _ | ⟨loaded, new⟩
  · exact ⟨id, fun _ => ⟨rfl, rfl⟩, (List.map_id _).symm⟩
  · refine ⟨fun e => if e.id = loaded.id then loaded.write new e else e, ?_, ?_⟩
    · intro e
      dsimp only
      split_ifs
      · exact ⟨rfl, rfl⟩
      · exact ⟨rfl, rfl⟩
    · have hkey : ∀ e, (loaded.write new e).id = e.id := fun _ => rfl
      exact Table.rows_update hkey loaded.id

theorem Tracked.other {w : Plan} {store : Store} (h : s.Tracked) (hw : w.insert = none)
    (hstore : s.store.commit w = some store) : Tracked { s with store := store } := by
  unfold Store.commit at hstore
  rw [hw] at hstore
  cases hstore
  obtain ⟨f, hf, hproposals⟩ := exists_writeProposal s.store w.proposal
  obtain ⟨g, hg, hexecutions⟩ := exists_writeExecution s.store w.execution
  have hcarries : Carries s.store ⟨s.store.writeProposal w.proposal,
      s.store.writeExecution w.execution, s.store.transitions ++ w.transitions⟩ := by
    constructor
    · intro p hp
      refine ⟨f p, ?_, hf p⟩
      change f p ∈ (s.store.writeProposal w.proposal).rows
      rw [hproposals]
      exact List.mem_map_of_mem hp
    · intro e he
      refine ⟨g e, ?_, hg e⟩
      change g e ∈ (s.store.writeExecution w.execution).rows
      rw [hexecutions]
      exact List.mem_map_of_mem he
  refine ⟨?_, ?_, ?_, ?_⟩
  · intro p hp q hq hsame
    change p ∈ (s.store.writeProposal w.proposal).rows at hp
    change q ∈ (s.store.writeProposal w.proposal).rows at hq
    rw [hproposals] at hp hq
    obtain ⟨p', hp', rfl⟩ := List.mem_map.mp hp
    obtain ⟨q', hq', rfl⟩ := List.mem_map.mp hq
    have hpq : p' = q' := by
      apply h.proposals p' hp' q' hq'
      rw [ProposalRow.sameKey_iff] at hsame ⊢
      constructor
      · rw [← (hf p').principalId, ← (hf q').principalId]
        exact hsame.1
      · rw [← (hf p').idempotencyKey, ← (hf q').idempotencyKey]
        exact hsame.2
    rw [hpq]
  · intro d hd e he hsame
    change d ∈ (s.store.writeExecution w.execution).rows at hd
    change e ∈ (s.store.writeExecution w.execution).rows at he
    rw [hexecutions] at hd he
    obtain ⟨d', hd', rfl⟩ := List.mem_map.mp hd
    obtain ⟨e', he', rfl⟩ := List.mem_map.mp he
    rw [(hg d').2, (hg e').2] at hsame
    rw [h.executions d' hd' e' he' hsame]
  · intro p hp
    change p ∈ (s.store.writeProposal w.proposal).rows at hp
    rw [hproposals] at hp
    obtain ⟨p', hp', rfl⟩ := List.mem_map.mp hp
    obtain ⟨i, c, row, hc, hrequest, hdone, hsame⟩ := h.origin p' hp'
    exact ⟨i, c, row, hc, hrequest, hdone, (hf p').trans hsame⟩
  · intro c hc
    exact (h.calls c hc).carry hcarries

theorem Tracked.step {e : SubmitEvent} (h : s.Tracked) (hslip : ¬ s.Slips e)
    (ht : s.step e = some t) : t.Tracked := by
  cases e with
  | propose ontology authorization request id now =>
    simp only [Submissions.step] at ht
    split at ht
    · cases ht
      exact h
    · cases ht
      exact h.begin _
  | enqueue proposalId authorization id now =>
    cases ht
    exact h.begin _
  | step i =>
    obtain ⟨c, hc, ht⟩ := Option.bind_eq_some_iff.mp ht
    apply h.callStep hc _ ht
    intro hcall
    exact hslip ⟨c, hc, hcall⟩
  | other w =>
    simp only [Submissions.step] at ht
    split_ifs at ht with hinsert
    obtain ⟨store, hstore, rfl⟩ := Option.map_eq_some_iff.mp ht
    exact h.other (Option.not_isSome_iff_eq_none.mp hinsert) hstore

end Steps

theorem tracked_empty : empty.Tracked := by
  constructor
  · intro p hp
    cases hp
  · intro e he
    cases he
  · intro p hp
    cases hp
  · intro c hc
    cases hc

end Submissions

/-- Submitting is idempotent where no call is overtaken between its look and its commit. -/
theorem submissions_idempotent {s : Submissions}
    (h : Reachable (submissions.when fun s e => ¬ s.Slips e) s) : s.Idempotent := by
  have htracked : s.Tracked := by
    apply h.invariant (I := Submissions.Tracked)
    · rintro s rfl
      exact Submissions.tracked_empty
    · rintro s e t - hs ⟨hslip, hstep⟩
      exact hs.step hslip hstep
  exact htracked.idempotent

def SubmitPc.returned : SubmitPc → Option String
  | .done (.ok id) => some id
  | _ => none

def SubmitPc.raised : SubmitPc → Bool
  | .done (.error _) => true
  | _ => false

namespace Rename

def submit (p : String) : Submissions → SubmitEvent := fun _ =>
  .propose ontology authorization ⟨"site.rename", "site-demo-001", [("name", .str "North")],
    none, "key", none⟩ p 1

def submitExecution (p e : String) : Submissions → SubmitEvent := fun _ =>
  .enqueue p authorization e 4

def transact (c : Call) (s : Submissions) : SubmitEvent :=
  .other ((c.load s.store).toOption.getD {})

/-- Proposed twice at once with one key, then previewed and approved. -/
def submitted : List (Submissions → SubmitEvent) :=
  [submit "proposal-1", submit "proposal-2", fun _ => .step 0, fun _ => .step 1, fun _ => .step 1,
    transact (.preview str ontology "proposal-1" authorization target 2),
    transact (.approve "proposal-1" authorization "public-user-001" 3)]

end Rename

theorem submissions_idempotent_raced : ∃ s : Submissions,
    s.calls.map (fun c => c.pc.returned) =
      [some "proposal-1", some "proposal-1", some "execution-1", some "execution-1"] ∧
    s.Idempotent := by
  have hrun : (runScript (guarded (fun s e => ¬ Submissions.Slips s e) Submissions.step) .empty
      (Rename.submitted ++ [Rename.submitExecution "proposal-1" "execution-1",
        Rename.submitExecution "proposal-1" "execution-2", fun _ => .step 2, fun _ => .step 3,
        fun _ => .step 2, fun _ => .step 2, fun _ => .step 3])).any (fun s =>
          decide (s.calls.map (fun c => c.pc.returned) =
            [some "proposal-1", some "proposal-1", some "execution-1", some "execution-1"])) =
      true := by
    decide +kernel
  obtain ⟨s, hs, h⟩ := exists_reachable_of_decide _ hrun
  exact ⟨s, h, submissions_idempotent (when_of_guarded hs)⟩

/-- Both calls look for an execution before either stores one, and the second one raises. -/
theorem overtaken_enqueue_raises : ¬ ∀ s, Reachable submissions s → s.Idempotent := by
  intro hall
  have hrun : (runScript Submissions.step .empty
      (Rename.submitted ++ [Rename.submitExecution "proposal-1" "execution-1",
        Rename.submitExecution "proposal-1" "execution-2", fun _ => .step 2, fun _ => .step 3,
        fun _ => .step 2, fun _ => .step 3, fun _ => .step 2, fun _ => .step 3])).any (fun s =>
          s.calls[3]?.any fun c => c.pc.raised && (match c.request with
            | .enqueue .. => true
            | _ => false) &&
            c.proposal.any fun p => decide (p.status = .ready)) = true := by
    decide +kernel
  obtain ⟨s, hs, h⟩ := exists_reachable_of_runScript _ hrun
  obtain ⟨c, hc, h⟩ := (Option.any_eq_true _ _).mp h
  obtain ⟨h, hready⟩ := Bool.and_eq_true_iff.mp h
  obtain ⟨hraised, hrequest⟩ := Bool.and_eq_true_iff.mp h
  obtain ⟨p, hp, hready⟩ := (Option.any_eq_true _ _).mp hready
  have hsaw : Submissions.SawExecutable c := ⟨p, hp, .inl (of_decide_eq_true hready)⟩
  rcases hpc : c.pc with _ | _ | _ | _ | (e | id)
  case done.error =>
    rcases hcall : c.request with row | ⟨proposalId, authorization, id, now⟩
    · rw [hcall] at hrequest
      cases hrequest
    · obtain ⟨e', -, -, hresult⟩ := (hall s hs).enqueued c (List.mem_of_getElem? hc) proposalId
        authorization id now _ hcall hsaw hpc
      cases hresult
  all_goals
    rw [hpc] at hraised
    cases hraised

end DeerFlow.Semantic
