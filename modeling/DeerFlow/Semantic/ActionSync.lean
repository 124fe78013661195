import DeerFlow.Semantic.ActionMachine

/-! Proposals and executions stay in step. The statement is about a commit whose
loaded statuses are still the stored ones, so that it covers an atomic
transaction and the commit step of an interleaved one. -/

namespace DeerFlow.Semantic
open Transition

namespace ActionStatus

/-- Not yet taken up by a worker. -/
def Waiting (st : ActionStatus) : Prop := ¬ st.Active ∧ ¬ st.Terminal

/-- An execution waits while its proposal waits, and afterwards both carry one status. -/
def InStep (execution proposal : ActionStatus) : Prop :=
  execution = .ready ∧ proposal.Waiting ∨
    (execution.Active ∨ execution.Terminal) ∧ proposal = execution

instance : DecidablePred Waiting := fun _ => inferInstanceAs (Decidable (_ ∧ _))

theorem Active.not_terminal {st : ActionStatus} (h : st.Active) : ¬ st.Terminal := by
  rcases h with rfl | rfl <;> decide

end ActionStatus

open ActionStatus

structure Sync (s : Store) : Prop where
  proposal : ∀ {k e}, s.executions.get k = some e →
    ∃ p, s.proposals.get e.proposalId = some p ∧ InStep e.status p.status
  execution : ∀ {k p}, s.proposals.get k = some p → ¬ p.status.Waiting →
    ∃ j e, s.executions.get j = some e ∧ e.proposalId = k
  unique : ∀ {j k e f}, s.executions.get j = some e → s.executions.get k = some f →
    e.proposalId = f.proposalId → j = k
  lease : ∀ {k e}, s.executions.get k = some e → e.leaseOwner ≠ none → e.status.Active

/-- What a plan does to statuses, forgetting which transaction made it. -/
inductive Shape (w : Plan) : Prop
  | idle (hp : w.proposal = none) (he : w.execution = none) (hi : w.insert = none)
  | review {p p' : ProposalRow} (hp : w.proposal = some (p, p')) (he : w.execution = none)
      (hi : w.insert = none) (hst : p.status.Waiting) (hst' : p'.status.Waiting)
  | enqueue {e : ExecutionRow} (hp : w.proposal = none) (he : w.execution = none)
      (hi : w.insert = some e) (hst : e.status = .ready) (ho : e.leaseOwner = none)
  | joint {p p' : ProposalRow} {e e' : ExecutionRow} (hp : w.proposal = some (p, p'))
      (he : w.execution = some (e, e')) (hi : w.insert = none) (hid : p.id = e.proposalId)
      (hin : InStep e.status p.status) (hnt : ¬ e.status.Terminal)
      (hst : p'.status = e'.status)
      (hto : e'.status.Active ∨
        e'.status.Terminal ∧ e'.leaseOwner = none ∧ e.leaseOwner ≠ none)

/-- The rows a plan refers to are stored, under the proposal they were loaded with. -/
structure Loaded (s : Store) (w : Plan) : Prop where
  proposal : ∀ {p p'}, w.proposal = some (p, p') → ∃ cur, s.proposals.get p.id = some cur
  execution : ∀ {e e'}, w.execution = some (e, e') →
    ∃ cur, s.executions.get e.id = some cur ∧ cur.proposalId = e.proposalId
  insert : ∀ {e}, w.insert = some e → ∃ p, s.proposals.get e.proposalId = some p

/-- The loaded statuses are still the stored ones. -/
structure Fresh (s : Store) (w : Plan) : Prop where
  proposal : ∀ {p p'}, w.proposal = some (p, p') →
    ∃ cur, s.proposals.get p.id = some cur ∧ cur.status = p.status
  execution : ∀ {e e'}, w.execution = some (e, e') →
    ∃ cur, s.executions.get e.id = some cur ∧ cur.status = e.status

section Commit
variable {s t : Store} {w : Plan}

theorem commit_fields (h : s.commit w = some t) :
    t.proposals = s.writeProposal w.proposal ∧ t.transitions = s.transitions ++ w.transitions := by
  unfold Store.commit at h
  rcases hi : w.insert with _ | e
  · rw [hi] at h
    cases h
    exact ⟨rfl, rfl⟩
  · rw [hi] at h
    simp only at h
    split_ifs at h
    cases h
    exact ⟨rfl, rfl⟩

theorem commit_executions (h : s.commit w = some t) (hi : w.insert = none) :
    t.executions = s.writeExecution w.execution := by
  unfold Store.commit at h
  rw [hi] at h
  cases h
  rfl

theorem commit_insert {e : ExecutionRow} (h : s.commit w = some t) (hi : w.insert = some e) :
    t.executions = s.executions.put e ∧
      ∀ k x, s.executions.get k = some x → k ≠ e.id ∧ x.proposalId ≠ e.proposalId := by
  unfold Store.commit at h
  rw [hi] at h
  simp only at h
  split_ifs at h with hc
  cases h
  refine ⟨rfl, fun k x hx => ?_⟩
  have hkey : x.id = k := Table.key_of_get hx
  have hne := List.any_eq_false.mp (Bool.eq_false_of_not_eq_true hc) x (Table.mem_of_get hx)
  simpa [hkey] using hne

theorem get_writeProposal {p p' : ProposalRow} (k : String) :
    (s.writeProposal (some (p, p'))).get k =
      if k = p.id then (s.proposals.get p.id).map (p.write p') else s.proposals.get k :=
  Table.get_update (f := p.write p') (fun _ => rfl) p.id k

theorem get_writeExecution {e e' : ExecutionRow} (k : String) :
    (s.writeExecution (some (e, e'))).get k =
      if k = e.id then (s.executions.get e.id).map (e.write e') else s.executions.get k :=
  Table.get_update (f := e.write e') (fun _ => rfl) e.id k

theorem written_unique {α : Type} {row : Option (α × α)} {a b c d : α} (h : row = some (a, b))
    (h' : row = some (c, d)) : a = c ∧ b = d :=
  Prod.mk.inj (Option.some.inj (h.symm.trans h'))

theorem commit_proposals (h : s.commit w = some t) (hp : w.proposal = none) :
    t.proposals = s.proposals := by
  rw [(commit_fields h).1, hp]
  rfl

theorem commit_get_proposal {p p' : ProposalRow} (h : s.commit w = some t)
    (hp : w.proposal = some (p, p')) (k : String) : t.proposals.get k =
      if k = p.id then (s.proposals.get p.id).map (p.write p') else s.proposals.get k := by
  rw [(commit_fields h).1, hp, get_writeProposal]

theorem commit_no_executions (h : s.commit w = some t) (hi : w.insert = none)
    (he : w.execution = none) : t.executions = s.executions := by
  rw [commit_executions h hi, he]
  rfl

theorem commit_get_execution {e e' : ExecutionRow} (h : s.commit w = some t)
    (hi : w.insert = none) (he : w.execution = some (e, e')) (k : String) : t.executions.get k =
      if k = e.id then (s.executions.get e.id).map (e.write e') else s.executions.get k := by
  rw [commit_executions h hi, he, get_writeExecution]

theorem write_status_of_fresh {p p' cur : ProposalRow} (h : cur.status = p.status) :
    (p.write p' cur).status = p'.status := by
  simp only [ProposalRow.write, h, column_loaded]

theorem write_execution_status_of_fresh {e e' cur : ExecutionRow} (h : cur.status = e.status) :
    (e.write e' cur).status = e'.status := by
  simp only [ExecutionRow.write, h, column_loaded]

/-- Whatever a commit does, an execution keeps its proposal. -/
theorem commit_keeps_execution (h : s.commit w = some t) {k : String} {x : ExecutionRow}
    (hx : s.executions.get k = some x) :
    ∃ y, t.executions.get k = some y ∧ y.proposalId = x.proposalId := by
  rcases hi : w.insert with _ | e
  · rw [commit_executions h hi]
    rcases hw : w.execution with _ | ⟨e, e'⟩
    · exact ⟨x, hx, rfl⟩
    · rw [get_writeExecution]
      split_ifs with hk
      · subst hk
        exact ⟨e.write e' x, by rw [hx]; rfl, rfl⟩
      · exact ⟨x, hx, rfl⟩
  · obtain ⟨ht, hne⟩ := commit_insert h hi
    rw [ht, Table.get_put, if_neg (hne k x hx).1]
    exact ⟨x, hx, rfl⟩

theorem commit_keeps_proposal (h : s.commit w = some t) {k : String} {p : ProposalRow}
    (hp : s.proposals.get k = some p) :
    ∃ q, t.proposals.get k = some q ∧ q.approvalRequired = p.approvalRequired := by
  rw [(commit_fields h).1]
  rcases hw : w.proposal with _ | ⟨a, b⟩
  · exact ⟨p, hp, rfl⟩
  · rw [get_writeProposal]
    split_ifs with hk
    · subst hk
      exact ⟨a.write b p, by rw [hp]; rfl, rfl⟩
    · exact ⟨p, hp, rfl⟩

theorem execution_before_commit (h : s.commit w = some t) (hi : w.insert = none) {k : String}
    {y : ExecutionRow} (hy : t.executions.get k = some y) :
    ∃ x, s.executions.get k = some x ∧ y.proposalId = x.proposalId := by
  rw [commit_executions h hi] at hy
  rcases hw : w.execution with _ | ⟨e, e'⟩
  · rw [hw] at hy
    exact ⟨y, hy, rfl⟩
  · rw [hw, get_writeExecution] at hy
    split_ifs at hy with hk
    · obtain ⟨x, hx, rfl⟩ := Option.map_eq_some_iff.mp hy
      exact ⟨x, hk ▸ hx, rfl⟩
    · exact ⟨y, hy, rfl⟩

theorem Sync.unique_of_commit (hs : Sync s) (h : s.commit w = some t) {j k : String}
    {e f : ExecutionRow} (he : t.executions.get j = some e) (hf : t.executions.get k = some f)
    (heq : e.proposalId = f.proposalId) : j = k := by
  rcases hi : w.insert with _ | n
  · obtain ⟨x, hx, hxe⟩ := execution_before_commit h hi he
    obtain ⟨y, hy, hyf⟩ := execution_before_commit h hi hf
    exact hs.unique hx hy (hxe ▸ hyf ▸ heq)
  · obtain ⟨ht, hne⟩ := commit_insert h hi
    rw [ht, Table.get_put] at he hf
    split_ifs at he hf with hj hk hk
    · exact hj.trans hk.symm
    · cases he
      exact absurd heq.symm (hne k f hf).2
    · cases hf
      exact absurd heq (hne j e he).2
    · exact hs.unique he hf heq

theorem Sync.commit_review {p p' : ProposalRow} (hs : Sync s) (h : s.commit w = some t)
    (hp : w.proposal = some (p, p')) (he : w.execution = none) (hi : w.insert = none)
    (hst : p.status.Waiting) (hst' : p'.status.Waiting) (hf : Fresh s w) : Sync t := by
  have hexec : t.executions = s.executions := commit_no_executions h hi he
  have hprop := commit_get_proposal h hp
  obtain ⟨cur, hcur, hcst⟩ := hf.proposal hp
  have hnew : (p.write p' cur).status.Waiting := by rwa [write_status_of_fresh hcst]
  have hproposal : ∀ {k x}, t.executions.get k = some x →
      ∃ q, t.proposals.get x.proposalId = some q ∧ InStep x.status q.status := by
    intro k x hx
    rw [hexec] at hx
    obtain ⟨q, hq, hstep⟩ := hs.proposal hx
    by_cases hk : x.proposalId = p.id
    · -- the reviewed proposal still waits, so its execution is still READY
      rw [hk, hcur] at hq
      cases hq
      have hready : x.status = .ready := by
        rcases hstep with ⟨hr, _⟩ | ⟨ha, heq⟩
        · exact hr
        · rw [← heq, hcst] at ha
          exact absurd ha (not_or.mpr hst)
      have hget : t.proposals.get x.proposalId = some (p.write p' cur) := by
        rw [hprop, if_pos hk, hcur]
        rfl
      exact ⟨p.write p' cur, hget, .inl ⟨hready, hnew⟩⟩
    · have hget : t.proposals.get x.proposalId = some q := by rw [hprop, if_neg hk, hq]
      exact ⟨q, hget, hstep⟩
  have hexecution : ∀ {k q}, t.proposals.get k = some q → ¬ q.status.Waiting →
      ∃ j e, t.executions.get j = some e ∧ e.proposalId = k := by
    intro k q hq hw
    rw [hprop] at hq
    rw [hexec]
    split_ifs at hq with hk
    · obtain ⟨c, hc, rfl⟩ := Option.map_eq_some_iff.mp hq
      rw [hcur] at hc
      cases hc
      exact absurd hnew hw
    · exact hs.execution hq hw
  exact ⟨hproposal, hexecution, hs.unique_of_commit h, fun hk => hs.lease (hexec ▸ hk)⟩

theorem Sync.commit_enqueue {n : ExecutionRow} (hs : Sync s) (h : s.commit w = some t)
    (hp : w.proposal = none) (hi : w.insert = some n) (hst : n.status = .ready)
    (ho : n.leaseOwner = none) (hl : Loaded s w) : Sync t := by
  obtain ⟨ht, hne⟩ := commit_insert h hi
  have hprop : t.proposals = s.proposals := commit_proposals h hp
  have hexec : ∀ k, t.executions.get k = if k = n.id then some n else s.executions.get k := by
    intro k
    rw [ht, Table.get_put]
  have hproposal : ∀ {k x}, t.executions.get k = some x →
      ∃ q, t.proposals.get x.proposalId = some q ∧ InStep x.status q.status := by
    intro k x hx
    rw [hexec] at hx
    rw [hprop]
    split_ifs at hx with hk
    · -- a proposal past waiting would have an execution already
      cases hx
      obtain ⟨p, hp⟩ := hl.insert hi
      refine ⟨p, hp, .inl ⟨hst, ?_⟩⟩
      by_contra hw
      obtain ⟨j, e, he, hpe⟩ := hs.execution hp hw
      exact (hne j e he).2 hpe
    · exact hs.proposal hx
  have hexecution : ∀ {k q}, t.proposals.get k = some q → ¬ q.status.Waiting →
      ∃ j e, t.executions.get j = some e ∧ e.proposalId = k := by
    intro k q hq hw
    rw [hprop] at hq
    obtain ⟨j, e, he, hpe⟩ := hs.execution hq hw
    have hget : t.executions.get j = some e := by rw [hexec, if_neg (hne j e he).1, he]
    exact ⟨j, e, hget, hpe⟩
  have hlease : ∀ {k x}, t.executions.get k = some x → x.leaseOwner ≠ none → x.status.Active := by
    intro k x hx hown
    rw [hexec] at hx
    split_ifs at hx with hk
    · cases hx
      exact absurd ho hown
    · exact hs.lease hx hown
  exact ⟨hproposal, hexecution, hs.unique_of_commit h, hlease⟩

theorem Sync.commit_joint {p p' : ProposalRow} {e e' : ExecutionRow} (hs : Sync s)
    (h : s.commit w = some t) (hp : w.proposal = some (p, p')) (he : w.execution = some (e, e'))
    (hi : w.insert = none) (hid : p.id = e.proposalId) (hst : p'.status = e'.status)
    (hto : e'.status.Active ∨
      e'.status.Terminal ∧ e'.leaseOwner = none ∧ e.leaseOwner ≠ none)
    (hl : Loaded s w) (hf : Fresh s w) : Sync t := by
  have hprop := commit_get_proposal h hp
  have hexec := commit_get_execution h hi he
  obtain ⟨q, hq, hqst⟩ := hf.proposal hp
  obtain ⟨x, hx, hxst⟩ := hf.execution he
  have hxp : x.proposalId = p.id := by
    obtain ⟨y, hy, hyp⟩ := hl.execution he
    rw [hx] at hy
    cases hy
    rw [hyp, hid]
  have hxst' : (e.write e' x).status = e'.status := write_execution_status_of_fresh hxst
  have hqst' : (p.write p' q).status = e'.status := by rw [write_status_of_fresh hqst, hst]
  have hmoved : e'.status.Active ∨ e'.status.Terminal := hto.imp id (fun hc => hc.1)
  have hgetp : t.proposals.get p.id = some (p.write p' q) := by
    rw [hprop, if_pos rfl, hq]
    rfl
  have hgete : t.executions.get e.id = some (e.write e' x) := by
    rw [hexec, if_pos rfl, hx]
    rfl
  have hproposal : ∀ {k y}, t.executions.get k = some y →
      ∃ r, t.proposals.get y.proposalId = some r ∧ InStep y.status r.status := by
    intro k y hy
    by_cases hk : k = e.id
    · rw [hk, hgete] at hy
      cases hy
      have hstep : InStep (e.write e' x).status (p.write p' q).status :=
        .inr ⟨by rwa [hxst'], by rw [hqst', hxst']⟩
      exact ⟨p.write p' q, hxp ▸ hgetp, hstep⟩
    · -- another execution belongs to another proposal
      rw [hexec, if_neg hk] at hy
      have hne : y.proposalId ≠ p.id := fun heq => hk (hs.unique hy hx (heq.trans hxp.symm))
      obtain ⟨r, hr, hstep⟩ := hs.proposal hy
      have hget : t.proposals.get y.proposalId = some r := by rw [hprop, if_neg hne, hr]
      exact ⟨r, hget, hstep⟩
  have hexecution : ∀ {k r}, t.proposals.get k = some r → ¬ r.status.Waiting →
      ∃ j y, t.executions.get j = some y ∧ y.proposalId = k := by
    intro k r hr hw
    by_cases hk : k = p.id
    · exact ⟨e.id, e.write e' x, hgete, hxp.trans hk.symm⟩
    · rw [hprop, if_neg hk] at hr
      obtain ⟨j, y, hy, hyp⟩ := hs.execution hr hw
      have hne : j ≠ e.id := by
        intro heq
        rw [heq, hx] at hy
        cases hy
        exact hk (hyp.symm.trans hxp)
      have hget : t.executions.get j = some y := by rw [hexec, if_neg hne, hy]
      exact ⟨j, y, hget, hyp⟩
  have hlease : ∀ {k y}, t.executions.get k = some y → y.leaseOwner ≠ none → y.status.Active := by
    intro k y hy hown
    by_cases hk : k = e.id
    · rw [hk, hgete] at hy
      cases hy
      rw [hxst']
      rcases hto with ha | ⟨_, hnone, hsome⟩
      · exact ha
      · -- a terminal status is written with the end of the lease
        refine absurd ?_ hown
        change column e.leaseOwner e'.leaseOwner x.leaseOwner = none
        rw [column, hnone, if_neg (Ne.symm hsome)]
    · rw [hexec, if_neg hk] at hy
      exact hs.lease hy hown
  exact ⟨hproposal, hexecution, hs.unique_of_commit h, hlease⟩

/-- The invariant rule of this file: a commit over statuses that are still the loaded ones
keeps proposals and executions in step. -/
theorem Sync.commit (hs : Sync s) (hw : Shape w) (hl : Loaded s w) (hf : Fresh s w)
    (h : s.commit w = some t) : Sync t := by
  cases hw with
  | idle hp he hi =>
    have hprop : t.proposals = s.proposals := commit_proposals h hp
    have hexec : t.executions = s.executions := commit_no_executions h hi he
    exact ⟨fun hk => by rw [hprop]; exact hs.proposal (hexec ▸ hk),
      fun hk hn => by rw [hexec]; exact hs.execution (hprop ▸ hk) hn,
      hs.unique_of_commit h, fun hk => hs.lease (hexec ▸ hk)⟩
  | review hp he hi hst hst' => exact hs.commit_review h hp he hi hst hst' hf
  | enqueue hp he hi hst ho => exact hs.commit_enqueue h hp hi hst ho hl
  | joint hp he hi hid hin hnt hst hto => exact hs.commit_joint h hp he hi hid hst hto hl hf

theorem Shape.proposal_terminal (hw : Shape w) (hf : Fresh s w) (h : s.commit w = some t)
    {k : String} {p : ProposalRow} (hp : s.proposals.get k = some p) (ht : p.status.Terminal) :
    ∃ q, t.proposals.get k = some q ∧ q.status = p.status := by
  have hwrites : ∀ {a b}, w.proposal = some (a, b) → ¬ a.status.Terminal := by
    intro a b hab
    cases hw with
    | idle hp _ _ | enqueue hp _ _ _ _ => rw [hp] at hab; cases hab
    | review hp _ _ hst _ =>
      obtain ⟨rfl, rfl⟩ := written_unique hp hab
      exact hst.2
    | joint hp _ _ _ hin hnt _ _ =>
      obtain ⟨rfl, rfl⟩ := written_unique hp hab
      rcases hin with ⟨_, hwait⟩ | ⟨_, heq⟩
      · exact hwait.2
      · rwa [heq]
  rw [(commit_fields h).1]
  rcases hab : w.proposal with _ | ⟨a, b⟩
  · exact ⟨p, hp, rfl⟩
  · rw [get_writeProposal]
    obtain ⟨cur, hcur, hst⟩ := hf.proposal hab
    have hk : k ≠ a.id := by
      intro hk
      rw [← hk, hp] at hcur
      cases hcur
      exact hwrites hab (hst ▸ ht)
    exact ⟨p, by rw [if_neg hk]; exact hp, rfl⟩

theorem Shape.execution_terminal (hw : Shape w) (hf : Fresh s w) (h : s.commit w = some t)
    {k : String} {e : ExecutionRow} (he : s.executions.get k = some e)
    (ht : e.status.Terminal) : ∃ f, t.executions.get k = some f ∧ f.status = e.status := by
  rcases hi : w.insert with _ | n
  · rw [commit_executions h hi]
    rcases hab : w.execution with _ | ⟨a, b⟩
    · exact ⟨e, he, rfl⟩
    · have hnt : ¬ a.status.Terminal := by
        cases hw with
        | idle _ he _ | review _ he _ _ _ | enqueue _ he _ _ _ => rw [he] at hab; cases hab
        | joint _ he _ _ _ hnt _ _ =>
          obtain ⟨rfl, rfl⟩ := written_unique he hab
          exact hnt
      rw [get_writeExecution]
      obtain ⟨cur, hcur, hst⟩ := hf.execution hab
      have hk : k ≠ a.id := by
        intro hk
        rw [← hk, he] at hcur
        cases hcur
        exact hnt (hst ▸ ht)
      exact ⟨e, by rw [if_neg hk]; exact he, rfl⟩
  · obtain ⟨hput, hne⟩ := commit_insert h hi
    rw [hput, Table.get_put, if_neg (hne k e he).1]
    exact ⟨e, he, rfl⟩

end Commit

section Atomic
variable {s t : Store} {w : Plan} {c : Call}

theorem Move.stored (h : Move s c w) :
    (∀ {p p'}, w.proposal = some (p, p') → s.proposals.get p.id = some p) ∧
    ∀ {e e'}, w.execution = some (e, e') → s.executions.get e.id = some e := by
  have hproposal : ∀ {p q p' q' : ProposalRow}, some (q, q') = some (p, p') →
      s.proposals.get q.id = some q → s.proposals.get p.id = some p := by
    intro p q p' q' heq hq
    obtain ⟨rfl, rfl⟩ := written_unique rfl heq
    exact hq
  have hexecution : ∀ {e f e' f' : ExecutionRow}, some (f, f') = some (e, e') →
      s.executions.get f.id = some f → s.executions.get e.id = some e := by
    intro e f e' f' heq hf
    obtain ⟨rfl, rfl⟩ := written_unique rfl heq
    exact hf
  have hmoved : ∀ {e : ExecutionRow} {st reason now p p'},
      (moveProposal s e st reason now).1 = some (p, p') → s.proposals.get p.id = some p := by
    intro e st reason now p p' hp
    unfold moveProposal at hp
    rcases hg : s.proposals.get e.proposalId with _ | q
    · rw [hg] at hp
      cases hp
    · rw [hg] at hp
      have hid : q.id = e.proposalId := Table.key_of_get hg
      exact hproposal hp (hid ▸ hg)
  cases h with
  | idle | enqueue => exact ⟨nofun, nofun⟩
  | approve _ _ _ hp | preview _ _ _ _ _ hp => exact ⟨fun h => hproposal h hp, nofun⟩
  | @claim e p _ _ _ he _ hp _ =>
    have hid : p.id = e.proposalId := Table.key_of_get hp
    exact ⟨fun h => hproposal h (hid ▸ hp), fun h => hexecution h he⟩
  | begin _ _ _ _ he | finishCompensation _ _ _ _ he | finish _ _ _ _ _ he =>
    exact ⟨hmoved, fun h => hexecution h he⟩

theorem Move.fresh (h : Move s c w) : Fresh s w :=
  ⟨fun hp => ⟨_, h.stored.1 hp, rfl⟩, fun he => ⟨_, h.stored.2 he, rfl⟩⟩

theorem Move.loaded (h : Move s c w) : Loaded s w := by
  refine ⟨fun hp => ⟨_, h.stored.1 hp⟩, fun he => ⟨_, h.stored.2 he, rfl⟩, ?_⟩
  cases h with
  | @enqueue p _ _ _ hp =>
    intro e he
    cases he
    exact ⟨p, hp⟩
  | _ => exact nofun

theorem nextStatus_waiting (p : ProposalRow) : (nextStatus p).Waiting := by
  unfold nextStatus
  split_ifs <;> decide

theorem finishStatus_terminal (code : Option String) : (finishStatus code).Terminal := by
  unfold finishStatus
  split_ifs <;> decide

theorem compensationStatus_terminal (err : Bool) : (compensationStatus err).Terminal := by
  cases err <;> decide

theorem claimedStatus_active (e : ExecutionRow) : (claimedStatus e).Active := by
  unfold claimedStatus
  split_ifs <;> decide

theorem claimCandidate_not_terminal {now : Time} {e : ExecutionRow}
    (h : claimCandidate now e = true) : ¬ e.status.Terminal := by
  unfold claimCandidate at h
  rintro (ht | ht | ht) <;> rw [ht] at h <;> simp at h

theorem Sync.moveProposal (hs : Sync s) {k : String} {e : ExecutionRow}
    (he : s.executions.get k = some e) (status : ActionStatus) (reason : Option String)
    (now : Time) : ∃ p, s.proposals.get e.proposalId = some p ∧ InStep e.status p.status ∧
      p.id = e.proposalId ∧
      moveProposal s e status reason now = (some (p, p.moved status now),
        [proposalTransition p (some p.status) status reason]) := by
  obtain ⟨p, hp, hstep⟩ := hs.proposal he
  refine ⟨p, hp, hstep, Table.key_of_get hp, ?_⟩
  unfold Semantic.moveProposal
  rw [hp]

theorem Move.shape (hs : Sync s) (h : Move s c w) : Shape w := by
  cases h with
  | idle => exact .idle rfl rfl rfl
  | @approve p _ _ _ _ hst =>
    exact .review rfl rfl rfl (by rw [hst]; decide) (by decide : (ActionStatus.ready).Waiting)
  | @preview p _ _ _ _ _ _ hst =>
    exact .review rfl rfl rfl (by rcases hst with h | h | h <;> rw [h] <;> decide)
      (nextStatus_waiting p)
  | enqueue => exact .enqueue rfl rfl rfl rfl rfl
  | @claim e p _ _ _ he hc hp _ =>
    obtain ⟨q, hq, hstep⟩ := hs.proposal he
    rw [hp] at hq
    cases hq
    exact .joint rfl rfl rfl (Table.key_of_get hp) hstep (claimCandidate_not_terminal hc) rfl
      (.inl (claimedStatus_active e))
  | @begin e _ code _ now he _ hst =>
    obtain ⟨p, _, hstep, hid, hm⟩ := hs.moveProposal he .compensating (some code) now
    rw [hm]
    exact .joint rfl rfl rfl hid hstep (by rw [hst]; decide) rfl (.inl (.inr rfl))
  | @finishCompensation e _ _ err now he ho hst =>
    obtain ⟨p, _, hstep, hid, hm⟩ := hs.moveProposal he (compensationStatus err)
      (e.compensationCode err) now
    rw [hm]
    exact .joint rfl rfl rfl hid hstep (by rw [hst]; decide) rfl
      (.inr ⟨compensationStatus_terminal err, rfl, by rw [ho]; simp⟩)
  | @finish e _ _ code _ now he ho =>
    obtain ⟨p, _, hstep, hid, hm⟩ := hs.moveProposal he (finishStatus code) code now
    have hown : e.leaseOwner ≠ none := by rw [ho]; simp
    rw [hm]
    exact .joint rfl rfl rfl hid hstep (hs.lease he hown).not_terminal rfl
      (.inr ⟨finishStatus_terminal code, rfl, hown⟩)

theorem propose_ok {o : OntologyRegistry} {a : AuthorizationContext} {r : ProposeRequest}
    {id : String} {now : Time} {row : ProposalRow} (h : propose o a r id now s = .ok (row, t)) :
    t = s ∨ s.proposals.get row.id = none ∧ row.status = .proposed ∧
      t = { s with
        proposals := s.proposals.put row
        transitions := s.transitions ++ [proposalTransition row none .proposed none] } := by
  obtain ⟨new, hnew, h⟩ := bind_eq_ok.mp h
  split_ifs at h with hc
  · rcases hf : s.proposals.rows.find? new.sameKey with _ | existing
    · rw [hf] at h
      cases h
    · rw [hf] at h
      obtain ⟨_, _, h⟩ := bind_eq_ok.mp h
      exact .inl (Prod.mk.inj (Except.ok.inj h)).2.symm
  · obtain ⟨rfl, rfl⟩ := Prod.mk.inj (Except.ok.inj h)
    have hstatus : new.status = .proposed := by
      obtain ⟨_, _, hnew⟩ := bind_eq_ok.mp hnew
      obtain ⟨_, _, hnew⟩ := bind_eq_ok.mp hnew
      obtain ⟨_, _, hnew⟩ := bind_eq_ok.mp hnew
      obtain ⟨_, _, hnew⟩ := bind_eq_ok.mp hnew
      exact (Except.ok.inj hnew) ▸ rfl
    refine .inr ⟨?_, hstatus, rfl⟩
    refine List.find?_eq_none.mpr fun x hx => ?_
    have hn := List.any_eq_false.mp (Bool.eq_false_of_not_eq_true hc) x hx
    simp only [Bool.or_eq_true, decide_eq_true_eq, not_or] at hn
    simpa using hn.1

theorem Sync.propose (hs : Sync s) {row : ProposalRow} (hnew : s.proposals.get row.id = none)
    (hst : row.status = .proposed) (log : List TransitionRow) :
    Sync { s with proposals := s.proposals.put row, transitions := log } := by
  have hget : ∀ {k p}, s.proposals.get k = some p → (s.proposals.put row).get k = some p := by
    intro k p hp
    have hne : k ≠ row.id := fun heq => by rw [heq, hnew] at hp; cases hp
    rw [Table.get_put, if_neg hne]
    exact hp
  refine ⟨?_, ?_, hs.unique, hs.lease⟩
  · intro k e he
    obtain ⟨p, hp, hstep⟩ := hs.proposal he
    exact ⟨p, hget hp, hstep⟩
  · intro k p hp hw
    change (s.proposals.put row).get k = some p at hp
    rw [Table.get_put] at hp
    split_ifs at hp with hk
    · cases hp
      rw [hst] at hw
      exact absurd (by decide) hw
    · exact hs.execution hp hw

theorem Call.run_ok (h : c.run s = .ok t) :
    ∃ w, c.load s = .ok w ∧ s.commit w = some t := by
  unfold Call.run at h
  rcases hl : c.load s with e | w
  · rw [hl] at h
    cases h
  · rw [hl] at h
    simp only at h
    rcases hc : s.commit w with _ | u
    · rw [hc] at h
      cases h
    · rw [hc] at h
      cases h
      exact ⟨w, rfl, hc⟩

theorem repository_step {op : Op} (h : repository.step s op t) :
    t = s ∨
    (∃ row, s.proposals.get row.id = none ∧ row.status = .proposed ∧
      t = { s with
        proposals := s.proposals.put row
        transitions := s.transitions ++ [proposalTransition row none .proposed none] }) ∨
    ∃ c w, op = .call c ∧ c.load s = .ok w ∧ Move s c w ∧ s.commit w = some t := by
  change op.step s = some t at h
  unfold Op.step at h
  split_ifs at h with hsel
  rcases hrun : op.run s with e | u
  · rw [hrun] at h
    exact .inl (Option.some.inj h).symm
  · rw [hrun] at h
    cases h
    cases op with
    | propose o a r id now =>
      obtain ⟨row, hrow⟩ := map_snd_eq_ok.mp hrun
      rcases propose_ok hrow with heq | hnew
      · exact .inl heq
      · exact .inr (.inl ⟨row, hnew⟩)
    | call c =>
      obtain ⟨w, hw, hc⟩ := Call.run_ok hrun
      exact .inr (.inr ⟨c, w, rfl, hw, Call.move hsel hw, hc⟩)

theorem Sync.empty : Sync .empty := ⟨nofun, nofun, nofun, nofun⟩

theorem Sync.step {op : Op} (hs : Sync s) (h : repository.step s op t) : Sync t := by
  rcases repository_step h with rfl | ⟨row, hnew, hst, rfl⟩ | ⟨c, w, -, -, hm, hc⟩
  · exact hs
  · exact hs.propose hnew hst _
  · exact hs.commit (hm.shape hs) hm.loaded hm.fresh hc

theorem sync_of_reachable (h : Reachable repository s) : Sync s :=
  h.invariant (fun _ h0 => h0 ▸ Sync.empty) fun _ _ _ _ hs ht => hs.step ht

/-- A proposal that no longer waits has exactly one execution, and both carry one status. -/
theorem one_execution_per_started_proposal {k : String} {p : ProposalRow}
    (h : Reachable repository s) (hp : s.proposals.get k = some p)
    (hstarted : ¬ p.status.Waiting) :
    ∃ j e, s.executions.get j = some e ∧ e.proposalId = k ∧ e.status = p.status ∧
      ∀ i f, s.executions.get i = some f → f.proposalId = k → i = j := by
  have hsync := sync_of_reachable h
  obtain ⟨j, e, he, hk⟩ := hsync.execution hp hstarted
  obtain ⟨q, hq, hstep⟩ := hsync.proposal he
  rw [hk, hp] at hq
  cases hq
  refine ⟨j, e, he, hk, ?_, fun i f hf hfk => hsync.unique hf he (hfk.trans hk.symm)⟩
  rcases hstep with ⟨-, hwaiting⟩ | ⟨-, hsame⟩
  · exact absurd hwaiting hstarted
  · exact hsame.symm

theorem one_execution_per_claimed_proposal :
    ∃ s p, Reachable repository s ∧ s.proposals.get "proposal-1" = some p ∧
      ∃ j e, s.executions.get j = some e ∧ e.proposalId = "proposal-1" ∧ e.status = p.status ∧
        ∀ i f, s.executions.get i = some f → f.proposalId = "proposal-1" → i = j := by
  obtain ⟨s, hs, h⟩ := exists_reachable
    (p := fun s => (s.proposals.get "proposal-1").any fun p => decide (¬ p.status.Waiting))
    (Rename.queued "proposal-1" "execution-1" 1 ++ [Rename.claim "worker" 5]) (by decide +kernel)
  obtain ⟨p, hp, hstarted⟩ := (Option.any_eq_true _ _).mp h
  exact ⟨s, p, hs, hp, one_execution_per_started_proposal hs hp (of_decide_eq_true hstarted)⟩

end Atomic

end DeerFlow.Semantic
