import DeerFlow.Lib.Log
import DeerFlow.Semantic.ActionSync

/-! What one transaction adds to the log of one proposal or one execution, and
the conditions under which a log is one chain that ends in the status column. -/

namespace DeerFlow.Semantic
open Transition ActionStatus

def TransitionRow.about (ty : EntityType) (id : String) (r : TransitionRow) : Bool :=
  r.entityType = ty && r.entityId = id

def Store.log (s : Store) (ty : EntityType) (id : String) : List TransitionRow :=
  s.transitions.filter (·.about ty id)

/-- What a transaction that changes a proposal can do to it. -/
inductive ProposalMove (p : ProposalRow) : Call → ProposalRow → List TransitionRow → Prop
  | approve (a : AuthorizationContext) (approvedBy : String) (now : Time)
      (hst : p.status = .pendingApproval) :
      ProposalMove p (.approve p.id a approvedBy now) (p.approved approvedBy now)
        [proposalTransition p (some p.status) .ready (some "approved")]
  | preview (str : Value → String) (o : OntologyRegistry) (a : AuthorizationContext)
      (target : Dict Value) (now : Time)
      (hst : p.status = .proposed ∨ p.status = .pendingApproval ∨ p.status = .ready) :
      ProposalMove p (.preview str o p.id a target now) (p.moved (nextStatus p) now)
        (previewTransitions p)
  | work (c : Call) {st : ActionStatus} (reason : Option String) (now : Time)
      (hst : p.status.Claimable) (hto : st.Active ∨ st.Terminal) :
      ProposalMove p c (p.moved st now) [proposalTransition p (some p.status) st reason]

/-- What a transaction that changes an execution can do to it. -/
inductive ExecutionMove (s : Store) (e : ExecutionRow) :
    Call → ExecutionRow → List TransitionRow → Prop
  | claim {p : ProposalRow} (workerId : String) (leaseSeconds : Int) (now : Time)
      (hc : claimCandidate now e = true) (hp : s.proposals.get e.proposalId = some p)
      (hst : p.status.Claimable) :
      ExecutionMove s e (.claimReady (some e) workerId leaseSeconds now)
        (e.claimed (claimedStatus e) workerId leaseSeconds now)
        [executionTransition e (some e.status) (claimedStatus e) (leaseRecovered e.status)]
  | begin (workerId errorCode errorDetail : String) (now : Time)
      (ho : e.leaseOwner = some workerId) (hst : e.status = .executing) :
      ExecutionMove s e (.beginCompensation e.id workerId errorCode errorDetail now)
        (e.compensating errorCode errorDetail now)
        [executionTransition e (some .executing) .compensating (some errorCode)]
  | finishCompensation (workerId : String) (result : Option (Dict Value)) (err : Bool)
      (now : Time) (ho : e.leaseOwner = some workerId) (hst : e.status = .compensating) :
      ExecutionMove s e (.finishCompensation e.id workerId result err now)
        (e.closed (compensationStatus err) result (e.compensationCode err)
          (e.compensationDetail err) now)
        [executionTransition e (some .compensating) (compensationStatus err)
          (e.compensationCode err)]
  | finish (workerId : String) (result : Option (Dict Value))
      (errorCode errorDetail : Option String) (now : Time)
      (ho : e.leaseOwner = some workerId) (hst : e.status.Active) :
      ExecutionMove s e (.finish e.id workerId result errorCode errorDetail now)
        (e.closed (finishStatus errorCode) result errorCode errorDetail now)
        [executionTransition e (some .executing) (finishStatus errorCode) errorCode]

section Entries
variable {s t : Store} {w : Plan} {c : Call}

theorem log_commit (h : s.commit w = some t) (ty : EntityType) (id : String) :
    t.log ty id = s.log ty id ++ w.transitions.filter (·.about ty id) := by
  unfold Store.log
  rw [(commit_fields h).2, List.filter_append]

theorem proposalTransition_about (p : ProposalRow) (a : Option ActionStatus) (b : ActionStatus)
    (r : Option String) (k : String) :
    (proposalTransition p a b r).about .proposal k = true ↔ p.id = k := by
  rw [TransitionRow.about, Bool.and_eq_true_iff, decide_eq_true_iff, decide_eq_true_iff]
  exact and_iff_right rfl

theorem proposalTransition_about_execution (p : ProposalRow) (a : Option ActionStatus)
    (b : ActionStatus) (r : Option String) (k : String) :
    (proposalTransition p a b r).about .execution k = false := by
  simp [TransitionRow.about, proposalTransition]

theorem executionTransition_about (e : ExecutionRow) (a : Option ActionStatus)
    (b : ActionStatus) (r : Option String) (k : String) :
    (executionTransition e a b r).about .execution k = true ↔ e.id = k := by
  rw [TransitionRow.about, Bool.and_eq_true_iff, decide_eq_true_iff, decide_eq_true_iff]
  exact and_iff_right rfl

theorem executionTransition_about_proposal (e : ExecutionRow) (a : Option ActionStatus)
    (b : ActionStatus) (r : Option String) (k : String) :
    (executionTransition e a b r).about .proposal k = false := by
  simp [TransitionRow.about, executionTransition]

theorem InStep.claimable {e p : ActionStatus} (h : InStep e p) (ha : e.Active) :
    p.Claimable := by
  rcases h with ⟨hr, _⟩ | ⟨_, heq⟩
  · rw [hr] at ha
    exact absurd ha (by decide)
  · exact .inr (heq ▸ ha)

theorem filter_proposalTransition (p : ProposalRow) (a : Option ActionStatus)
    (b : ActionStatus) (r : Option String) (k : String) :
    [proposalTransition p a b r].filter (·.about .proposal k) =
      if p.id = k then [proposalTransition p a b r] else [] := by
  simp [List.filter_cons, proposalTransition_about]

theorem filter_executionTransition (e : ExecutionRow) (a : Option ActionStatus)
    (b : ActionStatus) (r : Option String) (k : String) :
    [executionTransition e a b r].filter (·.about .execution k) =
      if e.id = k then [executionTransition e a b r] else [] := by
  simp [List.filter_cons, executionTransition_about]

theorem filter_moveProposal (e : ExecutionRow) (st : ActionStatus) (reason : Option String)
    (now : Time) (k : String) :
    (moveProposal s e st reason now).2.filter (·.about .execution k) = [] := by
  unfold moveProposal
  rcases s.proposals.get e.proposalId with _ | p
  · rfl
  · simp [proposalTransition_about_execution]

theorem Move.proposal_rows (hs : Sync s) (h : Move s c w) :
    (w.proposal = none ∧ ∀ k, w.transitions.filter (·.about .proposal k) = []) ∨
    ∃ p p' rows, w.proposal = some (p, p') ∧ s.proposals.get p.id = some p ∧
      ProposalMove p c p' rows ∧
      ∀ k, w.transitions.filter (·.about .proposal k) = if p.id = k then rows else [] := by
  -- what a worker logs about its execution is not about the proposal
  have hrows : ∀ (p : ProposalRow) (e : ExecutionRow) (a : Option ActionStatus)
      (b st : ActionStatus) (r reason : Option String) (k : String),
      [executionTransition e a b r, proposalTransition p (some p.status) st reason].filter
        (·.about .proposal k) =
        if p.id = k then [proposalTransition p (some p.status) st reason] else [] := by
    intro p e a b st r reason k
    rw [List.filter_cons, executionTransition_about_proposal]
    exact filter_proposalTransition p _ _ _ k
  cases h with
  | idle => exact .inl ⟨rfl, fun _ => rfl⟩
  | @approve p a by_ now hp hst =>
    exact .inr ⟨p, _, _, rfl, hp, .approve a by_ now hst, filter_proposalTransition p _ _ _⟩
  | @preview p str o a target now hp hst =>
    refine .inr ⟨p, _, _, rfl, hp, .preview str o a target now hst, fun k => ?_⟩
    split_ifs with hk
    · simp [previewTransitions, proposalTransition_about, hk]
    · simp [previewTransitions, proposalTransition_about, hk]
  | enqueue =>
    refine .inl ⟨rfl, fun k => ?_⟩
    simp [executionTransition_about_proposal]
  | @claim e p _ _ now _ _ hp hst =>
    have hid : p.id = e.proposalId := Table.key_of_get hp
    have hto := claimedStatus_active e
    exact .inr ⟨p, _, _, rfl, hid ▸ hp, .work _ (leaseRecovered p.status) now hst (.inl hto),
      hrows p e _ _ _ _ _⟩
  | @begin e _ code _ now he _ hst =>
    obtain ⟨p, hp, hin, hid, hm⟩ := hs.moveProposal he .compensating (some code) now
    have hclaimable : p.status.Claimable := InStep.claimable hin (.inl hst)
    rw [hm]
    exact .inr ⟨p, _, _, rfl, hid ▸ hp, .work _ (some code) now hclaimable (.inl (.inr rfl)),
      hrows p e _ _ _ _ _⟩
  | @finishCompensation e _ _ err now he _ hst =>
    obtain ⟨p, hp, hin, hid, hm⟩ := hs.moveProposal he (compensationStatus err)
      (e.compensationCode err) now
    have hclaimable : p.status.Claimable := InStep.claimable hin (.inr hst)
    have hto := compensationStatus_terminal err
    rw [hm]
    exact .inr ⟨p, _, _, rfl, hid ▸ hp,
      .work _ (e.compensationCode err) now hclaimable (.inr hto), hrows p e _ _ _ _ _⟩
  | @finish e _ _ code _ now he ho =>
    obtain ⟨p, hp, hin, hid, hm⟩ := hs.moveProposal he (finishStatus code) code now
    have ha : e.status.Active := hs.lease he (by rw [ho]; simp)
    have hclaimable : p.status.Claimable := InStep.claimable hin ha
    have hto := finishStatus_terminal code
    rw [hm]
    -- `finish` logs the proposal first
    refine .inr ⟨p, _, _, rfl, hid ▸ hp, .work _ code now hclaimable (.inr hto), fun k => ?_⟩
    rw [List.filter_append, filter_proposalTransition, List.filter_cons,
      executionTransition_about_proposal, if_neg Bool.false_ne_true, List.filter_nil,
      List.append_nil]

theorem Move.execution_rows (hs : Sync s) (h : Move s c w) (hi : w.insert = none) :
    (w.execution = none ∧ ∀ k, w.transitions.filter (·.about .execution k) = []) ∨
    ∃ e e' rows, w.execution = some (e, e') ∧ s.executions.get e.id = some e ∧
      ExecutionMove s e c e' rows ∧
      ∀ k, w.transitions.filter (·.about .execution k) = if e.id = k then rows else [] := by
  cases h with
  | idle => exact .inl ⟨rfl, fun _ => rfl⟩
  | approve =>
    refine .inl ⟨rfl, fun k => ?_⟩
    simp [proposalTransition_about_execution]
  | preview =>
    refine .inl ⟨rfl, fun k => ?_⟩
    simp [previewTransitions, proposalTransition_about_execution]
  | enqueue => exact nomatch hi
  | @claim e p worker lease now he hc hp hst =>
    refine .inr ⟨e, _, _, rfl, he, .claim worker lease now hc hp hst, fun k => ?_⟩
    rw [← List.singleton_append, List.filter_append, filter_executionTransition]
    simp [proposalTransition_about_execution]
  | @begin e worker code detail now he ho hst =>
    refine .inr ⟨e, _, _, rfl, he, .begin worker code detail now ho hst, fun k => ?_⟩
    rw [← List.singleton_append, List.filter_append, filter_executionTransition,
      filter_moveProposal, List.append_nil]
  | @finishCompensation e worker result err now he ho hst =>
    refine .inr ⟨e, _, _, rfl, he, .finishCompensation worker result err now ho hst,
      fun k => ?_⟩
    rw [← List.singleton_append, List.filter_append, filter_executionTransition,
      filter_moveProposal, List.append_nil]
  | @finish e worker result code detail now he ho =>
    have ha : e.status.Active := hs.lease he (by rw [ho]; simp)
    refine .inr ⟨e, _, _, rfl, he, .finish worker result code detail now ho ha, fun k => ?_⟩
    rw [List.filter_append, filter_executionTransition, filter_moveProposal, List.nil_append]

/-- A plan that adds an execution: its proposal is READY, and the log says it starts READY. -/
theorem Move.inserted_row (hs : Sync s) (h : Move s c w) {n : ExecutionRow}
    (hi : w.insert = some n) :
    w.proposal = none ∧ n.status = .ready ∧
    (∃ p, s.proposals.get n.proposalId = some p ∧ p.status = .ready) ∧
    ∀ k, w.transitions.filter (·.about .execution k) =
      if n.id = k then [executionTransition n none .ready none] else [] := by
  cases h with
  | @enqueue p a id now hp hst hnew =>
    cases hi
    -- without an execution the proposal still waits
    have hwait : p.status.Waiting := by
      by_contra hw
      obtain ⟨j, e, he, hpe⟩ := hs.execution hp hw
      exact hnew e (Table.mem_of_get he) hpe
    have hready : p.status = .ready := by
      rcases hst with h | h | h | h
      · exact h
      all_goals
        rw [h] at hwait
        exact absurd hwait (by decide)
    exact ⟨rfl, rfl, ⟨p, hp, hready⟩, filter_executionTransition _ _ _ _⟩
  | _ => exact nomatch hi

/-- Over the row it was loaded from, an update stores the whole new row. -/
theorem ProposalMove.write {p p' : ProposalRow} {rows : List TransitionRow}
    (h : ProposalMove p c p' rows) : p.write p' p = p' := by
  cases h <;> simp [ProposalRow.write, ProposalRow.approved, ProposalRow.moved]

theorem ExecutionMove.write {e e' : ExecutionRow} {rows : List TransitionRow}
    (h : ExecutionMove s e c e' rows) : e.write e' e = e' := by
  cases h <;> simp [ExecutionRow.write, ExecutionRow.claimed, ExecutionRow.compensating,
    ExecutionRow.closed]

theorem ProposalMove.keeps {p p' : ProposalRow} {rows : List TransitionRow}
    (h : ProposalMove p c p' rows) : p'.id = p.id ∧ p'.approvalRequired = p.approvalRequired := by
  cases h <;> exact ⟨rfl, rfl⟩

end Entries

section Step
variable {s t : Store} {op : Op}

theorem proposal_step (hs : Sync s) (h : repository.step s op t) (k : String) :
    (t.proposals.get k = s.proposals.get k ∧ t.log .proposal k = s.log .proposal k) ∨
    (∃ q, s.proposals.get k = none ∧ t.proposals.get k = some q ∧ q.status = .proposed ∧
      t.log .proposal k = s.log .proposal k ++ [proposalTransition q none .proposed none]) ∨
    ∃ c w p q rows, op = .call c ∧ c.load s = .ok w ∧ s.proposals.get k = some p ∧
      t.proposals.get k = some q ∧ ProposalMove p c q rows ∧
      t.log .proposal k = s.log .proposal k ++ rows := by
  rcases repository_step h with rfl | ⟨row, hnew, hst, rfl⟩ | ⟨c, w, hop, hl, hm, hc⟩
  · exact .inl ⟨rfl, rfl⟩
  · by_cases hk : k = row.id
    · refine .inr (.inl ⟨row, hk ▸ hnew, ?_, hst, ?_⟩)
      · change (s.proposals.put row).get k = _
        rw [Table.get_put, if_pos hk]
      · simp [Store.log, proposalTransition_about, hk]
    · refine .inl ⟨?_, ?_⟩
      · change (s.proposals.put row).get k = _
        rw [Table.get_put, if_neg hk]
      · simp [Store.log, proposalTransition_about, Ne.symm hk]
  · rw [log_commit hc]
    rcases hm.proposal_rows hs with ⟨hw, hrows⟩ | ⟨p, p', rows, hw, hp, hmove, hrows⟩
    · exact .inl ⟨by rw [commit_proposals hc hw], by rw [hrows, List.append_nil]⟩
    · rw [commit_get_proposal hc hw, hrows]
      by_cases hk : p.id = k
      · subst hk
        have hget : (s.proposals.get p.id).map (p.write p') = some p' := by
          rw [hp, Option.map_some, hmove.write]
        rw [if_pos rfl, if_pos rfl]
        exact .inr (.inr ⟨c, w, p, p', rows, hop, hl, hp, hget, hmove, rfl⟩)
      · exact .inl ⟨by rw [if_neg (Ne.symm hk)], by rw [if_neg hk, List.append_nil]⟩

theorem execution_step (hs : Sync s) (h : repository.step s op t) (k : String) :
    (t.executions.get k = s.executions.get k ∧ t.log .execution k = s.log .execution k) ∨
    (∃ f p, s.executions.get k = none ∧ t.executions.get k = some f ∧ f.status = .ready ∧
      s.proposals.get f.proposalId = some p ∧ p.status = .ready ∧ t.proposals = s.proposals ∧
      t.log .execution k = s.log .execution k ++ [executionTransition f none .ready none]) ∨
    ∃ c e f rows, op = .call c ∧ s.executions.get k = some e ∧ t.executions.get k = some f ∧
      ExecutionMove s e c f rows ∧ t.log .execution k = s.log .execution k ++ rows := by
  rcases repository_step h with rfl | ⟨row, hnew, hst, rfl⟩ | ⟨c, w, hop, -, hm, hc⟩
  · exact .inl ⟨rfl, rfl⟩
  · refine .inl ⟨rfl, ?_⟩
    simp [Store.log, proposalTransition_about_execution]
  · rw [log_commit hc]
    rcases hi : w.insert with _ | n
    · rcases hm.execution_rows hs hi with ⟨hw, hrows⟩ | ⟨e, e', rows, hw, he, hmove, hrows⟩
      · exact .inl ⟨by rw [commit_no_executions hc hi hw], by rw [hrows, List.append_nil]⟩
      · rw [commit_get_execution hc hi hw, hrows]
        by_cases hk : e.id = k
        · subst hk
          have hget : (s.executions.get e.id).map (e.write e') = some e' := by
            rw [he, Option.map_some, hmove.write]
          rw [if_pos rfl, if_pos rfl]
          exact .inr (.inr ⟨c, e, e', rows, hop, he, hget, hmove, rfl⟩)
        · exact .inl ⟨by rw [if_neg (Ne.symm hk)], by rw [if_neg hk, List.append_nil]⟩
    · obtain ⟨hput, hne⟩ := commit_insert hc hi
      obtain ⟨hw, hst, ⟨p, hp, hready⟩, hrows⟩ := hm.inserted_row hs hi
      rw [hput, Table.get_put, hrows]
      by_cases hk : k = n.id
      · have hnone : s.executions.get k = none := by
          rcases hg : s.executions.get k with _ | x
          · rfl
          · exact absurd hk (hne k x hg).1
        rw [if_pos hk, if_pos hk.symm]
        exact .inr (.inl ⟨n, p, hnone, rfl, hst, hp, hready, commit_proposals hc hw, rfl⟩)
      · exact .inl ⟨if_neg hk, by rw [if_neg (Ne.symm hk), List.append_nil]⟩

end Step

section Chain
variable {s t : Store} {op : Op}

/-- Each entity's log leads from nothing to its status column. -/
structure Chained (s : Store) : Prop where
  proposal : ∀ k, Log.Path TransitionRow.fromStatus TransitionRow.toStatus none
    (s.log .proposal k) ((s.proposals.get k).map ProposalRow.status)
  execution : ∀ k, Log.Path TransitionRow.fromStatus TransitionRow.toStatus none
    (s.log .execution k) ((s.executions.get k).map ExecutionRow.status)

/-- A `finish` that will be accepted finds its execution EXECUTING. -/
def FinishesExecuting (s : Store) : Op → Prop
  | .call (.finish executionId workerId _ _ _ _) => ∀ e ∈ s.executions.get executionId,
      e.leaseOwner = some workerId → e.status = .executing
  | _ => True

instance (s : Store) (op : Op) : Decidable (FinishesExecuting s op) :=
  match op with
  | .call (.finish ..) => inferInstanceAs (Decidable (∀ _ ∈ _, _))
  | .propose .. | .call (.approve ..) | .call (.preview ..) | .call (.enqueueExecution ..)
  | .call (.claimReady ..) | .call (.beginCompensation ..) | .call (.finishCompensation ..) =>
    isTrue trivial

theorem ProposalMove.path {p q : ProposalRow} {c : Call} {rows : List TransitionRow}
    (h : ProposalMove p c q rows) :
    Log.Path TransitionRow.fromStatus TransitionRow.toStatus (some p.status) rows
      (some q.status) := by
  cases h with
  | approve | work => exact ⟨rfl, rfl⟩
  | preview => exact ⟨rfl, rfl, rfl, rfl⟩

theorem ExecutionMove.path {e f : ExecutionRow} {c : Call} {rows : List TransitionRow}
    (h : ExecutionMove s e c f rows) (he : s.executions.get e.id = some e)
    (hc : FinishesExecuting s (.call c)) :
    Log.Path TransitionRow.fromStatus TransitionRow.toStatus (some e.status) rows
      (some f.status) := by
  cases h with
  | claim => exact ⟨rfl, rfl⟩
  | begin _ _ _ _ _ hst | finishCompensation _ _ _ _ _ hst => exact ⟨by rw [hst]; rfl, rfl⟩
  | finish _ _ _ _ _ ho => exact ⟨by rw [hc e he ho]; rfl, rfl⟩

theorem Chained.empty : Chained .empty := ⟨fun _ => rfl, fun _ => rfl⟩

theorem Chained.step (hl : Chained s) (hs : Sync s) (h : repository.step s op t)
    (hc : FinishesExecuting s op) : Chained t := by
  constructor
  · intro k
    have hk := hl.proposal k
    rcases proposal_step hs h k with ⟨hg, hr⟩ | ⟨q, hn, hq, hst, hr⟩ |
      ⟨c, w, p, q, rows, -, -, hp, hq, hm, hr⟩
    · rwa [hg, hr]
    · rw [hn] at hk
      rw [hr, hq, Option.map_some, hst, hk.eq_nil]
      exact ⟨rfl, rfl⟩
    · rw [hp] at hk
      rw [hr, hq]
      exact hk.append hm.path
  · intro k
    have hk := hl.execution k
    rcases execution_step hs h k with ⟨hg, hr⟩ | ⟨f, _, hn, hf, hst, -, -, -, hr⟩ |
      ⟨c, e, f, rows, rfl, he, hf, hm, hr⟩
    · rwa [hg, hr]
    · rw [hn] at hk
      rw [hr, hf, Option.map_some, hst, hk.eq_nil]
      exact ⟨rfl, rfl⟩
    · obtain rfl : e.id = k := Table.key_of_get he
      rw [he] at hk
      rw [hr, hf]
      exact hk.append (hm.path he hc)

theorem chained_of_reachable (h : Reachable (repository.when FinishesExecuting) s) :
    Chained s :=
  h.invariant (fun _ h0 => h0 ▸ Chained.empty) fun _ _ _ hs hl ht =>
    hl.step (sync_of_reachable hs.of_when) ht.2 ht.1

end Chain

end DeerFlow.Semantic
