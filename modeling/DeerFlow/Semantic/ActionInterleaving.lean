import DeerFlow.Semantic.ActionSync

/-! Repository operations whose reads and writes are two steps. A transaction
reads its rows, other transactions commit, and then it writes the columns it
changed. Only `claim_ready` locks a row in between. -/

namespace DeerFlow.Semantic
open Transition ActionStatus

/-- The execution row a transaction has locked. -/
def Call.lockedRow : Call → Option String
  | .claimReady (some e) _ _ _ => some e.id
  | _ => none

/-- The store and the transactions between their reads and their commit. -/
structure Concurrent where
  store : Store
  pending : List (Call × Plan)

namespace Concurrent

def empty : Concurrent := ⟨.empty, []⟩

def locked (m : Concurrent) : List String := m.pending.filterMap fun c => c.1.lockedRow

/-- Another transaction holds the lock on the execution row this one writes. -/
def blocked (m : Concurrent) (i : Nat) (w : Plan) : Bool :=
  (m.pending.eraseIdx i).any fun c => c.1.lockedRow.any fun id =>
    w.execution.any fun e => e.1.id = id

end Concurrent

inductive Event where
  | propose (ontology : OntologyRegistry) (authorization : AuthorizationContext)
      (request : ProposeRequest) (id : String) (now : Time)
  | load (c : Call)
  | commit (i : Nat)
  | rollback (i : Nat)

/-- An operation that raises while reading takes no part any more; a commit that breaks a
constraint is rolled back. -/
def Event.step (m : Concurrent) : Event → Option Concurrent
  | .propose o a r id now => ((Op.propose o a r id now).step m.store).map fun t =>
      { m with store := t }
  | .load c =>
    if c.Selects m.store m.locked then
      match c.load m.store with
      | .error _ => some m
      | .ok w => some { m with pending := m.pending ++ [(c, w)] }
    else none
  | .commit i =>
    match m.pending[i]? with
    | none => none
    | some (_, w) =>
      if m.blocked i w then none
      else some ⟨(m.store.commit w).getD m.store, m.pending.eraseIdx i⟩
  | .rollback i => some { m with pending := m.pending.eraseIdx i }

def interleaving : System Concurrent Event := .ofFn .empty Event.step

/-- Where the plan writes a status, the stored one is still the one it was loaded with. -/
def Current (s : Store) (w : Plan) : Prop :=
  (∀ p ∈ w.proposal, p.2.status ≠ p.1.status →
    ∀ cur ∈ s.proposals.get p.1.id, cur.status = p.1.status) ∧
  ∀ e ∈ w.execution, e.2.status ≠ e.1.status →
    ∀ cur ∈ s.executions.get e.1.id, cur.status = e.1.status

instance (s : Store) (w : Plan) : Decidable (Current s w) := inferInstanceAs (Decidable (_ ∧ _))

/-- The commit loses no update of a status. -/
def LosesNoUpdate (m : Concurrent) : Event → Prop
  | .commit i => ∀ c ∈ m.pending[i]?, Current m.store c.2
  | _ => True

instance (m : Concurrent) (a : Event) : Decidable (LosesNoUpdate m a) :=
  match a with
  | .commit _ => inferInstanceAs (Decidable (∀ _ ∈ _, _))
  | .propose .. | .load _ | .rollback _ => isTrue trivial

/-- Terminal statuses of `s` are still there in `t`. -/
structure Absorbs (s t : Store) : Prop where
  proposal : ∀ {k p}, s.proposals.get k = some p → p.status.Terminal →
    ∃ q, t.proposals.get k = some q ∧ q.status = p.status
  execution : ∀ {k e}, s.executions.get k = some e → e.status.Terminal →
    ∃ f, t.executions.get k = some f ∧ f.status = e.status

theorem Absorbs.refl (s : Store) : Absorbs s s :=
  ⟨fun hp _ => ⟨_, hp, rfl⟩, fun he _ => ⟨_, he, rfl⟩⟩

theorem Absorbs.trans {s t u : Store} (h : Absorbs s t) (h' : Absorbs t u) : Absorbs s u := by
  constructor
  · intro k p hp ht
    obtain ⟨q, hq, hst⟩ := h.proposal hp ht
    obtain ⟨r, hr, hst'⟩ := h'.proposal hq (hst ▸ ht)
    exact ⟨r, hr, hst'.trans hst⟩
  · intro k e he ht
    obtain ⟨f, hf, hst⟩ := h.execution he ht
    obtain ⟨g, hg, hst'⟩ := h'.execution hf (hst ▸ ht)
    exact ⟨g, hg, hst'.trans hst⟩

section Commit
variable {s t : Store} {w : Plan}

theorem Current.fresh (hc : Current s w) (hl : Loaded s w)
    (hp : ∀ {p p'}, w.proposal = some (p, p') → p'.status ≠ p.status)
    (he : ∀ {e e'}, w.execution = some (e, e') → e'.status ≠ e.status) : Fresh s w := by
  constructor
  · intro p p' hpp
    obtain ⟨cur, hcur⟩ := hl.proposal hpp
    exact ⟨cur, hcur, hc.1 _ hpp (hp hpp) cur hcur⟩
  · intro e e' hee
    obtain ⟨cur, hcur, -⟩ := hl.execution hee
    exact ⟨cur, hcur, hc.2 _ hee (he hee) cur hcur⟩

theorem fresh_of_none (hp : w.proposal = none) (he : w.execution = none) : Fresh s w := by
  constructor
  · intro p p' hpp
    rw [hp] at hpp
    cases hpp
  · intro e e' hee
    rw [he] at hee
    cases hee

/-- A commit that writes no status. -/
structure KeepsStatuses (s t : Store) : Prop where
  proposal : ∀ k, (t.proposals.get k).map ProposalRow.status =
    (s.proposals.get k).map ProposalRow.status
  execution : ∀ k, (t.executions.get k).map (fun e => (e.status, e.proposalId)) =
    (s.executions.get k).map fun e => (e.status, e.proposalId)

theorem keepsStatuses_of_commit (h : s.commit w = some t) (hi : w.insert = none)
    (hp : ∀ {p p'}, w.proposal = some (p, p') → p'.status = p.status)
    (he : ∀ {e e'}, w.execution = some (e, e') → e'.status = e.status) : KeepsStatuses s t := by
  constructor
  · intro k
    rw [(commit_fields h).1]
    rcases hw : w.proposal with _ | ⟨p, p'⟩
    · rfl
    · rw [get_writeProposal]
      split_ifs with hk
      · subst hk
        simp [Option.map_map, Function.comp_def, ProposalRow.write, column, hp hw]
      · rfl
  · intro k
    rw [commit_executions h hi]
    rcases hw : w.execution with _ | ⟨e, e'⟩
    · rfl
    · rw [get_writeExecution]
      split_ifs with hk
      · subst hk
        simp [Option.map_map, Function.comp_def, ExecutionRow.write, column, he hw]
      · rfl

theorem KeepsStatuses.get_proposal (h : KeepsStatuses s t) {k : String} {p : ProposalRow}
    (hp : s.proposals.get k = some p) :
    ∃ q, t.proposals.get k = some q ∧ q.status = p.status := by
  have hk := h.proposal k
  rw [hp] at hk
  obtain ⟨q, hq, hst⟩ := Option.map_eq_some_iff.mp hk
  exact ⟨q, hq, hst⟩

theorem KeepsStatuses.get_execution (h : KeepsStatuses s t) {k : String} {e : ExecutionRow}
    (he : s.executions.get k = some e) :
    ∃ f, t.executions.get k = some f ∧ f.status = e.status ∧ f.proposalId = e.proposalId := by
  have hk := h.execution k
  rw [he] at hk
  obtain ⟨f, hf, hst⟩ := Option.map_eq_some_iff.mp hk
  obtain ⟨h1, h2⟩ := Prod.mk.inj hst
  exact ⟨f, hf, h1, h2⟩

theorem KeepsStatuses.symm (h : KeepsStatuses s t) : KeepsStatuses t s :=
  ⟨fun k => (h.proposal k).symm, fun k => (h.execution k).symm⟩

theorem KeepsStatuses.absorbs (h : KeepsStatuses s t) : Absorbs s t :=
  ⟨fun hp _ => h.get_proposal hp,
    fun he _ => (h.get_execution he).imp fun _ hf => ⟨hf.1, hf.2.1⟩⟩

theorem KeepsStatuses.sync (h : KeepsStatuses s t) (hs : Sync s)
    (hlease : ∀ {k e}, t.executions.get k = some e → e.leaseOwner ≠ none → e.status.Active) :
    Sync t := by
  refine ⟨?_, ?_, ?_, hlease⟩
  · intro k f hf
    obtain ⟨e, he, hst, hpid⟩ := h.symm.get_execution hf
    obtain ⟨p, hp, hin⟩ := hs.proposal he
    obtain ⟨q, hq, hqst⟩ := h.get_proposal hp
    exact ⟨q, by rw [← hpid]; exact hq, by rw [hqst, ← hst]; exact hin⟩
  · intro k q hq hw
    obtain ⟨p, hp, hst⟩ := h.symm.get_proposal hq
    obtain ⟨j, e, he, hpid⟩ := hs.execution hp (hst ▸ hw)
    obtain ⟨f, hf, -, hpid'⟩ := h.get_execution he
    exact ⟨j, f, hf, hpid'.trans hpid⟩
  · intro j k e f he hf heq
    obtain ⟨x, hx, -, hxp⟩ := h.symm.get_execution he
    obtain ⟨y, hy, -, hyp⟩ := h.symm.get_execution hf
    exact hs.unique hx hy (hxp.trans (heq.trans hyp.symm))

theorem joint_changes {e e' : ExecutionRow} {p p' : ProposalRow}
    (hin : InStep e.status p.status) (hst : p'.status = e'.status)
    (hto : e'.status.Active ∨ e'.status.Terminal) (hne : e'.status ≠ e.status) :
    p'.status ≠ p.status := by
  rw [hst]
  rcases hin with ⟨-, hw⟩ | ⟨-, heq⟩
  · intro heq
    rw [heq] at hto
    exact not_or.mpr hw hto
  · rwa [heq]

theorem joint_keeps {e e' : ExecutionRow} {p p' : ProposalRow}
    (hin : InStep e.status p.status) (hst : p'.status = e'.status)
    (hto : e'.status.Active ∨ e'.status.Terminal) (heq : e'.status = e.status) :
    p'.status = p.status := by
  rw [hst, heq]
  rcases hin with ⟨hr, -⟩ | ⟨-, h⟩
  · rw [heq, hr] at hto
    exact absurd hto (by decide)
  · exact h.symm

/-- The commit step of this machine. The last hypothesis is what a claim's lock gives. -/
theorem Sync.commit_current (hs : Sync s) (hw : Shape w) (hl : Loaded s w) (hc : Current s w)
    (hlock : ∀ {e e'}, w.execution = some (e, e') → e'.status = e.status →
      ∃ cur, s.executions.get e.id = some cur ∧ cur.status = e.status)
    (h : s.commit w = some t) : Sync t ∧ Absorbs s t := by
  have hfresh : Fresh s w → Sync t ∧ Absorbs s t := fun hf =>
    ⟨hs.commit hw hl hf h, fun hp => hw.proposal_terminal hf h hp,
      fun he => hw.execution_terminal hf h he⟩
  cases hw with
  | idle hp he hi | enqueue hp he hi hst ho => exact hfresh (fresh_of_none hp he)
  | @review p p' hp he hi hst hst' =>
    have hnone : ∀ {e e'}, w.execution ≠ some (e, e') := by
      intro e e' hee
      rw [he] at hee
      cases hee
    by_cases hch : p'.status = p.status
    · have hkept : ∀ {a b}, w.proposal = some (a, b) → b.status = a.status := by
        intro a b hab
        obtain ⟨rfl, rfl⟩ := written_unique hp hab
        exact hch
      have hk : KeepsStatuses s t :=
        keepsStatuses_of_commit h hi hkept fun hee => absurd hee hnone
      have hexec : t.executions = s.executions := commit_no_executions h hi he
      exact ⟨hk.sync hs fun hk => hs.lease (hexec ▸ hk), hk.absorbs⟩
    · -- the status changes, so nothing has changed it since the row was loaded
      refine hfresh (hc.fresh hl (fun hab => ?_) fun hee => absurd hee hnone)
      obtain ⟨rfl, rfl⟩ := written_unique hp hab
      exact hch
  | @joint p p' e e' hp he hi hid hin hnt hst hto =>
    have hmoved : e'.status.Active ∨ e'.status.Terminal := hto.imp id fun hc => hc.1
    by_cases hch : e'.status = e.status
    · -- a lease is taken over: only the columns of the lease are written
      have hproposal : ∀ {a b}, w.proposal = some (a, b) → b.status = a.status := by
        intro a b hab
        obtain ⟨rfl, rfl⟩ := written_unique hp hab
        exact joint_keeps hin hst hmoved hch
      have hexecution : ∀ {a b}, w.execution = some (a, b) → b.status = a.status := by
        intro a b hab
        obtain ⟨rfl, rfl⟩ := written_unique he hab
        exact hch
      have hk : KeepsStatuses s t := keepsStatuses_of_commit h hi hproposal hexecution
      refine ⟨hk.sync hs fun {k f} hf hown => ?_, hk.absorbs⟩
      obtain ⟨x, hx, hxst, -⟩ := hk.symm.get_execution hf
      by_cases hke : k = e.id
      · obtain ⟨cur, hcur, hcst⟩ := hlock he hch
        rw [hke, hcur] at hx
        cases hx
        rw [← hxst, hcst, ← hch]
        exact hmoved.resolve_right (hch ▸ hnt)
      · have hsame : t.executions.get k = s.executions.get k := by
          rw [commit_get_execution h hi he, if_neg hke]
        exact hs.lease (hsame ▸ hf) hown
    · refine hfresh (hc.fresh hl (fun hab => ?_) fun hab => ?_)
      · obtain ⟨rfl, rfl⟩ := written_unique hp hab
        exact joint_changes hin hst hmoved hch
      · obtain ⟨rfl, rfl⟩ := written_unique he hab
        exact hch

end Commit

section Machine
variable {m n : Concurrent} {a : Event}

/-- What is known of a transaction that has read its rows, until it commits. -/
structure Prepared (s : Store) (c : Call) (w : Plan) : Prop where
  shape : Shape w
  loaded : Loaded s w
  claims : ∀ {e e'}, w.execution = some (e, e') → e'.status = e.status → c.lockedRow = some e.id
  lock : ∀ {e e'}, w.execution = some (e, e') → c.lockedRow = some e.id →
    ∃ cur, s.executions.get e.id = some cur ∧ cur.status = e.status

theorem Move.prepared {s : Store} {c : Call} {w : Plan} (hs : Sync s) (h : Move s c w) :
    Prepared s c w := by
  refine ⟨h.shape hs, h.loaded, ?_, fun he _ => h.fresh.execution he⟩
  intro e e' he heq
  cases h with
  | idle | approve | preview | enqueue => cases he
  | claim =>
    obtain ⟨rfl, rfl⟩ := written_unique rfl he
    rfl
  | begin _ _ _ _ _ _ hst =>
    obtain ⟨rfl, rfl⟩ := written_unique rfl he
    rw [hst] at heq
    cases heq
  | finishCompensation _ _ err _ _ _ hst =>
    obtain ⟨rfl, rfl⟩ := written_unique rfl he
    rw [hst] at heq
    cases err <;> cases heq
  | finish _ _ code _ _ hget ho =>
    obtain ⟨rfl, rfl⟩ := written_unique rfl he
    have hactive := hs.lease hget (by rw [ho]; simp)
    rw [← heq] at hactive
    exact absurd (finishStatus_terminal code) hactive.not_terminal

/-- A transaction stays prepared while others change rows it has not locked. -/
theorem Prepared.mono {s t : Store} {c : Call} {w : Plan} (h : Prepared s c w)
    (hp : ∀ {k p}, s.proposals.get k = some p → ∃ q, t.proposals.get k = some q)
    (he : ∀ {k e}, s.executions.get k = some e →
      ∃ f, t.executions.get k = some f ∧ f.proposalId = e.proposalId)
    (hlock : ∀ {k e}, c.lockedRow = some k → s.executions.get k = some e →
      t.executions.get k = some e) : Prepared t c w := by
  refine ⟨h.shape, ⟨?_, ?_, ?_⟩, h.claims, ?_⟩
  · intro p p' hpp
    obtain ⟨cur, hcur⟩ := h.loaded.proposal hpp
    exact hp hcur
  · intro e e' hee
    obtain ⟨cur, hcur, hpid⟩ := h.loaded.execution hee
    obtain ⟨f, hf, hpid'⟩ := he hcur
    exact ⟨f, hf, hpid'.trans hpid⟩
  · intro e hi
    obtain ⟨p, hpe⟩ := h.loaded.insert hi
    exact hp hpe
  · intro e e' hee hl
    obtain ⟨cur, hcur, hst⟩ := h.lock hee hl
    exact ⟨cur, hlock hl hcur, hst⟩

/-- The store is in step, and what is pending was read from a store of this run. -/
structure Coherent (m : Concurrent) : Prop where
  sync : Sync m.store
  pending : ∀ c ∈ m.pending, Prepared m.store c.1 c.2

theorem Coherent.drop (h : Coherent m) (i : Nat) :
    Coherent { m with pending := m.pending.eraseIdx i } :=
  ⟨h.sync, fun c hc => h.pending c (List.mem_of_mem_eraseIdx hc)⟩

theorem Coherent.propose (h : Coherent m) {op : Op} {t : Store}
    (ht : repository.step m.store op t) (hop : ∀ c, op ≠ .call c) :
    Coherent { m with store := t } ∧ Absorbs m.store t := by
  rcases repository_step ht with rfl | ⟨row, hnew, hst, rfl⟩ | ⟨c, w, hc, -⟩
  · exact ⟨h, .refl _⟩
  · have hget : ∀ {k p}, m.store.proposals.get k = some p →
        (m.store.proposals.put row).get k = some p := by
      intro k p hp
      have hne : k ≠ row.id := fun heq => by rw [heq, hnew] at hp; cases hp
      rw [Table.get_put, if_neg hne]
      exact hp
    refine ⟨⟨h.sync.propose hnew hst _, fun c hc => ?_⟩,
      fun hp _ => ⟨_, hget hp, rfl⟩, fun he _ => ⟨_, he, rfl⟩⟩
    exact (h.pending c hc).mono (fun hp => ⟨_, hget hp⟩) (fun he => ⟨_, he, rfl⟩)
      fun _ he => he
  · exact absurd hc (hop c)

theorem Coherent.load (h : Coherent m) {c : Call} {w : Plan}
    (hsel : c.Selects m.store m.locked) (hw : c.load m.store = .ok w) :
    Coherent { m with pending := m.pending ++ [(c, w)] } := by
  refine ⟨h.sync, fun d hd => ?_⟩
  rcases List.mem_append.mp hd with hd | hd
  · exact h.pending d hd
  · obtain rfl := List.mem_singleton.mp hd
    exact (Call.move hsel hw).prepared h.sync

/-- A commit leaves the rows that other transactions have locked. -/
theorem get_of_locked {s t : Store} {w : Plan} (h : s.commit w = some t) {k : String}
    {x : ExecutionRow} (hx : s.executions.get k = some x)
    (hfree : ∀ e ∈ w.execution, e.1.id ≠ k) : t.executions.get k = some x := by
  rw [← hx]
  rcases hi : w.insert with _ | n
  · rw [commit_executions h hi]
    rcases hw : w.execution with _ | ⟨e, e'⟩
    · rfl
    · rw [get_writeExecution, if_neg (Ne.symm (hfree _ hw))]
  · obtain ⟨hput, hne⟩ := commit_insert h hi
    rw [hput, Table.get_put, if_neg (hne k x hx).1]

theorem Coherent.commit (h : Coherent m) {i : Nat} {c : Call} {w : Plan} {t : Store}
    (hi : m.pending[i]? = some (c, w)) (hb : m.blocked i w = false) (hc : Current m.store w)
    (ht : m.store.commit w = some t) :
    Coherent ⟨t, m.pending.eraseIdx i⟩ ∧ Absorbs m.store t := by
  have hprep : Prepared m.store c w := h.pending (c, w) (List.mem_of_getElem? hi)
  obtain ⟨hsync, habs⟩ := h.sync.commit_current hprep.shape hprep.loaded hc
    (fun he heq => hprep.lock he (hprep.claims he heq)) ht
  refine ⟨⟨hsync, fun d hd => ?_⟩, habs⟩
  have hd' := h.pending d (List.mem_of_mem_eraseIdx hd)
  have hfree : ∀ {k}, d.1.lockedRow = some k → ∀ e ∈ w.execution, e.1.id ≠ k := by
    intro k hk e he hek
    have hno := List.any_eq_false.mp hb d hd
    rw [hk] at hno
    rw [Option.mem_def] at he
    simp [he, hek] at hno
  refine hd'.mono (fun hp => (commit_keeps_proposal ht hp).imp fun _ hq => hq.1)
    (fun he => commit_keeps_execution ht he) fun hk he => get_of_locked ht he (hfree hk)

theorem Coherent.step (h : Coherent m) (ht : (interleaving.when LosesNoUpdate).step m a n) :
    Coherent n ∧ Absorbs m.store n.store := by
  obtain ⟨hc, ht⟩ := ht
  change a.step m = some n at ht
  cases a with
  | propose o au r id now =>
    obtain ⟨t, hs, rfl⟩ := Option.map_eq_some_iff.mp ht
    exact h.propose hs fun c => Op.noConfusion
  | load c =>
    unfold Event.step at ht
    simp only at ht
    split_ifs at ht with hsel
    rcases hw : c.load m.store with e | w
    · rw [hw] at ht
      cases ht
      exact ⟨h, .refl _⟩
    · rw [hw] at ht
      cases ht
      exact ⟨h.load hsel hw, .refl _⟩
  | commit i =>
    unfold Event.step at ht
    simp only at ht
    rcases hi : m.pending[i]? with _ | ⟨c, w⟩
    · rw [hi] at ht
      cases ht
    · rw [hi] at ht
      simp only at ht
      split_ifs at ht with hb
      cases ht
      rcases hs : m.store.commit w with _ | t
      · exact ⟨h.drop i, .refl _⟩
      · exact h.commit hi (Bool.eq_false_of_not_eq_true hb) (hc _ hi) hs
  | rollback i =>
    cases ht
    exact ⟨h.drop i, .refl _⟩

theorem coherent_of_reachable (h : Reachable (interleaving.when LosesNoUpdate) m) :
    Coherent m := by
  refine h.invariant (I := Coherent) (fun m hm => ?_) fun _ _ _ _ hm ht => (hm.step ht).1
  have hm : m = .empty := hm
  rw [hm]
  exact ⟨Sync.empty, fun c hc => absurd hc List.not_mem_nil⟩

/-- Terminal statuses are absorbing and the tables stay in step, from `m` on. -/
def Settled (S : System Concurrent Event) (m : Concurrent) : Prop :=
  (∀ n, Later S m n → Absorbs m.store n.store) ∧
  ∀ k e, m.store.executions.get k = some e → e.status.Active ∨ e.status.Terminal →
    ∃ p, m.store.proposals.get e.proposalId = some p ∧ p.status = e.status

theorem settled_without_lost_updates (h : Reachable (interleaving.when LosesNoUpdate) m) :
    Settled (interleaving.when LosesNoUpdate) m := by
  constructor
  · intro n hl
    exact h.later (K := fun m n => Absorbs m.store n.store) (fun _ => .refl _) Absorbs.trans
      (fun hm ht => ((coherent_of_reachable hm).step ht).2) hl
  · intro k e he hst
    obtain ⟨p, hp, hin⟩ := (coherent_of_reachable h).sync.proposal he
    rcases hin with ⟨hready, -⟩ | ⟨-, heq⟩
    · rw [hready] at hst
      exact absurd hst (by decide)
    · exact ⟨p, hp, heq⟩

end Machine

namespace Rename

/-- Each operation reads and commits before the next one begins. -/
def atomically (op : Op) : List (Concurrent → Event) :=
  match op with
  | .propose o a r id now => [fun _ => .propose o a r id now]
  | .call c => [fun _ => .load c, fun m => .commit (m.pending.length - 1)]

def finish (e w : String) (now : Time) : Op := .call (.finish e w none none none now)

/-- A preview of the approved proposal reads its row; a worker claims and finishes the
execution; the preview is still to commit. -/
def stalePreview : List (Concurrent → Event) :=
  atomically (propose "proposal-1" 1) ++ atomically (preview "proposal-1" 1) ++
  atomically (approve "proposal-1" 1) ++ atomically (enqueue "proposal-1" "execution-1" 1) ++
  [fun _ => .load (.preview str ontology "proposal-1" authorization target 2),
   fun m => .load (.claimReady (claimCandidates m.store m.locked 3).head? "worker" 10 3),
   fun _ => .commit 1] ++
  atomically (finish "execution-1" "worker" 4)

end Rename

theorem settled_after_finish :
    ∃ m : Concurrent, Reachable (interleaving.when LosesNoUpdate) m ∧
      (m.store.executions.get "execution-1").any (·.status = .succeeded) = true ∧
      Settled (interleaving.when LosesNoUpdate) m := by
  have hrun : (runScript (guarded LosesNoUpdate Event.step) .empty Rename.stalePreview).any
      (fun m => (m.store.executions.get "execution-1").any (·.status = .succeeded)) = true := by
    decide +kernel
  obtain ⟨m, hm, h⟩ := exists_reachable_of_runScript _ hrun
  exact ⟨m, when_of_guarded hm, h, settled_without_lost_updates (when_of_guarded hm)⟩

/-- The preview commits over the SUCCEEDED status of the proposal. -/
theorem stale_preview_unsettles : ¬ ∀ m, Reachable interleaving m → Settled interleaving m := by
  intro hall
  have hrun : (runScript Event.step .empty (Rename.stalePreview ++ [fun _ => .commit 0])).any
      (fun m => (m.store.executions.get "execution-1").any fun e =>
        decide (e.status = .succeeded) &&
          (m.store.proposals.get e.proposalId).all (·.status = .pendingApproval)) = true := by
    decide +kernel
  obtain ⟨m, hm, h⟩ := exists_reachable_of_runScript _ hrun
  obtain ⟨e, he, h⟩ := (Option.any_eq_true _ _).mp h
  obtain ⟨hst, hp⟩ := Bool.and_eq_true_iff.mp h
  have hsucceeded : e.status = .succeeded := of_decide_eq_true hst
  obtain ⟨p, hget, heq⟩ := (hall m hm).2 _ e he (.inr (.inl hsucceeded))
  rw [hget] at hp
  have hpending : p.status = .pendingApproval := of_decide_eq_true hp
  rw [hsucceeded, hpending] at heq
  cases heq

end DeerFlow.Semantic
