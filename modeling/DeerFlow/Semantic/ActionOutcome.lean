import DeerFlow.Semantic.ActionTrace

/-! What a run records after its execution succeeded. The `finish` of a success
stands in the `try` block whose handlers call `finish` with an error; it is
faithful as long as that call commits and no handler runs without its lease. -/

namespace DeerFlow.Semantic
open Transition ActionStatus

/-- What `finish` raises when another worker owns the lease. -/
def leaseRefusal : Exc := .action ⟨"ACTION_CONFLICT", "Execution lease is not owned by worker", 409⟩

/-- Another worker owns the lease of the run's execution. -/
def WorkerRun.LeaseElsewhere (run : WorkerRun) (owner : Option String) : Prop :=
  ∃ o ∈ owner, o ≠ run.worker.workerId

instance (run : WorkerRun) (owner : Option String) : Decidable (run.LeaseElsewhere owner) :=
  inferInstanceAs (Decidable (∃ _ ∈ _, _))

/-- `y` records a failure of what `x` reported as done. -/
def Obs.contradicts (x y : Obs) : Bool :=
  match x, y with
  | .executeReturned r k, .recorded r' k' st =>
    r = r' && k = k' && (st = .failed || st = .compensated)
  | _, _ => false

def OutcomesFaithful (h : List Obs) : Prop := h.Pairwise fun x y => x.contradicts y = false

instance (h : List Obs) : Decidable (OutcomesFaithful h) :=
  inferInstanceAs (Decidable (List.Pairwise _ _))

/-- No run has propagated the refusal of a lease that another worker owns. -/
def LeaseLossContained (f : Fleet) : Prop :=
  ∀ run ∈ f.runs, ∀ exc owner, run.phase = .raised exc owner →
    ¬ (exc = leaseRefusal ∧ run.LeaseElsewhere owner)

/-- What a repository call of `run` may meet in the given phase. -/
def Fleet.CallKeeps (f : Fleet) (run : WorkerRun) (fault : Option String) : Phase → Prop
  | .executed _ => fault = none ∧ f.leaseOwner run.execution.id = some run.worker.workerId
  | .handling _ => fault = none → ¬ run.LeaseElsewhere (f.leaseOwner run.execution.id)
  | _ => True

/-- The `finish` of a success commits, and no handler calls `finish` while another worker owns
the lease. -/
def Fleet.KeepsOutcome (f : Fleet) : FleetEvent → Prop
  | .call r _ fault => ∀ run ∈ f.runs[r]?, f.CallKeeps run fault run.phase
  | _ => True

instance (f : Fleet) (run : WorkerRun) (fault : Option String) (phase : Phase) :
    Decidable (f.CallKeeps run fault phase) :=
  match phase with
  | .executed _ => inferInstanceAs (Decidable (_ ∧ _))
  | .handling _ => inferInstanceAs (Decidable (_ → _))
  | .checking | .executing _ | .inExecute _ | .beginning .. | .compensating .. | .inCompensate
  | .closing .. | .returned | .raised .. | .crashed => isTrue trivial

instance (f : Fleet) (a : FleetEvent) : Decidable (f.KeepsOutcome a) :=
  match a with
  | .call .. => inferInstanceAs (Decidable (∀ _ ∈ _, _))
  | .api _ | .claim .. | .check .. | .invoke _ | .answer .. | .crash _ => isTrue trivial

/-- The phases of a run whose execution succeeded, when nothing goes wrong after it. -/
def Phase.afterSuccess : Phase → Bool
  | .executed _ | .returned | .crashed => true
  | _ => false

structure OutcomeInv (f : Fleet) : Prop where
  faithful : OutcomesFaithful f.history
  settled : ∀ {r k}, .executeReturned r k ∈ f.history →
    ∃ run, f.runs[r]? = some run ∧ run.phase.afterSuccess = true
  contained : LeaseLossContained f

section Outcome
variable {R : Rendering} {f g : Fleet} {a : FleetEvent} {r : Nat} {run : WorkerRun}

theorem OutcomesFaithful.append {h seen : List Obs} (hf : OutcomesFaithful h)
    (hseen : OutcomesFaithful seen) (hq : ∀ x ∈ h, ∀ y ∈ seen, x.contradicts y = false) :
    OutcomesFaithful (h ++ seen) :=
  List.pairwise_append.mpr ⟨hf, hseen, hq⟩

theorem OutcomeInv.setPhase (hi : OutcomeInv f) (hr : f.runs[r]? = some run) {phase : Phase}
    {seen : List Obs} (hone : OutcomesFaithful seen)
    (hfaith : ∀ x ∈ f.history, ∀ y ∈ seen, x.contradicts y = false)
    (hkeep : run.phase.afterSuccess = true → phase.afterSuccess = true)
    (hnew : ∀ r' k, .executeReturned r' k ∈ seen → r' = r ∧ phase.afterSuccess = true)
    (hraise : ∀ exc owner, phase = .raised exc owner →
      ¬ (exc = leaseRefusal ∧ run.LeaseElsewhere owner)) :
    OutcomeInv (f.setPhase r run phase seen) := by
  have hlt : r < f.runs.length := (List.getElem?_eq_some_iff.mp hr).1
  have hself : (f.setPhase r run phase seen).runs[r]? =
      some { run with phase := phase } := List.getElem?_set_self hlt
  refine ⟨hi.faithful.append hone hfaith, ?_, ?_⟩
  · intro r' k hmem
    rcases List.mem_append.mp hmem with hmem | hmem
    · obtain ⟨run', hr', hp⟩ := hi.settled hmem
      by_cases heq : r = r'
      · subst heq
        obtain rfl := Option.some.inj (hr.symm.trans hr')
        exact ⟨_, hself, hkeep hp⟩
      · exact ⟨run', (List.getElem?_set_ne heq).trans hr', hp⟩
    · obtain ⟨rfl, hp⟩ := hnew r' k hmem
      exact ⟨_, hself, hp⟩
  · intro run' hmem exc owner hp
    rcases List.mem_or_eq_of_mem_set hmem with hmem | rfl
    · exact hi.contained run' hmem exc owner hp
    · exact hraise exc owner hp

theorem OutcomeInv.setPhase_nil (hi : OutcomeInv f) (hr : f.runs[r]? = some run) {phase : Phase}
    (hkeep : run.phase.afterSuccess = true → phase.afterSuccess = true)
    (hraise : ∀ exc owner, phase = .raised exc owner →
      ¬ (exc = leaseRefusal ∧ run.LeaseElsewhere owner)) :
    OutcomeInv (f.setPhase r run phase []) :=
  hi.setPhase hr .nil (fun _ _ _ hy => nomatch hy) hkeep (fun _ _ hy => nomatch hy) hraise

/-- Only `recorded` contradicts anything. -/
theorem not_contradicts {x y : Obs} (hy : ∀ r k st, y ≠ .recorded r k st) :
    x.contradicts y = false := by
  cases y with
  | recorded r k st => exact absurd rfl (hy r k st)
  | _ => cases x <;> rfl

theorem OutcomeInv.setPhase_singleton (hi : OutcomeInv f) (hr : f.runs[r]? = some run)
    {phase : Phase} {y : Obs} (hy : ∀ r k st, y ≠ .recorded r k st)
    (hkeep : run.phase.afterSuccess = true → phase.afterSuccess = true)
    (hnew : ∀ r' k, y = .executeReturned r' k → r' = r ∧ phase.afterSuccess = true)
    (hraise : ∀ exc owner, phase ≠ .raised exc owner) :
    OutcomeInv (f.setPhase r run phase [y]) := by
  refine hi.setPhase hr (List.pairwise_singleton _ _) (fun x _ y' hy' => ?_) hkeep
    (fun r' k hmem => hnew r' k (List.mem_singleton.mp hmem).symm)
    (fun exc owner hp => absurd hp (hraise exc owner))
  obtain rfl := List.mem_singleton.mp hy'
  exact not_contradicts hy

theorem finish_run_of_owner {k worker : String} {result : Option (Dict Value)}
    {code detail : Option String} {now : Time} (h : f.leaseOwner k = some worker) :
    ∃ t, (Call.finish k worker result code detail now).run f.store = .ok t := by
  obtain ⟨e, he, ho⟩ := Option.bind_eq_some_iff.mp h
  simp only [Call.run, Call.load, finish, he, ho]
  rw [if_neg (not_not.mpr rfl)]
  exact ⟨_, rfl⟩

theorem OutcomeInv.checked (hi : OutcomeInv f) (hr : f.runs[r]? = some run)
    (hp : run.phase = .checking) (result : Except Exc ActionDefinition) :
    OutcomeInv (f.setPhase r run (run.checked r result).1 (run.checked r result).2) := by
  have hbefore : run.phase.afterSuccess ≠ true := by rw [hp]; exact nofun
  rcases run.checked_cases r result with ⟨exc, h⟩ | ⟨action, h⟩ | ⟨c, code, h⟩ | h <;> rw [h]
  · exact hi.setPhase_nil hr (absurd · hbefore) nofun
  · exact hi.setPhase_nil hr (absurd · hbefore) nofun
  · exact hi.setPhase_nil hr (absurd · hbefore) nofun
  · exact hi.setPhase_singleton hr nofun (absurd · hbefore) nofun nofun

theorem OutcomeInv.invoked (hi : OutcomeInv f) (hr : f.runs[r]? = some run) {phase : Phase}
    {seen : List Obs} (h : run.invoked r = some (phase, seen)) :
    OutcomeInv (f.setPhase r run phase seen) := by
  rcases WorkerRun.invoked_cases h with ⟨action, hp, rfl, rfl⟩ | ⟨c, code, hp, rfl, rfl⟩
  · exact hi.setPhase_singleton hr nofun (by rw [hp]; exact nofun) nofun nofun
  · exact hi.setPhase_singleton hr nofun (by rw [hp]; exact nofun) nofun nofun

theorem OutcomeInv.answered (hi : OutcomeInv f) (hr : f.runs[r]? = some run) {phase : Phase}
    {seen : List Obs} {outcome : Except Exc (Dict Value)}
    (h : run.answered r outcome = some (phase, seen)) :
    OutcomeInv (f.setPhase r run phase seen) := by
  rcases WorkerRun.answered_cases h with ⟨_, _, -, rfl, rfl⟩ | ⟨_, exc, hp, rfl, hnext⟩ |
    ⟨result, hp, rfl, rfl⟩ | ⟨hp, rfl, rfl⟩
  · -- this is the run that the history now says has succeeded
    refine hi.setPhase_singleton hr nofun (fun _ => rfl) (fun r' k heq => ?_) nofun
    exact ⟨(Obs.executeReturned.inj heq).1.symm, rfl⟩
  · have hbefore : run.phase.afterSuccess ≠ true := by rw [hp]; exact nofun
    rcases hnext with rfl | ⟨c, rfl⟩
    · exact hi.setPhase_nil hr (absurd · hbefore) nofun
    · exact hi.setPhase_nil hr (absurd · hbefore) nofun
  · exact hi.setPhase_singleton hr nofun (by rw [hp]; exact nofun) nofun nofun
  · exact hi.setPhase_singleton hr nofun (by rw [hp]; exact nofun) nofun nofun

theorem OutcomeInv.refused (hi : OutcomeInv f) (hr : f.runs[r]? = some run) {now : Time}
    {fault : Option String} {c : Call} {st : ActionStatus} {exc : Exc}
    (hc : run.call now = some (c, st)) (hx : c.attempt fault f.store = .error exc)
    (hk : f.CallKeeps run fault run.phase) :
    OutcomeInv (f.setPhase r run (run.failed exc (f.leaseOwner run.execution.id)) []) := by
  rcases WorkerRun.call_cases hc with ⟨_, hp, -, rfl⟩ | ⟨_, _, hp, -, -⟩ | ⟨_, _, hp, -, -⟩ |
    ⟨_, hp, -, -⟩
  · -- the `finish` of a success is not refused
    rw [hp] at hk
    obtain ⟨rfl, howner⟩ := hk
    obtain ⟨t, ht⟩ := finish_run_of_owner howner
    rw [Call.attempt, ht] at hx
    cases hx
  · rw [WorkerRun.failed, hp]
    exact hi.setPhase_nil hr (by rw [hp]; exact nofun) nofun
  · rw [WorkerRun.failed, hp]
    exact hi.setPhase_nil hr (by rw [hp]; exact nofun) nofun
  · rw [WorkerRun.failed, hp]
    refine hi.setPhase_nil hr (by rw [hp]; exact nofun) ?_
    rintro exc' owner heq ⟨hexc, helse⟩
    obtain ⟨rfl, rfl⟩ := Phase.raised.inj heq
    rw [hp] at hk
    cases fault with
    | none => exact hk rfl helse
    | some name =>
      -- what the database raises is no refusal of the lease
      rw [← Except.error.inj hx] at hexc
      cases hexc

theorem OutcomeInv.commit (hi : OutcomeInv f) (hr : f.runs[r]? = some run) {now : Time}
    {c : Call} {st : ActionStatus} (hc : run.call now = some (c, st)) (t : Store) :
    OutcomeInv { f.setPhase r run run.succeeded [.recorded r run.execution.id st] with
      store := t } := by
  have hfaith : ∀ x ∈ f.history, ∀ y ∈ [Obs.recorded r run.execution.id st],
      x.contradicts y = false := by
    intro x hx y hy
    obtain rfl := List.mem_singleton.mp hy
    cases x with
    | executeReturned r' k =>
      by_cases hrr : r' = r
      · -- the run that saw its execution return is about to record SUCCEEDED
        subst hrr
        obtain ⟨run', hr', hp'⟩ := hi.settled hx
        obtain rfl := Option.some.inj (hr.symm.trans hr')
        rcases WorkerRun.call_cases hc with ⟨_, hp, rfl, -⟩ | ⟨_, _, hp, -, -⟩ |
          ⟨_, _, hp, -, -⟩ | ⟨_, hp, -, -⟩
        · simp [Obs.contradicts]
        all_goals
          rw [hp] at hp'
          cases hp'
      · simp [Obs.contradicts, hrr]
    | _ => rfl
  have hdone : ∀ exc owner, run.succeeded ≠ .raised exc owner := by
    rcases run.succeeded_cases with h | ⟨c, exc, -, h⟩ <;> rw [h] <;> exact nofun
  have hkeep : run.phase.afterSuccess = true → run.succeeded.afterSuccess = true := by
    rcases run.succeeded_cases with h | ⟨c, exc, hp, -⟩
    · rw [h]
      exact fun _ => rfl
    · rw [hp]
      exact nofun
  have hset := hi.setPhase hr (List.pairwise_singleton _ _) hfaith hkeep
    (fun r' k hmem => nomatch List.mem_singleton.mp hmem)
    (fun exc owner hp => absurd hp (hdone exc owner))
  exact ⟨hset.faithful, hset.settled, hset.contained⟩

theorem OutcomeInv.move (hi : OutcomeInv f) (h : FleetMove R f a g) (hk : f.KeepsOutcome a) :
    OutcomeInv g := by
  cases h with
  | api => exact ⟨hi.faithful, hi.settled, hi.contained⟩
  | idle => exact hi
  | @claim worker selected now t p e ht =>
    refine ⟨hi.faithful, ?_, ?_⟩
    · intro r k hmem
      obtain ⟨run, hr, hp⟩ := hi.settled hmem
      have hlt : r < f.runs.length := (List.getElem?_eq_some_iff.mp hr).1
      exact ⟨run, (List.getElem?_append_left hlt).trans hr, hp⟩
    · intro run hmem exc owner hp
      rcases List.mem_append.mp hmem with hmem | hmem
      · exact hi.contained run hmem exc owner hp
      · obtain rfl := List.mem_singleton.mp hmem
        cases hp
  | check _ _ hr hp result => exact hi.checked hr hp result
  | invoke hr hv => exact hi.invoked hr hv
  | answer _ hr hv => exact hi.answered hr hv
  | refuse hr hc hx => exact hi.refused hr hc hx (hk _ hr)
  | commit hr hc ht hrun => exact hi.commit hr hc _
  | crash hr hl => exact hi.setPhase_nil hr (fun _ => rfl) nofun

theorem outcome_kept (h : Reachable ((fleet R).when Fleet.KeepsOutcome) f) :
    OutcomesFaithful f.history ∧ LeaseLossContained f := by
  have hi : OutcomeInv f := by
    refine h.invariant (I := OutcomeInv) ?_ ?_
    · intro f h0
      rw [show f = .empty from h0]
      exact ⟨.nil, fun hmem => absurd hmem List.not_mem_nil,
        fun run hmem => absurd hmem List.not_mem_nil⟩
    · intro f a g _ hi ht
      exact hi.move (fleet_move ht.2) ht.1
  exact ⟨hi.faithful, hi.contained⟩

end Outcome

namespace Rename

def executes : List (Fleet → FleetEvent) :=
  fleetQueued ++ [workerClaim "worker-1" 5, fun _ => pass 0, fun _ => .invoke 0,
    fun _ => .answer 0 (.ok [])]

/-- The database rolls back the `finish` that records the success. -/
def finishFails : List (Fleet → FleetEvent) :=
  executes ++ [fun _ => .call 0 6 (some "OperationalError"), fun _ => .call 0 7 none]

/-- The lease runs out during the execution and another worker takes it. -/
def leaseLost : List (Fleet → FleetEvent) :=
  executes ++ [workerClaim "worker-2" 20, fun _ => .call 0 21 none, fun _ => .call 0 22 none]

end Rename

theorem outcome_kept_after_success :
    ∃ f, Reachable ((fleet Rename.rendering).when Fleet.KeepsOutcome) f ∧
      (f.store.executions.get "execution-1").any (·.status = .succeeded) = true ∧
      OutcomesFaithful f.history ∧ LeaseLossContained f := by
  have hrun : (runScript (guarded Fleet.KeepsOutcome (Fleet.step Rename.rendering)) .empty
      (Rename.executes ++ [fun _ => .call 0 6 none])).any (fun f =>
        (f.store.executions.get "execution-1").any (·.status = .succeeded)) = true := by
    decide +kernel
  obtain ⟨f, hf, h⟩ := exists_reachable_of_runScript _ hrun
  exact ⟨f, when_of_guarded hf, h, outcome_kept (when_of_guarded hf)⟩

/-- A success is recorded as FAILED, and a lost lease leaves `run_once` as an exception. -/
theorem outcome_lost :
    (∃ f, Reachable (fleet Rename.rendering) f ∧ ¬ OutcomesFaithful f.history) ∧
    ∃ f, Reachable (fleet Rename.rendering) f ∧ ¬ LeaseLossContained f := by
  constructor
  · have hrun : (runScript (Fleet.step Rename.rendering) .empty Rename.finishFails).any
        (fun f => decide (¬ OutcomesFaithful f.history)) = true := by
      decide +kernel
    obtain ⟨f, hf, h⟩ := exists_reachable_of_runScript _ hrun
    exact ⟨f, hf, of_decide_eq_true h⟩
  · have hrun : (runScript (Fleet.step Rename.rendering) .empty Rename.leaseLost).any
        (fun f => f.runs.any fun run => match run.phase with
          | .raised exc owner => decide (exc = leaseRefusal ∧ run.LeaseElsewhere owner)
          | _ => false) = true := by
      decide +kernel
    obtain ⟨f, hf, h⟩ := exists_reachable_of_runScript _ hrun
    obtain ⟨run, hmem, h⟩ := List.any_eq_true.mp h
    refine ⟨f, hf, fun hall => ?_⟩
    split at h
    · next exc owner hp => exact hall run hmem exc owner hp (of_decide_eq_true h)
    · cases h

end DeerFlow.Semantic
