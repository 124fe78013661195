import DeerFlow.Semantic.ActionTrace

/-! Compensation is not skipped, and an Action under compensation is not executed
again, as long as no run executes on a stale claim and no `finish` closes an
execution that is COMPENSATING. -/

namespace DeerFlow.Semantic
open Transition ActionStatus

def Obs.movesToCompensating (k : String) : Obs → Bool
  | .recorded _ id .compensating => id = k
  | _ => false

def Obs.invokesExecute (k : String) : Obs → Bool
  | .executeInvoked _ id => id = k
  | _ => false

def Moved (h : List Obs) (k : String) : Prop := ∃ x ∈ h, x.movesToCompensating k = true

instance (h : List Obs) (k : String) : Decidable (Moved h k) :=
  inferInstanceAs (Decidable (∃ _ ∈ _, _))

/-- A run has compensated execution `k`: its invocation returned, or it raised, or there was
nothing to invoke. -/
def CompensationEnd (h : List Obs) (k : String) : Bool → Prop
  | false => ∃ r, .compensateInvoked r k ∈ h ∧ .compensateReturned r k ∈ h
  | true => ∃ r, (.compensateInvoked r k ∈ h ∧ .compensateRaised r k ∈ h) ∨ .undeclared r k ∈ h

def CompensationClosed (h : List Obs) (e : ExecutionRow) : Prop :=
  CompensationEnd h e.id false ∧ e.status = .compensated ∨
  CompensationEnd h e.id true ∧ e.status = .failed ∧ e.errorCode = some "COMPENSATION_FAILED"

/-- No `execute` is invoked after a move to COMPENSATING. -/
def NoReplay (h : List Obs) : Prop :=
  ∀ k, h.Pairwise fun x y => x.movesToCompensating k = true → y.invokesExecute k = false

/-- A compensated execution is closed by its compensation. -/
def ClosedByCompensation (f : Fleet) : Prop :=
  ∀ k e, f.store.executions.get k = some e → e.status.Terminal → Moved f.history k →
    CompensationClosed f.history e

def Phase.isExecuting : Phase → Bool
  | .executing _ => true
  | _ => false

/-- The execution is still EXECUTING when `execute` is invoked for it, and when a `finish`
that will be accepted is called. -/
def Fleet.KeepsCompensation (f : Fleet) : FleetEvent → Prop
  | .invoke r => ∀ run ∈ f.runs[r]?, run.phase.isExecuting = true →
      ∃ e ∈ f.store.executions.get run.execution.id, e.status = .executing
  | a => f.FinishesExecuting a

instance (f : Fleet) (a : FleetEvent) : Decidable (f.KeepsCompensation a) :=
  match a with
  | .invoke _ => inferInstanceAs (Decidable (∀ _ ∈ _, _))
  | .call .. => inferInstanceAs (Decidable (Fleet.FinishesExecuting ..))
  | .api _ | .claim .. | .check .. | .answer .. | .crash _ => isTrue trivial

section History
variable {h h' : List Obs} {k : String}

theorem Moved.append (hm : Moved h k) (seen : List Obs) : Moved (h ++ seen) k := by
  obtain ⟨x, hx, hk⟩ := hm
  exact ⟨x, List.mem_append_left _ hx, hk⟩

theorem moved_append {seen : List Obs} (hq : ∀ x ∈ seen, x.movesToCompensating k = false) :
    Moved (h ++ seen) k ↔ Moved h k := by
  refine ⟨fun ⟨x, hx, hk⟩ => ?_, fun hm => hm.append seen⟩
  rcases List.mem_append.mp hx with hx | hx
  · exact ⟨x, hx, hk⟩
  · rw [hq x hx] at hk
    cases hk

theorem CompensationEnd.append {err : Bool} (he : CompensationEnd h k err) (seen : List Obs) :
    CompensationEnd (h ++ seen) k err := by
  cases err with
  | false =>
    obtain ⟨r, hi, ho⟩ := he
    exact ⟨r, List.mem_append_left _ hi, List.mem_append_left _ ho⟩
  | true =>
    obtain ⟨r, ⟨hi, ho⟩ | hu⟩ := he
    · exact ⟨r, .inl ⟨List.mem_append_left _ hi, List.mem_append_left _ ho⟩⟩
    · exact ⟨r, .inr (List.mem_append_left _ hu)⟩

theorem CompensationClosed.append {e : ExecutionRow} (he : CompensationClosed h e)
    (seen : List Obs) : CompensationClosed (h ++ seen) e := by
  rcases he with ⟨hend, hst⟩ | ⟨hend, hst⟩
  · exact .inl ⟨hend.append seen, hst⟩
  · exact .inr ⟨hend.append seen, hst⟩

end History

/-- What the store and the history say about the executions that were compensated. -/
structure Tracked (s : Store) (h : List Obs) : Prop where
  moved : ∀ {k}, Moved h k → ∃ e, s.executions.get k = some e ∧
    (e.status = .compensating ∨ e.status.Terminal)
  closed : ∀ {k e}, s.executions.get k = some e → e.status.Terminal → Moved h k →
    CompensationClosed h e

section Tracked
variable {s t : Store} {h : List Obs} {op : Op}

theorem Tracked.append (ht : Tracked s h) {seen : List Obs}
    (hq : ∀ k, ∀ x ∈ seen, x.movesToCompensating k = false) : Tracked s (h ++ seen) :=
  ⟨fun hm => ht.moved ((moved_append (hq _)).mp hm),
    fun he hst hm => (ht.closed he hst ((moved_append (hq _)).mp hm)).append seen⟩

/-- The move to COMPENSATING itself, once the store has made it. -/
theorem Tracked.append_compensating (ht : Tracked s h) {r : Nat} {k : String} {e : ExecutionRow}
    (he : s.executions.get k = some e) (hst : e.status = .compensating) :
    Tracked s (h ++ [.recorded r k .compensating]) := by
  have hother : ∀ {j}, j ≠ k → (Moved (h ++ [.recorded r k .compensating]) j ↔ Moved h j) := by
    intro j hj
    refine moved_append fun x hx => ?_
    obtain rfl := List.mem_singleton.mp hx
    exact decide_eq_false (Ne.symm hj)
  constructor
  · intro j hm
    by_cases hj : j = k
    · exact ⟨e, hj ▸ he, .inl hst⟩
    · exact ht.moved ((hother hj).mp hm)
  · intro j e' he' hterm hm
    by_cases hj : j = k
    · obtain rfl := Option.some.inj (he.symm.trans (hj ▸ he'))
      rw [hst] at hterm
      exact absurd hterm (by decide)
    · exact (ht.closed he' hterm ((hother hj).mp hm)).append _

theorem ExecutionMove.keeps_moved {e f : ExecutionRow} {c : Call} {rows : List TransitionRow}
    (hm : ExecutionMove s e c f rows) (he : e.status = .compensating ∨ e.status.Terminal) :
    f.status = .compensating ∨ f.status.Terminal := by
  cases hm with
  | claim worker lease now hc =>
    have hst : e.status = .compensating := he.resolve_right (claimCandidate_not_terminal hc)
    exact .inl (by change claimedStatus e = _; rw [claimedStatus, if_pos hst])
  | begin => exact .inl rfl
  | finishCompensation _ _ err => exact .inr (compensationStatus_terminal err)
  | finish _ _ code => exact .inr (finishStatus_terminal code)

theorem Tracked.step (ht : Tracked s h) (hs : Sync s) (hstep : repository.step s op t)
    (hfin : FinishesExecuting s op)
    (hend : ∀ {id worker result err now},
      op = .call (.finishCompensation id worker result err now) → CompensationEnd h id err) :
    Tracked t h := by
  constructor
  · intro k hm
    obtain ⟨e, he, hst⟩ := ht.moved hm
    rcases execution_step hs hstep k with ⟨hg, -⟩ | ⟨f, _, hn, -⟩ |
      ⟨c, e', f, rows, rfl, he', hf, hmove, -⟩
    · exact ⟨e, hg ▸ he, hst⟩
    · rw [hn] at he
      cases he
    · obtain rfl := Option.some.inj (he.symm.trans he')
      exact ⟨f, hf, hmove.keeps_moved hst⟩
  · intro k f hf hterm hm
    rcases execution_step hs hstep k with ⟨hg, -⟩ | ⟨f', _, -, hf', hready, -⟩ |
      ⟨c, e, f', rows, rfl, he, hf', hmove, -⟩
    · exact ht.closed (hg ▸ hf) hterm hm
    · obtain rfl := Option.some.inj (hf.symm.trans hf')
      rw [hready] at hterm
      exact absurd hterm (by decide)
    · obtain rfl := Option.some.inj (hf.symm.trans hf')
      obtain ⟨e', he', hst⟩ := ht.moved hm
      obtain rfl := Option.some.inj (he.symm.trans he')
      cases hmove with
      | claim => exact absurd hterm (claimedStatus_active e).not_terminal
      | begin => exact absurd hterm (by decide : ¬ ActionStatus.compensating.Terminal)
      | finishCompensation worker result err now =>
        have hclosed := hend rfl
        cases err with
        | false => exact .inl ⟨hclosed, rfl⟩
        | true => exact .inr ⟨hclosed, rfl, rfl⟩
      | finish worker result code detail now ho =>
        -- the execution was EXECUTING, so it has never been COMPENSATING
        have hexec := hfin e (by obtain rfl : e.id = k := Table.key_of_get he; exact he) ho
        rw [hexec] at hst
        exact absurd hst (by decide)

end Tracked

/-- What the phase of a run says about the history. -/
def WorkerRun.Noted (h : List Obs) (r : Nat) (run : WorkerRun) : Prop :=
  match run.phase with
  | .inCompensate => .compensateInvoked r run.execution.id ∈ h
  | .closing _ err => CompensationEnd h run.execution.id err
  | _ => True

structure CompensationInv (f : Fleet) : Prop where
  tracked : Tracked f.store f.history
  noted : ∀ {r : Nat} {run : WorkerRun}, f.runs[r]? = some run → run.Noted f.history r
  no_replay : NoReplay f.history

section Fleet
variable {R : Rendering} {f g : Fleet} {a : FleetEvent}

theorem WorkerRun.Noted.append {h : List Obs} {r : Nat} {run : WorkerRun} (hn : run.Noted h r)
    (seen : List Obs) : run.Noted (h ++ seen) r := by
  unfold WorkerRun.Noted at *
  cases hp : run.phase with
  | inCompensate =>
    rw [hp] at hn
    exact List.mem_append_left _ hn
  | closing result err =>
    rw [hp] at hn
    exact CompensationEnd.append hn seen
  | _ => exact trivial

theorem noted_setPhase {r : Nat} {run : WorkerRun} {phase : Phase} {seen : List Obs}
    (hn : ∀ {r : Nat} {run : WorkerRun}, f.runs[r]? = some run → run.Noted f.history r)
    (hnew : ({ run with phase := phase } : WorkerRun).Noted (f.history ++ seen) r) :
    ∀ {r' : Nat} {run' : WorkerRun}, (f.setPhase r run phase seen).runs[r']? = some run' →
      run'.Noted (f.history ++ seen) r' := by
  intro r' run' h
  change (f.runs.set r { run with phase := phase })[r']? = some run' at h
  by_cases hr : r = r'
  · subst hr
    rw [List.getElem?_set_self'] at h
    obtain ⟨_, -, rfl⟩ := Option.map_eq_some_iff.mp h
    exact hnew
  · rw [List.getElem?_set_ne hr] at h
    exact (hn h).append seen

theorem NoReplay.append {h seen : List Obs} (hp : NoReplay h)
    (hseen : NoReplay seen)
    (hq : ∀ k, Moved h k → ∀ y ∈ seen, y.invokesExecute k = false) : NoReplay (h ++ seen) :=
  fun k => List.pairwise_append.mpr ⟨hp k, hseen k, fun x hx y hy hm => hq k ⟨x, hx, hm⟩ y hy⟩

theorem CompensationInv.setPhase (hi : CompensationInv f) {r : Nat} {run : WorkerRun}
    {phase : Phase} {seen : List Obs}
    (hmoves : ∀ k, ∀ x ∈ seen, x.movesToCompensating k = false)
    (hreplay : ∀ k, Moved f.history k → ∀ x ∈ seen, x.invokesExecute k = false)
    (hnew : ({ run with phase := phase } : WorkerRun).Noted (f.history ++ seen) r) :
    CompensationInv (f.setPhase r run phase seen) := by
  refine ⟨hi.tracked.append hmoves, noted_setPhase hi.noted hnew, hi.no_replay.append ?_ hreplay⟩
  intro k
  refine List.pairwise_of_forall_mem_list fun x hx y _ hm => ?_
  rw [hmoves k x hx] at hm
  cases hm

theorem CompensationInv.checked (hi : CompensationInv f) {r : Nat} {run : WorkerRun}
    (result : Except Exc ActionDefinition) :
    CompensationInv (f.setPhase r run (run.checked r result).1 (run.checked r result).2) := by
  rcases run.checked_cases r result with ⟨exc, h⟩ | ⟨action, h⟩ | ⟨c, code, h⟩ | h <;> rw [h]
  · exact hi.setPhase nofun nofun trivial
  · exact hi.setPhase nofun nofun trivial
  · exact hi.setPhase nofun nofun trivial
  · -- there is nothing to compensate with, and the run says so
    have hend : CompensationEnd (f.history ++ [.undeclared r run.execution.id])
        run.execution.id true := ⟨r, .inr (List.mem_append_right _ (.head _))⟩
    exact hi.setPhase (by simp [Obs.movesToCompensating]) (by simp [Obs.invokesExecute]) hend

theorem CompensationInv.invoked (hi : CompensationInv f) {r : Nat} {run : WorkerRun}
    {phase : Phase} {seen : List Obs} (hr : f.runs[r]? = some run)
    (hc : f.KeepsCompensation (.invoke r)) (h : run.invoked r = some (phase, seen)) :
    CompensationInv (f.setPhase r run phase seen) := by
  rcases WorkerRun.invoked_cases h with ⟨action, hp, rfl, rfl⟩ | ⟨c, code, -, rfl, rfl⟩
  · refine hi.setPhase (by simp [Obs.movesToCompensating]) (fun k hm x hx => ?_) trivial
    obtain rfl := List.mem_singleton.mp hx
    -- the execution is EXECUTING, so it has not moved to COMPENSATING
    refine decide_eq_false fun hk => ?_
    obtain ⟨e, he, hst⟩ := hc run hr (by rw [hp]; rfl)
    obtain ⟨e', he', hst'⟩ := hi.tracked.moved hm
    rw [← hk] at he'
    obtain rfl := Option.mem_unique he he'
    rw [hst] at hst'
    exact absurd hst' (by decide)
  · exact hi.setPhase (by simp [Obs.movesToCompensating]) (by simp [Obs.invokesExecute])
      (List.mem_append_right _ (.head _))

theorem CompensationInv.answered (hi : CompensationInv f) {r : Nat} {run : WorkerRun}
    {phase : Phase} {seen : List Obs} {outcome : Except Exc (Dict Value)}
    (hr : f.runs[r]? = some run) (h : run.answered r outcome = some (phase, seen)) :
    CompensationInv (f.setPhase r run phase seen) := by
  have hnoted := hi.noted hr
  rcases WorkerRun.answered_cases h with ⟨_, _, -, rfl, rfl⟩ | ⟨_, exc, -, rfl, hnext⟩ |
    ⟨result, hp, rfl, rfl⟩ | ⟨hp, rfl, rfl⟩
  · exact hi.setPhase (by simp [Obs.movesToCompensating]) (by simp [Obs.invokesExecute]) trivial
  · rcases hnext with rfl | ⟨c, rfl⟩
    · exact hi.setPhase nofun nofun trivial
    · exact hi.setPhase nofun nofun trivial
  · rw [WorkerRun.Noted, hp] at hnoted
    have hend : CompensationEnd (f.history ++ [.compensateReturned r run.execution.id])
        run.execution.id false :=
      ⟨r, List.mem_append_left _ hnoted, List.mem_append_right _ (.head _)⟩
    exact hi.setPhase (by simp [Obs.movesToCompensating]) (by simp [Obs.invokesExecute]) hend
  · rw [WorkerRun.Noted, hp] at hnoted
    have hend : CompensationEnd (f.history ++ [.compensateRaised r run.execution.id])
        run.execution.id true :=
      ⟨r, .inl ⟨List.mem_append_left _ hnoted, List.mem_append_right _ (.head _)⟩⟩
    exact hi.setPhase (by simp [Obs.movesToCompensating]) (by simp [Obs.invokesExecute]) hend

theorem begin_run {s t : Store} {k worker code detail : String} {now : Time}
    (h : (Call.beginCompensation k worker code detail now).run s = .ok t) :
    ∃ e, t.executions.get k = some e ∧ e.status = .compensating := by
  obtain ⟨w, hl, hc⟩ := Call.run_ok h
  have hm := Call.move (show Call.Selects s [] (.beginCompensation ..) from trivial) hl
  cases hm with
  | idle _ hi => cases hi
  | begin _ _ _ _ he =>
    rw [commit_executions hc rfl, get_writeExecution, if_pos rfl, he]
    exact ⟨_, rfl, write_execution_status_of_fresh rfl⟩

theorem CompensationInv.commit (hi : CompensationInv f) (hs : Sync f.store) {r : Nat}
    {run : WorkerRun} {now : Time} {c : Call} {st : ActionStatus} {t : Store}
    (hr : f.runs[r]? = some run) (hc : run.call now = some (c, st))
    (ht : repository.step f.store (.call c) t) (hrun : c.run f.store = .ok t)
    (hfin : FinishesExecuting f.store (.call c)) :
    CompensationInv { f.setPhase r run run.succeeded [.recorded r run.execution.id st] with
      store := t } := by
  have hnoted := hi.noted hr
  have hquiet : ∀ k, Moved f.history k →
      ∀ y ∈ [Obs.recorded r run.execution.id st], y.invokesExecute k = false := by
    simp [Obs.invokesExecute]
  have hreplay : NoReplay (f.history ++ [.recorded r run.execution.id st]) :=
    hi.no_replay.append (fun k => List.pairwise_singleton _ _) hquiet
  have hend : ∀ {id worker result err now'},
      Op.call c = .call (.finishCompensation id worker result err now') →
      CompensationEnd f.history id err := by
    intro id worker result err now' hop
    rcases WorkerRun.call_cases hc with ⟨_, -, -, rfl⟩ | ⟨_, _, -, -, rfl⟩ |
      ⟨result', err', hp, -, rfl⟩ | ⟨_, -, -, rfl⟩
    · cases hop
    · cases hop
    · cases hop
      rw [WorkerRun.Noted, hp] at hnoted
      exact hnoted
    · cases hop
  have htracked := hi.tracked.step hs ht hfin hend
  have hnew : ({ run with phase := run.succeeded } : WorkerRun).Noted
      (f.history ++ [.recorded r run.execution.id st]) r := by
    rcases run.succeeded_cases with h | ⟨c, exc, -, h⟩ <;> rw [h] <;> exact trivial
  refine ⟨?_, noted_setPhase hi.noted hnew, hreplay⟩
  have hother : st ≠ .compensating →
      Tracked t (f.history ++ [.recorded r run.execution.id st]) := by
    intro hst
    refine htracked.append fun k x hx => ?_
    obtain rfl := List.mem_singleton.mp hx
    cases st <;> first | rfl | exact absurd rfl hst
  rcases WorkerRun.call_cases hc with ⟨_, -, rfl, -⟩ | ⟨_, _, -, rfl, rfl⟩ | ⟨_, err, -, rfl, -⟩ |
    ⟨_, -, rfl, -⟩
  · exact hother (by decide)
  · obtain ⟨e, he, hst⟩ := begin_run hrun
    exact htracked.append_compensating he hst
  · exact hother (by cases err <;> decide)
  · refine hother fun heq => ?_
    exact absurd (heq ▸ finishStatus_terminal _) (by decide : ¬ ActionStatus.compensating.Terminal)

theorem CompensationInv.move (hi : CompensationInv f) (hs : Sync f.store)
    (h : FleetMove R f a g) (hc : f.KeepsCompensation a) : CompensationInv g := by
  cases h with
  | api hop ht =>
    refine ⟨hi.tracked.step hs ht (finishesExecuting_of_api hop) ?_, hi.noted, hi.no_replay⟩
    rintro id worker result err now rfl
    cases hop
  | idle => exact hi
  | @claim worker selected now t p e ht =>
    refine ⟨hi.tracked.step hs ht trivial nofun, ?_, hi.no_replay⟩
    intro r run hr
    rcases lt_or_ge r f.runs.length with hlt | hge
    · exact hi.noted (by rwa [List.getElem?_append_left hlt] at hr)
    · obtain rfl : run = ⟨worker, p, e, .checking⟩ := by
        rw [List.getElem?_append_right hge] at hr
        exact List.mem_singleton.mp (List.mem_of_getElem? hr)
      exact trivial
  | check _ _ _ _ result => exact hi.checked result
  | invoke hr hv => exact hi.invoked hr hc hv
  | answer _ hr hv => exact hi.answered hr hv
  | @refuse r run =>
    refine hi.setPhase nofun nofun ?_
    rcases run.failed_cases _ _ with h | ⟨cause, -, h⟩ <;> rw [h] <;> exact trivial
  | commit hr hcall ht hrun => exact hi.commit hs hr hcall ht hrun (hc _ hr _ hcall)
  | crash => exact hi.setPhase nofun nofun trivial

theorem compensation_kept (h : Reachable ((fleet R).when Fleet.KeepsCompensation) f) :
    NoReplay f.history ∧ ClosedByCompensation f := by
  have hi : CompensationInv f := by
    refine h.invariant (I := CompensationInv) (fun f h0 => ?_) fun f a g hf hi ht =>
      hi.move (sync_of_reachable (repository_of_fleet hf.of_when)) (fleet_move ht.2) ht.1
    rw [show f = .empty from h0]
    refine ⟨⟨?_, nofun⟩, nofun, fun _ => .nil⟩
    rintro k ⟨x, hx, -⟩
    cases hx
  exact ⟨hi.no_replay, fun _ _ he ht hm => hi.tracked.closed he ht hm⟩

end Fleet

/-- The first worker is about to execute when its lease runs out; the second executes, fails
and begins the compensation; then the first one goes on. -/
def Rename.replayed : List (Fleet → FleetEvent) :=
  fleetQueued ++ [workerClaim "worker-1" 5, fun _ => pass 0, workerClaim "worker-2" 20,
    fun _ => pass 1, fun _ => .invoke 1, fun _ => .answer 1 (.error (.other "RuntimeError")),
    fun _ => .call 1 21 none, fun _ => .invoke 0]

theorem compensation_kept_after_recovery :
    ∃ f, Reachable ((fleet Rename.rendering).when Fleet.KeepsCompensation) f ∧
      (f.store.executions.get "execution-1").any (·.status = .compensated) = true ∧
      NoReplay f.history ∧ ClosedByCompensation f := by
  have hrun : (runScript (guarded Fleet.KeepsCompensation (Fleet.step Rename.rendering)) .empty
      Rename.recovered).any (fun f =>
        (f.store.executions.get "execution-1").any (·.status = .compensated)) = true := by
    decide +kernel
  obtain ⟨f, hf, h⟩ := exists_reachable_of_runScript _ hrun
  exact ⟨f, when_of_guarded hf, h, compensation_kept (when_of_guarded hf)⟩

/-- An execution taken over while COMPENSATING is closed FAILED by a check that has nothing to do
with its compensation, and an execution that is being compensated is executed again. -/
theorem compensation_skipped_and_replayed :
    (∃ f, Reachable (fleet Rename.rendering) f ∧ ¬ ClosedByCompensation f) ∧
    ∃ f, Reachable (fleet Rename.rendering) f ∧ ¬ NoReplay f.history := by
  constructor
  · have hrun : (runScript (Fleet.step Rename.rendering) .empty Rename.recoveryFails).any
        (fun f => (f.store.executions.get "execution-1").any (fun e =>
          decide (e.status = .failed ∧ e.errorCode = some "POLICY_UNAVAILABLE")) &&
          decide (Moved f.history "execution-1")) = true := by
      decide +kernel
    obtain ⟨f, hf, h⟩ := exists_reachable_of_runScript _ hrun
    obtain ⟨he, hm⟩ := Bool.and_eq_true_iff.mp h
    obtain ⟨e, he, hst⟩ := (Option.any_eq_true _ _).mp he
    obtain ⟨hfailed, hcode⟩ := of_decide_eq_true hst
    refine ⟨f, hf, fun hall => ?_⟩
    rcases hall _ e he (.inr (.inl hfailed)) (of_decide_eq_true hm) with ⟨-, hc⟩ | ⟨-, -, hc⟩
    · rw [hfailed] at hc
      cases hc
    · rw [hcode] at hc
      exact absurd hc (by decide)
  · have hrun : (runScript (Fleet.step Rename.rendering) .empty Rename.replayed).any
        (fun f => decide (¬ f.history.Pairwise fun x y =>
          x.movesToCompensating "execution-1" = true → y.invokesExecute "execution-1" = false)) =
        true := by
      decide +kernel
    obtain ⟨f, hf, h⟩ := exists_reachable_of_runScript _ hrun
    exact ⟨f, hf, fun hall => of_decide_eq_true h (hall "execution-1")⟩

end DeerFlow.Semantic
