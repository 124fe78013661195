import DeerFlow.Middlewares.LlmErrorHandling

/-! The probe of a half-open circuit. Only the call that was let through as the probe may settle it;
while every such call does, and nobody else takes the flag away, the breaker reopens. -/

namespace DeerFlow.Middlewares
open Transition

section Property

namespace Circuit

def probed (c : Circuit) : Bool := c.state = .halfOpen ∧ c.probeInFlight = true

/-- The next failure finds the circuit open or leaves it open. -/
def trips (config : CircuitConfig) (c : Circuit) : Bool :=
  c.state = .halfOpen ∨ config.failureThreshold ≤ c.failureCount + 1

end Circuit

def ModelCall.probing (c : ModelCall) : Bool := c.probe && c.running

/-- The call ends at the error, and the circuit is not told. -/
def ModelCall.Drops (lower : Text → Text) (c : ModelCall) (e : LlmError) : Prop :=
  (e.classify lower).1 = false ∨ c.attempt < e.maxAttempts ∧ c.pause e = none

instance (lower : Text → Text) (c : ModelCall) (e : LlmError) : Decidable (c.Drops lower e) :=
  inferInstanceAs (Decidable (_ ∨ _))

namespace BreakerState

structure NeverWedged (s : BreakerState) : Prop where
  attended : s.circuit.state = .halfOpen → s.circuit.probeInFlight = true →
    ∃ c ∈ s.calls, c.probing = true
  single : ∀ (i j : Nat) (c d : ModelCall), s.calls[i]? = some c → s.calls[j]? = some d →
    c.probing = true → d.probing = true → i = j
  admits : (∀ c ∈ s.calls, c.running = false) → ∀ wrapper now, s.circuit.openUntil ≤ now →
    ∃ c, (s.start wrapper now).calls = s.calls ++ [c] ∧ c.pc = .calling

section Conditions
variable (config : CircuitConfig) (lower : Text → Text)

/-- A call ends in a way that leaves the circuit with no probe to settle it, or with room for a
second one. -/
def SlipsAt (s : BreakerState) (i : Nat) (c : ModelCall) : ModelCallEvent → Prop
  | .respond | .wake => False
  | .cancel => c.probe = true ∧ s.circuit.probed = true
  | .bubble => c.probe = false ∧ s.circuit.probed = true
  | .fail e _ =>
    if c.Drops lower e then c.probe = true ∧ s.circuit.probed = true
    else e.maxAttempts ≤ c.attempt ∧ s.circuit.trips config = true ∧
      (s.calls.eraseIdx i).any (·.probing) = true

def Slips (s : BreakerState) : BreakerEvent → Prop
  | .start _ _ => False
  | .call i event => ∃ c ∈ s.calls[i]?, s.SlipsAt config lower i c event

instance (s : BreakerState) (i : Nat) (c : ModelCall) (event : ModelCallEvent) :
    Decidable (s.SlipsAt config lower i c event) := by
  unfold SlipsAt
  split <;> infer_instance

instance (s : BreakerState) (event : BreakerEvent) : Decidable (s.Slips config lower event) := by
  unfold Slips
  split <;> infer_instance

end Conditions

end BreakerState

end Property

section Steps
variable {config : CircuitConfig} {lower : Text → Text}

theorem Circuit.check_cases (c : Circuit) (now : Rat) :
    (c.check now = (true, c) ∧ (now < c.openUntil ∨ c.probed = true)) ∨
    (c.check now = (false, c) ∧ c.state = .closed) ∨
    c.check now = (false, { c with state := .halfOpen, probeInFlight := true }) ∧
      c.state ≠ .closed ∧ c.probed = false := by
  obtain ⟨state, failures, openUntil, flag⟩ := c
  cases state with
  | closed => simp [check]
  | opened =>
    by_cases hnow : now < openUntil
    · simp [check, hnow]
    · simp [check, hnow, probed]
  | halfOpen => cases flag <;> simp [check, probed]

theorem Circuit.recordFailure_cases (config : CircuitConfig) (c : Circuit) (now : Rat) :
    ((c.recordFailure config now).state = c.state ∧ (c.recordFailure config now).probed = false) ∨
      ((c.recordFailure config now).state = .opened ∧ c.trips config = true) := by
  by_cases hhalf : c.state = .halfOpen
  · exact .inr ⟨by simp [recordFailure, hhalf], by simp [trips, hhalf]⟩
  · by_cases htrip : config.failureThreshold ≤ c.failureCount + 1
    · refine .inr ⟨?_, by simp [trips, htrip]⟩
      by_cases hopen : c.state = .opened <;> simp [recordFailure, htrip, hopen, hhalf]
    · exact .inl ⟨by simp [recordFailure, hhalf, htrip], by simp [recordFailure, probed, hhalf, htrip]⟩

theorem Circuit.not_probed_of_opened {c : Circuit} (h : c.state = .opened) : c.probed = false := by
  simp [probed, h]

theorem Circuit.releaseProbe_state (c : Circuit) : c.releaseProbe.state = c.state := by
  unfold releaseProbe
  split_ifs <;> rfl

theorem Circuit.not_probed_releaseProbe (c : Circuit) : c.releaseProbe.probed = false := by
  by_cases hhalf : c.state = .halfOpen <;> simp [releaseProbe, probed, hhalf]

namespace ModelCall

/-- What a step of a call does to the circuit, and whether the call goes on. -/
inductive Moved (config : CircuitConfig) (lower : Text → Text) (c : ModelCall) (circuit : Circuit) :
    ModelCallEvent → Circuit → Bool → Prop
  | settle : Moved config lower c circuit .respond circuit.recordSuccess false
  | release : Moved config lower c circuit .bubble circuit.releaseProbe false
  | retry {e : LlmError} {now : Rat} : Moved config lower c circuit (.fail e now) circuit true
  | record {e : LlmError} {now : Rat} : ¬ c.Drops lower e → e.maxAttempts ≤ c.attempt →
      Moved config lower c circuit (.fail e now) (circuit.recordFailure config now) false
  | drop {e : LlmError} {now : Rat} : c.Drops lower e →
      Moved config lower c circuit (.fail e now) circuit false
  | wake : Moved config lower c circuit .wake circuit true
  | cancel : Moved config lower c circuit .cancel circuit false

theorem moved_onError {c c' : ModelCall} {circuit circuit' : Circuit} {e : LlmError} {now : Rat}
    (h : c.onError config lower circuit e now = (circuit', c')) :
    c'.probe = c.probe ∧ Moved config lower c circuit (.fail e now) circuit' c'.running := by
  unfold onError at h
  dsimp only at h
  split_ifs at h with hretry hrecord
  · obtain ⟨rfl, rfl⟩ := Prod.mk.inj h
    rcases hpause : c.pause e with _ | wait
    · exact ⟨rfl, .drop (.inr ⟨hretry.2, hpause⟩)⟩
    · exact ⟨rfl, .retry⟩
  · obtain ⟨rfl, rfl⟩ := Prod.mk.inj h
    have hspent : e.maxAttempts ≤ c.attempt := Nat.le_of_not_lt fun hlt => hretry ⟨hrecord, hlt⟩
    refine ⟨rfl, .record (fun hdrops => ?_) hspent⟩
    rcases hdrops with hfinal | ⟨hlt, -⟩
    · rw [hrecord] at hfinal
      cases hfinal
    · exact Nat.not_lt.mpr hspent hlt
  · obtain ⟨rfl, rfl⟩ := Prod.mk.inj h
    exact ⟨rfl, .drop (.inl (Bool.not_eq_true _ ▸ hrecord))⟩

theorem moved_of_move {c c' : ModelCall} {circuit circuit' : Circuit} {event : ModelCallEvent}
    (h : c.move config lower circuit event = some (circuit', c')) :
    c.running = true ∧ c'.probe = c.probe ∧
      Moved config lower c circuit event circuit' c'.running := by
  have hcalling (hpc : c.pc = .calling) : c.running = true := by simp [running, hpc]
  cases event with
  | respond =>
    simp only [move, Option.ite_none_right_eq_some, Option.some.injEq, Prod.mk.injEq] at h
    obtain ⟨hpc, rfl, rfl⟩ := h
    exact ⟨hcalling hpc, rfl, .settle⟩
  | bubble =>
    simp only [move, Option.ite_none_right_eq_some, Option.some.injEq, Prod.mk.injEq] at h
    obtain ⟨hpc, rfl, rfl⟩ := h
    exact ⟨hcalling hpc, rfl, .release⟩
  | fail e now =>
    simp only [move, Option.ite_none_right_eq_some, Option.some.injEq] at h
    exact ⟨hcalling h.1, moved_onError h.2⟩
  | wake =>
    unfold move at h
    dsimp only at h
    split at h
    · next hpc =>
      cases h
      exact ⟨by simp [running, hpc], rfl, .wake⟩
    · cases h
  | cancel =>
    simp only [move, Option.ite_none_right_eq_some, Option.some.injEq, Prod.mk.injEq] at h
    obtain ⟨hasync, rfl, rfl⟩ := h
    exact ⟨hasync.2, rfl, .cancel⟩

end ModelCall

namespace BreakerState

/-- A probe that runs is the one in flight, or the circuit was closed meanwhile. -/
structure Watched (s : BreakerState) : Prop where
  flagged : ∀ c ∈ s.calls, c.probing = true →
    s.circuit.probed = true ∨ s.circuit.state = .closed
  attended : s.circuit.probed = true → ∃ c ∈ s.calls, c.probing = true
  single : ∀ (i j : Nat) (c d : ModelCall), s.calls[i]? = some c → s.calls[j]? = some d →
    c.probing = true → d.probing = true → i = j

theorem start_turnedAway {s : BreakerState} {circuit : Circuit} {now : Rat} (wrapper : ModelWrapper)
    (h : s.circuit.check now = (true, circuit)) : s.start wrapper now =
      ⟨circuit, s.calls ++ [⟨wrapper, false, 1, .returned (some circuitBreakerFallback)⟩]⟩ := by
  simp [start, h]

theorem start_admitted {s : BreakerState} {circuit : Circuit} {now : Rat} (wrapper : ModelWrapper)
    (h : s.circuit.check now = (false, circuit)) : s.start wrapper now =
      ⟨circuit, s.calls ++ [⟨wrapper, circuit.state = .halfOpen, 1, .calling⟩]⟩ := by
  simp [start, h]

theorem Watched.neverWedged {s : BreakerState} (h : s.Watched) : s.NeverWedged where
  attended := fun hstate hflag => h.attended (decide_eq_true ⟨hstate, hflag⟩)
  single := h.single
  admits := by
    intro hidle wrapper now hnow
    have hfree : s.circuit.probed = false := by
      rw [← Bool.not_eq_true]
      intro hprobed
      obtain ⟨c, hc, hprobing⟩ := h.attended hprobed
      have hrunning : c.running = true := (Bool.and_eq_true_iff.mp hprobing).2
      rw [hidle c hc] at hrunning
      cases hrunning
    rcases s.circuit.check_cases now with ⟨_, hopen⟩ | ⟨hcheck, _⟩ | ⟨hcheck, _⟩
    · rcases hopen with hearly | hprobed
      · exact absurd hearly (Rat.not_lt.mpr hnow)
      · rw [hfree] at hprobed
        cases hprobed
    · exact ⟨_, by rw [start_admitted wrapper hcheck], rfl⟩
    · exact ⟨_, by rw [start_admitted wrapper hcheck], rfl⟩

theorem Watched.not_probing {s : BreakerState} (h : s.Watched) (hstate : s.circuit.state ≠ .closed)
    (hfree : s.circuit.probed = false) {c : ModelCall} (hc : c ∈ s.calls) : c.probing = false := by
  rw [← Bool.not_eq_true]
  intro hprobing
  rcases h.flagged c hc hprobing with hprobed | hclosed
  · rw [hfree] at hprobed
    cases hprobed
  · exact hstate hclosed

theorem Watched.concat {s : BreakerState} (h : s.Watched) {c : ModelCall}
    (hc : c.probing = false) : Watched ⟨s.circuit, s.calls ++ [c]⟩ where
  flagged := by
    intro d hd hprobing
    rcases List.mem_append.mp hd with hd | hd
    · exact h.flagged d hd hprobing
    · rw [List.mem_singleton.mp hd, hc] at hprobing
      cases hprobing
  attended := by
    intro hprobed
    obtain ⟨d, hd, hprobing⟩ := h.attended hprobed
    exact ⟨d, List.mem_append_left _ hd, hprobing⟩
  single := by
    have hold {i : Nat} {d : ModelCall} (hd : (s.calls ++ [c])[i]? = some d)
        (hprobing : d.probing = true) : s.calls[i]? = some d := by
      rcases Slots.getElem?_concat hd with hd | ⟨_, rfl⟩
      · exact hd
      · rw [hc] at hprobing
        cases hprobing
    intro i j d e hd he hdp hep
    exact h.single i j d e (hold hd hdp) (hold he hep) hdp hep

theorem Watched.probe {s : BreakerState} (hfree : ∀ c ∈ s.calls, c.probing = false)
    {circuit : Circuit} (hprobed : circuit.probed = true) {c : ModelCall} (hc : c.probing = true) :
    Watched ⟨circuit, s.calls ++ [c]⟩ where
  flagged := fun _ _ _ => .inl hprobed
  attended := fun _ => ⟨c, List.mem_append_right _ (List.mem_singleton_self c), hc⟩
  single := by
    have hlast {i : Nat} {d : ModelCall} (hd : (s.calls ++ [c])[i]? = some d)
        (hprobing : d.probing = true) : i = s.calls.length := by
      rcases Slots.getElem?_concat hd with hd | ⟨hi, _⟩
      · rw [hfree d (List.mem_of_getElem? hd)] at hprobing
        cases hprobing
      · exact hi
    intro i j d e hd he hdp hep
    exact (hlast hd hdp).trans (hlast he hep).symm

theorem Watched.start {s : BreakerState} (h : s.Watched) (wrapper : ModelWrapper) (now : Rat) :
    (s.start wrapper now).Watched := by
  rcases s.circuit.check_cases now with ⟨hcheck, _⟩ | ⟨hcheck, hclosed⟩ | ⟨hcheck, hstate, hfree⟩
  · rw [start_turnedAway wrapper hcheck]
    exact h.concat (by simp [ModelCall.probing])
  · rw [start_admitted wrapper hcheck]
    exact h.concat (by simp [ModelCall.probing, hclosed])
  · rw [start_admitted wrapper hcheck]
    refine Watched.probe (fun c hc => h.not_probing hstate hfree hc) ?_ ?_
    · simp [Circuit.probed]
    · simp [ModelCall.probing, ModelCall.running]

section Call
variable {s : BreakerState} {i : Nat} {c c' : ModelCall}

theorem probing_of_modify (hc : s.calls[i]? = some c) (hkeep : c'.probing = true → c.probing = true)
    {j : Nat} {d : ModelCall} (hd : (s.calls.modify i fun _ => c')[j]? = some d)
    (hprobing : d.probing = true) : ∃ e, s.calls[j]? = some e ∧ e.probing = true := by
  obtain ⟨e, he, ⟨rfl, hnew⟩ | ⟨_, rfl⟩⟩ := Slots.getElem?_modify hd
  · rw [hnew] at hprobing
    exact ⟨c, hc, hkeep hprobing⟩
  · exact ⟨d, he, hprobing⟩

theorem Watched.modify (h : s.Watched) (hc : s.calls[i]? = some c)
    (hkeep : c'.probing = true → c.probing = true) {circuit : Circuit}
    (hflag : (∃ d ∈ s.calls.modify i fun _ => c', d.probing = true) →
      circuit.probed = true ∨ circuit.state = .closed)
    (hattend : circuit.probed = true →
      s.circuit.probed = true ∧ (c.probing = true → c'.probing = true)) :
    Watched ⟨circuit, s.calls.modify i fun _ => c'⟩ where
  flagged := fun d hd hprobing => hflag ⟨d, hd, hprobing⟩
  attended := by
    intro hprobed
    obtain ⟨hbefore, hgoes⟩ := hattend hprobed
    obtain ⟨d, hd, hprobing⟩ := h.attended hbefore
    obtain ⟨j, hj⟩ := List.mem_iff_getElem?.mp hd
    by_cases hij : i = j
    · subst hij
      obtain rfl : c = d := Option.some.inj (hc.symm.trans hj)
      have hnow := Slots.modify_self (f := fun _ => c') hj
      exact ⟨c', List.mem_of_getElem? hnow, hgoes hprobing⟩
    · exact ⟨d, List.mem_of_getElem? (Slots.modify_ne hij hj), hprobing⟩
  single := by
    intro j k d e hd he hdp hep
    obtain ⟨d', hd', hdp'⟩ := probing_of_modify hc hkeep hd hdp
    obtain ⟨e', he', hep'⟩ := probing_of_modify hc hkeep he hep
    exact h.single j k d' e' hd' he' hdp' hep'

theorem probes_before (hc : s.calls[i]? = some c) (hkeep : c'.probing = true → c.probing = true)
    (h : ∃ d ∈ s.calls.modify i fun _ => c', d.probing = true) :
    ∃ d ∈ s.calls, d.probing = true := by
  obtain ⟨d, hd, hprobing⟩ := h
  obtain ⟨j, hj⟩ := List.mem_iff_getElem?.mp hd
  obtain ⟨e, he, hep⟩ := probing_of_modify hc hkeep hj hprobing
  exact ⟨e, List.mem_of_getElem? he, hep⟩

theorem probes_beside (hended : c'.probing = false)
    (h : ∃ d ∈ s.calls.modify i fun _ => c', d.probing = true) :
    (s.calls.eraseIdx i).any (·.probing) = true := by
  obtain ⟨d, hd, hprobing⟩ := h
  obtain ⟨j, hj⟩ := List.mem_iff_getElem?.mp hd
  obtain ⟨e, he, ⟨rfl, rfl⟩ | ⟨hij, rfl⟩⟩ := Slots.getElem?_modify hj
  · rw [hended] at hprobing
    cases hprobing
  · exact List.any_eq_true.mpr ⟨d, List.mem_eraseIdx_iff_getElem?.mpr ⟨j, Ne.symm hij, he⟩, hprobing⟩

/-- Beside a probe that runs no other call probes. -/
theorem Watched.alone (h : s.Watched) (hc : s.calls[i]? = some c) (hprobing : c.probing = true) :
    ¬ (s.calls.eraseIdx i).any (·.probing) = true := by
  intro hany
  obtain ⟨d, hd, hdp⟩ := List.any_eq_true.mp hany
  obtain ⟨j, hji, hj⟩ := List.mem_eraseIdx_iff_getElem?.mp hd
  exact hji (h.single i j c d hc hj hprobing hdp).symm

theorem Watched.call (h : s.Watched) (hc : s.calls[i]? = some c) {event : ModelCallEvent}
    {circuit : Circuit} (hm : c.move config lower s.circuit event = some (circuit, c'))
    (hslip : ¬ s.SlipsAt config lower i c event) :
    Watched ⟨circuit, s.calls.modify i fun _ => c'⟩ := by
  obtain ⟨hrunning, hprobe, hmoved⟩ := ModelCall.moved_of_move hm
  have hkeep : c'.probing = true → c.probing = true := by
    intro hprobing
    rw [ModelCall.probing, hprobe] at hprobing
    simp [ModelCall.probing, hrunning, (Bool.and_eq_true_iff.mp hprobing).1]
  have hbefore : (∃ d ∈ s.calls.modify i fun _ => c', d.probing = true) →
      s.circuit.probed = true ∨ s.circuit.state = .closed := by
    intro hd
    obtain ⟨d, hd, hprobing⟩ := probes_before hc hkeep hd
    exact h.flagged d hd hprobing
  -- what a call that goes on, or was no probe, leaves to be done
  have hgoes (hon : c.probe = true → c'.running = true) : c.probing = true → c'.probing = true := by
    intro hprobing
    have hprobe' : c.probe = true := (Bool.and_eq_true_iff.mp hprobing).1
    simp [ModelCall.probing, hprobe, hprobe', hon hprobe']
  generalize hrest : c'.running = goesOn at hmoved
  cases hmoved with
  | settle =>
    refine h.modify hc hkeep (fun _ => .inr rfl) fun hprobed => ?_
    simp [Circuit.recordSuccess, Circuit.probed] at hprobed
  | release =>
    have hended : c'.probing = false := by simp [ModelCall.probing, hrest]
    refine h.modify hc hkeep (fun hd => ?_) fun hprobed => ?_
    · have hbeside := probes_beside hended hd
      rcases hbefore hd with hprobed | hclosed
      · -- the call that ends is then the probe itself, and no other call probes
        have hself : c.probe = true := by
          rw [← Bool.not_eq_false]
          exact fun hno => hslip ⟨hno, hprobed⟩
        exact absurd hbeside (h.alone hc (by simp [ModelCall.probing, hself, hrunning]))
      · exact .inr ((Circuit.releaseProbe_state _).trans hclosed)
    · rw [Circuit.not_probed_releaseProbe] at hprobed
      cases hprobed
  | retry | wake => exact h.modify hc hkeep hbefore fun hprobed => ⟨hprobed, hgoes fun _ => hrest⟩
  | @record e now hkept hspent =>
    have hended : c'.probing = false := by simp [ModelCall.probing, hrest]
    have hlast (htrips : s.circuit.trips config = true) :
        ¬ ∃ d ∈ s.calls.modify i fun _ => c', d.probing = true := by
      intro hd
      apply hslip
      rw [SlipsAt, if_neg hkept]
      exact ⟨hspent, htrips, probes_beside hended hd⟩
    have hfree : (s.circuit.recordFailure config now).probed = false := by
      rcases s.circuit.recordFailure_cases config now with ⟨_, hfree⟩ | ⟨hopened, _⟩
      · exact hfree
      · exact Circuit.not_probed_of_opened hopened
    refine h.modify hc hkeep (fun hd => ?_) fun hprobed => by simp [hfree] at hprobed
    rcases s.circuit.recordFailure_cases config now with ⟨hstate, _⟩ | ⟨_, htrips⟩
    · rcases hbefore hd with hprobed | hclosed
      · have hhalf : s.circuit.state = .halfOpen := (of_decide_eq_true hprobed).1
        have htrips : s.circuit.trips config = true := by simp [Circuit.trips, hhalf]
        exact absurd hd (hlast htrips)
      · exact .inr (hstate.trans hclosed)
    · exact absurd hd (hlast htrips)
  | drop hdrops =>
    have hslip' : ¬ (c.probe = true ∧ s.circuit.probed = true) := by
      rwa [SlipsAt, if_pos hdrops] at hslip
    exact h.modify hc hkeep hbefore fun hprobed =>
      ⟨hprobed, hgoes fun hself => absurd ⟨hself, hprobed⟩ hslip'⟩
  | cancel =>
    exact h.modify hc hkeep hbefore fun hprobed =>
      ⟨hprobed, hgoes fun hself => absurd ⟨hself, hprobed⟩ hslip⟩

end Call

theorem Watched.step {s t : BreakerState} {event : BreakerEvent} (h : s.Watched)
    (hslip : ¬ s.Slips config lower event) (hs : s.step config lower event = some t) :
    t.Watched := by
  cases event with
  | start wrapper now =>
    cases hs
    exact h.start wrapper now
  | call i event =>
    obtain ⟨c, hc, hs⟩ := Option.bind_eq_some_iff.mp hs
    obtain ⟨⟨circuit, c'⟩, hm, rfl⟩ := Option.map_eq_some_iff.mp hs
    exact h.call hc hm fun hat => hslip ⟨c, hc, hat⟩

theorem watched_init : init.Watched where
  flagged := fun _ hc => by simp [init] at hc
  attended := fun hprobed => by simp [init, Circuit.init, Circuit.probed] at hprobed
  single := fun _ _ _ _ hc => by simp [init] at hc

end BreakerState

end Steps

section Main
variable {config : CircuitConfig} {lower : Text → Text}

/-- The runs in which every probe settles the circuit, and nobody else does so for it. -/
def BreakerState.settled (config : CircuitConfig) (lower : Text → Text) :
    System BreakerState BreakerEvent :=
  (llmErrorHandling config lower).when fun s event => ¬ s.Slips config lower event

theorem BreakerState.never_wedged {s : BreakerState}
    (h : Reachable (BreakerState.settled config lower) s) : s.NeverWedged := by
  have hwatched : s.Watched := by
    refine h.invariant (I := Watched) ?_ ?_
    · rintro s rfl
      exact watched_init
    · intro s event t _ hs ht
      exact hs.step ht.1 ht.2
  exact hwatched.neverWedged

end Main

namespace BreakerRun

def config : CircuitConfig := ⟨1, 60⟩

def lower (text : Text) : Text := text.map Char.toLower

def timeout : LlmError :=
  ⟨"APITimeoutError", "Request timed out.".toList, none, "None".toList, none, false, .absent⟩

/-- `Retry-After: inf`. -/
def overloaded : LlmError :=
  ⟨"InternalServerError", "overloaded".toList, none, "None".toList, some 503, false, .infinite⟩

def unauthorized : LlmError :=
  ⟨"AuthenticationError", "Invalid API key".toList, none, "None".toList, some 401, false, .absent⟩

def onCall (i : Nat) (events : List ModelCallEvent) : List BreakerEvent := events.map (.call i)

/-- The first call uses up its attempts, and the circuit is open until the clock shows 60. -/
def trip : List BreakerEvent :=
  onCall 0 [.fail timeout 0, .wake, .fail timeout 0, .wake, .fail timeout 0]

def called (now : Rat) : BreakerEvent := .start .async now

def reopened : List (BreakerState → BreakerEvent) :=
  ([called 0] ++ trip ++ [called 30, called 60] ++ onCall 2 [.respond] ++ [called 61]).map
    fun event _ => event

def wedgedBy (last : ModelCallEvent) : List (BreakerState → BreakerEvent) :=
  ([called 0] ++ trip ++ [called 60] ++ onCall 1 [last]).map fun event _ => event

/-- A call from before the circuit opened gives the flag of the probe away. -/
def probedTwice : List (BreakerState → BreakerEvent) :=
  ([called 0, called 0] ++ trip ++ [called 60] ++ onCall 1 [.bubble] ++ [called 60]).map
    fun event _ => event

def wedged (s : BreakerState) : Bool := s.calls.all (fun c => !c.running) && s.circuit.probed

theorem not_neverWedged_of_wedged {s : BreakerState} (h : wedged s = true) :
    (∀ now, (s.circuit.check now).1 = true) ∧ ¬ s.NeverWedged := by
  obtain ⟨hidle, hprobed⟩ := Bool.and_eq_true_iff.mp h
  obtain ⟨hstate, hflag⟩ := of_decide_eq_true hprobed
  refine ⟨fun now => by simp [Circuit.check, hstate, hflag], fun hnever => ?_⟩
  obtain ⟨c, hc, hprobing⟩ := hnever.attended hstate hflag
  have hended := List.all_eq_true.mp hidle c hc
  simp [(Bool.and_eq_true_iff.mp hprobing).2] at hended

end BreakerRun

theorem never_wedged_after_probe :
    ∃ s, Reachable (BreakerState.settled BreakerRun.config BreakerRun.lower) s ∧
      s.calls.map (·.probe) = [false, false, true, false] ∧
      s.calls.map (·.running) = [false, false, false, true] ∧ s.NeverWedged := by
  have hrun : (runScript (guarded (fun s event =>
      ¬ BreakerState.Slips BreakerRun.config BreakerRun.lower s event)
      (BreakerState.step BreakerRun.config BreakerRun.lower)) .init BreakerRun.reopened).any (fun s =>
        decide (s.calls.map (·.probe) = [false, false, true, false] ∧
          s.calls.map (·.running) = [false, false, false, true])) = true := by
    decide +kernel
  obtain ⟨s, hs, hprobes, hrunning⟩ := exists_reachable_of_decide _ hrun
  exact ⟨s, when_of_guarded hs, hprobes, hrunning,
    BreakerState.never_wedged (when_of_guarded hs)⟩

/-- A probe that fails for good, is told to wait for ever, or is cancelled, turns every later call
away; and a call from before makes room for a second probe. -/
theorem breaker_wedges_and_probes_twice :
    (∀ last ∈ [ModelCallEvent.fail BreakerRun.unauthorized 61, .fail BreakerRun.overloaded 61, .cancel],
      ∃ s, Reachable (llmErrorHandling BreakerRun.config BreakerRun.lower) s ∧
        (∀ now, (s.circuit.check now).1 = true) ∧ ¬ s.NeverWedged) ∧
    ∃ s, Reachable (llmErrorHandling BreakerRun.config BreakerRun.lower) s ∧
      s.calls.map (·.probing) = [false, false, true, true] ∧ ¬ s.NeverWedged := by
  constructor
  · have hwedged : ∀ last ∈ [ModelCallEvent.fail BreakerRun.unauthorized 61,
        .fail BreakerRun.overloaded 61, .cancel],
        (runScript (BreakerState.step BreakerRun.config BreakerRun.lower) .init
          (BreakerRun.wedgedBy last)).any BreakerRun.wedged = true := by
      decide +kernel
    intro last hlast
    obtain ⟨s, hs, h⟩ := exists_reachable_of_runScript _ (hwedged last hlast)
    exact ⟨s, hs, BreakerRun.not_neverWedged_of_wedged h⟩
  · have hrun : (runScript (BreakerState.step BreakerRun.config BreakerRun.lower) .init
        BreakerRun.probedTwice).any (fun s =>
          decide (s.calls.map (·.probing) = [false, false, true, true])) = true := by
      decide +kernel
    obtain ⟨s, hs, hcalls⟩ := exists_reachable_of_decide _ hrun
    refine ⟨s, hs, hcalls, fun hnever => ?_⟩
    have hprobing (i : Nat) (hi : [false, false, true, true][i]? = some true) :
        ∃ c, s.calls[i]? = some c ∧ c.probing = true := by
      rw [← hcalls, List.getElem?_map] at hi
      exact Option.map_eq_some_iff.mp hi
    obtain ⟨c, hc, hcp⟩ := hprobing 2 rfl
    obtain ⟨d, hd, hdp⟩ := hprobing 3 rfl
    have hsame := hnever.single 2 3 c d hc hd hcp hdp
    cases hsame

end DeerFlow.Middlewares
