import DeerFlow.Mcp.SessionAccounts

/-! Calls of `get_session` for one key share a creation. A cancellation reaches the others when
the creator is cancelled before the session is ready, and it is lost on a call that waits for an
evicted owner of its own loop. -/

namespace DeerFlow.Mcp
open Transition

section Sharing

/-- The owner has published its session, or is on the way to it. -/
def SessionOwner.Promising (w : SessionOwner) : Prop :=
  w.ready = .result ∨ w.ready = .pending ∧ w.cancelled = false ∧
    (w.pc = .created ∨ w.pc = .connecting ∨ w.pc = .initializing)

def Next.joins? : Next → Option Nat
  | join o => some o
  | create _ | close => none

def CallPc.joins? : CallPc → Option Nat
  | shutting _ next | awaitOwner _ _ next | awaitForeign _ _ next => next.joins?
  | joining o => some o
  | waiting _ | unwinding _ _ | dismissed _ | returned _ | raised _ => none

def CallPc.waitsFor? : CallPc → Option Nat
  | waiting o => some o
  | _ => none

/-- The call waits in `_shutdown`, which takes no notice of a cancellation. -/
def CallPc.deaf : CallPc → Bool
  | awaitOwner _ _ _ => true
  | _ => false

namespace SessionPool

def Initialized (s : SessionPool) (o : Nat) : Prop :=
  ∃ w : SessionOwner, s.owners[o]? = some w ∧ w.ready = .result

def Promised (s : SessionPool) (o : Nat) : Prop :=
  ∃ w : SessionOwner, s.owners[o]? = some w ∧ w.Promising

/-- Something other than concurrent calls for one key on one loop: a `close_*`, an owner that
fails to connect or to initialize or is interrupted, or a call for a key whose creation is in
flight on another loop. -/
def Intrudes (s : SessionPool) : PoolEvent → Prop
  | .closeScope _ _ | .closeServer _ _ | .closeAll _ | .owner _ .interrupt => True
  | .owner o .fail => ∃ w ∈ s.owners[o]?, w.pc ≠ .exiting
  | .getSession key loop => ∃ o ∈ s.inflight? key, s.loopOf o ≠ some loop
  | .owner _ .proceed | .owner _ .beCancelled | .resume _ | .cancel _ | .loop _ _ => False

/-- The creator of a session that is not ready is cancelled while another call has joined it, or
its creation is joined after that, or a call is cancelled that takes no notice. -/
def Infects (s : SessionPool) : PoolEvent → Prop
  | .cancel i => ∃ c ∈ s.calls[i]?, c.pc.deaf = true ∨
    ∃ o ∈ c.pc.waitsFor?, (∃ w ∈ s.owners[o]?, w.ready = .pending) ∧
      ∃ d ∈ s.calls, d.pc.joins? = some o
  | .getSession key _ => ∃ o ∈ s.inflight? key, ∃ w ∈ s.owners[o]?,
    w.cancelled = true ∧ w.ready ≠ .result
  | _ => False

/-- What a call of `get_session` comes to: an initialized session unless it was cancelled, a
`CancelledError` if it was, and in between an owner that is on its way. -/
structure Served (s : SessionPool) (c : PoolCall) : Prop where
  returned : ∀ result, c.pc = .returned result →
    c.cancelled = false ∧ ∃ o, result = some o ∧ s.Initialized o
  raised : ∀ failure, c.pc = .raised failure → c.cancelled = true ∧ failure = .cancelledError
  waits : ∀ o, c.pc = .joining o ∨ c.pc = .waiting o → s.Promised o

end SessionPool

instance (s : SessionPool) (event : PoolEvent) : Decidable (s.Intrudes event) := by
  unfold SessionPool.Intrudes
  rcases event with _ | _ | _ | _ | ⟨_, _ | _⟩ | _ <;> infer_instance

instance (s : SessionPool) (event : PoolEvent) : Decidable (s.Infects event) := by
  unfold SessionPool.Infects
  rcases event with _ | _ <;> infer_instance

end Sharing

section Invariant
variable {s t : SessionPool} {o i : Nat} {c : PoolCall}

def CallPc.countsOn? : CallPc → Option Nat
  | shutting _ next | awaitOwner _ _ next | awaitForeign _ _ next => next.joins?.or next.creates?
  | joining o | waiting o => some o
  | unwinding _ _ | dismissed _ | returned _ | raised _ => none

/-- Where a call of `get_session` may be, by whether it was cancelled. -/
def CallPc.Placed (cancelled : Bool) : CallPc → Prop
  | shutting _ next | awaitOwner _ _ next => next ≠ .close
  | joining _ | waiting _ | returned _ => True
  | unwinding _ failure | raised failure => cancelled = true ∧ failure = .cancelledError
  | awaitForeign _ _ _ | dismissed _ => False

namespace SessionPool

/-- A call counts on a promising owner, has only initialized sessions on its list, and returns
one. -/
structure Fits (s : SessionPool) (c : PoolCall) : Prop where
  placed : c.pc.Placed c.cancelled
  counts : ∀ o ∈ c.pc.countsOn?, c.cancelled = false ∧ s.Promised o
  rest : ∀ p ∈ c.pc.rest, p.2 = false ∧ s.Initialized p.1
  returned : ∀ result, c.pc = .returned result →
    c.cancelled = false ∧ ∃ o, result = some o ∧ s.Initialized o

/-- Every call fits, an owner that is not cancelled is promising, registered sessions are
initialized, and a call that creates has its record in flight. -/
structure Shared (s : SessionPool) : Prop where
  calls : ∀ c ∈ s.calls, s.Fits c
  owners : ∀ w ∈ s.owners, w.cancelled = false → w.Promising
  entries : ∀ e ∈ s.entries, s.Initialized e.2
  creators : ∀ (i o : Nat) (c : PoolCall), s.calls[i]? = some c → c.pc.creates? = some o →
    ∃ w : SessionOwner, s.owners[o]? = some w ∧ w.creator = i ∧ (w.key, o) ∈ s.inflight
  keys : (s.inflight.map Prod.fst).Nodup

theorem Fits.mono (h : s.Fits c) (hinit : ∀ o, s.Initialized o → t.Initialized o)
    (hprom : ∀ o ∈ c.pc.countsOn?, s.Promised o → t.Promised o) : t.Fits c where
  placed := h.placed
  counts o ho := (h.counts o ho).imp_right (hprom o ho)
  rest p hp := (h.rest p hp).imp_right (hinit p.1)
  returned result hpc := by
    obtain ⟨hc, o, hresult, ho⟩ := h.returned result hpc
    exact ⟨hc, o, hresult, hinit o ho⟩

/-- What a call counts on, it has joined or creates. -/
theorem joins_or_creates {pc : CallPc} (h : pc.countsOn? = some o) :
    pc.joins? = some o ∨ pc.creates? = some o := by
  have hnext : ∀ {next : Next}, next.joins?.or next.creates? = some o →
      next.joins? = some o ∨ next.creates? = some o := by
    intro next hnext
    cases next with
    | join k => exact .inl hnext
    | create k => exact .inr hnext
    | close => cases hnext
  cases pc with
  | shutting _ _ | awaitOwner _ _ _ | awaitForeign _ _ _ => exact hnext h
  | joining k => exact .inl h
  | waiting k => exact .inr h
  | unwinding _ _ | dismissed _ | returned _ | raised _ => cases h

section Owners
variable {f : SessionOwner → SessionOwner}

/-- An owner changes, but keeps its name, its session and what it has promised. -/
structure Keeps (w w' : SessionOwner) : Prop where
  key : w'.key = w.key
  creator : w'.creator = w.creator
  ready : w.ready = .result → w'.ready = .result
  promising : w.Promising → w'.Promising
  honest : (w.cancelled = false → w.Promising) → w'.cancelled = false → w'.Promising

theorem initialized_modifyOwner
    (hf : ∀ w : SessionOwner, s.owners[o]? = some w → w.ready = .result → (f w).ready = .result)
    {k : Nat} (h : s.Initialized k) : (s.modifyOwner o f).Initialized k := by
  obtain ⟨w, hw, hready⟩ := h
  obtain ⟨w', hw', ⟨rfl, rfl⟩ | ⟨-, rfl⟩⟩ := Slots.modify_of_getElem? (i := o) (f := f) hw
  · exact ⟨f w, hw', hf w hw hready⟩
  · exact ⟨w', hw', hready⟩

theorem promised_modifyOwner {k : Nat}
    (hf : ∀ w : SessionOwner, s.owners[o]? = some w → o = k → w.Promising → (f w).Promising)
    (h : s.Promised k) : (s.modifyOwner o f).Promised k := by
  obtain ⟨w, hw, hpromising⟩ := h
  obtain ⟨w', hw', ⟨rfl, rfl⟩ | ⟨-, rfl⟩⟩ := Slots.modify_of_getElem? (i := o) (f := f) hw
  · exact ⟨f w, hw', hf w hw rfl hpromising⟩
  · exact ⟨w', hw', hpromising⟩

theorem creators_modifyOwner (hf : ∀ w : SessionOwner, s.owners[o]? = some w →
      (f w).key = w.key ∧ (f w).creator = w.creator) {i k : Nat}
    (h : ∃ w : SessionOwner, s.owners[k]? = some w ∧ w.creator = i ∧ (w.key, k) ∈ s.inflight) :
    ∃ w : SessionOwner, (s.modifyOwner o f).owners[k]? = some w ∧ w.creator = i ∧
      (w.key, k) ∈ s.inflight := by
  obtain ⟨w, hw, hcreator, hin⟩ := h
  obtain ⟨w', hw', ⟨rfl, rfl⟩ | ⟨-, rfl⟩⟩ := Slots.modify_of_getElem? (i := o) (f := f) hw
  · obtain ⟨hkey, hsame⟩ := hf w hw
    exact ⟨f w, hw', hsame.trans hcreator, hkey ▸ hin⟩
  · exact ⟨w', hw', hcreator, hin⟩

theorem Shared.modifyOwner (h : s.Shared)
    (hf : ∀ w : SessionOwner, s.owners[o]? = some w → Keeps w (f w)) : (s.modifyOwner o f).Shared where
  calls c hc := (h.calls c hc).mono
    (fun _ => initialized_modifyOwner fun w hw => (hf w hw).ready)
    fun _ _ => promised_modifyOwner fun w hw _ => (hf w hw).promising
  owners w' hmem := by
    obtain ⟨k, hw'⟩ := List.getElem?_of_mem hmem
    obtain ⟨w, hw, ⟨rfl, rfl⟩ | ⟨-, rfl⟩⟩ := Slots.getElem?_modify hw'
    · exact (hf w hw).honest (h.owners w (List.mem_of_getElem? hw))
    · exact h.owners w' (List.mem_of_getElem? hw)
  entries e he := initialized_modifyOwner (fun w hw => (hf w hw).ready) (h.entries e he)
  creators i k c hc hcreates :=
    creators_modifyOwner (fun w hw => ⟨(hf w hw).key, (hf w hw).creator⟩) (h.creators i k c hc hcreates)
  keys := h.keys

theorem Keeps.of_ready {w w' : SessionOwner} (hkey : w'.key = w.key)
    (hcreator : w'.creator = w.creator) (hready : w.ready = .result → w'.ready = .result)
    (hpending : w.ready = .pending → w.cancelled = false →
      w.pc = .created ∨ w.pc = .connecting ∨ w.pc = .initializing → w'.Promising)
    (hcancelled : w'.cancelled = w.cancelled) : Keeps w w' := by
  have hpromising : w.Promising → w'.Promising := by
    rintro (hresult | ⟨hp, hc, hpc⟩)
    · exact .inl (hready hresult)
    · exact hpending hp hc hpc
  refine ⟨hkey, hcreator, hready, hpromising, fun hhonest hc => hpromising (hhonest ?_)⟩
  exact hcancelled.symm.trans hc

theorem initialized_tell {k : Nat} {cancel : Bool} (h : s.Initialized k) :
    (s.tell o cancel).Initialized k := by
  unfold tell
  refine initialized_modifyOwner (fun w _ hready => ?_) h
  exact hready

/-- An owner is told to close and cancelled, on which no call counts while its session is not
ready. -/
theorem Shared.tellCancel (h : s.Shared) {w : SessionOwner} (hw : s.owners[o]? = some w)
    (hfree : w.ready = .result ∨ ∀ d ∈ s.calls, d.pc.countsOn? ≠ some o) :
    (s.tell o true).Shared where
  calls d hd := by
    refine (h.calls d hd).mono (fun _ => initialized_tell)
      fun k hk => promised_modifyOwner fun v hv hok _ => ?_
    subst hok
    obtain rfl := Option.some.inj (hw.symm.trans hv)
    rcases hfree with hresult | hfree
    · exact .inl hresult
    · exact absurd hk (hfree d hd)
  owners w' hmem hcancelled := by
    obtain ⟨k, hw'⟩ := List.getElem?_of_mem hmem
    obtain ⟨v, hv, ⟨-, rfl⟩ | ⟨-, rfl⟩⟩ := Slots.getElem?_modify hw'
    · rw [show (v.cancelled || true) = true from Bool.or_true _] at hcancelled
      cases hcancelled
    · exact h.owners w' (List.mem_of_getElem? hv) hcancelled
  entries e he := initialized_tell (h.entries e he)
  creators i k c hc hcreates := by
    unfold tell
    refine creators_modifyOwner (fun w _ => ?_) (h.creators i k c hc hcreates)
    exact ⟨rfl, rfl⟩
  keys := h.keys

end Owners

section Calls
variable {f : PoolCall → PoolCall}

theorem Shared.modifyCall (h : s.Shared) (hcall : s.calls[i]? = some c) (hfits : s.Fits (f c))
    (hcreates : ∀ o, (f c).pc.creates? = some o → c.pc.creates? = some o) :
    Shared { s with calls := s.calls.modify i f } where
  calls d hd := by
    obtain ⟨j, hj⟩ := List.getElem?_of_mem hd
    rcases Slots.modify_cases hcall hj with ⟨rfl, rfl⟩ | ⟨-, hd₀⟩
    · exact hfits.mono (fun _ => id) fun _ _ => id
    · exact (h.calls d (List.mem_of_getElem? hd₀)).mono (fun _ => id) fun _ _ => id
  owners := h.owners
  entries := h.entries
  creators j o d hd hdo := by
    rcases Slots.modify_cases hcall hd with ⟨rfl, rfl⟩ | ⟨-, hd₀⟩
    · exact h.creators i o c hcall (hcreates o hdo)
    · exact h.creators j o d hd₀ hdo
  keys := h.keys

theorem Shared.inflight?_of_mem (h : s.Shared) {key : SessionKey} (hmem : (key, o) ∈ s.inflight) :
    s.inflight? key = some o := find?_key_of_mem h.keys hmem rfl

theorem Shared.settle (h : s.Shared) {w : SessionOwner} (hcall : s.calls[i]? = some c)
    (hcreates : c.pc.creates? = some o) (hw : s.owners[o]? = some w)
    {entries : List (SessionKey × Nat)} (hentries : ∀ e ∈ entries, s.Initialized e.2)
    (hf : (f c).pc.creates? = none) (hfits : s.Fits (f c)) :
    Shared { s with
      entries := entries
      inflight := s.inflight.filter fun e => e.1 ≠ w.key
      calls := s.calls.modify i f } where
  calls d hd := by
    obtain ⟨j, hj⟩ := List.getElem?_of_mem hd
    rcases Slots.modify_cases hcall hj with ⟨rfl, rfl⟩ | ⟨-, hd₀⟩
    · exact hfits.mono (fun _ => id) fun _ _ => id
    · exact (h.calls d (List.mem_of_getElem? hd₀)).mono (fun _ => id) fun _ _ => id
  owners := h.owners
  entries := hentries
  creators j k d hd hdk := by
    rcases Slots.modify_cases hcall hd with ⟨rfl, rfl⟩ | ⟨hij, hd₀⟩
    · rw [hf] at hdk
      cases hdk
    · obtain ⟨v, hv, hcreator, hin⟩ := h.creators j k d hd₀ hdk
      obtain ⟨w', hw', hcreator', hin'⟩ := h.creators i o c hcall hcreates
      obtain rfl := Option.some.inj (hw.symm.trans hw')
      refine ⟨v, hv, hcreator, List.mem_filter.mpr ⟨hin, decide_eq_true fun hkey => hij ?_⟩⟩
      -- another record of the key would be the record of another creator
      have heq := List.inj_on_of_nodup_map h.keys hin hin' hkey
      obtain ⟨-, rfl⟩ := Prod.mk.inj heq
      obtain rfl := Option.some.inj (hv.symm.trans hw)
      exact hcreator'.symm.trans hcreator
  keys := (List.filter_sublist.map Prod.fst).nodup h.keys

theorem Shared.addCall (h : s.Shared) {loop : Nat} {pc : CallPc}
    {entries : List (SessionKey × Nat)} (hentries : ∀ e ∈ entries, e ∈ s.entries)
    (hpc : pc.creates? = none) (hfits : s.Fits ⟨loop, pc, false⟩) :
    Shared { s.addCall loop pc with entries := entries } where
  calls d hd := by
    rcases List.mem_append.mp hd with hd | hd
    · exact (h.calls d hd).mono (fun _ => id) fun _ _ => id
    · rw [List.mem_singleton.mp hd]
      exact hfits.mono (fun _ => id) fun _ _ => id
  owners := h.owners
  entries e he := h.entries e (hentries e he)
  creators j k d hd hdk := by
    rcases Slots.getElem?_concat hd with hd | ⟨rfl, rfl⟩
    · exact h.creators j k d hd hdk
    · rw [hpc] at hdk
      cases hdk
  keys := h.keys

/-- A call enters and creates an owner for a key that has none in flight. -/
theorem Shared.createOwner (h : s.Shared) {key : SessionKey} (loop : Nat)
    {evicted : List (Nat × Bool)} (hnone : s.inflight? key = none)
    (hevicted : ∀ p ∈ evicted, p.2 = false ∧ s.Initialized p.1) :
    (s.createOwner key loop evicted).Shared := by
  have hinit : ∀ k, s.Initialized k → (s.createOwner key loop evicted).Initialized k := by
    rintro k ⟨w, hw, hready⟩
    exact ⟨w, Slots.concat_of_getElem? hw, hready⟩
  have hprom : ∀ k, s.Promised k → (s.createOwner key loop evicted).Promised k := by
    rintro k ⟨w, hw, hpromising⟩
    exact ⟨w, Slots.concat_of_getElem? hw, hpromising⟩
  have hnew : SessionOwner.Promising ⟨key, loop, s.calls.length, .created, .pending, false, false⟩ :=
    .inr ⟨rfl, rfl, .inl rfl⟩
  exact {
    calls := fun d hd => by
      rcases List.mem_append.mp hd with hd | hd
      · exact (h.calls d hd).mono hinit fun k _ => hprom k
      · rw [List.mem_singleton.mp hd]
        refine ⟨nofun, fun k hk => ⟨rfl, ?_⟩, fun p hp => ?_,
          fun result he => (by cases he)⟩
        · cases hk
          exact ⟨_, List.getElem?_concat_length, hnew⟩
        · exact (hevicted p hp).imp_right (hinit p.1)
    owners := fun w hw => by
      rcases List.mem_append.mp hw with hw | hw
      · exact h.owners w hw
      · rw [List.mem_singleton.mp hw]
        exact fun _ => hnew
    entries := fun e he => hinit e.2 (h.entries e he)
    creators := fun j k d hd hdk => by
      rcases Slots.getElem?_concat hd with hd | ⟨rfl, rfl⟩
      · obtain ⟨w, hw, hcreator, hin⟩ := h.creators j k d hd hdk
        exact ⟨w, Slots.concat_of_getElem? hw, hcreator, List.mem_append_left _ hin⟩
      · cases hdk
        exact ⟨_, List.getElem?_concat_length, rfl,
          List.mem_append_right _ (List.mem_singleton_self _)⟩
    keys := by
      show ((s.inflight ++ [(key, s.owners.length)]).map Prod.fst).Nodup
      rw [List.map_append, List.nodup_append]
      refine ⟨h.keys, List.nodup_singleton _, fun k hk k' hk' hsame => ?_⟩
      obtain ⟨e, he, rfl⟩ := List.mem_map.mp hk
      exact inflight?_none hnone e he (hsame.trans (List.mem_singleton.mp hk')) }

end Calls

end SessionPool

end Invariant

section Steps
variable {maxSessions : Nat} {s t : SessionPool} {o i : Nat} {c : PoolCall}
open SessionPool

/-- An owner that goes on keeps its promise, and one that takes notice of a cancellation had
none to keep. -/
theorem keeps_act {w w' : SessionOwner} {action : OwnerAction} (h : w.act action = some w')
    (hfail : action = .fail → w.pc = .exiting) (hinterrupt : action ≠ .interrupt) :
    Keeps w w' := by
  have hmodify : ∀ {pc : OwnerPc} {ready : Ready},
      (w.ready = .pending → w.cancelled = false →
        w.pc = .created ∨ w.pc = .connecting ∨ w.pc = .initializing →
        (w.modify pc ready).Promising) → Keeps w (w.modify pc ready) := by
    intro pc ready hpending
    refine .of_ready rfl rfl (fun hresult => ?_) hpending rfl
    unfold SessionOwner.modify
    simp only [hresult]
    rfl
  have hlate : ∀ {pc : OwnerPc} {ready : Ready}, w.pc = .waiting ∨ w.pc = .exiting →
      Keeps w (w.modify pc ready) := by
    intro pc ready hpc
    refine hmodify fun _ _ hearly => ?_
    rcases hpc with hpc | hpc
    · rw [hpc] at hearly
      rcases hearly with he | he | he <;> cases he
    · rw [hpc] at hearly
      rcases hearly with he | he | he <;> cases he
  -- a cancelled owner has promised nothing unless its session is published, and that stays
  unfold SessionOwner.act at h
  cases action with
  | proceed =>
    simp only at h
    split at h
    · next hpc =>
      cases h
      refine hmodify fun hp hc _ => .inr ⟨?_, hc, .inr (.inl rfl)⟩
      unfold SessionOwner.modify
      rw [if_pos hp]
      exact hp
    · next hpc =>
      cases h
      refine hmodify fun hp hc _ => .inr ⟨?_, hc, .inr (.inr rfl)⟩
      unfold SessionOwner.modify
      rw [if_pos hp]
      exact hp
    · next hpc =>
      cases h
      exact hmodify fun hp _ _ => .inl (if_pos hp)
    · next hpc =>
      split at h
      · cases h
        exact hlate (.inl hpc)
      · cases h
    · next hpc =>
      cases h
      exact hlate (.inr hpc)
    · cases h
  | fail =>
    have hpc := hfail rfl
    simp only [hpc] at h
    cases h
    exact hlate (.inr hpc)
  | interrupt => exact absurd rfl hinterrupt
  | beCancelled =>
    simp only at h
    split at h
    · next hcancelled =>
      have hnot : ∀ {pc : OwnerPc} {ready : Ready}, Keeps w (w.modify pc ready) := by
        intro pc ready
        refine hmodify fun _ hc _ => ?_
        rw [hcancelled] at hc
        cases hc
      split at h
      · cases h
        exact hnot
      · cases h
        exact hnot
      · cases h
        exact hnot
      · cases h
        exact hnot
      · cases h
        exact hnot
      · cases h
    · cases h

namespace SessionPool

theorem Shared.tell (h : s.Shared) (o : Nat) : (s.tell o false).Shared := by
  refine h.modifyOwner fun w _ => .of_ready rfl rfl id (fun hp hc hpc => ?_) (Bool.or_false _)
  exact .inr ⟨hp, (Bool.or_false _).trans hc, hpc⟩

theorem Fits.next (h : s.Fits c) {p : Nat × Bool} {rest : List (Nat × Bool)} {pc : CallPc}
    (hc : c.pc.rest = p :: rest) (hrest : pc.rest = rest) (hcounts : pc.countsOn? = c.pc.countsOn?)
    (hplaced : pc.Placed c.cancelled) (hreturned : ∀ result, pc ≠ .returned result) :
    s.Fits { c with pc := pc } where
  placed := hplaced
  counts k hk := h.counts k (hcounts ▸ hk)
  rest q hq := by
    refine h.rest q ?_
    rw [hc]
    exact List.mem_cons_of_mem _ (hrest ▸ hq)
  returned result he := absurd he (hreturned result)

theorem Shared.shutOne (h : s.Shared) {cancel : Bool} {rest : List (Nat × Bool)} {next : Next}
    (hcall : s.calls[i]? = some c) (hpc : c.pc = .shutting ((o, cancel) :: rest) next) :
    (s.shutOne i c.loop o cancel rest next).Shared := by
  have hfits := h.calls c (List.mem_of_getElem? hcall)
  have hc : c.pc.rest = (o, cancel) :: rest := by rw [hpc]; rfl
  have hnext : next ≠ .close := by
    have hplaced := hfits.placed
    rw [hpc] at hplaced
    exact hplaced
  -- only registered sessions are on the list, and they are told to close without a cancellation
  obtain rfl : cancel = false := (hfits.rest (o, cancel) (hc ▸ List.mem_cons_self)).1
  have htold := h.tell o
  have hfits' := htold.calls c (List.mem_of_getElem? hcall)
  have hcreates : ∀ k, next.creates? = some k → c.pc.creates? = some k := by
    intro k hk
    rw [hpc]
    exact hk
  have hcounts : c.pc.countsOn? = next.joins?.or next.creates? := by rw [hpc]; rfl
  unfold SessionPool.shutOne
  simp only
  split
  · exact htold.modifyCall hcall
      (hfits'.next hc rfl hcounts.symm hnext fun result he => (by cases he)) hcreates
  · split
    · split
      · next hclose =>
        rw [Bool.false_or] at hclose
        exact absurd (of_decide_eq_true hclose) hnext
      · exact htold.modifyCall hcall
          (hfits'.next hc rfl hcounts.symm hnext fun result he => (by cases he)) hcreates
    · exact htold.modifyCall hcall
        (hfits'.next hc rfl hcounts.symm hnext fun result he => (by cases he)) hcreates
    all_goals
      exact h.modifyCall hcall
        (hfits.next hc rfl hcounts.symm hnext fun result he => (by cases he)) hcreates

/-- The owner that a call counts on has its session or has not failed. -/
theorem Promised.ready (h : s.Promised o) {w : SessionOwner} (hw : s.owners[o]? = some w)
    (failure : Failure) : w.ready ≠ .exception failure := by
  intro hfailure
  obtain ⟨v, hv, hresult | ⟨hpending, -, -⟩⟩ := h
  · obtain rfl := Option.some.inj (hw.symm.trans hv)
    rw [hfailure] at hresult
    cases hresult
  · obtain rfl := Option.some.inj (hw.symm.trans hv)
    rw [hfailure] at hpending
    cases hpending

theorem Fits.settled {pc : CallPc} (hplaced : pc.Placed c.cancelled) (hrest : pc.rest = [])
    (hcounts : ∀ k ∈ pc.countsOn?, c.cancelled = false ∧ s.Promised k)
    (hreturned : ∀ result, pc = .returned result →
      c.cancelled = false ∧ ∃ o, result = some o ∧ s.Initialized o) :
    s.Fits { c with pc := pc } where
  placed := hplaced
  counts := hcounts
  rest p hp := by
    change p ∈ pc.rest at hp
    rw [hrest] at hp
    cases hp
  returned := hreturned

theorem Shared.resume (h : s.Shared) (hcall : s.calls[i]? = some c)
    (ht : s.resume i c = some t) : t.Shared := by
  have hfits := h.calls c (List.mem_of_getElem? hcall)
  have hplaced := hfits.placed
  have hcounts := hfits.counts
  unfold SessionPool.resume at ht
  split at ht
  · next k hpc =>
    cases ht
    rw [hpc] at hcounts
    refine h.modifyCall hcall (.settled trivial rfl hcounts fun result he => (by cases he))
      fun k hk => (by cases hk)
  · next k hpc =>
    cases ht
    rw [hpc] at hcounts
    refine h.modifyCall hcall (.settled trivial rfl hcounts fun result he => (by cases he))
      fun k hk => ?_
    rw [hpc]
    exact hk
  · next hpc =>
    rw [hpc] at hplaced
    exact absurd rfl hplaced
  · next k cancel rest next hpc =>
    cases ht
    exact h.shutOne hcall hpc
  · next k rest next hpc =>
    obtain ⟨w, hw, ht⟩ := Option.bind_eq_some_iff.mp ht
    split at ht
    · cases ht
      rw [hpc] at hplaced hcounts
      have hlist := hfits.rest
      rw [hpc] at hlist
      refine h.modifyCall hcall ⟨hplaced, hcounts, hlist, fun result he => (by cases he)⟩ fun k hk => ?_
      rw [hpc]
      exact hk
    · cases ht
  · next k rest next hpc =>
    rw [hpc] at hplaced
    exact hplaced.elim
  · next k hpc =>
    obtain ⟨w, hw, ht⟩ := Option.bind_eq_some_iff.mp ht
    rw [hpc] at hcounts
    obtain ⟨hc, hpromised⟩ := hcounts k rfl
    split at ht
    · cases ht
    · next hresult =>
      cases ht
      refine h.modifyCall hcall (.settled trivial rfl (fun k hk => (by cases hk))
        fun result he => ?_) fun k hk => (by cases hk)
      cases he
      exact ⟨hc, k, rfl, w, hw, hresult⟩
    · next failure hfailure => exact absurd hfailure (hpromised.ready hw failure)
  · next k hpc =>
    obtain ⟨w, hw, ht⟩ := Option.bind_eq_some_iff.mp ht
    rw [hpc] at hcounts
    obtain ⟨hc, hpromised⟩ := hcounts k rfl
    have hcreates : c.pc.creates? = some k := by rw [hpc]; rfl
    split at ht
    · cases ht
    · next hresult =>
      -- nobody else takes the record of a creation out, so it is still there
      obtain ⟨v, hv, -, hin⟩ := h.creators i k c hcall hcreates
      obtain rfl := Option.some.inj (hw.symm.trans hv)
      rw [if_pos (h.inflight?_of_mem hin)] at ht
      cases ht
      refine h.settle hcall hcreates hw (fun e he => ?_) rfl
        (.settled trivial rfl (fun k hk => (by cases hk)) fun result he => ?_)
      · rcases mem_upsert Prod.fst he with rfl | he
        · exact ⟨w, hw, hresult⟩
        · exact h.entries e he
      · cases he
        exact ⟨hc, k, rfl, w, hw, hresult⟩
    · next failure hfailure => exact absurd hfailure (hpromised.ready hw failure)
  · next k failure hpc =>
    obtain ⟨w, hw, ht⟩ := Option.bind_eq_some_iff.mp ht
    have hcreates : c.pc.creates? = some k := by rw [hpc]; rfl
    split at ht
    · cases ht
      obtain ⟨v, hv, -, hin⟩ := h.creators i k c hcall hcreates
      obtain rfl := Option.some.inj (hw.symm.trans hv)
      unfold SessionPool.dropInflight
      rw [if_pos (h.inflight?_of_mem hin)]
      rw [hpc] at hplaced
      exact h.settle hcall hcreates hw h.entries rfl (.settled hplaced rfl
        (fun k hk => (by cases hk)) fun result he => (by cases he))
    · cases ht
  · next k hpc =>
    rw [hpc] at hplaced
    exact hplaced.elim
  · cases ht
  · cases ht

theorem markCancelled_setCall (s : SessionPool) (i : Nat) (pc : CallPc) :
    (s.markCancelled i).setCall i pc = { s with
      calls := s.calls.modify i fun c => { c with pc := pc, cancelled := true } } := by
  unfold markCancelled setCall
  rw [List.modify_modify_eq]
  rfl

theorem Shared.raise (h : s.Shared) (hcall : s.calls[i]? = some c) :
    ((s.markCancelled i).setCall i (.raised .cancelledError)).Shared := by
  rw [markCancelled_setCall]
  refine h.modifyCall hcall ⟨⟨rfl, rfl⟩, fun k hk => (by cases hk), fun p hp => (by cases hp),
    fun result he => (by cases he)⟩ fun k hk => (by cases hk)

/-- A cancelled creator unwinds: the owner is told to close and cancelled, and nobody else counts
on it unless its session is ready. -/
theorem Shared.unwind (h : s.Shared) {w : SessionOwner} (hcall : s.calls[i]? = some c)
    (hpc : c.pc = .waiting o) (hw : s.owners[o]? = some w)
    (hfree : w.ready = .result ∨ ∀ d ∈ s.calls, d.pc.joins? ≠ some o) :
    (((s.markCancelled i).tell o true).setCall i (.unwinding o .cancelledError)).Shared := by
  have hcreates : c.pc.creates? = some o := by rw [hpc]; rfl
  have hunwound : Shared { s with calls := s.calls.modify i fun c =>
      { c with pc := .unwinding o .cancelledError, cancelled := true } } := by
    refine h.modifyCall hcall ⟨⟨rfl, rfl⟩, fun k hk => (by cases hk), fun p hp => (by cases hp),
      fun result he => (by cases he)⟩ fun k hk => ?_
    cases hk
    exact hcreates
  have heq : ((s.markCancelled i).tell o true).setCall i (.unwinding o .cancelledError) =
      ((s.markCancelled i).setCall i (.unwinding o .cancelledError)).tell o true := rfl
  rw [heq, markCancelled_setCall]
  refine hunwound.tellCancel hw (hfree.imp_right fun hfree d hd hcounts => ?_)
  obtain ⟨j, hj⟩ := List.getElem?_of_mem hd
  obtain ⟨d₀, hd₀, ⟨-, rfl⟩ | ⟨hij, rfl⟩⟩ := Slots.getElem?_modify hj
  · cases hcounts
  · rcases joins_or_creates hcounts with hjoins | hcreates'
    · exact hfree d (List.mem_of_getElem? hd₀) hjoins
    · -- an owner has one creator
      obtain ⟨v, hv, hcreator, -⟩ := h.creators i o c hcall hcreates
      obtain ⟨v', hv', hcreator', -⟩ := h.creators j o d hd₀ hcreates'
      obtain rfl := Option.some.inj (hv.symm.trans hv')
      exact hij (hcreator.symm.trans hcreator')

theorem Shared.cancelCall (h : s.Shared) (hcall : s.calls[i]? = some c)
    (hopen : ¬ s.Infects (.cancel i)) (ht : s.cancelCall i c = some t) : t.Shared := by
  have hfits := h.calls c (List.mem_of_getElem? hcall)
  have hplaced := hfits.placed
  unfold SessionPool.cancelCall at ht
  simp only at ht
  split at ht
  · next hpc => exact absurd ⟨c, hcall, .inl (by rw [hpc]; rfl)⟩ hopen
  · next hpc =>
    rw [hpc] at hplaced
    exact hplaced.elim
  · next hpc =>
    rw [hpc] at hplaced
    exact hplaced.elim
  · cases ht
    exact h.raise hcall
  · next o hpc =>
    obtain ⟨w, hw, rfl⟩ := Option.map_eq_some_iff.mp ht
    -- the owner of a waiting creator has not failed; it is pending, and unshared, or ready
    have hpromised := (hfits.counts o (by rw [hpc]; rfl)).2
    split
    · next failure hfailure => exact absurd hfailure (hpromised.ready hw failure)
    · next hpending =>
      refine h.unwind hcall hpc hw (.inr fun d hd hjoins => ?_)
      exact hopen ⟨c, hcall, .inr ⟨o, by rw [hpc]; rfl, ⟨w, hw, hpending⟩, d, hd, hjoins⟩⟩
    · next hresult => exact h.unwind hcall hpc hw (.inl hresult)
  · next o failure hpc =>
    obtain ⟨w, hw, rfl⟩ := Option.map_eq_some_iff.mp ht
    have hcreates : c.pc.creates? = some o := by rw [hpc]; rfl
    obtain ⟨v, hv, -, hin⟩ := h.creators i o c hcall hcreates
    obtain rfl := Option.some.inj (hw.symm.trans hv)
    rw [hpc] at hplaced
    have hours : (s.markCancelled i).inflight? w.key = some o := h.inflight?_of_mem hin
    have heq : ((s.markCancelled i).dropInflight o w.key).setCall i (.raised failure) =
        { s with
          inflight := s.inflight.filter fun e => e.1 ≠ w.key
          calls := s.calls.modify i fun c =>
            { c with pc := .raised failure, cancelled := true } } := by
      unfold SessionPool.dropInflight
      rw [if_pos hours]
      unfold SessionPool.markCancelled SessionPool.setCall
      simp only [List.modify_modify_eq]
      rfl
    rw [heq]
    exact h.settle hcall hcreates hw h.entries rfl ⟨⟨rfl, hplaced.2⟩, fun k hk => (by cases hk),
      fun p hp => (by cases hp), fun result he => (by cases he)⟩
  all_goals cases ht

section Open
variable {key : SessionKey} {loop : Nat}

theorem Shared.moved (h : s.Shared) : ∀ p ∈ s.moved key, p.2 = false ∧ s.Initialized p.1 := by
  intro p hp
  obtain ⟨o, ho, rfl⟩ := List.mem_map.mp hp
  exact ⟨rfl, h.entries _ (mem_entries_of_entry (Option.mem_toList.mp ho))⟩

theorem Shared.oldest (h : s.Shared) :
    ∀ p ∈ s.oldest maxSessions key, p.2 = false ∧ s.Initialized p.1 := by
  intro p hp
  obtain ⟨e, he, rfl⟩ := List.mem_map.mp hp
  exact ⟨rfl, h.entries e (List.mem_of_mem_filter (List.mem_of_mem_take he))⟩

/-- The entries that are left after the eviction. -/
theorem Shared.kept (h : s.Shared) : Shared { s with
    entries := (s.others key).drop (s.excess maxSessions key) } where
  calls c hc := (h.calls c hc).mono (fun _ => id) fun _ _ => id
  owners := h.owners
  entries e he := h.entries e (List.mem_of_mem_filter (List.mem_of_mem_drop he))
  creators := h.creators
  keys := h.keys

theorem Shared.getSession (h : s.Shared) (hquiet : ¬ s.Intrudes (.getSession key loop))
    (hopen : ¬ s.Infects (.getSession key loop)) : (s.getSession maxSessions key loop).Shared := by
  have hevicted : ∀ p ∈ s.moved key ++ s.oldest maxSessions key,
      p.2 = false ∧ s.Initialized p.1 := by
    intro p hp
    rcases List.mem_append.mp hp with hp | hp
    · exact h.moved p hp
    · exact h.oldest p hp
  unfold SessionPool.getSession
  simp only
  split
  · next hhit =>
    obtain ⟨o, ho, -⟩ := Option.bind_eq_some_iff.mp hhit
    refine h.addCall (fun e he => ?_) rfl ⟨trivial, fun k hk => (by cases hk),
      fun p hp => (by cases hp), fun result he => ?_⟩
    · rcases List.mem_append.mp he with he | he
      · exact List.mem_of_mem_filter he
      · exact List.mem_of_mem_filter he
    · cases he
      exact ⟨rfl, o, ho, h.entries _ (mem_entries_of_entry ho)⟩
  · split
    · next hnone => exact h.kept.createOwner loop hnone hevicted
    · next joined hjoined =>
      have hloop : s.loopOf joined = some loop :=
        Classical.not_not.mp fun hne => hquiet ⟨joined, hjoined, hne⟩
      rw [if_pos hloop]
      obtain ⟨w, hw, -⟩ := Option.map_eq_some_iff.mp hloop
      -- a cancelled owner may be joined only when its session is ready
      have hpromising : w.Promising := by
        cases hcancelled : w.cancelled with
        | false => exact h.owners w (List.mem_of_getElem? hw) hcancelled
        | true =>
          exact .inl (Classical.not_not.mp fun hne => hopen ⟨joined, hjoined, w, hw, hcancelled, hne⟩)
      refine h.kept.addCall (fun e he => he) rfl ⟨fun hk => (by cases hk), fun k hk => ⟨rfl, ?_⟩,
        hevicted, fun result he => (by cases he)⟩
      cases hk
      exact ⟨w, hw, hpromising⟩

end Open

theorem Shared.step (h : s.Shared) {event : PoolEvent} (hquiet : ¬ s.Intrudes event)
    (hopen : ¬ s.Infects event) (ht : SessionPool.step maxSessions s event = some t) : t.Shared := by
  unfold SessionPool.step at ht
  cases event with
  | getSession key l =>
    simp only at ht
    split at ht
    · cases ht
      exact h.getSession hquiet hopen
    · cases ht
  | closeScope scope l | closeServer server l | closeAll l => exact absurd trivial hquiet
  | owner o action =>
    obtain ⟨w, hw, ht⟩ := Option.bind_eq_some_iff.mp ht
    split at ht
    · obtain ⟨w', hw', rfl⟩ := Option.map_eq_some_iff.mp ht
      refine h.modifyOwner fun v hv => ?_
      obtain rfl := Option.some.inj (hw.symm.trans hv)
      refine keeps_act hw' ?_ ?_
      · rintro rfl
        exact Classical.not_not.mp fun hpc => hquiet ⟨w, hw, hpc⟩
      · rintro rfl
        exact hquiet trivial
    · cases ht
  | resume i =>
    obtain ⟨c, hcall, ht⟩ := Option.bind_eq_some_iff.mp ht
    split at ht
    · exact h.resume hcall ht
    · cases ht
  | cancel i =>
    obtain ⟨c, hcall, ht⟩ := Option.bind_eq_some_iff.mp ht
    split at ht
    · exact h.cancelCall hcall hopen ht
    · cases ht
  | loop l status =>
    simp only at ht
    split at ht
    · cases ht
      exact ⟨fun c hc => (h.calls c hc).mono (fun _ => id) fun _ _ => id, h.owners, h.entries,
        h.creators, h.keys⟩
    · cases ht

/-- The system in which only calls of `get_session` compete, for one key on one loop each time,
and no cancellation infects another call. -/
def sharing (maxSessions : Nat) : System SessionPool PoolEvent :=
  (sessionPool maxSessions).when fun s event => ¬ s.Intrudes event ∧ ¬ s.Infects event

theorem shared_of_reachable (h : Reachable (sharing maxSessions) s) : s.Shared := by
  refine h.invariant ?_ fun s event t _ hs hstep => ?_
  · rintro s rfl
    exact ⟨fun c hc => (by cases hc), fun w hw => (by cases hw), fun e he => (by cases he),
      fun i o c hc => (by cases hc), List.nodup_nil⟩
  · exact hs.step hstep.1.1 hstep.1.2 hstep.2

end SessionPool

end Steps

namespace PoolRun

/-- Three calls share a creation, and one that has joined it is cancelled. -/
def shared : List (SessionPool → PoolEvent) :=
  ([.getSession ("browser", "a") 0, .getSession ("browser", "a") 0, .getSession ("browser", "a") 0,
    .resume 0, .resume 1, .resume 2, .owner 0 .proceed, .cancel 1, .owner 0 .proceed,
    .owner 0 .proceed, .resume 0, .resume 2] : List PoolEvent).map fun event _ => event

def infected : List (SessionPool → PoolEvent) :=
  ([.getSession ("browser", "a") 0, .getSession ("browser", "a") 0, .resume 0, .resume 1,
    .owner 0 .proceed, .owner 0 .proceed, .cancel 0, .owner 0 .beCancelled, .owner 0 .proceed,
    .resume 0, .resume 1] : List PoolEvent).map fun event _ => event

/-- A call is cancelled while it waits for the owner that it has evicted. -/
def ignored : List (SessionPool → PoolEvent) :=
  ([.getSession ("browser", "a") 0, .resume 0, .owner 0 .proceed, .owner 0 .proceed,
    .owner 0 .proceed, .resume 0, .getSession ("browser", "b") 0, .resume 1, .cancel 1,
    .owner 0 .beCancelled, .owner 0 .proceed, .resume 1, .resume 1, .owner 1 .proceed,
    .owner 1 .proceed, .owner 1 .proceed, .resume 1] : List PoolEvent).map fun event _ => event

end PoolRun

end DeerFlow.Mcp
