import DeerFlow.Mcp.SessionPool

/-! No session of the pool is lost, two sessions of one key are not kept, and the pool does not
grow beyond its bound, as long as no call is cancelled while it waits for another loop with
something left to do, and no session is registered in a full pool. -/

namespace DeerFlow.Mcp
open Transition

section Accounts

def SessionOwner.Live (w : SessionOwner) : Prop := w.pc = .initializing ∨ w.pc = .waiting

def Next.creates? : Next → Option Nat
  | create o => some o
  | join _ | close => none

/-- The owner a call is creating, until it is registered or given up. -/
def CallPc.creates? : CallPc → Option Nat
  | shutting _ next | awaitOwner _ _ next | awaitForeign _ _ next => next.creates?
  | waiting o | unwinding o _ => some o
  | joining _ | dismissed _ | returned _ | raised _ => none

namespace SessionPool

/-- The owner was told to close, or is on the list of a call that is still telling. -/
def Told (s : SessionPool) (o : Nat) : Prop :=
  (∃ w ∈ s.owners[o]?, w.closeEvt = true ∨ w.cancelled = true) ∨
    ∃ c ∈ s.calls, ∃ cancel, (o, cancel) ∈ c.pc.rest

/-- The record in flight of the owner is there, and so is the call that made it. -/
def InCreation (s : SessionPool) (o : Nat) (w : SessionOwner) : Prop :=
  (w.key, o) ∈ s.inflight ∧ ∃ c ∈ s.calls[w.creator]?, c.pc.ended = false

structure Accounted (maxSessions : Nat) (s : SessionPool) : Prop where
  owned : ∀ (o : Nat) (w : SessionOwner), s.owners[o]? = some w → w.Live →
    (w.key, o) ∈ s.entries ∨ s.InCreation o w ∨ s.Told o
  single : ∀ (o o' : Nat) (w w' : SessionOwner), s.owners[o]? = some w → s.owners[o']? = some w' →
    w.Live → w'.Live → w.key = w'.key → ¬ s.Told o → ¬ s.Told o' → o = o'
  bounded : s.entries.length ≤ maxSessions

end SessionPool

/-- The call waits for the owner of another loop, and has owners left to tell or a creation in
flight. -/
def CallPc.abandons : CallPc → Bool
  | awaitForeign _ rest next => !rest.isEmpty || next != .close
  | _ => false

namespace SessionPool

/-- The next step of the call registers a session in a full pool. -/
def overfills (maxSessions : Nat) (s : SessionPool) (c : PoolCall) : Bool :=
  match c.pc with
  | .waiting o => s.owners[o]?.any fun w =>
    w.ready = .result && s.inflight? w.key = some o && maxSessions ≤ s.entries.length
  | _ => false

/-- A call is cancelled that then leaves something undone, or a session is registered in a full
pool. -/
def Abandons (maxSessions : Nat) (s : SessionPool) : PoolEvent → Prop
  | .cancel i => ∃ c ∈ s.calls[i]?, c.pc.abandons = true
  | .resume i => ∃ c ∈ s.calls[i]?, s.overfills maxSessions c = true
  | _ => False

end SessionPool

instance (maxSessions : Nat) (s : SessionPool) (event : PoolEvent) :
    Decidable (s.Abandons maxSessions event) := by
  unfold SessionPool.Abandons
  rcases event with _ | _ <;> infer_instance

instance (s : SessionPool) (o : Nat) : Decidable (s.Told o) := by
  unfold SessionPool.Told
  infer_instance

end Accounts

section Registry
variable {maxSessions : Nat} {s : SessionPool} {o i : Nat}

def SessionOwner.Going (w : SessionOwner) : Prop :=
  w.closeEvt = true ∨ w.cancelled = true ∨ w.pc = .exiting ∨ w.pc = .ended

/-- An owner that has failed goes. -/
def SessionOwner.Honest (w : SessionOwner) : Prop :=
  ∀ failure, w.ready = .exception failure → w.Going

/-- The owner does nothing that would keep its session longer. -/
structure SessionOwner.Grows (w w' : SessionOwner) : Prop where
  key : w'.key = w.key
  loop : w'.loop = w.loop
  creator : w'.creator = w.creator
  going : w.Going → w'.Going
  ended : w.pc = .ended → w'.pc = .ended
  honest : w.Honest → w'.Honest

theorem SessionOwner.Grows.refl (w : SessionOwner) : w.Grows w := ⟨rfl, rfl, rfl, id, id, id⟩

namespace SessionPool

def Gone (s : SessionPool) (o : Nat) : Prop :=
  ∀ w : SessionOwner, s.owners[o]? = some w → w.Going

def Leaving (s : SessionPool) (o : Nat) : Prop :=
  ∃ w : SessionOwner, s.owners[o]? = some w ∧ w.Going

theorem Leaving.gone (h : s.Leaving o) : s.Gone o := by
  intro w hw
  obtain ⟨w', hw', hgoing⟩ := h
  obtain rfl := Option.some.inj (hw.symm.trans hw')
  exact hgoing

/-- Every key has one record at most, and every owner without one is going or on the list of
a call; a record in flight belongs to a call that is still creating. -/
structure Sound (maxSessions : Nat) (s : SessionPool) : Prop where
  keys : ((s.entries ++ s.inflight).map Prod.fst).Nodup
  named : ∀ e ∈ s.entries ++ s.inflight, ∃ w : SessionOwner, s.owners[e.2]? = some w ∧ w.key = e.1
  owned : ∀ (o : Nat) (w : SessionOwner), s.owners[o]? = some w →
    (w.key, o) ∈ s.entries ++ s.inflight ∨ w.Going ∨ ∃ c ∈ s.calls, ∃ b, (o, b) ∈ c.pc.rest
  created : ∀ e ∈ s.inflight, ∀ w : SessionOwner, s.owners[e.2]? = some w →
    ∃ c : PoolCall, s.calls[w.creator]? = some c ∧ c.pc.creates? = some e.2
  undone : ∀ c ∈ s.calls, ∀ o failure, c.pc = .unwinding o failure → s.Leaving o
  honest : ∀ w ∈ s.owners, w.Honest
  closed : ∀ w ∈ s.owners, s.loops w.loop = .closed → w.pc = .ended
  bounded : s.entries.length ≤ maxSessions

section Owners
variable {f : SessionOwner → SessionOwner}

theorem owner_of_modifyOwner (hf : ∀ w : SessionOwner, s.owners[o]? = some w → w.Grows (f w))
    {k : Nat} {w' : SessionOwner} (h : (s.modifyOwner o f).owners[k]? = some w') :
    ∃ w, s.owners[k]? = some w ∧ w.Grows w' := by
  obtain ⟨w, hw, ⟨rfl, rfl⟩ | ⟨-, rfl⟩⟩ := Slots.getElem?_modify h
  · exact ⟨w, hw, hf w hw⟩
  · exact ⟨w', hw, .refl w'⟩

theorem modifyOwner_of_owner (hf : ∀ w : SessionOwner, s.owners[o]? = some w → w.Grows (f w))
    {k : Nat} {w : SessionOwner} (h : s.owners[k]? = some w) :
    ∃ w', (s.modifyOwner o f).owners[k]? = some w' ∧ w.Grows w' := by
  obtain ⟨w', hw', ⟨rfl, rfl⟩ | ⟨-, rfl⟩⟩ := Slots.modify_of_getElem? (i := o) (f := f) h
  · exact ⟨f w, hw', hf w h⟩
  · exact ⟨w', hw', .refl w'⟩

theorem Leaving.modifyOwner {k : Nat} (h : s.Leaving k)
    (hf : ∀ w : SessionOwner, s.owners[o]? = some w → w.Grows (f w)) :
    (s.modifyOwner o f).Leaving k := by
  obtain ⟨w, hw, hgoing⟩ := h
  obtain ⟨w', hw', hgrows⟩ := modifyOwner_of_owner hf hw
  exact ⟨w', hw', hgrows.going hgoing⟩

theorem Sound.modifyOwner (h : s.Sound maxSessions)
    (hf : ∀ w : SessionOwner, s.owners[o]? = some w → w.Grows (f w)) :
    (s.modifyOwner o f).Sound maxSessions where
  keys := h.keys
  named e he := by
    obtain ⟨w, hw, hkey⟩ := h.named e he
    obtain ⟨w', hw', hgrows⟩ := modifyOwner_of_owner hf hw
    exact ⟨w', hw', hgrows.key.trans hkey⟩
  owned k w' hw' := by
    obtain ⟨w, hw, hgrows⟩ := owner_of_modifyOwner hf hw'
    rw [hgrows.key]
    exact (h.owned k w hw).imp_right fun hgoing => hgoing.imp_left hgrows.going
  created e he w' hw' := by
    obtain ⟨w, hw, hgrows⟩ := owner_of_modifyOwner hf hw'
    rw [hgrows.creator]
    exact h.created e he w hw
  undone c hc k failure hpc := (h.undone c hc k failure hpc).modifyOwner hf
  honest w' hmem := by
    obtain ⟨k, hw'⟩ := List.getElem?_of_mem hmem
    obtain ⟨w, hw, hgrows⟩ := owner_of_modifyOwner hf hw'
    exact hgrows.honest (h.honest w (List.mem_of_getElem? hw))
  closed w' hmem hclosed := by
    obtain ⟨k, hw'⟩ := List.getElem?_of_mem hmem
    obtain ⟨w, hw, hgrows⟩ := owner_of_modifyOwner hf hw'
    rw [hgrows.loop] at hclosed
    exact hgrows.ended (h.closed w (List.mem_of_getElem? hw) hclosed)
  bounded := h.bounded

theorem grows_tell (w : SessionOwner) (cancel : Bool) :
    w.Grows { w with closeEvt := true, cancelled := w.cancelled || cancel } :=
  ⟨rfl, rfl, rfl, fun _ => .inl rfl, id, fun _ _ _ => .inl rfl⟩

theorem grows_cancel (w : SessionOwner) : w.Grows { w with cancelled := true } :=
  ⟨rfl, rfl, rfl, fun _ => .inr (.inl rfl), id, fun _ _ _ => .inr (.inl rfl)⟩

theorem gone_tell (s : SessionPool) (o : Nat) (cancel : Bool) : (s.tell o cancel).Gone o := by
  intro w' hw'
  obtain ⟨w, -, ⟨-, rfl⟩ | ⟨hne, -⟩⟩ := Slots.getElem?_modify hw'
  · exact .inl rfl
  · exact absurd rfl hne

end Owners

section Calls

/-- A call moves on: the owners that leave its list are going, and it gives up its creation
only when the record is gone. -/
theorem Sound.setCall (h : s.Sound maxSessions) {c : PoolCall} {pc : CallPc}
    (hcall : s.calls[i]? = some c)
    (hrest : ∀ p ∈ c.pc.rest, p ∈ pc.rest ∨ s.Gone p.1)
    (hcreates : ∀ e ∈ s.inflight, c.pc.creates? = some e.2 → pc.creates? = some e.2)
    (hundone : ∀ k failure, pc = .unwinding k failure → s.Leaving k) :
    (s.setCall i pc).Sound maxSessions where
  keys := h.keys
  named := h.named
  owned k w hw := by
    rcases h.owned k w hw with hreg | hgoing | ⟨d, hd, b, hb⟩
    · exact .inl hreg
    · exact .inr (.inl hgoing)
    · -- the owner may be on the list of the very call that moves on
      obtain ⟨j, hj⟩ := List.getElem?_of_mem hd
      by_cases hij : i = j
      · subst hij
        obtain rfl := Option.some.inj (hcall.symm.trans hj)
        rcases hrest _ hb with hb | hgone
        · exact .inr (.inr ⟨_, List.mem_of_getElem? (Slots.modify_self hcall), b, hb⟩)
        · exact .inr (.inl (hgone w hw))
      · exact .inr (.inr ⟨d, List.mem_of_getElem? (Slots.modify_ne hij hj), b, hb⟩)
  created e he w hw := by
    obtain ⟨d, hd, hcreating⟩ := h.created e he w hw
    by_cases hij : i = w.creator
    · subst hij
      obtain rfl := Option.some.inj (hcall.symm.trans hd)
      exact ⟨_, Slots.modify_self hcall, hcreates e he hcreating⟩
    · exact ⟨d, Slots.modify_ne hij hd, hcreating⟩
  undone d hd k failure hpc := by
    obtain ⟨j, hj⟩ := List.getElem?_of_mem hd
    obtain ⟨c₀, hc₀, ⟨-, rfl⟩ | ⟨-, rfl⟩⟩ := Slots.getElem?_modify hj
    · exact hundone k failure hpc
    · exact h.undone d (List.mem_of_getElem? hc₀) k failure hpc
  honest := h.honest
  closed := h.closed
  bounded := h.bounded

theorem calls_markCancelled {k : Nat} {c : PoolCall} (h : s.calls[k]? = some c) :
    ∃ c', (s.markCancelled i).calls[k]? = some c' ∧ c'.pc = c.pc := by
  obtain ⟨c', hc', ⟨-, rfl⟩ | ⟨-, rfl⟩⟩ := Slots.modify_of_getElem? (i := i) h
  · exact ⟨_, hc', rfl⟩
  · exact ⟨_, hc', rfl⟩

theorem getElem?_markCancelled {k : Nat} {c : PoolCall}
    (h : (s.markCancelled i).calls[k]? = some c) : ∃ c₀, s.calls[k]? = some c₀ ∧ c.pc = c₀.pc := by
  obtain ⟨c₀, hc₀, ⟨-, rfl⟩ | ⟨-, rfl⟩⟩ := Slots.getElem?_modify h
  · exact ⟨c₀, hc₀, rfl⟩
  · exact ⟨c, hc₀, rfl⟩

theorem Sound.markCancelled (h : s.Sound maxSessions) (i : Nat) :
    (s.markCancelled i).Sound maxSessions where
  keys := h.keys
  named := h.named
  owned k w hw := by
    refine (h.owned k w hw).imp_right fun hgoing => hgoing.imp_right ?_
    rintro ⟨d, hd, b, hb⟩
    obtain ⟨j, hj⟩ := List.getElem?_of_mem hd
    obtain ⟨d', hd', hpc⟩ := calls_markCancelled (i := i) hj
    exact ⟨d', List.mem_of_getElem? hd', b, hpc ▸ hb⟩
  created e he w hw := by
    obtain ⟨d, hd, hcreating⟩ := h.created e he w hw
    obtain ⟨d', hd', hpc⟩ := calls_markCancelled (i := i) hd
    exact ⟨d', hd', hpc ▸ hcreating⟩
  undone d hd k failure hpc := by
    obtain ⟨j, hj⟩ := List.getElem?_of_mem hd
    obtain ⟨d₀, hd₀, hsame⟩ := getElem?_markCancelled hj
    exact h.undone d₀ (List.mem_of_getElem? hd₀) k failure (hsame ▸ hpc)
  honest := h.honest
  closed := h.closed
  bounded := h.bounded

end Calls

section Records
variable {key : SessionKey}

theorem mem_of_find?_key {l : List (SessionKey × Nat)}
    (h : (l.find? fun e => e.1 = key).map Prod.snd = some o) : (key, o) ∈ l := by
  obtain ⟨e, he, rfl⟩ := Option.map_eq_some_iff.mp h
  have hkey : e.1 = key := by simpa using List.find?_some he
  rw [← hkey]
  exact List.mem_of_find?_eq_some he

theorem ne_of_find?_key {l : List (SessionKey × Nat)}
    (h : (l.find? fun e => e.1 = key).map Prod.snd = none) : ∀ e ∈ l, e.1 ≠ key := by
  intro e he hkey
  have hnone := Option.map_eq_none_iff.mp h
  exact absurd (decide_eq_true hkey) (List.find?_eq_none.mp hnone e he)

theorem find?_key_of_mem {l : List (SessionKey × Nat)} (h : (l.map Prod.fst).Nodup)
    {e : SessionKey × Nat} (he : e ∈ l) (hkey : e.1 = key) :
    (l.find? fun e => e.1 = key).map Prod.snd = some e.2 := by
  cases hfind : (l.find? fun e => e.1 = key).map Prod.snd with
  | none => exact absurd hkey (ne_of_find?_key hfind e he)
  | some o =>
    have heq : e = (key, o) := List.inj_on_of_nodup_map h he (mem_of_find?_key hfind) hkey
    rw [heq]

theorem mem_of_inflight? (h : s.inflight? key = some o) : (key, o) ∈ s.inflight :=
  mem_of_find?_key h

theorem mem_entries_of_entry (h : s.entry? key = some o) : (key, o) ∈ s.entries :=
  mem_of_find?_key h

theorem inflight?_none (h : s.inflight? key = none) : ∀ e ∈ s.inflight, e.1 ≠ key :=
  ne_of_find?_key h

theorem Sound.entry_of_key (h : s.Sound maxSessions) {e : SessionKey × Nat} (he : e ∈ s.entries)
    (hkey : e.1 = key) : s.entry? key = some e.2 :=
  find?_key_of_mem (((List.sublist_append_left _ _).map Prod.fst).nodup h.keys) he hkey

theorem Sound.inflight_of_key (h : s.Sound maxSessions) {e : SessionKey × Nat}
    (he : e ∈ s.inflight) (hkey : e.1 = key) : s.inflight? key = some e.2 :=
  find?_key_of_mem (((List.sublist_append_right _ _).map Prod.fst).nodup h.keys) he hkey

theorem Sound.eq_of_key (h : s.Sound maxSessions) {e e' : SessionKey × Nat}
    (he : e ∈ s.entries ++ s.inflight) (he' : e' ∈ s.entries ++ s.inflight) (hkey : e.1 = e'.1) :
    e = e' :=
  List.inj_on_of_nodup_map h.keys he he' hkey

theorem Sound.withdraw (h : s.Sound maxSessions) {entries inflight : List (SessionKey × Nat)}
    {loop : Nat} {pc : CallPc} (hkeys : ((entries ++ inflight).map Prod.fst).Nodup)
    (hsub : ∀ e ∈ entries ++ inflight, e ∈ s.entries ++ s.inflight)
    (hinflight : ∀ e ∈ inflight, e ∈ s.inflight)
    (hgone : ∀ e ∈ s.entries ++ s.inflight, e ∈ entries ++ inflight ∨
      ∃ b, (e.2, b) ∈ pc.rest)
    (hpc : ∀ k failure, pc ≠ .unwinding k failure) (hlen : entries.length ≤ s.entries.length) :
    Sound maxSessions { s.addCall loop pc with entries := entries, inflight := inflight } where
  keys := hkeys
  named e he := h.named e (hsub e he)
  owned k w hw := by
    rcases h.owned k w hw with hreg | hgoing | ⟨c, hc, b, hb⟩
    · rcases hgone _ hreg with hkept | ⟨b, hb⟩
      · exact .inl hkept
      · exact .inr (.inr ⟨_, List.mem_append_right _ (List.mem_singleton_self _), b, hb⟩)
    · exact .inr (.inl hgoing)
    · exact .inr (.inr ⟨c, List.mem_append_left _ hc, b, hb⟩)
  created e he w hw := by
    obtain ⟨c, hc, hcreating⟩ := h.created e (hinflight e he) w hw
    refine ⟨c, ?_, hcreating⟩
    exact Slots.concat_of_getElem? hc
  undone c hc k failure hunwinding := by
    rcases List.mem_append.mp hc with hc | hc
    · exact h.undone c hc k failure hunwinding
    · rw [List.mem_singleton.mp hc] at hunwinding
      exact absurd hunwinding (hpc k failure)
  honest := h.honest
  closed := h.closed
  bounded := Nat.le_trans hlen h.bounded

theorem Sound.publish (h : s.Sound maxSessions) {w : SessionOwner} {c : PoolCall}
    (hkey : ∀ e ∈ s.entries ++ s.inflight, e.1 ≠ w.key) (hcall : s.calls[w.creator]? = some c)
    (hcreates : c.pc.creates? = some s.owners.length) (hloop : s.loops w.loop ≠ .closed)
    (hready : w.ready = .pending) :
    Sound maxSessions { s with
      inflight := s.inflight ++ [(w.key, s.owners.length)]
      owners := s.owners ++ [w] } where
  keys := by
    show ((s.entries ++ (s.inflight ++ [(w.key, s.owners.length)])).map Prod.fst).Nodup
    rw [← List.append_assoc, List.map_append, List.nodup_append]
    refine ⟨h.keys, List.nodup_singleton _, ?_⟩
    intro k hk k' hk' hsame
    obtain ⟨e, he, rfl⟩ := List.mem_map.mp hk
    exact hkey e he (hsame.trans (List.mem_singleton.mp hk'))
  named e he := by
    rw [← List.append_assoc] at he
    rcases List.mem_append.mp he with he | he
    · obtain ⟨w', hw', hname⟩ := h.named e he
      exact ⟨w', Slots.concat_of_getElem? hw', hname⟩
    · rw [List.mem_singleton.mp he]
      exact ⟨w, List.getElem?_concat_length, rfl⟩
  owned k w' hw' := by
    rw [← List.append_assoc]
    rcases Slots.getElem?_concat hw' with hw' | ⟨rfl, rfl⟩
    · exact (h.owned k w' hw').imp_left (List.mem_append_left _)
    · exact .inl (List.mem_append_right _ (List.mem_singleton_self _))
  created e he w' hw' := by
    rcases List.mem_append.mp he with he | he
    · obtain ⟨w₀, hw₀, -⟩ := h.named e (List.mem_append_right _ he)
      obtain rfl := Option.some.inj ((Slots.concat_of_getElem? hw₀).symm.trans hw')
      exact h.created e he w₀ hw₀
    · rw [List.mem_singleton.mp he] at hw' ⊢
      obtain rfl := Option.some.inj (List.getElem?_concat_length.symm.trans hw')
      exact ⟨c, hcall, hcreates⟩
  undone d hd k failure hpc := by
    obtain ⟨w', hw', hgoing⟩ := h.undone d hd k failure hpc
    exact ⟨w', Slots.concat_of_getElem? hw', hgoing⟩
  honest w' hmem := by
    rcases List.mem_append.mp hmem with hmem | hmem
    · exact h.honest w' hmem
    · rw [List.mem_singleton.mp hmem]
      intro failure hfailure
      rw [hready] at hfailure
      cases hfailure
  closed w' hmem hclosed := by
    rcases List.mem_append.mp hmem with hmem | hmem
    · exact h.closed w' hmem hclosed
    · rw [List.mem_singleton.mp hmem] at hclosed
      exact absurd hclosed hloop
  bounded := h.bounded

theorem Sound.promote (h : s.Sound maxSessions) (hinflight : s.inflight? key = some o)
    (hfree : s.entries.length < maxSessions) : (s.promote o key).Sound maxSessions := by
  have hmem := mem_of_inflight? hinflight
  have hnew : key ∉ s.entries.map Prod.fst := by
    intro hkey
    have hnodup := h.keys
    rw [List.map_append, List.nodup_append] at hnodup
    exact hnodup.2.2 key hkey key (List.mem_map.mpr ⟨_, hmem, rfl⟩) rfl
  have hentries : upsert Prod.fst (key, o) s.entries = s.entries ++ [(key, o)] := by
    refine upsert_of_find?_none Prod.fst (List.find?_eq_none.mpr fun e he hkey => hnew ?_)
    have hkey : e.1 = key := by simpa using hkey
    exact List.mem_map.mpr ⟨e, he, hkey⟩
  -- the record only changes its place, so the registry has the same records as before
  have hsub : ∀ e ∈ (s.promote o key).entries ++ (s.promote o key).inflight,
      e ∈ s.entries ++ s.inflight := by
    intro e he
    unfold SessionPool.promote at he
    rw [hentries, List.append_assoc] at he
    rcases List.mem_append.mp he with he | he
    · exact List.mem_append_left _ he
    · rcases List.mem_append.mp he with he | he
      · rw [List.mem_singleton.mp he]
        exact List.mem_append_right _ hmem
      · exact List.mem_append_right _ (List.mem_of_mem_filter he)
  have hkept : ∀ e ∈ s.entries ++ s.inflight,
      e ∈ (s.promote o key).entries ++ (s.promote o key).inflight := by
    intro e he
    unfold SessionPool.promote
    rw [hentries]
    by_cases hkey : e.1 = key
    · have heq : e = (key, o) := h.eq_of_key he (List.mem_append_right _ hmem) hkey
      rw [heq]
      exact List.mem_append_left _ (List.mem_append_right _ (List.mem_singleton_self _))
    · rcases List.mem_append.mp he with he | he
      · exact List.mem_append_left _ (List.mem_append_left _ he)
      · exact List.mem_append_right _ (List.mem_filter.mpr ⟨he, decide_eq_true hkey⟩)
  exact {
    keys := by
      unfold SessionPool.promote
      have hnodup := h.keys
      rw [List.map_append, List.nodup_append] at hnodup
      rw [hentries, List.map_append, List.map_append, List.nodup_append, List.nodup_append]
      refine ⟨⟨hnodup.1, List.nodup_singleton _, ?_⟩, ?_, ?_⟩
      · intro k hk k' hk' hsame
        rw [hsame, List.mem_singleton.mp hk'] at hk
        exact hnew hk
      · exact (List.Sublist.map Prod.fst (List.filter_sublist)).nodup hnodup.2.1
      · intro k hk k' hk' hsame
        obtain ⟨e, he, rfl⟩ := List.mem_map.mp hk'
        obtain ⟨he, hne⟩ := List.mem_filter.mp he
        rcases List.mem_append.mp hk with hk | hk
        · exact hnodup.2.2 k hk e.1 (List.mem_map.mpr ⟨e, he, rfl⟩) hsame
        · exact of_decide_eq_true hne (hsame ▸ List.mem_singleton.mp hk)
    named := fun e he => h.named e (hsub e he)
    owned := fun k w hw => (h.owned k w hw).imp_left (hkept _)
    created := fun e he => h.created e (List.mem_of_mem_filter he)
    undone := h.undone
    honest := h.honest
    closed := h.closed
    bounded := by
      unfold SessionPool.promote
      rw [hentries, List.length_append]
      exact hfree }

theorem Sound.dropInflight (h : s.Sound maxSessions) (hleaving : s.Leaving o) :
    (s.dropInflight o key).Sound maxSessions := by
  unfold SessionPool.dropInflight
  split
  · next hinflight =>
    have hmem := mem_of_inflight? hinflight
    exact {
      keys := by
        have hsub : (s.entries ++ s.inflight.filter fun e => e.1 ≠ key).Sublist
            (s.entries ++ s.inflight) := (List.Sublist.refl _).append List.filter_sublist
        exact (hsub.map Prod.fst).nodup h.keys
      named := fun e he => by
        refine h.named e (List.mem_append.mpr ((List.mem_append.mp he).imp_right ?_))
        exact List.mem_of_mem_filter
      owned := fun k w hw => by
        rcases h.owned k w hw with hreg | hgoing
        · by_cases hkey : w.key = key
          · have heq : (w.key, k) = (key, o) :=
              h.eq_of_key hreg (List.mem_append_right _ hmem) hkey
            obtain ⟨-, rfl⟩ := Prod.mk.inj heq
            exact .inr (.inl (hleaving.gone w hw))
          · refine .inl (List.mem_append.mpr ((List.mem_append.mp hreg).imp_right fun hin => ?_))
            exact List.mem_filter.mpr ⟨hin, decide_eq_true hkey⟩
        · exact .inr hgoing
      created := fun e he => h.created e (List.mem_of_mem_filter he)
      undone := h.undone
      honest := h.honest
      closed := h.closed
      bounded := h.bounded }
  · exact h

end Records

end SessionPool

end Registry

section Steps
variable {maxSessions : Nat} {s t : SessionPool} {i : Nat} {c : PoolCall}
open SessionPool

theorem SessionOwner.grows_in (w : SessionOwner) {pc : OwnerPc} {ready : Ready}
    (hexiting : w.pc ≠ .exiting) (hended : w.pc ≠ .ended)
    (hready : w.ready = .pending → ∀ failure, ready ≠ .exception failure) :
    w.Grows (w.modify pc ready) := by
  have hgoing : w.Going → (w.modify pc ready).Going := by
    rintro (hclose | hcancel | hpc | hpc)
    · exact .inl hclose
    · exact .inr (.inl hcancel)
    · exact absurd hpc hexiting
    · exact absurd hpc hended
  refine ⟨rfl, rfl, rfl, hgoing, fun hpc => absurd hpc hended, fun hhonest failure hfailure => ?_⟩
  unfold modify at hfailure
  simp only at hfailure
  split at hfailure
  · next hpending => exact absurd hfailure (hready hpending failure)
  · exact hgoing (hhonest failure hfailure)

theorem SessionOwner.grows_out (w : SessionOwner) {pc : OwnerPc} {ready : Ready}
    (hpc : pc = .exiting ∨ pc = .ended) (hended : w.pc ≠ .ended) : w.Grows (w.modify pc ready) :=
  ⟨rfl, rfl, rfl, fun _ => .inr (.inr hpc), fun h => absurd h hended,
    fun _ _ _ => .inr (.inr hpc)⟩

theorem SessionOwner.act_grows {w w' : SessionOwner} {action : OwnerAction}
    (h : w.act action = some w') : w.Grows w' := by
  have hsame : w.ready = .pending → ∀ failure, w.ready ≠ .exception failure := by
    intro hpending failure hfailure
    rw [hpending] at hfailure
    cases hfailure
  -- an owner either goes on towards its wait (`grows_in`) or leaves (`grows_out`)
  unfold act at h
  cases action with
  | proceed =>
    cases hpc : w.pc with
    | created | connecting =>
      simp only [hpc] at h
      cases h
      exact w.grows_in (by rw [hpc]; decide) (by rw [hpc]; decide) hsame
    | initializing =>
      simp only [hpc] at h
      cases h
      exact w.grows_in (by rw [hpc]; decide) (by rw [hpc]; decide) fun _ _ he => (by cases he)
    | waiting =>
      simp only [hpc] at h
      split at h
      · cases h
        exact w.grows_out (.inl rfl) (by rw [hpc]; decide)
      · cases h
    | exiting =>
      simp only [hpc] at h
      cases h
      exact w.grows_out (.inr rfl) (by rw [hpc]; decide)
    | ended =>
      simp only [hpc] at h
      cases h
  | fail =>
    simp only at h
    split at h
    · next hpc =>
      cases h
      exact w.grows_out (.inr rfl) (by rw [hpc]; decide)
    · next hpc =>
      cases h
      exact w.grows_out (.inl rfl) (by rw [hpc]; decide)
    · next hpc =>
      cases h
      exact w.grows_out (.inr rfl) (by rw [hpc]; decide)
    all_goals cases h
  | interrupt =>
    cases h
    exact grows_cancel w
  | beCancelled =>
    simp only at h
    split at h
    · split at h
      · next hpc =>
        cases h
        exact w.grows_out (.inr rfl) (by rw [hpc]; decide)
      · next hpc =>
        cases h
        exact w.grows_out (.inr rfl) (by rw [hpc]; decide)
      · next hpc =>
        cases h
        exact w.grows_out (.inl rfl) (by rw [hpc]; decide)
      · next hpc =>
        cases h
        exact w.grows_out (.inl rfl) (by rw [hpc]; decide)
      · next hpc =>
        cases h
        exact w.grows_out (.inr rfl) (by rw [hpc]; decide)
      · cases h
    · cases h

namespace SessionPool

theorem Sound.tell (h : s.Sound maxSessions) (o : Nat) (cancel : Bool) :
    (s.tell o cancel).Sound maxSessions := h.modifyOwner fun w _ => grows_tell w cancel

theorem Sound.cancelOwner (h : s.Sound maxSessions) (o : Nat) :
    (s.cancelOwner o).Sound maxSessions := h.modifyOwner fun w _ => grows_cancel w

theorem Sound.shutNext (h : s.Sound maxSessions) {p : Nat × Bool} {rest : List (Nat × Bool)}
    {pc : CallPc} (hcall : s.calls[i]? = some c) (hc : c.pc.rest = p :: rest) (hgone : s.Gone p.1)
    (hrest : pc.rest = rest) (hcreates : pc.creates? = c.pc.creates?)
    (hpc : ∀ k failure, pc ≠ .unwinding k failure) : (s.setCall i pc).Sound maxSessions := by
  refine h.setCall hcall (fun q hq => ?_) (fun e _ he => hcreates.trans he)
    fun k failure he => absurd he (hpc k failure)
  rw [hc] at hq
  rw [hrest]
  rcases List.mem_cons.mp hq with rfl | hq
  · exact .inr hgone
  · exact .inl hq

theorem Sound.shutOne (h : s.Sound maxSessions) {o : Nat} {cancel : Bool}
    {rest : List (Nat × Bool)} {next : Next} (hcall : s.calls[i]? = some c)
    (hpc : c.pc = .shutting ((o, cancel) :: rest) next) :
    (s.shutOne i c.loop o cancel rest next).Sound maxSessions := by
  have hc : c.pc.rest = (o, cancel) :: rest := by rw [hpc]; rfl
  have hcreates : c.pc.creates? = next.creates? := by rw [hpc]; rfl
  have htold := (gone_tell s o cancel)
  unfold SessionPool.shutOne
  simp only
  split
  · exact (h.tell o cancel).shutNext hcall hc htold rfl hcreates.symm
      fun k failure he => (by cases he)
  · split
    · split
      · exact (h.tell o cancel).shutNext hcall hc htold rfl hcreates.symm
          fun k failure he => (by cases he)
      · exact (h.tell o cancel).shutNext hcall hc htold rfl hcreates.symm
          fun k failure he => (by cases he)
    · exact (h.tell o cancel).shutNext hcall hc htold rfl hcreates.symm
        fun k failure he => (by cases he)
    · next hclosed =>
      -- all tasks of a closed loop have ended
      refine h.shutNext hcall hc (fun w hw => ?_) rfl hcreates.symm fun k failure he => (by cases he)
      have hloop : s.loops w.loop = .closed := by
        unfold loopOf at hclosed
        rw [hw] at hclosed
        exact Option.some.inj hclosed
      exact .inr (.inr (.inr (h.closed w (List.mem_of_getElem? hw) hloop)))
    · next hnone =>
      refine h.shutNext hcall hc (fun w hw => ?_) rfl hcreates.symm fun k failure he => (by cases he)
      unfold loopOf at hnone
      rw [hw] at hnone
      cases hnone

theorem Sound.moveOn (h : s.Sound maxSessions) {pc : CallPc} (hcall : s.calls[i]? = some c)
    (hc : c.pc.rest = []) (hcreates : ∀ e ∈ s.inflight, c.pc.creates? = some e.2 →
      pc.creates? = some e.2)
    (hundone : ∀ k failure, pc = .unwinding k failure → s.Leaving k) :
    (s.setCall i pc).Sound maxSessions := by
  refine h.setCall hcall (fun q hq => ?_) hcreates hundone
  rw [hc] at hq
  cases hq

theorem inflight_dropInflight {key : SessionKey} {o : Nat} {w : SessionOwner}
    (h : s.Sound maxSessions) (hw : s.owners[o]? = some w) (hkey : w.key = key) :
    ∀ e ∈ (s.dropInflight o key).inflight, e.2 ≠ o := by
  intro e he hsame
  -- an owner has one key, so its only record is the one under that key
  have hmem : ∀ e ∈ s.inflight, e.2 = o → e = (key, o) := by
    intro e he hsame
    obtain ⟨w', hw', hname⟩ := h.named e (List.mem_append_right _ he)
    rw [hsame] at hw'
    obtain rfl := Option.some.inj (hw.symm.trans hw')
    exact Prod.ext (hname.symm.trans hkey) hsame
  unfold SessionPool.dropInflight at he
  split at he
  · obtain ⟨he, hne⟩ := List.mem_filter.mp he
    rw [hmem e he hsame] at hne
    exact of_decide_eq_true hne rfl
  · next hnot =>
    have heq := hmem e he hsame
    rw [heq] at he
    exact hnot (h.inflight_of_key he rfl)

theorem Sound.finish (h : s.Sound maxSessions) {pc : CallPc} (hcall : s.calls[i]? = some c)
    (hc : c.pc.rest = []) (hcreates : ∀ e ∈ s.inflight, c.pc.creates? ≠ some e.2)
    (hpc : ∀ k failure, pc ≠ .unwinding k failure) : (s.setCall i pc).Sound maxSessions :=
  h.moveOn hcall hc (fun e he hsame => absurd hsame (hcreates e he))
    fun k failure he => absurd he (hpc k failure)

theorem not_creating {pc : CallPc} (hpc : pc.creates? = none) :
    ∀ e ∈ s.inflight, pc.creates? ≠ some e.2 := by
  intro e _ he
  rw [hpc] at he
  cases he

/-- The record of a creation is dropped or registered, so the call creates nothing more. -/
theorem not_creating_of_ne {pc : CallPc} {o : Nat} (hpc : pc.creates? = some o)
    (hne : ∀ e ∈ s.inflight, e.2 ≠ o) : ∀ e ∈ s.inflight, pc.creates? ≠ some e.2 := by
  intro e he hsame
  rw [hpc] at hsame
  exact hne e he (Option.some.inj hsame).symm

theorem Sound.resumeWaiting (h : s.Sound maxSessions) {o : Nat} {w : SessionOwner}
    (hcall : s.calls[i]? = some c) (hpc : c.pc = .waiting o) (hw : s.owners[o]? = some w)
    (hresult : w.ready = .result) (hopen : s.overfills maxSessions c = false) :
    (if s.inflight? w.key = some o then (s.promote o w.key).setCall i (.returned (some o))
      else (s.tell o false).setCall i (.dismissed o)).Sound maxSessions := by
  have hrest : c.pc.rest = [] := by rw [hpc]; rfl
  have hcreates : c.pc.creates? = some o := by rw [hpc]; rfl
  have hdrop := inflight_dropInflight h hw rfl
  -- the creation is still its own, or somebody took its record in the meantime
  split
  · next hours =>
    have hfree : s.entries.length < maxSessions := by
      refine Nat.lt_of_not_le fun hfull => ?_
      unfold overfills at hopen
      rw [hpc] at hopen
      simp only [hw, Option.any_some, hresult, hours, hfull, decide_true, Bool.and_true] at hopen
      cases hopen
    have hne : ∀ e ∈ (s.promote o w.key).inflight, e.2 ≠ o := by
      unfold SessionPool.dropInflight at hdrop
      rw [if_pos hours] at hdrop
      exact hdrop
    exact (h.promote hours hfree).finish hcall hrest (not_creating_of_ne hcreates hne)
      fun k failure he => (by cases he)
  · next hnot =>
    have hne : ∀ e ∈ (s.tell o false).inflight, e.2 ≠ o := by
      unfold SessionPool.dropInflight at hdrop
      rw [if_neg hnot] at hdrop
      exact hdrop
    exact (h.tell o false).finish hcall hrest (not_creating_of_ne hcreates hne)
      fun k failure he => (by cases he)

theorem Sound.giveUp (h : s.Sound maxSessions) {o : Nat} {failure failure' : Failure}
    {w : SessionOwner} (hcall : s.calls[i]? = some c) (hpc : c.pc = .unwinding o failure)
    (hw : s.owners[o]? = some w) :
    ((s.dropInflight o w.key).setCall i (.raised failure')).Sound maxSessions := by
  have hleaving := h.undone c (List.mem_of_getElem? hcall) o failure hpc
  have hcalls : (s.dropInflight o w.key).calls = s.calls := by
    unfold SessionPool.dropInflight
    split <;> rfl
  have hcall' : (s.dropInflight o w.key).calls[i]? = some c := hcalls ▸ hcall
  exact (h.dropInflight hleaving).finish hcall' (by rw [hpc]; rfl)
    (not_creating_of_ne (by rw [hpc]; rfl) (inflight_dropInflight h hw rfl))
    fun k failure he => (by cases he)

theorem Sound.resume (h : s.Sound maxSessions) (hcall : s.calls[i]? = some c)
    (hopen : s.overfills maxSessions c = false) (ht : s.resume i c = some t) :
    t.Sound maxSessions := by
  have hwait : ∀ {o : Nat} {rest : List (Nat × Bool)} {next : Next},
      c.pc.rest = rest → c.pc.creates? = next.creates? →
      (s.owners[o]?.bind fun w => if w.pc = .ended then
        some (s.setCall i (.shutting rest next)) else none) = some t → t.Sound maxSessions := by
    intro o rest next hrest hcreates ht
    obtain ⟨w, -, ht⟩ := Option.bind_eq_some_iff.mp ht
    split at ht
    · cases ht
      exact h.setCall hcall (fun p hp => .inl (hrest ▸ hp)) (fun e _ he => hcreates.symm.trans he)
        fun k failure he => (by cases he)
    · cases ht
  unfold SessionPool.resume at ht
  split at ht
  · next o hpc =>
    cases ht
    exact h.finish hcall (by rw [hpc]; rfl) (not_creating (by rw [hpc]; rfl))
      fun k failure he => (by cases he)
  · next o hpc =>
    cases ht
    refine h.moveOn hcall (by rw [hpc]; rfl) (fun e _ he => ?_) fun k failure he => (by cases he)
    rw [hpc] at he
    exact he
  · next hpc =>
    cases ht
    exact h.finish hcall (by rw [hpc]; rfl) (not_creating (by rw [hpc]; rfl))
      fun k failure he => (by cases he)
  · next o cancel rest next hpc =>
    cases ht
    exact h.shutOne hcall hpc
  · next o rest next hpc => exact hwait (by rw [hpc]; rfl) (by rw [hpc]; rfl) ht
  · next o rest next hpc => exact hwait (by rw [hpc]; rfl) (by rw [hpc]; rfl) ht
  · next o hpc =>
    obtain ⟨w, -, ht⟩ := Option.bind_eq_some_iff.mp ht
    have hend : ∀ {pc : CallPc}, (∀ k failure, pc ≠ .unwinding k failure) →
        (s.setCall i pc).Sound maxSessions := fun hne =>
      h.finish hcall (by rw [hpc]; rfl) (not_creating (by rw [hpc]; rfl)) hne
    split at ht
    · cases ht
    · cases ht
      exact hend fun k failure he => (by cases he)
    · cases ht
      exact hend fun k failure he => (by cases he)
  · next o hpc =>
    obtain ⟨w, hw, ht⟩ := Option.bind_eq_some_iff.mp ht
    split at ht
    · cases ht
    · next hresult =>
      have hsound := h.resumeWaiting hcall hpc hw hresult hopen
      split at ht
      · next hours =>
        cases ht
        rw [if_pos hours] at hsound
        exact hsound
      · next hnot =>
        cases ht
        rw [if_neg hnot] at hsound
        exact hsound
    · next failure hfailure =>
      cases ht
      refine h.moveOn hcall (by rw [hpc]; rfl) (fun e _ he => ?_) fun k failure he => ?_
      · rw [hpc] at he
        exact he
      · cases he
        exact ⟨w, hw, h.honest w (List.mem_of_getElem? hw) _ hfailure⟩
  · next o failure hpc =>
    obtain ⟨w, hw, ht⟩ := Option.bind_eq_some_iff.mp ht
    split at ht
    · cases ht
      exact h.giveUp hcall hpc hw
    · cases ht
  · next o hpc =>
    obtain ⟨w, -, ht⟩ := Option.bind_eq_some_iff.mp ht
    split at ht
    · cases ht
      exact h.finish hcall (by rw [hpc]; rfl) (not_creating (by rw [hpc]; rfl))
        fun k failure he => (by cases he)
    · cases ht
  · cases ht
  · cases ht

/-- A cancelled call leaves nothing undone that it has begun, unless it waits for another loop. -/
theorem Sound.cancelCall (h : s.Sound maxSessions) (hcall : s.calls[i]? = some c)
    (hopen : c.pc.abandons = false) (ht : s.cancelCall i c = some t) : t.Sound maxSessions := by
  have hmark := h.markCancelled i
  have hcall' : (s.markCancelled i).calls[i]? = some { c with cancelled := true } :=
    Slots.modify_self hcall
  unfold SessionPool.cancelCall at ht
  simp only at ht
  split at ht
  · cases ht
    exact hmark.cancelOwner _
  · cases ht
    exact hmark.cancelOwner _
  · next o rest next hpc =>
    cases ht
    have hdone : rest = [] ∧ next = .close := by
      rw [hpc] at hopen
      unfold CallPc.abandons at hopen
      rw [Bool.or_eq_false_iff, Bool.not_eq_false', List.isEmpty_iff] at hopen
      exact ⟨hopen.1, by simpa using hopen.2⟩
    obtain ⟨rfl, rfl⟩ := hdone
    have hrest : CallPc.rest c.pc = [] := by rw [hpc]; rfl
    exact (hmark.cancelOwner o).finish hcall' hrest (not_creating (by rw [hpc]; rfl))
      fun k failure he => (by cases he)
  · next o hpc =>
    cases ht
    have hrest : CallPc.rest c.pc = [] := by rw [hpc]; rfl
    exact hmark.finish hcall' hrest (not_creating (by rw [hpc]; rfl))
      fun k failure he => (by cases he)
  · next o hpc =>
    obtain ⟨w, hw, rfl⟩ := Option.map_eq_some_iff.mp ht
    have hrest : CallPc.rest c.pc = [] := by rw [hpc]; rfl
    have hcreates : CallPc.creates? c.pc = some o := by rw [hpc]; rfl
    split
    · next failure hfailure =>
      refine hmark.moveOn hcall' hrest (fun e _ he => hcreates.symm.trans he) fun k failure he => ?_
      cases he
      exact ⟨w, hw, h.honest w (List.mem_of_getElem? hw) _ hfailure⟩
    all_goals
      refine (hmark.tell o true).moveOn hcall' hrest (fun e _ he => hcreates.symm.trans he)
        fun k failure he => ?_
      cases he
      exact ⟨_, Slots.modify_self hw, .inl rfl⟩
  · next o failure hpc =>
    obtain ⟨w, hw, rfl⟩ := Option.map_eq_some_iff.mp ht
    exact hmark.giveUp hcall' hpc hw
  all_goals cases ht

section Open
variable {key : SessionKey} {loop : Nat}

theorem Sound.evict (h : s.Sound maxSessions) (key : SessionKey) (loop : Nat) (pc : CallPc)
    {inflight : List (SessionKey × Nat)} (hsub : inflight.Sublist s.inflight)
    (hmoved : s.moved key ⊆ pc.rest) (holdest : s.oldest maxSessions key ⊆ pc.rest)
    (hinflight : ∀ e ∈ s.inflight, e ∈ inflight ∨ ∃ b, (e.2, b) ∈ pc.rest)
    (hpc : ∀ k failure, pc ≠ .unwinding k failure) :
    Sound maxSessions { s.addCall loop pc with
      entries := (s.others key).drop (s.excess maxSessions key)
      inflight := inflight } := by
  have hentries : ((s.others key).drop (s.excess maxSessions key)).Sublist s.entries :=
    (List.drop_sublist _ _).trans List.filter_sublist
  have hboth := hentries.append hsub
  refine h.withdraw ((hboth.map Prod.fst).nodup h.keys) (fun e he => hboth.subset he)
    (fun e he => hsub.subset he) (fun e he => ?_) hpc hentries.length_le
  -- an entry is that of the key, one of the oldest, or kept
  rcases List.mem_append.mp he with he | he
  · by_cases hkey : e.1 = key
    · refine .inr ⟨false, hmoved (List.mem_map.mpr ⟨e.2, ?_, rfl⟩)⟩
      exact Option.mem_toList.mpr (h.entry_of_key he hkey)
    · have hother : e ∈ s.others key := List.mem_filter.mpr ⟨he, decide_eq_true hkey⟩
      rw [← List.take_append_drop (s.excess maxSessions key) (s.others key)] at hother
      rcases List.mem_append.mp hother with hold | hkept
      · exact .inr ⟨false, holdest (List.mem_map.mpr ⟨e, hold, rfl⟩)⟩
      · exact .inl (List.mem_append_left _ hkept)
  · exact (hinflight e he).imp_left (List.mem_append_right _)

theorem Sound.touch (h : s.Sound maxSessions) {pc : CallPc}
    (hpc : ∀ k failure, pc ≠ .unwinding k failure) :
    Sound maxSessions { s.addCall loop pc with
      entries := s.others key ++ s.entries.filter fun e => e.1 = key
      inflight := s.inflight } := by
  have hperm : (s.others key ++ s.entries.filter fun e => e.1 = key).Perm s.entries := by
    have hswap := List.filter_append_perm (fun e : SessionKey × Nat => decide (e.1 ≠ key)) s.entries
    refine List.Perm.trans (.of_eq ?_) hswap
    unfold others
    congr 1
    exact List.filter_congr fun e _ => by simp
  have hboth := hperm.append_right s.inflight
  refine h.withdraw ((hboth.map Prod.fst).nodup_iff.mpr h.keys) (fun e he => hboth.mem_iff.mp he)
    (fun e he => he) (fun e he => .inl (hboth.mem_iff.mpr he)) hpc (Nat.le_of_eq hperm.length_eq)

theorem ne_of_mem_kept {e : SessionKey × Nat}
    (he : e ∈ (s.others key).drop (s.excess maxSessions key)) : e.1 ≠ key :=
  of_decide_eq_true (List.mem_filter.mp (List.mem_of_mem_drop he)).2

theorem Sound.getSession (h : s.Sound maxSessions) (hloop : s.loops loop ≠ .closed) :
    (s.getSession maxSessions key loop).Sound maxSessions := by
  have hmoved := fun rest => List.subset_append_left (s.moved key) rest
  have holdest := fun rest => List.subset_append_right rest (s.oldest maxSessions key)
  unfold SessionPool.getSession
  simp only
  split
  · -- a session of this loop is there
    exact h.touch fun k failure he => (by cases he)
  · split
    · next hnone =>
      have hevicted := h.evict key loop
        (.shutting (s.moved key ++ s.oldest maxSessions key) (.create s.owners.length)) (.refl _)
        (hmoved _) (holdest _) (fun e he => .inl he) fun k failure he => (by cases he)
      refine hevicted.publish (w := ⟨key, loop, s.calls.length, .created, .pending, false, false⟩)
        (fun e he => ?_) List.getElem?_concat_length rfl hloop rfl
      rcases List.mem_append.mp he with he | he
      · exact ne_of_mem_kept he
      · exact inflight?_none hnone e he
    · next joined hjoined =>
      split
      · exact h.evict key loop _ (.refl _) (hmoved _) (holdest _) (fun e he => .inl he)
          fun k failure he => (by cases he)
      · -- the creation of another loop goes onto the list, to be cancelled
        have hstale : ∀ e ∈ s.inflight, e ∈ s.inflight.filter (fun e => e.1 ≠ key) ∨
            ∃ b, (e.2, b) ∈ s.moved key ++ [(joined, true)] ++ s.oldest maxSessions key := by
          intro e he
          by_cases hkey : e.1 = key
          · have heq := Option.some.inj ((h.inflight_of_key he hkey).symm.trans hjoined)
            refine .inr ⟨true, List.mem_append_left _ (List.mem_append_right _ ?_)⟩
            rw [heq]
            exact List.mem_singleton_self _
          · exact .inl (List.mem_filter.mpr ⟨he, decide_eq_true hkey⟩)
        have hmoved' : s.moved key ⊆ s.moved key ++ [(joined, true)] ++ s.oldest maxSessions key := by
          rw [List.append_assoc]
          exact hmoved _
        have hevicted := h.evict key loop (.shutting
          (s.moved key ++ [(joined, true)] ++ s.oldest maxSessions key) (.create s.owners.length))
          List.filter_sublist hmoved' (holdest _) hstale fun k failure he => (by cases he)
        refine hevicted.publish (w := ⟨key, loop, s.calls.length, .created, .pending, false, false⟩)
          (fun e he => ?_) List.getElem?_concat_length rfl hloop rfl
        rcases List.mem_append.mp he with he | he
        · exact ne_of_mem_kept he
        · exact of_decide_eq_true (List.mem_filter.mp he).2

theorem Sound.closeWhere (h : s.Sound maxSessions) (p : SessionKey → Bool) :
    (s.closeWhere p loop).Sound maxSessions := by
  have hsub : ((s.entries.filter fun e => !p e.1) ++ s.inflight.filter fun e => !p e.1).Sublist
      (s.entries ++ s.inflight) := List.filter_sublist.append List.filter_sublist
  refine h.withdraw ((hsub.map Prod.fst).nodup h.keys) (fun e he => hsub.subset he)
    (fun e he => List.mem_of_mem_filter he) (fun e he => ?_) (fun k failure he => (by cases he))
    (List.length_filter_le _ _)
  cases hp : p e.1 with
  | true =>
    rcases List.mem_append.mp he with he | he
    · refine .inr ⟨false, List.mem_append_left _ (List.mem_map.mpr ⟨e, ?_, rfl⟩)⟩
      exact List.mem_filter.mpr ⟨he, hp⟩
    · refine .inr ⟨true, List.mem_append_right _ (List.mem_map.mpr ⟨e, ?_, rfl⟩)⟩
      exact List.mem_filter.mpr ⟨he, hp⟩
  | false =>
    have hkeep : (!p e.1) = true := by rw [hp]; rfl
    rcases List.mem_append.mp he with he | he
    · exact .inl (List.mem_append_left _ (List.mem_filter.mpr ⟨he, hkeep⟩))
    · exact .inl (List.mem_append_right _ (List.mem_filter.mpr ⟨he, hkeep⟩))

theorem Sound.setLoop (h : s.Sound maxSessions) {status : LoopStatus}
    (hclose : status = .closed → s.canClose loop = true) :
    (s.setLoop loop status).Sound maxSessions where
  keys := h.keys
  named := h.named
  owned := h.owned
  created := h.created
  undone := h.undone
  honest := h.honest
  closed w hw hclosed := by
    change (if w.loop = loop then status else s.loops w.loop) = .closed at hclosed
    split at hclosed
    · next hsame =>
      have hall := hclose hclosed
      unfold canClose at hall
      rw [Bool.and_eq_true, List.all_eq_true] at hall
      simpa [hsame] using hall.1 w hw
    · exact h.closed w hw hclosed
  bounded := h.bounded

end Open

theorem Sound.step (h : s.Sound maxSessions) {event : PoolEvent}
    (hopen : ¬ s.Abandons maxSessions event) (ht : SessionPool.step maxSessions s event = some t) :
    t.Sound maxSessions := by
  have hrunning : ∀ {l : Nat}, s.loops l = .running → s.loops l ≠ .closed := by
    intro l hl hclosed
    rw [hl] at hclosed
    cases hclosed
  unfold SessionPool.step at ht
  cases event with
  | getSession key l =>
    simp only at ht
    split at ht
    · next hl =>
      cases ht
      exact h.getSession (hrunning hl)
    · cases ht
  | closeScope scope l | closeServer server l | closeAll l =>
    simp only at ht
    split at ht
    · cases ht
      exact h.closeWhere _
    · cases ht
  | owner o action =>
    obtain ⟨w, hw, ht⟩ := Option.bind_eq_some_iff.mp ht
    split at ht
    · obtain ⟨w', hw', rfl⟩ := Option.map_eq_some_iff.mp ht
      refine h.modifyOwner fun v hv => ?_
      obtain rfl := Option.some.inj (hw.symm.trans hv)
      exact w.act_grows hw'
    · cases ht
  | resume i =>
    obtain ⟨c, hcall, ht⟩ := Option.bind_eq_some_iff.mp ht
    split at ht
    · refine h.resume hcall ?_ ht
      exact Bool.eq_false_iff.mpr fun hfull => hopen ⟨c, hcall, hfull⟩
    · cases ht
  | cancel i =>
    obtain ⟨c, hcall, ht⟩ := Option.bind_eq_some_iff.mp ht
    split at ht
    · refine h.cancelCall hcall ?_ ht
      exact Bool.eq_false_iff.mpr fun habandons => hopen ⟨c, hcall, habandons⟩
    · cases ht
  | loop l status =>
    simp only at ht
    split at ht
    · next hguard =>
      cases ht
      exact h.setLoop hguard.2
    · cases ht

theorem sound_of_reachable (h : Reachable ((sessionPool maxSessions).when fun s event =>
    ¬ s.Abandons maxSessions event) s) : s.Sound maxSessions := by
  refine h.invariant ?_ fun s event t _ hs hstep => ?_
  · rintro s rfl
    exact {
      keys := List.nodup_nil
      named := fun e he => (by cases he)
      owned := fun o w hw => (by cases hw)
      created := fun e he => (by cases he)
      undone := fun c hc => (by cases hc)
      honest := fun w hw => (by cases hw)
      closed := fun w hw => (by cases hw)
      bounded := Nat.zero_le _ }
  · exact hs.step hstep.1 hstep.2

theorem Live.not_leaving {w : SessionOwner} (h : w.Live) (hgoing : w.Going) :
    w.closeEvt = true ∨ w.cancelled = true := by
  rcases hgoing with hclose | hcancel | hpc | hpc
  · exact .inl hclose
  · exact .inr hcancel
  · rcases h with h | h
    · rw [h] at hpc
      cases hpc
    · rw [h] at hpc
      cases hpc
  · rcases h with h | h
    · rw [h] at hpc
      cases hpc
    · rw [h] at hpc
      cases hpc

/-- A live session that was not told to close has a record. -/
theorem Sound.registered (h : s.Sound maxSessions) {o : Nat} {w : SessionOwner}
    (hw : s.owners[o]? = some w) (hlive : w.Live) (htold : ¬ s.Told o) :
    (w.key, o) ∈ s.entries ++ s.inflight := by
  rcases h.owned o w hw with hreg | hgoing | hlisted
  · exact hreg
  · exact absurd (.inl ⟨w, hw, Live.not_leaving hlive hgoing⟩) htold
  · exact absurd (.inr hlisted) htold

end SessionPool

end Steps

namespace PoolRun

def evicted : List (SessionPool → PoolEvent) :=
  ([.getSession ("browser", "a") 0, .resume 0, .owner 0 .proceed, .owner 0 .proceed,
    .owner 0 .proceed, .resume 0, .getSession ("browser", "b") 0, .resume 1, .owner 0 .proceed,
    .owner 0 .proceed, .resume 1, .resume 1, .owner 1 .proceed, .owner 1 .proceed,
    .owner 1 .proceed, .resume 1] : List PoolEvent).map fun event _ => event

/-- A call on one loop replaces the creation of another loop and is cancelled while it waits for
that to end. -/
def abandoned : List (SessionPool → PoolEvent) :=
  ([.getSession ("browser", "a") 1, .resume 0, .owner 0 .proceed, .getSession ("browser", "a") 0,
    .resume 1, .cancel 1, .owner 1 .proceed, .owner 1 .proceed, .owner 1 .proceed] :
      List PoolEvent).map fun event _ => event

/-- Three calls look at an empty pool for two, and then register their sessions. -/
def crowded : List (SessionPool → PoolEvent) :=
  ([.getSession ("browser", "a") 0, .getSession ("browser", "b") 0, .getSession ("browser", "c") 0,
    .resume 0, .resume 1, .resume 2, .owner 0 .proceed, .owner 0 .proceed, .owner 0 .proceed,
    .owner 1 .proceed, .owner 1 .proceed, .owner 1 .proceed, .owner 2 .proceed, .owner 2 .proceed,
    .owner 2 .proceed, .resume 0, .resume 1, .resume 2] : List PoolEvent).map fun event _ => event

end PoolRun

open PoolRun

end DeerFlow.Mcp
