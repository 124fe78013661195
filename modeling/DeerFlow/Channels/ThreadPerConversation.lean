import DeerFlow.Channels.ThreadLocks

/-! One thread for each conversation. The lock serializes the calls as long as
all of them find the same one, and as long as a thread is stored where it is
looked up. A call that leaves takes the registry's entry while others still wait. -/

namespace DeerFlow.Channels
open Transition

namespace CallPc
variable {pc : CallPc} {lock : Nat}

theorem lock_of_holds (h : pc.holds = some lock) : pc.lock = some lock := by
  cases pc with
  | start | missed | waiting | done => cases h
  | locked | creating | verifying | storing => exact h

theorem holds_of_creates (h : pc.creates = true) : ∃ lock, pc.holds = some lock := by
  cases pc with
  | start | missed | waiting | locked | done => cases h
  | creating lock | verifying lock | storing lock _ => exact ⟨lock, rfl⟩

end CallPc

namespace ManagerConfig
variable {config : ManagerConfig} {stores : ThreadStores} {owner : Option String}
  {threadId : ThreadId}

theorem lookup_storeThreadId (h : config.looksInRepo = config.storesInRepo owner) :
    config.lookupThreadId (config.storeThreadId stores owner threadId) = some threadId := by
  unfold lookupThreadId storeThreadId
  rw [h]
  dsimp only
  split_ifs
  · rw [Table.get_put]
    exact congrArg _ (if_pos rfl)
  · rw [Table.get_put]
    exact congrArg _ (if_pos rfl)

end ManagerConfig

namespace ChannelManager
variable {config : ManagerConfig} {stores : ThreadStores} {s t : ChannelManager} {i : Nat}
  {c : ThreadCall} {answer : Answer}

/-- A call makes a new lock while another still waits for an older one or holds it, and there is no
thread yet; or it stores a thread where no lookup finds it. -/
def CallSlips (config : ManagerConfig) (s : ChannelManager) (c : ThreadCall) (answer : Answer) :
    Prop :=
  match c.pc, answer with
  | .missed, .returns => s.registry = none ∧ config.lookupThreadId s.stores = none ∧
      ∃ d ∈ s.calls, d.pc.lock ≠ none
  | .storing .., .returns | .storing .., .raises true =>
    config.looksInRepo ≠ config.storesInRepo c.ownerUserId
  | _, _ => False

instance (s : ChannelManager) (c : ThreadCall) (answer : Answer) :
    Decidable (CallSlips config s c answer) := by
  unfold CallSlips
  split <;> infer_instance

def Slips (config : ManagerConfig) (s : ChannelManager) : ManagerEvent → Prop
  | .step i answer => ∃ c ∈ s.calls[i]?, CallSlips config s c answer
  | _ => False

instance (s : ChannelManager) : (e : ManagerEvent) → Decidable (Slips config s e)
  | .step .. => inferInstanceAs (Decidable (∃ _ ∈ _, _))
  | .call .. | .cancel _ => isFalse id

structure OneThread (s : ChannelManager) : Prop where
  creating : ∀ (i j : Nat) (c d : ThreadCall), s.calls[i]? = some c → s.calls[j]? = some d →
    c.pc.creates = true → d.pc.creates = true → i = j
  stored : ∀ x ∈ s.stored, ∀ y ∈ s.stored, x = y
  returned : ∀ c ∈ s.calls, ∀ threadId created, c.pc = .done (some (threadId, created)) →
    threadId ∈ s.stored

/-- As long as no thread is stored, all calls inside the `try` have the lock that is registered. -/
structure Serial (config : ManagerConfig) (s : ChannelManager) : Prop where
  alone : ∀ (i j : Nat) (c d : ThreadCall) lock, s.calls[i]? = some c → s.calls[j]? = some d →
    c.pc.holds = some lock → d.pc.holds = some lock → i = j
  same : config.lookupThreadId s.stores = none → ∀ c ∈ s.calls, ∀ d ∈ s.calls, ∀ a b,
    c.pc.lock = some a → d.pc.lock = some b → a = b
  registered : config.lookupThreadId s.stores = none → ∀ lock, s.registry = some lock →
    ∀ c ∈ s.calls, ∀ a, c.pc.lock = some a → a = lock
  creating : ∀ c ∈ s.calls, c.pc.creates = true → config.lookupThreadId s.stores = none
  stored : ∀ x, x ∈ s.stored ↔ config.lookupThreadId s.stores = some x
  returned : ∀ c ∈ s.calls, ∀ threadId created, c.pc = .done (some (threadId, created)) →
    config.lookupThreadId s.stores = some threadId

theorem Serial.creating_eq (h : Serial config s) {j : Nat} {d : ThreadCall}
    (hc : s.calls[i]? = some c) (hd : s.calls[j]? = some d) (hcreates : c.pc.creates = true)
    (hdcreates : d.pc.creates = true) : i = j := by
  obtain ⟨a, ha⟩ := CallPc.holds_of_creates hcreates
  obtain ⟨b, hb⟩ := CallPc.holds_of_creates hdcreates
  have hnone := h.creating c (List.mem_of_getElem? hc) hcreates
  have hab : a = b := h.same hnone c (List.mem_of_getElem? hc) d (List.mem_of_getElem? hd) a b
    (CallPc.lock_of_holds ha) (CallPc.lock_of_holds hb)
  rw [← hab] at hb
  exact h.alone i j c d a hc hd ha hb

theorem Serial.oneThread (h : Serial config s) : s.OneThread := by
  refine ⟨?_, ?_, ?_⟩
  · intro i j c d hc hd hcreates hdcreates
    exact h.creating_eq hc hd hcreates hdcreates
  · intro x hx y hy
    rw [h.stored] at hx hy
    exact Option.some.inj (hx.symm.trans hy)
  · intro c hc threadId created hpc
    rw [h.stored]
    exact h.returned c hc threadId created hpc

section Steps

theorem Serial.change {pc : CallPc} (h : Serial config s) (hc : s.calls[i]? = some c)
    (hcalls : t.calls = (s.setPc i pc).calls) (hstores : t.stores = s.stores)
    (hstored : t.stored = s.stored)
    (hholds : ∀ lock, pc.holds = some lock → c.pc.holds = some lock ∨ s.free lock = true)
    (hlock : config.lookupThreadId s.stores = none → ∀ a, pc.lock = some a →
      ∀ d ∈ s.calls, ∀ b, d.pc.lock = some b → a = b)
    (hregistry : config.lookupThreadId s.stores = none → ∀ lock, t.registry = some lock →
      ∀ a, (pc.lock = some a → a = lock) ∧ ∀ d ∈ s.calls, d.pc.lock = some a → a = lock)
    (hcreates : pc.creates = true → config.lookupThreadId s.stores = none)
    (hreturned : ∀ threadId created, pc = .done (some (threadId, created)) →
      config.lookupThreadId s.stores = some threadId) : Serial config t := by
  have hmem : ∀ d ∈ t.calls, d.pc = pc ∨ d ∈ s.calls := by
    intro d hd
    obtain ⟨j, hj⟩ := List.getElem?_of_mem hd
    rw [hcalls] at hj
    obtain ⟨e, he, ⟨-, rfl⟩ | ⟨-, rfl⟩⟩ := Slots.getElem?_modify hj
    · exact .inl rfl
    · exact .inr (List.mem_of_getElem? he)
  -- who holds a lock afterwards held it before, or nobody did
  have hold : ∀ (j : Nat) (d : ThreadCall) lock, t.calls[j]? = some d → d.pc.holds = some lock →
      (∃ e, s.calls[j]? = some e ∧ e.pc.holds = some lock) ∨ i = j ∧ s.free lock = true := by
    intro j d lock hd hdlock
    rw [hcalls] at hd
    obtain ⟨e, he, ⟨hij, rfl⟩ | ⟨-, rfl⟩⟩ := Slots.getElem?_modify hd
    · subst hij
      rw [hc] at he
      cases he
      rcases hholds lock hdlock with hheld | hfree
      · exact .inl ⟨c, hc, hheld⟩
      · exact .inr ⟨rfl, hfree⟩
    · exact .inl ⟨d, he, hdlock⟩
  have hfree : ∀ lock, s.free lock = true → ∀ (j : Nat) (e : ThreadCall),
      s.calls[j]? = some e → e.pc.holds ≠ some lock := by
    intro lock hlock j e he
    exact of_decide_eq_true (List.all_eq_true.mp hlock e (List.mem_of_getElem? he))
  refine ⟨?_, ?_, ?_, ?_, ?_, ?_⟩
  · intro j k d e lock hd he hdlock helock
    rcases hold j d lock hd hdlock with ⟨d', hd', hdlock'⟩ | ⟨hij, hnone⟩
    · rcases hold k e lock he helock with ⟨e', he', helock'⟩ | ⟨-, hnone⟩
      · exact h.alone j k d' e' lock hd' he' hdlock' helock'
      · exact absurd hdlock' (hfree lock hnone j d' hd')
    · rcases hold k e lock he helock with ⟨e', he', helock'⟩ | ⟨hik, -⟩
      · exact absurd helock' (hfree lock hnone k e' he')
      · exact hij.symm.trans hik
  · rw [hstores]
    intro hnone d hd e he a b ha hb
    rcases hmem d hd with hdpc | hd
    · rw [hdpc] at ha
      rcases hmem e he with hepc | he
      · rw [hepc] at hb
        exact Option.some.inj (ha.symm.trans hb)
      · exact hlock hnone a ha e he b hb
    · rcases hmem e he with hepc | he
      · rw [hepc] at hb
        exact (hlock hnone b hb d hd a ha).symm
      · exact h.same hnone d hd e he a b ha hb
  · rw [hstores]
    intro hnone lock hlock d hd a ha
    rcases hmem d hd with hdpc | hd
    · rw [hdpc] at ha
      exact (hregistry hnone lock hlock a).1 ha
    · exact (hregistry hnone lock hlock a).2 d hd ha
  · rw [hstores]
    intro d hd hdcreates
    rcases hmem d hd with hdpc | hd
    · rw [hdpc] at hdcreates
      exact hcreates hdcreates
    · exact h.creating d hd hdcreates
  · rw [hstores, hstored]
    exact h.stored
  · rw [hstores]
    intro d hd threadId created hdone
    rcases hmem d hd with hdpc | hd
    · exact hreturned threadId created (hdpc.symm.trans hdone)
    · exact h.returned d hd threadId created hdone

theorem Serial.keep {pc : CallPc} (h : Serial config s) (hc : s.calls[i]? = some c)
    (hcalls : t.calls = (s.setPc i pc).calls) (hstores : t.stores = s.stores)
    (hstored : t.stored = s.stored) (hregistry : t.registry = s.registry ∨ t.registry = none)
    (hlock : ∀ a, pc.lock = some a → c.pc.lock = some a)
    (hholds : ∀ lock, pc.holds = some lock → c.pc.holds = some lock ∨ s.free lock = true)
    (hcreates : pc.creates = true → config.lookupThreadId s.stores = none)
    (hreturned : ∀ threadId created, pc = .done (some (threadId, created)) →
      config.lookupThreadId s.stores = some threadId) : Serial config t := by
  have hmem := List.mem_of_getElem? hc
  refine h.change hc hcalls hstores hstored hholds ?_ ?_ hcreates hreturned
  · intro hnone a ha d hd b hb
    exact h.same hnone c hmem d hd a b (hlock a ha) hb
  · intro hnone lock hregistered a
    rcases hregistry with hsame | hdropped
    · rw [hsame] at hregistered
      refine ⟨?_, ?_⟩
      · intro ha
        exact h.registered hnone lock hregistered c hmem a (hlock a ha)
      · intro d hd ha
        exact h.registered hnone lock hregistered d hd a ha
    · rw [hdropped] at hregistered
      cases hregistered

theorem Serial.goOn {pc : CallPc} (h : Serial config s) (hc : s.calls[i]? = some c)
    (hcreates : c.pc.creates = true) (hlock : pc.lock = c.pc.lock) (hholds : pc.holds = c.pc.holds)
    (hpc : ∀ result, pc ≠ .done result) : Serial config (s.setPc i pc) := by
  refine h.keep hc rfl rfl rfl (.inl rfl) ?_ ?_ ?_ ?_
  · intro a ha
    rwa [← hlock]
  · intro lock ha
    rw [← hholds]
    exact .inl ha
  · intro _
    exact h.creating c (List.mem_of_getElem? hc) hcreates
  · intro threadId created hdone
    exact absurd hdone (hpc _)

theorem Serial.leave {result : Option (ThreadId × Bool)} (h : Serial config s)
    (hc : s.calls[i]? = some c) (hreturned : ∀ threadId created,
      result = some (threadId, created) → config.lookupThreadId s.stores = some threadId) :
    Serial config (s.leave i result) := by
  refine h.keep hc rfl rfl rfl (.inr rfl) nofun nofun nofun ?_
  intro threadId created hdone
  exact hreturned threadId created (CallPc.done.inj hdone)

theorem Serial.enter (h : Serial config s) (hc : s.calls[i]? = some c)
    (hslip : ¬ (s.registry = none ∧ config.lookupThreadId s.stores = none ∧
      ∃ d ∈ s.calls, d.pc.lock ≠ none)) : Serial config (s.enter i) := by
  -- before a thread is stored, nobody is inside the `try` with another lock
  have hothers : config.lookupThreadId s.stores = none →
      ∀ d ∈ s.calls, ∀ a, d.pc.lock = some a → a = s.registry.getD s.nextLock := by
    intro hnone d hd a ha
    rcases hregistry : s.registry with _ | lock
    · refine absurd ⟨hregistry, hnone, d, hd, ?_⟩ hslip
      rw [ha]
      exact nofun
    · exact h.registered hnone lock hregistry d hd a ha
  unfold ChannelManager.enter
  dsimp only
  by_cases hfree : s.free (s.registry.getD s.nextLock) = true ∧
      s.firstWaiting (s.registry.getD s.nextLock) = none
  · rw [if_pos hfree]
    refine h.change hc rfl rfl rfl ?_ ?_ ?_ nofun nofun
    · intro lock hlock
      cases hlock
      exact .inr hfree.1
    · intro hnone a ha d hd b hb
      cases ha
      exact (hothers hnone d hd b hb).symm
    · intro hnone lock hlock a
      cases hlock
      exact ⟨fun ha => (Option.some.inj ha).symm, fun d hd ha => hothers hnone d hd a ha⟩
  · rw [if_neg hfree]
    refine h.change hc rfl rfl rfl nofun ?_ ?_ nofun nofun
    · intro hnone a ha d hd b hb
      cases ha
      exact (hothers hnone d hd b hb).symm
    · intro hnone lock hlock a
      cases hlock
      exact ⟨fun ha => (Option.some.inj ha).symm, fun d hd ha => hothers hnone d hd a ha⟩

theorem Serial.store {lock : Nat} {threadId : ThreadId} {result : Option (ThreadId × Bool)}
    (h : Serial config s) (hc : s.calls[i]? = some c) (hpc : c.pc = .storing lock threadId)
    (hplace : config.looksInRepo = config.storesInRepo c.ownerUserId)
    (hresult : ∀ x created, result = some (x, created) → x = threadId) :
    Serial config ((store config s c threadId).leave i result) := by
  have hcreates : c.pc.creates = true := by
    rw [hpc]
    rfl
  have hnone := h.creating c (List.mem_of_getElem? hc) hcreates
  have hlookup : config.lookupThreadId ((ChannelManager.store config s c threadId).leave i
      result).stores = some threadId := ManagerConfig.lookup_storeThreadId hplace
  have hcall : ∀ (j : Nat) (d : ThreadCall), ((ChannelManager.store config s c threadId).leave i result).calls[j]? =
      some d → d.pc = .done result ∧ i = j ∨ i ≠ j ∧ s.calls[j]? = some d := by
    intro j d hd
    obtain ⟨e, he, ⟨hij, rfl⟩ | ⟨hij, rfl⟩⟩ := Slots.getElem?_modify hd
    · exact .inl ⟨rfl, hij⟩
    · exact .inr ⟨hij, he⟩
  refine ⟨?_, ?_, ?_, ?_, ?_, ?_⟩
  · intro j k d e lock' hd he hdlock helock
    rcases hcall j d hd with ⟨hdone, -⟩ | ⟨-, hd⟩
    · rw [hdone] at hdlock
      cases hdlock
    · rcases hcall k e he with ⟨hdone, -⟩ | ⟨-, he⟩
      · rw [hdone] at helock
        cases helock
      · exact h.alone j k d e lock' hd he hdlock helock
  · intro hempty
    rw [hlookup] at hempty
    cases hempty
  · intro hempty
    rw [hlookup] at hempty
    cases hempty
  · intro d hd hdcreates
    obtain ⟨j, hj⟩ := List.getElem?_of_mem hd
    rcases hcall j d hj with ⟨hdone, -⟩ | ⟨hij, hj⟩
    · rw [hdone] at hdcreates
      cases hdcreates
    · exact absurd (h.creating_eq hc hj hcreates hdcreates) hij
  · intro x
    rw [hlookup]
    have hfirst : s.stored = [] := by
      apply List.eq_nil_iff_forall_not_mem.mpr
      intro y hy
      rw [h.stored, hnone] at hy
      cases hy
    change x ∈ s.stored ++ [threadId] ↔ _
    rw [hfirst, List.nil_append, List.mem_singleton, Option.some_inj]
    exact eq_comm
  · intro d hd x created hdone
    rw [hlookup]
    obtain ⟨j, hj⟩ := List.getElem?_of_mem hd
    rcases hcall j d hj with ⟨hdpc, -⟩ | ⟨-, hj⟩
    · rw [hresult x created (CallPc.done.inj (hdpc.symm.trans hdone))]
    · have hfound := h.returned d (List.mem_of_getElem? hj) x created hdone
      rw [hnone] at hfound
      cases hfound

theorem Serial.callStep (h : Serial config s) (hc : s.calls[i]? = some c)
    (hslip : ¬ CallSlips config s c answer) (ht : callStep config s i c answer = some t) :
    Serial config t := by
  unfold ChannelManager.callStep at ht
  split at ht
  · split at ht
    · next threadId hfound =>
      cases ht
      refine h.keep hc rfl rfl rfl (.inl rfl) nofun nofun nofun ?_
      rintro x created hdone
      cases hdone
      exact hfound
    · cases ht
      exact h.keep hc rfl rfl rfl (.inl rfl) nofun nofun nofun nofun
  · cases ht
    exact h.keep hc rfl rfl rfl (.inl rfl) nofun nofun nofun nofun
  · next hpc =>
    cases ht
    apply h.enter hc
    unfold CallSlips at hslip
    rw [hpc] at hslip
    exact hslip
  · next lock hpc =>
    split_ifs at ht with hfree
    cases ht
    refine h.keep hc rfl rfl rfl (.inl rfl) ?_ ?_ nofun nofun
    · rw [hpc]
      exact fun a ha => ha
    · intro a ha
      cases ha
      exact .inr hfree.1
  · next lock hpc =>
    split at ht
    · next threadId hfound =>
      cases ht
      apply h.leave hc
      rintro x created hdone
      cases hdone
      exact hfound
    · next hnone =>
      cases ht
      refine h.keep hc rfl rfl rfl (.inl rfl) ?_ ?_ (fun _ => hnone) nofun
      · rw [hpc]
        exact fun a ha => ha
      · rw [hpc]
        exact fun a ha => .inl ha
  · next lock threadId hpc =>
    cases ht
    apply h.goOn hc
    · rw [hpc]
      rfl
    · rw [hpc]
      rfl
    · rw [hpc]
      rfl
    · exact nofun
  · next lock hpc =>
    split at ht
    · cases ht
      exact h.leave hc nofun
    · cases ht
      apply h.goOn hc
      · rw [hpc]
        rfl
      · rw [hpc]
        rfl
      · rw [hpc]
        rfl
      · exact nofun
  · next lock hpc =>
    split at ht
    · cases ht
    · cases ht
      apply h.goOn hc
      · rw [hpc]
        rfl
      · rw [hpc]
        rfl
      · rw [hpc]
        rfl
      · exact nofun
  · next lock threadId hpc =>
    cases ht
    unfold CallSlips at hslip
    rw [hpc] at hslip
    refine h.store hc hpc (not_not.mp hslip) ?_
    intro x created hresult
    exact (Prod.mk.inj (Option.some.inj hresult)).1.symm
  · next lock threadId hpc =>
    cases ht
    unfold CallSlips at hslip
    rw [hpc] at hslip
    exact h.store hc hpc (not_not.mp hslip) nofun
  · cases ht
    exact h.leave hc nofun
  · cases ht
    exact h.leave hc nofun
  · cases ht
    exact h.leave hc nofun
  · cases ht
    exact h.leave hc nofun
  · cases ht

theorem Serial.cancelCall (h : Serial config s) (hc : s.calls[i]? = some c)
    (ht : s.cancelCall i c = some t) : Serial config t := by
  unfold ChannelManager.cancelCall at ht
  split at ht
  · cases ht
  · cases ht
    exact h.keep hc rfl rfl rfl (.inl rfl) nofun nofun nofun nofun
  · cases ht
    exact h.keep hc rfl rfl rfl (.inl rfl) nofun nofun nofun nofun
  · cases ht
    exact h.leave hc nofun

theorem Serial.call (h : Serial config s) (owner : Option String) (preferred : Option ThreadId) :
    Serial config { s with calls := s.calls ++ [⟨owner, preferred, .start⟩] } := by
  have hcall : ∀ (j : Nat) (d : ThreadCall), (s.calls ++ [⟨owner, preferred, .start⟩])[j]? =
      some d → d.pc = .start ∨ s.calls[j]? = some d := by
    intro j d hd
    rcases Slots.getElem?_concat hd with hd | ⟨-, rfl⟩
    · exact .inr hd
    · exact .inl rfl
  have hmem : ∀ d ∈ s.calls ++ [⟨owner, preferred, .start⟩], d.pc = .start ∨ d ∈ s.calls := by
    intro d hd
    obtain ⟨j, hj⟩ := List.getElem?_of_mem hd
    exact (hcall j d hj).imp_right List.mem_of_getElem?
  refine ⟨?_, ?_, ?_, ?_, h.stored, ?_⟩
  · intro j k d e lock hd he hdlock helock
    rcases hcall j d hd with hpc | hd
    · rw [hpc] at hdlock
      cases hdlock
    · rcases hcall k e he with hpc | he
      · rw [hpc] at helock
        cases helock
      · exact h.alone j k d e lock hd he hdlock helock
  · intro hnone d hd e he a b ha hb
    rcases hmem d hd with hpc | hd
    · rw [hpc] at ha
      cases ha
    · rcases hmem e he with hpc | he
      · rw [hpc] at hb
        cases hb
      · exact h.same hnone d hd e he a b ha hb
  · intro hnone lock hlock d hd a ha
    rcases hmem d hd with hpc | hd
    · rw [hpc] at ha
      cases ha
    · exact h.registered hnone lock hlock d hd a ha
  · intro d hd hcreates
    rcases hmem d hd with hpc | hd
    · rw [hpc] at hcreates
      cases hcreates
    · exact h.creating d hd hcreates
  · intro d hd threadId created hdone
    rcases hmem d hd with hpc | hd
    · rw [hpc] at hdone
      cases hdone
    · exact h.returned d hd threadId created hdone

theorem Serial.step {e : ManagerEvent} (h : Serial config s) (hslip : ¬ Slips config s e)
    (ht : step config s e = some t) : Serial config t := by
  cases e with
  | call owner preferred =>
    cases ht
    exact h.call owner preferred
  | step i answer =>
    obtain ⟨c, hc, ht⟩ := Option.bind_eq_some_iff.mp ht
    apply h.callStep hc _ ht
    intro hcall
    exact hslip ⟨c, hc, hcall⟩
  | cancel i =>
    obtain ⟨c, hc, ht⟩ := Option.bind_eq_some_iff.mp ht
    exact h.cancelCall hc ht

end Steps

theorem serial_start (config : ManagerConfig) (stores : ThreadStores) :
    Serial config (start config stores) := by
  refine ⟨?_, ?_, ?_, ?_, ?_, ?_⟩
  · intro i j c d lock hc
    cases hc
  · intro _ c hc
    cases hc
  · intro _ lock hlock
    cases hlock
  · intro c hc
    cases hc
  · intro x
    exact Option.mem_toList
  · intro c hc
    cases hc

end ChannelManager

/-- A conversation has one thread while every call finds the lock of those before it. -/
theorem one_thread_per_conversation {config : ManagerConfig} {stores : ThreadStores}
    {s : ChannelManager} (h : Reachable ((channelManager config stores).when fun s e =>
      ¬ ChannelManager.Slips config s e) s) : s.OneThread := by
  have hserial : ChannelManager.Serial config s := by
    apply h.invariant (I := ChannelManager.Serial config)
    · rintro s rfl
      exact ChannelManager.serial_start config stores
    · rintro s e t - hs ⟨hslip, hstep⟩
      exact hs.step hslip hstep
  exact hserial.oneThread

section Examples

private def slack : ManagerConfig := ⟨⟨"slack", "C1", none, none⟩, false⟩

private def noThreads : ThreadStores := ⟨.empty, .empty⟩

private def managerScript (events : List ManagerEvent) :
    List (ChannelManager → ManagerEvent) := events.map fun e _ => e

/-- Two messages arrive at once: the second waits, and finds the thread of the first. -/
theorem one_thread_per_conversation_concurrent : ∃ s : ChannelManager,
    s.calls.map ThreadCall.pc = [.done (some (⟨"thread-1", by decide⟩, true)),
      .done (some (⟨"thread-1", by decide⟩, false))] ∧ s.OneThread := by
  have hrun : (runScript (guarded (fun s e => ¬ ChannelManager.Slips slack s e)
      (ChannelManager.step slack)) (.start slack noThreads) (managerScript [.call none none,
        .call none none, .step 0 .returns, .step 1 .returns, .step 0 .returns, .step 1 .returns,
        .step 0 .returns, .step 0 (.created ⟨"thread-1", by decide⟩), .step 0 .returns,
        .step 1 .returns, .step 1 .returns])).any (fun s =>
          decide (s.calls.map ThreadCall.pc = [.done (some (⟨"thread-1", by decide⟩, true)),
            .done (some (⟨"thread-1", by decide⟩, false))])) = true := by
    decide +kernel
  obtain ⟨s, hs, h⟩ := exists_reachable_of_decide _ hrun
  exact ⟨s, h, one_thread_per_conversation (when_of_guarded hs)⟩

/-- The first create fails and takes the registry's entry while the second call waits; the third
call makes a lock of its own. -/
theorem dropped_lock_creates_twice : ¬ ∀ config stores s,
    Reachable (channelManager config stores) s → s.OneThread := by
  intro hall
  have hrun : (runScript (ChannelManager.step slack) (.start slack noThreads) (managerScript
      [.call none none, .call none none, .step 0 .returns, .step 0 .returns, .step 0 .returns,
        .step 1 .returns, .step 1 .returns, .step 0 (.raises false), .step 1 .returns,
        .step 1 .returns, .call none none, .step 2 .returns, .step 2 .returns,
        .step 2 .returns])).any (fun s => (s.calls[1]?.any fun c => c.pc.creates) &&
          s.calls[2]?.any fun c => c.pc.creates) = true := by
    decide +kernel
  obtain ⟨s, hs, h⟩ := exists_reachable_of_runScript _ hrun
  obtain ⟨h₁, h₂⟩ := Bool.and_eq_true_iff.mp h
  obtain ⟨c, hc, hcreates⟩ := (Option.any_eq_true _ _).mp h₁
  obtain ⟨d, hd, hdcreates⟩ := (Option.any_eq_true _ _).mp h₂
  have heq := (hall slack noThreads s hs).creating 1 2 c d hc hd hcreates hdcreates
  cases heq

end Examples

end DeerFlow.Channels
