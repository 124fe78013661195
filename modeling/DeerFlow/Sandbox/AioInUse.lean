import DeerFlow.Sandbox.AioIsolation

/-! A sandbox in use. What an acquire returns stays until its user gives it up, it is found dead or
idle for too long: that holds while nothing is returned that some other call has already decided to
destroy. -/

namespace DeerFlow.Sandbox
open Transition

/-- Between its last look at the active sandboxes and the registration, or on its way to
`backend.destroy`. -/
def AcquirePc.clear : AcquirePc → Bool
  | .lookup .warm true | .check .warm true _ _ | .confirm .warm true _ | .drop _ _ _ _ | .discover
  | .registerDiscovered | .replicas | .evict | .create | .ready | .registerCreated
  | .stopping _ _ => true
  | .waiting | .lookup _ _ | .check _ _ _ _ | .confirm _ _ _ | .returned _ | .ended => false

def AcquirePc.stops (pc : AcquirePc) (id : SandboxId) : Bool :=
  match pc with
  | .stopping id' _ => decide (id' = id)
  | _ => false

/-- The acquire has found the sandbox dead and is about to drop it: the info that it checked still
is the tracked one. -/
def AcquirePc.drops (pc : AcquirePc) (p : Provider) (id : SandboxId) : Bool :=
  match pc with
  | .drop _ _ id' info => decide (id' = id) && p.tracks id info
  | _ => false

namespace Aio

section Property
variable (idOf : ThreadKey → SandboxId) (timeout : Rat) (s : Aio)

/-- An acquire has returned the id; since then it was neither given up nor found dead, and since
that acquire or its last `get` it has not been idle for longer than the timeout. -/
def Protected (id : SandboxId) : Prop := ∃ used ∈ s.inUse.find id, s.clock - used ≤ timeout

/-- The id on which the event executes `backend.destroy`. -/
def destroys : AioEvent → Option SandboxId
  | .advance i _ => s.acquires[i]?.bind fun c =>
    match c.pc with
    | .stopping id _ => some id
    | _ => none
  | .work j _ => s.jobs[j]?.bind fun job =>
    match job with
    | .stop id :: _ => some id
    | _ => none
  | _ => none

/-- The id that an acquire finds again in a cache and returns. -/
def confirms : AioEvent → Option SandboxId
  | .advance i _ => s.acquires[i]?.bind fun c =>
    match c.pc with
    | .confirm cache _ id =>
      if (s.provider.confirm c.owner id s.clock cache).2 && !c.abandoned then some id else none
    | _ => none
  | _ => none

/-- Some call is going to execute `backend.destroy` on the id, or to remove it and then do so. -/
def Pending (id : SandboxId) : Prop :=
  (∃ c ∈ s.acquires, c.pc.stops id = true) ∨
    ∃ job ∈ s.jobs, Task.stop id ∈ job ∨ Task.remove id ∈ job

/-- Some acquire is about to drop the tracked sandbox. -/
def Failing (id : SandboxId) : Prop := ∃ c ∈ s.acquires, c.pc.drops s.provider id = true

/-- Two acquires of different threads, or of no thread, have one id. -/
def SharesId : AioEvent → Prop
  | .acquire owner uuid _ => ∃ c ∈ s.acquires,
    c.sandboxId = (owner.map idOf).getD uuid ∧ (c.owner ≠ owner ∨ owner = none)
  | _ => False

/-- A sandbox is returned, or used again, that another call has decided to destroy; one is registered
that the warm pool still has; or one is marked as idle at the very end of its time. -/
def Slips (event : AioEvent) : Prop :=
  (∃ id ∈ s.confirms event, s.Pending id ∨ s.Failing id) ∨
  (∃ id ∈ s.registers event, s.Pending id ∨ (s.provider.warmPool.find id).isSome = true) ∨
  match event with
  | .get id => (s.provider.sandboxes.find id).isSome = true ∧ (s.inUse.find id).isSome = true ∧
      s.Pending id
  | .work j _ => ∃ job ∈ s.jobs[j]?, match job with
    | .recheck id :: _ => s.Protected timeout id ∧
        ∃ lastActivity ∈ s.provider.lastActivity.find id, s.clock - lastActivity = timeout
    | _ => False
  | _ => False

instance (id : SandboxId) : Decidable (s.Protected timeout id) :=
  inferInstanceAs (Decidable (∃ used ∈ s.inUse.find id, _))

instance (id : SandboxId) : Decidable (s.Pending id) := inferInstanceAs (Decidable (_ ∨ _))

instance (id : SandboxId) : Decidable (s.Failing id) :=
  inferInstanceAs (Decidable (∃ c ∈ s.acquires, _))

instance (event : AioEvent) : Decidable (s.SharesId idOf event) := by
  unfold SharesId
  split <;> infer_instance

instance (event : AioEvent) : Decidable (s.Slips timeout event) := by
  refine @instDecidableOr _ _ _ (@instDecidableOr _ _ _ ?_)
  split
  · infer_instance
  · refine @Option.decidableExistsMem _ _ (fun job => ?_) _
    split <;> infer_instance
  · infer_instance

end Property

section Invariant

/-- What holds of a provider whose steps have not slipped. -/
structure Kept (idOf : ThreadKey → SandboxId) (timeout : Rat) (s : Aio) : Prop where
  named : s.Named idOf
  sameIds : s.provider.SameIds
  apart : s.provider.Apart
  /-- Acquires with one id are of one thread, and only one of them holds its lock. -/
  owners : ∀ (i j : Nat) (c d : Acquire), s.acquires[i]? = some c → s.acquires[j]? = some d →
    i ≠ j → c.sandboxId = d.sandboxId →
    c.owner = d.owner ∧ c.owner ≠ none ∧ ¬ (c.inside = true ∧ d.inside = true)
  present : ∀ c ∈ s.acquires, c.pc.present = true → c.abandoned = false
  /-- Infos are numbered in the order of their registration. -/
  infos : ∀ id info, s.provider.tracks id info = true → info < s.nextInfo
  checked : ∀ c ∈ s.acquires, ∀ cache postLock id info,
    c.pc = .check cache postLock id (some info) ∨ c.pc = .drop cache postLock id info →
    info < s.nextInfo
  cold : ∀ id, (s.inUse.find id).isSome = true → s.provider.warmPool.find id = none
  /-- What is in use is active and has been used since, or has been idle for too long. -/
  active : ∀ id used, s.inUse.find id = some used → used ≤ s.clock ∧
    ((∃ lastActivity, s.provider.lastActivity.find id = some lastActivity ∧ used ≤ lastActivity) ∨
      s.provider.sandboxes.find id = none ∧ timeout < s.clock - used)
  mapped : ∀ id, (s.inUse.find id).isSome = true → (s.provider.sandboxes.find id).isSome = true →
    ∀ c ∈ s.acquires, c.sandboxId = id → ∀ key, c.owner = some key →
      s.provider.threadSandboxes.find key = some id
  returned : ∀ id, (s.inUse.find id).isSome = true → ∃ c ∈ s.acquires, c.pc = .returned id
  /-- Nobody uses what an acquire does not find among the active sandboxes. -/
  clear : ∀ c ∈ s.acquires, c.abandoned = false → c.pc.clear = true →
    ∀ used, s.inUse.find c.sandboxId = some used →
      s.provider.sandboxes.find c.sandboxId = none ∧ timeout < s.clock - used
  failing : ∀ id, s.Failing id → s.inUse.find id = none
  pending : ∀ id, s.Pending id → ¬ s.Protected timeout id

end Invariant

section Changes
variable {idOf : ThreadKey → SandboxId} {timeout : Rat} {s t : Aio} {event : AioEvent} {i j : Nat}
  {c : Acquire} {answer : Answer} {id : SandboxId} {key : ThreadKey} {info : Nat} {p : Provider}

theorem pending_of_acquire (hi : s.acquires[i]? = some c) (h : c.pc.stops id = true) :
    s.Pending id := .inl ⟨c, List.mem_of_getElem? hi, h⟩

theorem pending_of_job {job : List Task} (hj : s.jobs[j]? = some job)
    (h : Task.stop id ∈ job ∨ Task.remove id ∈ job) : s.Pending id :=
  .inr ⟨job, List.mem_of_getElem? hj, h⟩

/-- What a step can do to the maps. -/
inductive Changed (s : Aio) (event : AioEvent) : Provider → Prop
  | same : Changed s event s.provider
  | forgot {p : Provider} : s.provider.Forgets p → Changed s event p
  | touched {id : SandboxId} : (s.provider.sandboxes.find id).isSome = true →
      Changed s event { s.provider with lastActivity := s.provider.lastActivity.set id s.clock }
  | reclaimed {c : Acquire} {id : SandboxId} {e : Nat × Rat} : c ∈ s.acquires → c.pc.id? = some id →
      s.provider.warmPool.find id = some e →
      Changed s event
        ({ s.provider with warmPool := s.provider.warmPool.erase id }.track c.owner id e.1 s.clock)
  | registered {c : Acquire} : c ∈ s.acquires → s.registers event = some c.sandboxId →
      Changed s event (s.provider.track c.owner c.sandboxId s.nextInfo s.clock)
  | removed {id : SandboxId} : s.Pending id ∨ s.Failing id →
      Changed s event (s.provider.removeTrackedSandbox id)
  | released {id : SandboxId} : event = .release id →
      Changed s event (s.provider.release id s.clock)
  | cooled {warm : Assoc SandboxId (Nat × Rat)} {flag : Bool} :
      (∀ id e, warm.find id = some e → s.provider.warmPool.find id = some e) →
      Changed s event { s.provider with warmPool := warm, shutdownCalled := flag }

theorem changed_advanced {pc : AcquirePc} (hi : s.acquires[i]? = some c)
    (ht : s.Advanced i c answer pc t) :
    s.Changed (.advance i answer) t.provider := by
  have hc := List.mem_of_getElem? hi
  cases ht with
  | onward _ | dead _ | created _ _ => exact .same
  | missed _ hp _ => exact .forgot hp
  | @dropped cache postLock id info hpc htracks =>
    apply Changed.removed
    refine .inr ⟨c, hc, ?_⟩
    rw [hpc]
    simpa [AcquirePc.drops] using htracks
  | confirmed hpc hp =>
    rw [provider_obtain]
    cases Provider.confirm_found hp with
    | inProcess _ _ hactive => exact .touched hactive
    | warm hwarm =>
      apply Changed.reclaimed hc _ hwarm
      rw [hpc]
      rfl
  | registered hpc =>
    unfold register
    rw [provider_obtain]
    exact .registered hc (registers_eq hi hpc)
  | @evicted id _ _ =>
    apply Changed.cooled
    intro id' e he
    rw [Assoc.find_erase] at he
    split_ifs at he
    exact he
  | stopped _ =>
    change s.Changed _ (s.backendDestroy _ answer).provider
    rw [provider_backendDestroy]
    exact .same

theorem changed_step (ht : s.Stepped idOf timeout event t) : s.Changed event t.provider := by
  cases ht with
  | acquire | abandoned _ _ _ | cancelled _ _ | destroy | cleanupIdle | tick _ | running | start _
  | die => exact .same
  | advance hi ht => exact changed_advanced hi ht
  | @get id =>
    change s.Changed _ (s.provider.get id s.clock)
    unfold Provider.get
    split_ifs with hactive
    · exact .touched hactive
    · exact .same
  | release => exact .released rfl
  | shutdown =>
    unfold shutdown
    split_ifs
    · exact .same
    · apply Changed.cooled
      intro id e he
      cases he
  | work hj ht =>
    cases ht with
    | mark | skipped | marked _ _ | readTime => exact .same
    | absent _ | removed =>
      exact .removed (.inl (pending_of_job hj (.inr (List.mem_cons_self ..))))
    | stop =>
      change s.Changed _ (s.backendDestroy _ _).provider
      rw [provider_backendDestroy]
      exact .same
    | reap =>
      apply Changed.cooled
      intro id e he
      change Assoc.find (Table.keep _ _) id = _ at he
      rw [Assoc.find_keep, Option.filter_eq_some_iff] at he
      exact he.1

/-- A sandbox becomes active from the warm pool or by registration. -/
theorem Changed.sandboxes (h : s.Changed event p) (hp : (p.sandboxes.find id).isSome = true) :
    (s.provider.sandboxes.find id).isSome = true ∨
      (s.provider.warmPool.find id).isSome = true ∨ s.registers event = some id := by
  cases h with
  | same | touched _ | cooled _ => exact .inl hp
  | forgot hforgot =>
    rcases hforgot with rfl | ⟨key, existing, -, -, rfl⟩ <;> exact .inl hp
  | reclaimed _ _ hwarm =>
    simp only [Provider.track, Assoc.find_set] at hp
    split_ifs at hp with hid
    · rw [hid, hwarm]
      exact .inr (.inl rfl)
    · exact .inl hp
  | registered _ hregisters =>
    simp only [Provider.track, Assoc.find_set] at hp
    split_ifs at hp with hid
    · rw [hid]
      exact .inr (.inr hregisters)
    · exact .inl hp
  | removed _ | released _ => exact .inl (Provider.isSome_untrack hp).2

/-- A sandbox becomes warm by its release. -/
theorem Changed.warmPool (h : s.Changed event p) (hp : (p.warmPool.find id).isSome = true) :
    (s.provider.warmPool.find id).isSome = true ∨ event = .release id := by
  cases h with
  | same | touched _ | registered _ _ => exact .inl hp
  | forgot hforgot =>
    rcases hforgot with rfl | ⟨key, existing, -, -, rfl⟩ <;> exact .inl hp
  | reclaimed _ _ _ | removed _ =>
    change (Assoc.find (Table.erase _ _) id).isSome = true at hp
    rw [Assoc.find_erase] at hp
    split_ifs at hp
    · cases hp
    · exact .inl hp
  | @released id' hevent =>
    rcases Provider.find_release s.provider id' s.clock id with hwarm | ⟨rfl, -⟩
    · rw [hwarm] at hp
      exact .inl hp
    · exact .inr hevent
  | cooled hwarm =>
    obtain ⟨e, he⟩ := Option.isSome_iff_exists.mp hp
    rw [hwarm id e he]
    exact .inl rfl

theorem Changed.lastActivity (h : s.Changed event p) {lastActivity : Rat}
    (hs : s.provider.lastActivity.find id = some lastActivity) :
    p.lastActivity.find id = some lastActivity ∨ p.lastActivity.find id = some s.clock ∨
      event = .release id ∨ p.sandboxes.find id = none ∧ (s.Pending id ∨ s.Failing id) := by
  cases h with
  | same | cooled _ => exact .inl hs
  | forgot hforgot =>
    rcases hforgot with rfl | ⟨key, existing, -, -, rfl⟩ <;> exact .inl hs
  | touched _ | reclaimed _ _ _ | registered _ _ =>
    simp only [Provider.track, Assoc.find_set]
    split_ifs
    · exact .inr (.inl rfl)
    · exact .inl hs
  | @removed id' hwhy =>
    by_cases hid : id = id'
    · refine .inr (.inr (.inr ⟨?_, hid ▸ hwhy⟩))
      simp [Provider.removeTrackedSandbox, Provider.untrack, hid]
    · apply Or.inl
      simpa [Provider.removeTrackedSandbox, Provider.untrack, hid] using hs
  | @released id' hevent =>
    by_cases hid : id = id'
    · rw [hid]
      exact .inr (.inr (.inl hevent))
    · apply Or.inl
      simpa [Provider.release, Provider.untrack, hid] using hs

/-- A thread keeps its active sandbox. -/
theorem Changed.threads (h : s.Changed event p) (hnamed : s.Named idOf)
    (hs : s.provider.threadSandboxes.find key = some id)
    (hactive : (s.provider.sandboxes.find id).isSome = true) :
    p.threadSandboxes.find key = some id ∨ p.sandboxes.find id = none := by
  have hid := hnamed.threads key id hs
  cases h with
  | same | touched _ | cooled _ => exact .inl hs
  | forgot hforgot =>
    rcases hforgot with rfl | ⟨key', existing, hfind, hnone, rfl⟩
    · exact .inl hs
    · apply Or.inl
      change Assoc.find (Table.erase _ key') key = _
      rw [Assoc.find_erase]
      split_ifs with hkey
      · rw [← hkey, hs] at hfind
        cases hfind
        rw [hnone] at hactive
        cases hactive
      · exact hs
  | @reclaimed c id' e hc hpc hwarm =>
    have hid' := hnamed.placed c hc id' hpc
    have howned := hnamed.owned c hc
    apply Or.inl
    rcases c with ⟨_ | key', sandboxId, isAsync, gone, pc⟩
    · exact hs
    · simp only [Provider.track, Assoc.find_set]
      split_ifs with hkey
      · rw [hid', howned key' rfl, hid, hkey]
      · exact hs
  | @registered c hc _ =>
    have howned := hnamed.owned c hc
    apply Or.inl
    rcases c with ⟨_ | key', sandboxId, isAsync, gone, pc⟩
    · exact hs
    · simp only [Provider.track, Assoc.find_set]
      split_ifs with hkey
      · rw [hid, hkey, ← howned key' rfl]
      · exact hs
  | @removed id' _ | @released id' _ =>
    by_cases hsame : id = id'
    · apply Or.inr
      simp [Provider.removeTrackedSandbox, Provider.release, Provider.untrack, hsame]
    · apply Or.inl
      change Assoc.find (Table.keep _ _) key = _
      rw [Assoc.find_keep, hs]
      simp [Option.filter, hsame]

/-- Nothing is tracked again by an info that was not. -/
theorem Changed.tracks (h : s.Changed event p) (hp : p.tracks id info = true) :
    s.provider.tracks id info = true ∨ info = s.nextInfo ∧ s.registers event = some id := by
  rw [Provider.tracks_iff] at hp ⊢
  cases h with
  | same | touched _ => exact .inl hp
  | forgot hforgot =>
    rcases hforgot with rfl | ⟨key, existing, -, -, rfl⟩ <;> exact .inl hp
  | @reclaimed c id' e _ _ hwarm =>
    apply Or.inl
    simp only [Provider.track, Assoc.find_set, Assoc.find_erase] at hp
    split_ifs at hp with hid
    · apply Or.inr
      rw [hid, hwarm]
      simpa using hp
    · exact hp
  | @registered c _ hregisters =>
    simp only [Provider.track, Assoc.find_set] at hp
    split_ifs at hp with hid
    · rcases hp with hp | hp
      · rw [hid]
        exact .inr ⟨(Option.some.inj hp).symm, hregisters⟩
      · exact .inl (.inr hp)
    · exact .inl hp
  | @removed id' _ =>
    apply Or.inl
    simp only [Provider.removeTrackedSandbox, Provider.untrack, Assoc.find_erase] at hp
    split_ifs at hp with hid
    · simp at hp
    · exact hp
  | @released id' _ =>
    apply Or.inl
    rcases hp with hp | hp
    · change Assoc.find (Table.erase _ id') id = _ at hp
      rw [Assoc.find_erase] at hp
      split_ifs at hp
      exact .inl hp
    · rcases Provider.find_release s.provider id' s.clock id with hwarm | ⟨-, -, object, hobject, hwarm⟩
      · rw [hwarm] at hp
        exact .inr hp
      · rw [hwarm] at hp
        rw [hobject]
        exact .inl hp
  | cooled hwarm =>
    apply Or.inl
    refine hp.imp_right fun hp => ?_
    obtain ⟨e, he, hinfo⟩ := Option.map_eq_some_iff.mp hp
    rw [hwarm id e he]
    exact congrArg some hinfo

end Changes

section Moves
variable {idOf : ThreadKey → SandboxId} {timeout : Rat} {s t : Aio} {event : AioEvent} {i j : Nat}
  {c c' : Acquire} {answer : Answer} {id : SandboxId} {used : Rat} {pc : AcquirePc}

/-- Where an acquire of the next state comes from. -/
inductive Came (idOf : ThreadKey → SandboxId) (s : Aio) (event : AioEvent) (t : Aio) (j : Nat)
    (c' : Acquire) : Prop
  | old : s.acquires[j]? = some c' → Came idOf s event t j c'
  | moved {c : Acquire} {answer : Answer} {pc : AcquirePc} : s.acquires[j]? = some c →
      event = .advance j answer → s.Advanced j c answer pc t → c' = { c with pc := pc } →
      Came idOf s event t j c'
  | cancelled {c : Acquire} : s.acquires[j]? = some c → c' = { c with pc := .ended } →
      Came idOf s event t j c'
  | abandoned {c : Acquire} : s.acquires[j]? = some c → c.pc.present = false →
      c' = { c with abandoned := true } → Came idOf s event t j c'
  | new {owner : Option ThreadKey} {uuid : SandboxId} {isAsync : Bool} :
      event = .acquire owner uuid isAsync → j = s.acquires.length →
      c' = ⟨owner, (owner.map idOf).getD uuid, isAsync, false,
        if owner.isSome then .waiting else .lookup .inProcess false⟩ → Came idOf s event t j c'

theorem came (ht : s.Stepped idOf timeout event t) (h : t.acquires[j]? = some c') :
    s.Came idOf event t j c' := by
  cases ht with
  | acquire =>
    rcases Slots.getElem?_concat h with h | ⟨rfl, rfl⟩
    · exact .old h
    · exact .new rfl rfl rfl
  | advance hi hmove =>
    rw [hmove.acquires] at h
    rcases getElem?_goTo hi h with ⟨rfl, rfl⟩ | ⟨-, h⟩
    · exact .moved hi rfl hmove rfl
    · exact .old h
  | abandoned hi _ hpc =>
    rcases getElem?_abandon hi h with ⟨rfl, rfl⟩ | ⟨-, h⟩
    · exact .abandoned hi hpc rfl
    · exact .old h
  | cancelled hi _ =>
    rcases getElem?_goTo hi h with ⟨rfl, rfl⟩ | ⟨-, h⟩
    · exact .cancelled hi rfl
    · exact .old h
  | get | release | destroy | cleanupIdle | tick _ | running | start _ | die => exact .old h
  | shutdown =>
    unfold shutdown at h
    split_ifs at h <;> exact .old h
  | work _ ht =>
    cases ht with
    | mark | skipped | marked _ _ | absent _ | removed | readTime | reap => exact .old h
    | stop =>
      unfold backendDestroy at h
      split_ifs at h <;> exact .old h

theorem Advanced.running (h : s.Advanced i c answer pc t) (hpc : c.pc ≠ .waiting) :
    c.inside = !c.abandoned := by
  unfold Acquire.inside
  cases h with
  | onward hmove =>
    cases hmove with
    | enter hwaiting _ => exact absurd hwaiting hpc
    | quit hwhere => rcases hwhere with h | h | h | h | ⟨h, -⟩ <;> simp [h]
    | seen h _ | alive h | kept h | found h | notFound h | counted h _ | noneWarm h | ready h
    | unready h => simp [h]
  | missed h _ _ => rcases h with ⟨h, -⟩ | h <;> simp [h]
  | registered h => rcases h with h | h <;> simp [h]
  | dead h | dropped h _ | confirmed h _ | evicted h _ | created h _ | stopped h => simp [h]

theorem counters_le (ht : s.Stepped idOf timeout event t) :
    s.clock ≤ t.clock ∧ s.nextInfo ≤ t.nextInfo := by
  cases ht with
  | acquire | abandoned _ _ _ | cancelled _ _ | get | release | destroy | cleanupIdle | running
  | start _ | die => exact ⟨le_rfl, le_rfl⟩
  | advance _ ht =>
    cases ht with
    | onward _ | missed _ _ _ | dead _ | dropped _ _ | evicted _ _ | created _ _ =>
      exact ⟨le_rfl, le_rfl⟩
    | confirmed _ _ =>
      unfold obtain
      split_ifs <;> exact ⟨le_rfl, le_rfl⟩
    | registered _ =>
      unfold register obtain
      split_ifs <;> exact ⟨le_rfl, Nat.le_succ _⟩
    | stopped _ =>
      unfold backendDestroy
      split_ifs <;> exact ⟨le_rfl, le_rfl⟩
  | shutdown =>
    unfold shutdown
    split_ifs <;> exact ⟨le_rfl, le_rfl⟩
  | work _ ht =>
    cases ht with
    | mark | skipped | marked _ _ | absent _ | removed | readTime | reap => exact ⟨le_rfl, le_rfl⟩
    | stop =>
      unfold backendDestroy
      split_ifs <;> exact ⟨le_rfl, le_rfl⟩
  | tick hd => exact ⟨le_add_of_nonneg_right hd, le_rfl⟩

/-- The event puts the id into the hands of a caller. -/
structure Obtains (s : Aio) (event : AioEvent) (t : Aio) (id : SandboxId) (i : Nat)
    (c : Acquire) : Prop where
  call : s.acquires[i]? = some c
  inside : c.inside = true
  named : c.pc.id? = some id ∨ c.sandboxId = id
  hits : s.confirms event = some id ∨ s.registers event = some id
  acquires : t.acquires = (s.goTo i (.returned id)).acquires
  clock : t.clock = s.clock
  used : t.provider.lastActivity.find id = some s.clock
  threads : ∀ key, c.owner = some key → t.provider.threadSandboxes.find key = some id

/-- What is in use was in use, is obtained, or is used again. -/
theorem inUse_step (ht : s.Stepped idOf timeout event t) (h : t.inUse.find id = some used) :
    s.inUse.find id = some used ∨ used = s.clock ∧ ((∃ i c, s.Obtains event t id i c) ∨
      event = .get id ∧ (s.provider.sandboxes.find id).isSome = true ∧
        (s.inUse.find id).isSome = true ∧ t.provider.lastActivity.find id = some s.clock) := by
  cases ht with
  | acquire | abandoned _ _ _ | cancelled _ _ | cleanupIdle | tick _ | running | start _ | die =>
    exact .inl h
  | @advance i answer c pc t hi ht =>
    have hacquires := ht.acquires
    cases ht with
    | onward _ | missed _ _ _ | dropped _ _ | evicted _ _ | created _ _ => exact .inl h
    | dead _ =>
      rw [Assoc.find_erase] at h
      split_ifs at h
      exact .inl h
    | @confirmed cache postLock id' p hpc hfound =>
      have hprovider := provider_obtain (s.withProvider p) i c id'
      unfold Aio.obtain at h hprovider hacquires ⊢
      by_cases hgone : c.abandoned = true
      · rw [if_pos hgone] at h
        exact .inl h
      · simp only [if_neg hgone] at h hprovider hacquires ⊢
        rw [Assoc.find_set] at h
        split_ifs at h with hid
        · subst hid
          refine .inr ⟨(Option.some.inj h).symm, .inl ⟨i, c, hi, ?_, ?_, ?_, ?_, rfl, ?_, ?_⟩⟩
          · simp [Acquire.inside, hpc, hgone]
          · simp [hpc, AcquirePc.id?]
          · simp [confirms, hi, hpc, hfound, hgone]
          · rw [hacquires]
            simp [Acquire.proceed, hgone]
          · change p.lastActivity.find id = _
            cases Provider.confirm_found hfound with
            | inProcess _ _ _ => simp
            | warm _ => simp [Provider.track]
          · intro key howner
            change p.threadSandboxes.find key = _
            cases Provider.confirm_found hfound with
            | inProcess hkey hfind _ =>
              rw [howner] at hkey
              cases hkey
              exact hfind
            | warm _ => simp [Provider.track, howner]
        · exact .inl h
    | registered hpc =>
      unfold register Aio.obtain at h hacquires ⊢
      by_cases hgone : c.abandoned = true
      · rw [if_pos hgone] at h
        exact .inl h
      · simp only [if_neg hgone] at h hacquires ⊢
        rw [Assoc.find_set] at h
        split_ifs at h with hid
        · subst hid
          refine .inr ⟨(Option.some.inj h).symm, .inl ⟨i, c, hi, ?_, .inr rfl,
            .inr (registers_eq hi hpc), ?_, rfl, ?_, ?_⟩⟩
          · rcases hpc with hpc | hpc <;> simp [Acquire.inside, hpc, hgone]
          · rw [hacquires]
            simp [Acquire.proceed, hgone]
          · simp [goTo, Provider.track]
          · intro key howner
            simp [goTo, Provider.track, howner]
        · exact .inl h
    | stopped _ =>
      apply Or.inl
      unfold backendDestroy at h
      split_ifs at h <;> exact h
  | @get id' =>
    change (if _ then _ else _ : Assoc SandboxId Rat).find id = _ at h
    split_ifs at h with hactive
    · rw [Assoc.find_alter] at h
      split_ifs at h with hid
      · subst hid
        obtain ⟨old, hold, rfl⟩ := Option.map_eq_some_iff.mp h
        refine .inr ⟨rfl, .inr ⟨rfl, hactive, by rw [hold]; rfl, ?_⟩⟩
        change (s.provider.get id s.clock).lastActivity.find id = _
        unfold Provider.get
        rw [if_pos hactive]
        simp
      · exact .inl h
    · exact .inl h
  | release | destroy =>
    change Assoc.find (Table.erase _ _) id = _ at h
    rw [Assoc.find_erase] at h
    split_ifs at h
    exact .inl h
  | shutdown =>
    unfold shutdown at h
    split_ifs at h
    · exact .inl h
    · cases h
  | work _ ht =>
    cases ht with
    | mark | skipped | marked _ _ | absent _ | removed | readTime | reap => exact .inl h
    | stop =>
      apply Or.inl
      unfold backendDestroy at h
      split_ifs at h <;> exact h

theorem stops_proceed (h : (c.proceed pc).stops id = true) : pc.stops id = true := by
  unfold Acquire.proceed at h
  split_ifs at h
  · cases h
  · exact h

theorem stops_missed (cache : Cache) (postLock : Bool) :
    (c.missed cache postLock).stops id = false := by
  unfold Acquire.missed Acquire.proceed
  split <;> repeat' split
  all_goals rfl

/-- Why the id is about to be destroyed: it was found dead, or did not become ready, or was warm,
or was found idle under the lock. -/
inductive Decided (timeout : Rat) (s : Aio) (event : AioEvent) (id : SandboxId) : Prop
  | failing : s.Failing id → Decided timeout s event id
  | unready {c : Acquire} : c ∈ s.acquires → c.pc = .ready → c.sandboxId = id →
      Decided timeout s event id
  | warm : (s.provider.warmPool.find id).isSome = true → Decided timeout s event id
  | idle {j : Nat} {answer : Answer} {rest : List Task} {lastActivity : Rat} :
      event = .work j answer → s.jobs[j]? = some (.recheck id :: rest) →
      s.provider.lastActivity.find id = some lastActivity →
      ¬ s.clock - lastActivity < timeout → Decided timeout s event id

/-- How an acquire comes to be about to destroy. -/
theorem Advanced.stops (h : s.Advanced i c answer pc t) (hc : c ∈ s.acquires)
    (hstops : pc.stops id = true) : s.Decided timeout event id ∧ t.inUse = s.inUse := by
  cases h with
  | onward hmove =>
    cases hmove with
    | unready hpc => exact ⟨.unready hc hpc (by simpa [AcquirePc.stops] using hstops), rfl⟩
    | enter _ _ | quit _ | seen _ _ | alive _ | ready _ => cases hstops
    | kept _ =>
      rw [stops_missed] at hstops
      cases hstops
    | found _ | notFound _ | noneWarm _ => cases stops_proceed hstops
    | counted _ hpc => rcases hpc with rfl | rfl <;> cases hstops
  | missed _ _ _ =>
    rw [stops_missed] at hstops
    cases hstops
  | dead _ => cases hstops
  | @dropped cache postLock id' info hpc htracks =>
    have hid : id' = id := by simpa [AcquirePc.stops] using hstops
    subst hid
    refine ⟨.failing ⟨c, hc, ?_⟩, rfl⟩
    simp [hpc, AcquirePc.drops, htracks]
  | confirmed _ _ | registered _ | created _ _ => cases stops_proceed hstops
  | @evicted id' _ hwarm =>
    have hid : id' = id := by simpa [AcquirePc.stops] using hstops
    exact ⟨.warm (hid ▸ hwarm), rfl⟩
  | @stopped id' next _ =>
    cases next with
    | missed cache postLock =>
      change (c.missed cache postLock).stops id = true at hstops
      rw [stops_missed] at hstops
      cases hstops
    | create => cases stops_proceed hstops
    | raise => cases hstops

/-- How a job comes to have something to destroy. -/
theorem job_step (ht : s.Stepped idOf timeout event t)
    (h : ∃ job ∈ t.jobs, Task.stop id ∈ job ∨ Task.remove id ∈ job) :
    s.Pending id ∨ t.inUse.find id = none ∨
      s.Decided timeout event id ∧ t.inUse = s.inUse := by
  have hadded {new : List Task} (hnew : ∃ job ∈ s.jobs ++ [new],
      Task.stop id ∈ job ∨ Task.remove id ∈ job) :
      s.Pending id ∨ Task.stop id ∈ new ∨ Task.remove id ∈ new := by
    obtain ⟨job, hjob, htask⟩ := hnew
    rcases List.mem_append.mp hjob with hjob | hjob
    · exact .inl (.inr ⟨job, hjob, htask⟩)
    · obtain rfl := List.mem_singleton.mp hjob
      exact .inr htask
  cases ht with
  | acquire | abandoned _ _ _ | cancelled _ _ | get | release | tick _ | running | start _ | die =>
    exact .inl (.inr h)
  | advance _ ht =>
    refine .inl (.inr ?_)
    cases ht with
    | onward _ | missed _ _ _ | dead _ | dropped _ _ | evicted _ _ | created _ _ => exact h
    | confirmed _ _ | registered _ =>
      simp only [register, jobs_obtain] at h
      exact h
    | stopped _ =>
      unfold backendDestroy at h
      split_ifs at h <;> exact h
  | @destroy id' =>
    rcases hadded h with h | h | h
    · exact .inl h
    · simp at h
    · obtain rfl : id = id' := by simpa using h
      refine .inr (.inl ?_)
      simp [Aio.destroy]
  | cleanupIdle =>
    rcases hadded h with h | h | h
    · exact .inl h
    · simp at h
    · simp at h
  | shutdown =>
    by_cases hdone : s.provider.shutdownCalled = true
    · unfold Aio.shutdown at h
      rw [if_pos hdone] at h
      exact .inl (.inr h)
    · refine .inr (.inl ?_)
      unfold Aio.shutdown
      rw [if_neg hdone]
      rfl
  | @work j task rest answer t hj ht =>
    have hset {new : List Task} (hnew : ∃ job ∈ (s.setJob j new).jobs,
        Task.stop id ∈ job ∨ Task.remove id ∈ job) :
        s.Pending id ∨ Task.stop id ∈ new ∨ Task.remove id ∈ new := by
      obtain ⟨job, hjob, htask⟩ := hnew
      rcases List.mem_or_eq_of_mem_set hjob with hjob | rfl
      · exact .inl (.inr ⟨job, hjob, htask⟩)
      · exact .inr htask
    have hrest (hr : Task.stop id ∈ rest ∨ Task.remove id ∈ rest) : s.Pending id := by
      apply pending_of_job hj
      exact hr.imp (List.mem_cons_of_mem _) (List.mem_cons_of_mem _)
    cases ht with
    | mark | readTime =>
      rcases hset h with h | h
      · exact .inl h
      · exact .inl (hrest (by simpa using h))
    | skipped | absent _ =>
      rcases hset h with h | h
      · exact .inl h
      · exact .inl (hrest h)
    | @marked id' lastActivity hlast hidle =>
      rcases hset h with h | h
      · exact .inl h
      · by_cases hid : id = id'
        · subst hid
          exact .inr (.inr ⟨.idle rfl hj hlast hidle, rfl⟩)
        · exact .inl (hrest (by simpa [hid] using h))
    | @removed id' =>
      rcases hset h with h | h
      · exact .inl h
      · by_cases hid : id = id'
        · subst hid
          exact .inl (pending_of_job hj (.inr (List.mem_cons_self ..)))
        · exact .inl (hrest (by simpa [hid] using h))
    | stop =>
      have hjobs : ∃ job ∈ (s.setJob j rest).jobs, Task.stop id ∈ job ∨ Task.remove id ∈ job := by
        unfold backendDestroy at h
        split_ifs at h <;> exact h
      rcases hset hjobs with h | h
      · exact .inl h
      · exact .inl (hrest h)
    | @reap now =>
      rcases hset h with h | h
      · exact .inl h
      · simp only [List.mem_append, List.mem_map, Task.stop.injEq, exists_eq_right,
          reduceCtorEq, and_false, exists_false, false_or] at h
        rcases h with (hold | h) | h
        · refine .inr (.inr ⟨.warm ?_, rfl⟩)
          rw [Assoc.isSome_find]
          obtain ⟨e, he, rfl⟩ := List.mem_map.mp hold
          exact List.mem_map_of_mem (List.mem_filter.mp he).1
        · exact .inl (hrest (.inl h))
        · exact .inl (hrest (.inr h))

/-- How something comes to be destroyed. -/
theorem pending_step (ht : s.Stepped idOf timeout event t) (h : t.Pending id) :
    s.Pending id ∨ t.inUse.find id = none ∨ s.Decided timeout event id ∧ t.inUse = s.inUse := by
  rcases h with ⟨c', hc', hstops⟩ | h
  · obtain ⟨j, hj⟩ := List.mem_iff_getElem?.mp hc'
    cases came ht hj with
    | old hold => exact .inl (pending_of_acquire hold hstops)
    | moved hold _ hmove he =>
      subst he
      exact .inr (.inr (hmove.stops (List.mem_of_getElem? hold) hstops))
    | cancelled _ he =>
      subst he
      cases hstops
    | @abandoned c hold _ he =>
      subst he
      exact .inl (pending_of_acquire (c := c) hold hstops)
    | new _ _ he =>
      subst he
      change AcquirePc.stops (if _ then _ else _) id = true at hstops
      split_ifs at hstops <;> cases hstops
  · exact job_step ht h

theorem Advanced.not_returned (h : s.Advanced i c answer pc t) : c.pc ≠ .returned id := by
  intro hc
  cases h with
  | onward hmove =>
    cases hmove with
    | quit hwhere =>
      rw [hc] at hwhere
      simp at hwhere
    | enter h _ | seen h _ | alive h | kept h | found h | notFound h | counted h _ | noneWarm h
    | ready h | unready h =>
      rw [hc] at h
      cases h
  | missed h _ _ | registered h =>
    rw [hc] at h
    simp at h
  | dead h | dropped h _ | confirmed h _ | evicted h _ | created h _ | stopped h =>
    rw [hc] at h
    cases h

theorem returned_step (ht : s.Stepped idOf timeout event t)
    (h : ∃ c ∈ s.acquires, c.pc = .returned id) : ∃ c ∈ t.acquires, c.pc = .returned id := by
  cases ht with
  | acquire =>
    obtain ⟨c, hc, hpc⟩ := h
    exact ⟨c, List.mem_append_left _ hc, hpc⟩
  | advance hi ht =>
    rw [ht.acquires]
    exact exists_goTo (p := fun c => c.pc = .returned id) hi
      (fun hpc => absurd hpc ht.not_returned) h
  | abandoned hi _ _ => exact exists_abandon (p := fun c => c.pc = .returned id) hi (fun hpc => hpc) h
  | cancelled hi hpc =>
    refine exists_goTo (p := fun c => c.pc = .returned id) hi (fun hreturned => ?_) h
    rw [hreturned] at hpc
    simp at hpc
  | get | release | destroy | cleanupIdle | tick _ | running | start _ | die => exact h
  | shutdown =>
    unfold shutdown
    split_ifs <;> exact h
  | work _ ht =>
    cases ht with
    | mark | skipped | marked _ _ | absent _ | removed | readTime | reap => exact h
    | stop =>
      unfold backendDestroy
      split_ifs <;> exact h

/-- A registration, where the coroutine is still there. -/
theorem registers_step (hpresent : ∀ c ∈ s.acquires, c.pc.present = true → c.abandoned = false)
    (ht : s.Stepped idOf timeout event t) (h : s.registers event = some id) :
    (∃ i c, s.Obtains event t id i c) ∧ t.nextInfo = s.nextInfo + 1 ∧
      t.provider.sandboxInfos.find id = some s.nextInfo ∧
      t.provider.warmPool = s.provider.warmPool := by
  cases event with
  | advance i answer =>
    have hregisters := h
    obtain ⟨c, hi, hc⟩ := Option.bind_eq_some_iff.mp h
    have hpc : (c.pc = .registerDiscovered ∨ c.pc = .registerCreated) ∧ c.sandboxId = id := by
      split at hc
      · next hpc => exact ⟨.inl hpc, Option.some.inj hc⟩
      · next hpc => exact ⟨.inr hpc, Option.some.inj hc⟩
      · cases hc
    obtain ⟨hpc, rfl⟩ := hpc
    have hgone : c.abandoned = false := by
      apply hpresent c (List.mem_of_getElem? hi)
      rcases hpc with hpc | hpc <;> rw [hpc] <;> rfl
    have hstep : t = s.register i c := by
      cases ht with
      | @advance _ _ c' pc _ hi' ht =>
        rw [hi] at hi'
        cases hi'
        cases ht with
        | registered _ => rfl
        | onward hmove =>
          cases hmove with
          | quit hwhere => rcases hpc with hpc | hpc <;> simp [hpc] at hwhere
          | enter h _ | seen h _ | alive h | kept h | found h | notFound h | counted h _
          | noneWarm h | ready h | unready h => rcases hpc with hpc | hpc <;> simp [hpc] at h
        | missed h _ _ => rcases hpc with hpc | hpc <;> simp [hpc] at h
        | dead h | dropped h _ | confirmed h _ | evicted h _ | created h _ | stopped h =>
          rcases hpc with hpc | hpc <;> simp [hpc] at h
    subst hstep
    have hinside : c.inside = true := by
      rcases hpc with hpc | hpc <;> simp [Acquire.inside, hpc, hgone]
    have hobtained : s.register i c =
        { s.goTo i (.returned c.sandboxId) with
          provider := s.provider.track c.owner c.sandboxId s.nextInfo s.clock
          nextInfo := s.nextInfo + 1
          inUse := s.inUse.set c.sandboxId s.clock } := by
      simp [register, obtain, hgone, goTo]
    rw [hobtained]
    refine ⟨⟨i, c, hi, hinside, .inr rfl, .inr hregisters, rfl, rfl, ?_, ?_⟩, rfl, ?_, rfl⟩
    · simp [Provider.track]
    · intro key howner
      simp [Provider.track, howner]
    · simp [Provider.track]
  | _ => cases h

end Moves

section Steps
variable {idOf : ThreadKey → SandboxId} {timeout : Rat} {s t : Aio} {event : AioEvent}
  {j : Nat} {c' : Acquire} {id : SandboxId} {used : Rat}

theorem pooled_of_not_slips (hslip : ¬ s.Slips timeout event) :
    ∀ id ∈ s.registers event, s.provider.warmPool.find id = none := by
  intro id hid
  by_contra hne
  exact hslip (.inr (.inl ⟨id, hid, .inr (Option.ne_none_iff_isSome.mp hne)⟩))

/-- What an acquire obtains was not about to be destroyed. -/
theorem not_doomed {i : Nat} {c : Acquire} (hslip : ¬ s.Slips timeout event)
    (h : s.Obtains event t id i c) : ¬ s.Pending id := by
  intro hpending
  rcases h.hits with hconfirms | hregisters
  · exact hslip (.inl ⟨id, hconfirms, .inl hpending⟩)
  · exact hslip (.inr (.inl ⟨id, hregisters, .inl hpending⟩))

theorem Obtains.sandboxId {i : Nat} {c : Acquire} (h : s.Obtains event t id i c)
    (hnamed : s.Named idOf) : c.sandboxId = id := by
  rcases h.named with hpc | hid
  · exact (hnamed.placed c (List.mem_of_getElem? h.call) id hpc).symm
  · exact hid

/-- What is obtained or used again is active. -/
theorem active_of_used (h : t.provider.SameIds)
    (hused : t.provider.lastActivity.find id = some used) :
    (t.provider.sandboxes.find id).isSome = true := by
  rw [← h.activity, hused]
  rfl

/-- Where an acquire was before: it is new, or it had the same id and thread; and it was at work
before, or has just taken the lock. -/
theorem Came.before (h : s.Came idOf event t j c') :
    (∃ owner uuid isAsync, event = .acquire owner uuid isAsync ∧ j = s.acquires.length ∧
      c'.owner = owner ∧ c'.sandboxId = (owner.map idOf).getD uuid ∧
        (owner ≠ none → c'.inside = false)) ∨
    ∃ c, s.acquires[j]? = some c ∧ c'.sandboxId = c.sandboxId ∧ c'.owner = c.owner ∧
      (c'.inside = true → c.inside = true ∨
        s.locked c.owner = false ∧ ∃ answer, event = .advance j answer) := by
  cases h with
  | old hj => exact .inr ⟨c', hj, rfl, rfl, .inl⟩
  | @moved c answer pc hj hevent hmove he =>
    refine .inr ⟨c, hj, by rw [he], by rw [he], fun hinside => ?_⟩
    by_cases hwaiting : c.pc = .waiting
    · refine .inr ⟨?_, answer, hevent⟩
      cases hmove with
      | onward hmove =>
        cases hmove with
        | enter _ hfree => exact hfree
        | quit hwhere => simp [hwaiting] at hwhere
        | seen h _ | alive h | kept h | found h | notFound h | counted h _ | noneWarm h | ready h
        | unready h => simp [hwaiting] at h
      | missed h _ _ | registered h => simp [hwaiting] at h
      | dead h | dropped h _ | confirmed h _ | evicted h _ | created h _ | stopped h =>
        simp [hwaiting] at h
    · apply Or.inl
      rw [hmove.running hwaiting]
      rw [he] at hinside
      unfold Acquire.inside at hinside
      simp only [Bool.and_eq_true] at hinside
      exact hinside.1
  | @cancelled c hj he =>
    refine .inr ⟨c, hj, by rw [he], by rw [he], fun hinside => ?_⟩
    rw [he] at hinside
    simp [Acquire.inside] at hinside
  | @abandoned c hj _ he =>
    refine .inr ⟨c, hj, by rw [he], by rw [he], fun hinside => ?_⟩
    rw [he] at hinside
    simp [Acquire.inside] at hinside
  | @new owner uuid isAsync hevent hj he =>
    refine .inl ⟨owner, uuid, isAsync, hevent, hj, by rw [he], by rw [he], fun howner => ?_⟩
    rw [he]
    simp [Acquire.inside, Option.isSome_iff_ne_none, howner]

theorem owners_step (h : s.Kept idOf timeout) (hshare : ¬ s.SharesId idOf event)
    (ht : s.Stepped idOf timeout event t) (i j : Nat) (c d : Acquire)
    (hc : t.acquires[i]? = some c) (hd : t.acquires[j]? = some d) (hij : i ≠ j)
    (hid : c.sandboxId = d.sandboxId) :
    c.owner = d.owner ∧ c.owner ≠ none ∧ ¬ (c.inside = true ∧ d.inside = true) := by
  -- a new acquire and one that was there before
  have hnew {a b : Acquire} {owner : Option ThreadKey} {uuid : SandboxId} {isAsync : Bool}
      (hevent : event = .acquire owner uuid isAsync) (hb : b ∈ s.acquires)
      (ha : a.sandboxId = (owner.map idOf).getD uuid) (hab : a.sandboxId = b.sandboxId) :
      b.owner = owner ∧ owner ≠ none := by
    subst hevent
    by_contra hne
    refine hshare ⟨b, hb, hab.symm.trans ha, ?_⟩
    by_cases howner : b.owner = owner
    · exact .inr (by_contra fun hsome => hne ⟨howner, hsome⟩)
    · exact .inl howner
  -- an acquire that has taken the lock, and one that was at work
  have hlocked {a b : Acquire} (hb : b ∈ s.acquires) (howner : a.owner = b.owner)
      (hfree : s.locked a.owner = false) : b.inside = false := by
    by_contra hinside
    have hlock : s.locked a.owner = true := by
      unfold locked
      rw [List.any_eq_true]
      exact ⟨b, hb, by simpa [howner] using hinside⟩
    rw [hfree] at hlock
    cases hlock
  rcases (came ht hc).before with ⟨owner, uuid, isAsync, hevent, hi, hco, hcid, hcin⟩ |
    ⟨c₀, hc₀, hcid, hco, hcin⟩
  · rcases (came ht hd).before with ⟨owner', uuid', isAsync', hevent', hj, -⟩ |
      ⟨d₀, hd₀, hdid, hdo, hdin⟩
    · exact absurd (hi.trans hj.symm) hij
    · obtain ⟨ho, hne⟩ := hnew hevent (List.mem_of_getElem? hd₀) hcid (hid.trans hdid)
      refine ⟨by rw [hco, hdo, ho], by rwa [hco], fun hboth => ?_⟩
      rw [hcin hne] at hboth
      cases hboth.1
  · rcases (came ht hd).before with ⟨owner', uuid', isAsync', hevent', hj, hdo, hdid, hdin⟩ |
      ⟨d₀, hd₀, hdid, hdo, hdin⟩
    · obtain ⟨ho, hne⟩ := hnew hevent' (List.mem_of_getElem? hc₀) hdid (hid.symm.trans hcid)
      refine ⟨by rw [hco, hdo, ho], by rwa [hco, ho], fun hboth => ?_⟩
      rw [hdin hne] at hboth
      cases hboth.2
    · obtain ⟨ho, hne, hapart⟩ := h.owners i j c₀ d₀ hc₀ hd₀ hij
        (hcid.symm.trans (hid.trans hdid))
      refine ⟨by rw [hco, hdo, ho], by rwa [hco], fun ⟨hci, hdi⟩ => ?_⟩
      rcases hcin hci with hc' | ⟨hfree, answer, hevent⟩
      · rcases hdin hdi with hd' | ⟨hfree, -⟩
        · exact hapart ⟨hc', hd'⟩
        · rw [hlocked (List.mem_of_getElem? hc₀) ho.symm hfree] at hc'
          cases hc'
      · rcases hdin hdi with hd' | ⟨-, answer', hevent'⟩
        · rw [hlocked (List.mem_of_getElem? hd₀) ho hfree] at hd'
          cases hd'
        · rw [hevent] at hevent'
          cases hevent'
          exact hij rfl

theorem present_proceed {c : Acquire} {pc : AcquirePc}
    (h : (c.proceed pc).present = true) : c.abandoned = false := by
  unfold Acquire.proceed at h
  split_ifs at h with hgone
  · cases h
  · simpa using hgone

theorem present_missed (c : Acquire) (cache : Cache) (postLock : Bool) :
    (c.missed cache postLock).present = false := by
  unfold Acquire.missed Acquire.proceed
  split <;> repeat' split
  all_goals rfl

theorem present_step (h : ∀ c ∈ s.acquires, c.pc.present = true → c.abandoned = false)
    (ht : s.Stepped idOf timeout event t) :
    ∀ c ∈ t.acquires, c.pc.present = true → c.abandoned = false := by
  intro c' hc' hpresent
  obtain ⟨j, hj⟩ := List.mem_iff_getElem?.mp hc'
  cases came ht hj with
  | old hold => exact h c' (List.mem_of_getElem? hold) hpresent
  | @moved c answer pc hold _ hmove he =>
    subst he
    change pc.present = true at hpresent
    change c.abandoned = false
    cases hmove with
    | onward hmove =>
      cases hmove with
      | enter _ _ | quit _ | seen _ _ | alive _ | unready _ => cases hpresent
      | kept _ =>
        rw [present_missed] at hpresent
        cases hpresent
      | found _ | notFound _ | noneWarm _ => exact present_proceed hpresent
      | counted _ hpc => rcases hpc with rfl | rfl <;> cases hpresent
      | ready hpc =>
        apply h c (List.mem_of_getElem? hold)
        rw [hpc]
        rfl
    | missed _ _ _ =>
      rw [present_missed] at hpresent
      cases hpresent
    | dead _ | dropped _ _ | evicted _ _ => cases hpresent
    | confirmed _ _ | registered _ | created _ _ => exact present_proceed hpresent
    | @stopped id next _ =>
      cases next with
      | missed cache postLock =>
        change (c.missed cache postLock).present = true at hpresent
        rw [present_missed] at hpresent
        cases hpresent
      | create => exact present_proceed hpresent
      | raise => cases hpresent
  | cancelled _ he =>
    subst he
    cases hpresent
  | abandoned _ hpc he =>
    subst he
    rw [hpc] at hpresent
    cases hpresent
  | new _ _ he =>
    subst he
    rfl

theorem infos_step (h : s.Kept idOf timeout) (ht : s.Stepped idOf timeout event t)
    (id : SandboxId) (info : Nat) (htracks : t.provider.tracks id info = true) :
    info < t.nextInfo := by
  rcases (changed_step ht).tracks htracks with hold | ⟨rfl, hregisters⟩
  · exact (h.infos id info hold).trans_le (counters_le ht).2
  · rw [(registers_step h.present ht hregisters).2.1]
    exact Nat.lt_succ_self _

/-- What is read from a cache is tracked. -/
theorem tracks_of_sees {owner : Option ThreadKey} {sandboxId : SandboxId} {cache : Cache}
    {seen : Option Nat} (h : s.provider.Sees owner sandboxId cache id seen) :
    ∀ info ∈ seen, s.provider.tracks id info = true := by
  intro info hinfo
  rw [Provider.tracks_iff]
  cases h with
  | inProcess _ _ _ => exact .inl hinfo
  | warm _ hwarm =>
    rw [hwarm]
    exact .inr hinfo

theorem checked_step (h : s.Kept idOf timeout) (ht : s.Stepped idOf timeout event t) :
    ∀ c ∈ t.acquires, ∀ cache postLock id info,
      c.pc = .check cache postLock id (some info) ∨ c.pc = .drop cache postLock id info →
      info < t.nextInfo := by
  intro c' hc' cache postLock id info hpc
  have hold {c : Acquire} (hc : c ∈ s.acquires)
      (hpc : c.pc = .check cache postLock id (some info) ∨ c.pc = .drop cache postLock id info) :
      info < t.nextInfo :=
    (h.checked c hc cache postLock id info hpc).trans_le (counters_le ht).2
  have hmissed (c : Acquire) (cache' : Cache) (postLock' : Bool) :
      ¬ (c.missed cache' postLock' = .check cache postLock id (some info) ∨
        c.missed cache' postLock' = .drop cache postLock id info) := by
    unfold Acquire.missed Acquire.proceed
    split <;> repeat' split
    all_goals simp
  have hproceed {c : Acquire} (pc : AcquirePc)
      (hpc : c.proceed pc = .check cache postLock id (some info) ∨
        c.proceed pc = .drop cache postLock id info) :
      pc = .check cache postLock id (some info) ∨ pc = .drop cache postLock id info := by
    unfold Acquire.proceed at hpc
    split_ifs at hpc
    · simp at hpc
    · exact hpc
  obtain ⟨j, hj⟩ := List.mem_iff_getElem?.mp hc'
  cases came ht hj with
  | old hj => exact hold (List.mem_of_getElem? hj) hpc
  | @moved c answer pc hj' _ hmove he =>
    subst he
    have hc := List.mem_of_getElem? hj'
    change pc = _ ∨ pc = _ at hpc
    cases hmove with
    | onward hmove =>
      cases hmove with
      | seen hlook hsees =>
        simp only [AcquirePc.check.injEq, reduceCtorEq, or_false] at hpc
        obtain ⟨rfl, rfl, rfl, rfl⟩ := hpc
        exact (h.infos _ _ (tracks_of_sees hsees info rfl)).trans_le (counters_le ht).2
      | kept _ => exact absurd hpc (hmissed c _ _)
      | found _ | notFound _ | noneWarm _ => simpa using hproceed _ hpc
      | counted _ hwhere => rcases hwhere with rfl | rfl <;> simp at hpc
      | enter _ _ | quit _ | alive _ | ready _ | unready _ => simp at hpc
    | missed _ _ _ => exact absurd hpc (hmissed c _ _)
    | dead hcheck =>
      simp only [reduceCtorEq, AcquirePc.drop.injEq, false_or] at hpc
      obtain ⟨rfl, rfl, rfl, rfl⟩ := hpc
      exact hold hc (.inl hcheck)
    | dropped _ _ | evicted _ _ => simp at hpc
    | confirmed _ _ | registered _ | created _ _ => simpa using hproceed _ hpc
    | @stopped id' next _ =>
      cases next with
      | missed cache' postLock' => exact absurd hpc (hmissed c cache' postLock')
      | create => simpa using hproceed .create hpc
      | raise => simp [Acquire.next] at hpc
  | cancelled _ he =>
    subst he
    simp at hpc
  | @abandoned c hj' _ he =>
    subst he
    exact hold (c := c) (List.mem_of_getElem? hj') hpc
  | new _ _ he =>
    subst he
    simp only at hpc
    split_ifs at hpc <;> simp at hpc

theorem cold_step (h : s.Kept idOf timeout) (hids : t.provider.SameIds) (hapart : t.provider.Apart)
    (ht : s.Stepped idOf timeout event t) (id : SandboxId)
    (hused : (t.inUse.find id).isSome = true) : t.provider.warmPool.find id = none := by
  obtain ⟨used, hfind⟩ := Option.isSome_iff_exists.mp hused
  rcases inUse_step ht hfind with hold | ⟨-, ⟨i, c, hobtains⟩ | ⟨-, -, -, hlast⟩⟩
  · have hcold := h.cold id (by rw [hold]; rfl)
    by_contra hne
    rcases (changed_step ht).warmPool (Option.ne_none_iff_isSome.mp hne) with hwarm | rfl
    · rw [hcold] at hwarm
      cases hwarm
    · cases ht
      change Assoc.find (Table.erase _ id) id = _ at hfind
      rw [Assoc.find_erase, if_pos rfl] at hfind
      cases hfind
  · exact hapart id (active_of_used hids hobtains.used)
  · exact hapart id (active_of_used hids hlast)

theorem active_step (h : s.Kept idOf timeout) (hids : t.provider.SameIds)
    (ht : s.Stepped idOf timeout event t) (id : SandboxId) (used : Rat)
    (hfind : t.inUse.find id = some used) : used ≤ t.clock ∧
      ((∃ lastActivity, t.provider.lastActivity.find id = some lastActivity ∧
        used ≤ lastActivity) ∨
      t.provider.sandboxes.find id = none ∧ timeout < t.clock - used) := by
  have hclock := (counters_le ht).1
  rcases inUse_step ht hfind with hold | ⟨rfl, ⟨i, c, hobtains⟩ | ⟨-, -, -, hlast⟩⟩
  · obtain ⟨hused, hcase⟩ := h.active id used hold
    refine ⟨hused.trans hclock, ?_⟩
    rcases hcase with ⟨lastActivity, hlast, hle⟩ | ⟨hgone, hexpired⟩
    · rcases (changed_step ht).lastActivity hlast with hlast | hlast | rfl | ⟨hgone, hwhy⟩
      · exact .inl ⟨lastActivity, hlast, hle⟩
      · exact .inl ⟨s.clock, hlast, hused⟩
      · cases ht
        change Assoc.find (Table.erase _ id) id = _ at hfind
        rw [Assoc.find_erase, if_pos rfl] at hfind
        cases hfind
      · refine .inr ⟨hgone, ?_⟩
        rcases hwhy with hpending | hfailing
        · have hexpired : timeout < s.clock - used := by
            by_contra hrecent
            exact h.pending id hpending ⟨used, hold, not_lt.mp hrecent⟩
          linarith
        · rw [h.failing id hfailing] at hold
          cases hold
    · rcases hactive : t.provider.sandboxes.find id with _ | object
      · exact .inr ⟨rfl, by linarith⟩
      · have hsome : (t.provider.sandboxes.find id).isSome = true := by rw [hactive]; rfl
        rcases (changed_step ht).sandboxes hsome with hbefore | hwarm | hregisters
        · rw [hgone] at hbefore
          cases hbefore
        · rw [h.cold id (by rw [hold]; rfl)] at hwarm
          cases hwarm
        · obtain ⟨⟨i, c, hobtains⟩, -⟩ := registers_step h.present ht hregisters
          exact .inl ⟨s.clock, hobtains.used, hused⟩
  · exact ⟨hclock, .inl ⟨s.clock, hobtains.used, le_rfl⟩⟩
  · exact ⟨hclock, .inl ⟨s.clock, hlast, le_rfl⟩⟩

theorem Obtains.mapped (h : s.Kept idOf timeout) {i : Nat} {c : Acquire}
    (hobtains : s.Obtains event t id i c) {c' : Acquire} (hc' : c' ∈ t.acquires)
    (hid : c'.sandboxId = id) {key : ThreadKey} (hkey : c'.owner = some key) :
    t.provider.threadSandboxes.find key = some id := by
  have hown := hobtains.sandboxId h.named
  apply hobtains.threads
  rw [hobtains.acquires] at hc'
  obtain ⟨j, hj⟩ := List.mem_iff_getElem?.mp hc'
  rcases getElem?_goTo hobtains.call hj with ⟨-, rfl⟩ | ⟨hij, hj⟩
  · exact hkey
  · rw [(h.owners i j c c' hobtains.call hj hij (hown.trans hid.symm)).1]
    exact hkey

theorem mapped_step (h : s.Kept idOf timeout) (hshare : ¬ s.SharesId idOf event)
    (ht : s.Stepped idOf timeout event t) (id : SandboxId)
    (hused : (t.inUse.find id).isSome = true)
    (hactive : (t.provider.sandboxes.find id).isSome = true) (c' : Acquire)
    (hc' : c' ∈ t.acquires) (hid : c'.sandboxId = id) (key : ThreadKey)
    (hkey : c'.owner = some key) : t.provider.threadSandboxes.find key = some id := by
  obtain ⟨used, hfind⟩ := Option.isSome_iff_exists.mp hused
  -- what was active and in use before
  have hold (hbefore : (s.inUse.find id).isSome = true)
      (hactive' : (s.provider.sandboxes.find id).isSome = true) :
      t.provider.threadSandboxes.find key = some id := by
    have hthreads : s.provider.threadSandboxes.find key = some id := by
      obtain ⟨j, hj⟩ := List.mem_iff_getElem?.mp hc'
      rcases (came ht hj).before with ⟨owner, uuid, isAsync, rfl, -, howner, hsame, -⟩ |
        ⟨c, hj, hsame, howner, -⟩
      · obtain ⟨d, hd, hpc⟩ := h.returned id hbefore
        have hdid : id = d.sandboxId := h.named.placed d hd id (by rw [hpc]; rfl)
        apply h.mapped id hbefore hactive' d hd hdid.symm key
        by_contra hne
        apply hshare
        refine ⟨d, hd, hdid.symm.trans (hid.symm.trans hsame), .inl ?_⟩
        rw [← howner, hkey]
        exact hne
      · exact h.mapped id hbefore hactive' c (List.mem_of_getElem? hj) (hsame.symm.trans hid) key
          (howner.symm.trans hkey)
    rcases (changed_step ht).threads h.named hthreads hactive' with hthreads | hgone
    · exact hthreads
    · rw [hgone] at hactive
      cases hactive
  rcases inUse_step ht hfind with hbefore | ⟨-, ⟨i, c, hobtains⟩ | ⟨-, hactive', hbefore, -⟩⟩
  · have hsome : (s.inUse.find id).isSome = true := by rw [hbefore]; rfl
    rcases (changed_step ht).sandboxes hactive with hactive' | hwarm | hregisters
    · exact hold hsome hactive'
    · rw [h.cold id hsome] at hwarm
      cases hwarm
    · obtain ⟨⟨i, c, hobtains⟩, -⟩ := registers_step h.present ht hregisters
      exact hobtains.mapped h hc' hid hkey
  · exact hobtains.mapped h hc' hid hkey
  · exact hold hbefore hactive'

theorem returned_of_used (h : s.Kept idOf timeout) (ht : s.Stepped idOf timeout event t)
    (id : SandboxId) (hused : (t.inUse.find id).isSome = true) :
    ∃ c ∈ t.acquires, c.pc = .returned id := by
  obtain ⟨used, hfind⟩ := Option.isSome_iff_exists.mp hused
  rcases inUse_step ht hfind with hold | ⟨-, ⟨i, c, hobtains⟩ | ⟨-, -, hold, -⟩⟩
  · exact returned_step ht (h.returned id (by rw [hold]; rfl))
  · rw [hobtains.acquires]
    exact ⟨{ c with pc := .returned id }, mem_goTo hobtains.call, rfl⟩
  · exact returned_step ht (h.returned id hold)

theorem failing_step (h : s.Kept idOf timeout) (hslip : ¬ s.Slips timeout event)
    (ht : s.Stepped idOf timeout event t) (id : SandboxId) (hfailing : t.Failing id) :
    t.inUse.find id = none := by
  obtain ⟨c', hc', hdrops⟩ := hfailing
  -- the info was checked before, and it was tracked
  have hold (info : Nat) (hlt : info < s.nextInfo)
      (htracks : t.provider.tracks id info = true) (hwas : s.provider.tracks id info = true →
        s.Failing id) : t.inUse.find id = none := by
    have hfailing : s.Failing id := by
      rcases (changed_step ht).tracks htracks with htracks | ⟨rfl, -⟩
      · exact hwas htracks
      · exact absurd hlt (lt_irrefl _)
    by_contra hne
    obtain ⟨used, hfind⟩ := Option.ne_none_iff_exists'.mp hne
    have hnone := h.failing id hfailing
    rcases inUse_step ht hfind with hused | ⟨-, ⟨i, c, hobtains⟩ | ⟨-, -, hused, -⟩⟩
    · rw [hnone] at hused
      cases hused
    · rcases hobtains.hits with hconfirms | hregisters
      · exact hslip (.inl ⟨id, hconfirms, .inr hfailing⟩)
      · obtain ⟨-, -, hinfo, hwarm⟩ := registers_step h.present ht hregisters
        rw [Provider.tracks_iff, hinfo, hwarm, pooled_of_not_slips hslip id hregisters] at htracks
        rcases htracks with htracks | htracks
        · cases htracks
          exact absurd hlt (lt_irrefl _)
        · cases htracks
    · rw [hnone] at hused
      cases hused
  have hstays {c : Acquire} (hc : c ∈ s.acquires) (hdrops : c.pc.drops t.provider id = true) :
      t.inUse.find id = none := by
    rcases hpc : c.pc with _ | _ | _ | ⟨cache, postLock, id', info⟩ | _ | _ | _ | _ | _ | _ | _ | _ |
      _ | _ | _
    case drop =>
      rw [hpc] at hdrops
      simp only [AcquirePc.drops, Bool.and_eq_true, decide_eq_true_eq] at hdrops
      obtain ⟨rfl, htracks⟩ := hdrops
      apply hold info (h.checked c hc cache postLock _ info (.inr hpc)) htracks
      intro hwas
      refine ⟨c, hc, ?_⟩
      simp [hpc, AcquirePc.drops, hwas]
    all_goals
      rw [hpc] at hdrops
      cases hdrops
  have hmissed (c : Acquire) (cache : Cache) (postLock : Bool) (p : Provider) :
      (c.missed cache postLock).drops p id = false := by
    unfold Acquire.missed Acquire.proceed
    split <;> repeat' split
    all_goals rfl
  have hproceed {c : Acquire} (pc : AcquirePc) {p : Provider}
      (hpc : (c.proceed pc).drops p id = true) : pc.drops p id = true := by
    unfold Acquire.proceed at hpc
    split_ifs at hpc
    · cases hpc
    · exact hpc
  obtain ⟨j, hj⟩ := List.mem_iff_getElem?.mp hc'
  cases came ht hj with
  | old hj => exact hstays (List.mem_of_getElem? hj) hdrops
  | @moved c answer pc hj' _ hmove he =>
    subst he
    change pc.drops _ id = true at hdrops
    cases hmove with
    | onward hmove =>
      cases hmove with
      | kept _ =>
        rw [hmissed] at hdrops
        cases hdrops
      | found _ | notFound _ | noneWarm _ => cases hproceed _ hdrops
      | counted _ hwhere => rcases hwhere with rfl | rfl <;> cases hdrops
      | enter _ _ | quit _ | seen _ _ | alive _ | ready _ | unready _ => cases hdrops
    | missed _ _ _ =>
      rw [hmissed] at hdrops
      cases hdrops
    | dead _ =>
      simp only [AcquirePc.drops, Bool.and_eq_true, decide_eq_true_eq] at hdrops
      rw [Assoc.find_erase, if_pos hdrops.1.symm]
    | dropped _ _ | evicted _ _ => cases hdrops
    | confirmed _ _ | registered _ | created _ _ => cases hproceed _ hdrops
    | @stopped id' next _ =>
      cases next with
      | missed cache postLock =>
        change (c.missed cache postLock).drops _ id = true at hdrops
        rw [hmissed] at hdrops
        cases hdrops
      | create => cases hproceed .create hdrops
      | raise => cases hdrops
  | cancelled _ he =>
    subst he
    cases hdrops
  | @abandoned c hj' _ he =>
    subst he
    exact hstays (c := c) (List.mem_of_getElem? hj') hdrops
  | new _ _ he =>
    subst he
    change AcquirePc.drops (if _ then _ else _) _ id = true at hdrops
    split_ifs at hdrops <;> cases hdrops

/-- What nobody used before the step, and no acquire obtains, nobody uses after it. -/
theorem unused_step (h : s.Kept idOf timeout) (ht : s.Stepped idOf timeout event t)
    (hbefore : ∀ used, s.inUse.find id = some used →
      s.provider.sandboxes.find id = none ∧ timeout < s.clock - used)
    (hnone : ∀ i c, ¬ s.Obtains event t id i c) (hfind : t.inUse.find id = some used) :
    t.provider.sandboxes.find id = none ∧ timeout < t.clock - used := by
  have hclock := (counters_le ht).1
  rcases inUse_step ht hfind with hold | ⟨-, ⟨i, c, hobtains⟩ | ⟨-, hactive, hold, -⟩⟩
  · obtain ⟨hgone, hexpired⟩ := hbefore used hold
    refine ⟨?_, by linarith⟩
    by_contra hne
    rcases (changed_step ht).sandboxes (Option.ne_none_iff_isSome.mp hne) with
      hactive | hwarm | hregisters
    · rw [hgone] at hactive
      cases hactive
    · rw [h.cold id (by rw [hold]; rfl)] at hwarm
      cases hwarm
    · obtain ⟨⟨i, c, hobtains⟩, -⟩ := registers_step h.present ht hregisters
      exact hnone i c hobtains
  · exact absurd hobtains (hnone i c)
  · obtain ⟨old, hold⟩ := Option.isSome_iff_exists.mp hold
    rw [(hbefore old hold).1] at hactive
    cases hactive

theorem clear_proceed {c : Acquire} {pc : AcquirePc} (h : (c.proceed pc).clear = true) :
    pc.clear = true := by
  unfold Acquire.proceed at h
  split_ifs at h
  · cases h
  · exact h

/-- How an acquire comes to be past its last look at the active sandboxes: it has not found its
own, has no thread, or has found it dead. -/
theorem Advanced.cleared {i : Nat} {c : Acquire} {answer : Answer} {pc : AcquirePc}
    (h : s.Advanced i c answer pc t) (hnamed : s.Named idOf) (hc : c ∈ s.acquires)
    (hclear : pc.clear = true) :
    c.pc.clear = true ∨ s.provider.Missing c.owner c.sandboxId ∨ c.owner = none ∨
      t.inUse.find c.sandboxId = none := by
  cases h with
  | onward hmove =>
    cases hmove with
    | enter _ _ | quit _ => cases hclear
    | @seen cache postLock _ _ hpc _ =>
      apply Or.inl
      rw [hpc]
      cases cache <;> cases postLock <;> first | rfl | cases hclear
    | @alive cache postLock _ _ hpc =>
      apply Or.inl
      rw [hpc]
      cases cache <;> cases postLock <;> first | rfl | cases hclear
    | kept hpc | found hpc | notFound hpc | counted hpc _ | noneWarm hpc | ready hpc | unready hpc =>
      apply Or.inl
      rw [hpc]
      rfl
  | @missed cache postLock id p hpc _ hmissing =>
    have hid : id = c.sandboxId := by
      rcases hpc with ⟨-, hid⟩ | hpc
      · exact hid
      · exact hnamed.placed c hc id (by rw [hpc]; rfl)
    subst hid
    cases cache with
    | inProcess => exact .inr (.inl (hmissing rfl))
    | warm =>
      cases postLock with
      | false =>
        refine .inr (.inr (.inl ?_))
        have hpc := clear_proceed hclear
        split_ifs at hpc with howner
        · cases hpc
        · simpa using howner
      | true =>
        apply Or.inl
        rcases hpc with ⟨hpc, -⟩ | hpc <;> rw [hpc] <;> rfl
  | @dead cache postLock id info hpc =>
    refine .inr (.inr (.inr ?_))
    have hid : id = c.sandboxId := hnamed.placed c hc id (by rw [hpc]; rfl)
    rw [hid, Assoc.find_erase, if_pos rfl]
  | dropped hpc _ | evicted hpc _ | created hpc _ | stopped hpc =>
    apply Or.inl
    rw [hpc]
    rfl
  | confirmed _ _ | registered _ => cases clear_proceed hclear

/-- Nobody uses what an acquire has not found among the active sandboxes. -/
theorem unused_of_missing (h : s.Kept idOf timeout) {c : Acquire} (hc : s.acquires[j]? = some c)
    (hreturned : ∀ id, c.pc ≠ .returned id)
    (hmissing : s.provider.Missing c.owner c.sandboxId ∨ c.owner = none)
    (hfind : s.inUse.find c.sandboxId = some used) :
    s.provider.sandboxes.find c.sandboxId = none ∧ timeout < s.clock - used := by
  have hsome : (s.inUse.find c.sandboxId).isSome = true := by rw [hfind]; rfl
  -- the acquire that has returned the id is another one, so both have a thread
  have howner : c.owner ≠ none := by
    obtain ⟨d, hd, hpc⟩ := h.returned _ hsome
    obtain ⟨k, hk⟩ := List.mem_iff_getElem?.mp hd
    have hid : c.sandboxId = d.sandboxId := h.named.placed d hd _ (by rw [hpc]; rfl)
    have hjk : j ≠ k := by
      rintro rfl
      rw [hc] at hk
      cases hk
      exact hreturned _ hpc
    exact (h.owners j k c d hc hk hjk hid).2.1
  obtain ⟨key, hkey⟩ := Option.ne_none_iff_exists'.mp howner
  obtain ⟨-, ⟨lastActivity, hlast, -⟩ | hgone⟩ := h.active _ used hfind
  · have hactive := active_of_used h.sameIds hlast
    have hthreads := h.mapped _ hsome hactive c (List.mem_of_getElem? hc) rfl key hkey
    rcases hmissing with hmissing | hnone
    · rw [hmissing key hkey hthreads] at hactive
      cases hactive
    · exact absurd hnone howner
  · exact hgone

theorem clear_step (h : s.Kept idOf timeout) (ht : s.Stepped idOf timeout event t) :
    ∀ c ∈ t.acquires, c.abandoned = false → c.pc.clear = true →
      ∀ used, t.inUse.find c.sandboxId = some used →
        t.provider.sandboxes.find c.sandboxId = none ∧ timeout < t.clock - used := by
  intro c' hc' hgone hclear used hfind
  obtain ⟨j, hj⟩ := List.mem_iff_getElem?.mp hc'
  have hinside {c : Acquire} (hgone : c.abandoned = false) (hclear : c.pc.clear = true) :
      c.inside = true := by
    rcases c with ⟨owner, sandboxId, isAsync, gone, pc⟩
    cases pc <;> simp_all [Acquire.inside, AcquirePc.clear]
  -- an acquire that is past its look is not the one that obtains the id, and has its lock
  have hothers {c : Acquire} (hold : s.acquires[j]? = some c) (hc : c.inside = true)
      (hid : c.sandboxId = c'.sandboxId) (i : Nat) (d : Acquire) :
      ¬ s.Obtains event t c'.sandboxId i d := by
    intro hobtains
    have hdid := hobtains.sandboxId h.named
    by_cases hij : i = j
    · subst hij
      rw [hobtains.acquires] at hj
      rcases getElem?_goTo hobtains.call hj with ⟨-, he⟩ | ⟨hne, -⟩
      · rw [he] at hclear
        cases hclear
      · exact hne rfl
    · exact (h.owners i j d c hobtains.call hold hij (hdid.trans hid.symm)).2.2
        ⟨hobtains.inside, hc⟩
  cases came ht hj with
  | old hold =>
    exact unused_step h ht (h.clear c' (List.mem_of_getElem? hold) hgone hclear)
      (hothers hold (hinside hgone hclear) rfl) hfind
  | @moved c answer pc hold _ hmove he =>
    have hc := List.mem_of_getElem? hold
    have hid : c.sandboxId = c'.sandboxId := by rw [he]
    have hpresent : c.abandoned = false := by
      rw [he] at hgone
      exact hgone
    have hpc : pc.clear = true := by
      rw [he] at hclear
      exact hclear
    rw [← hid] at hfind hothers ⊢
    have hwaiting : c.pc ≠ .waiting := by
      intro hwaiting
      cases hmove with
      | onward hmove =>
        cases hmove with
        | enter _ _ | quit _ => cases hpc
        | seen h _ | alive h | kept h | found h | notFound h | counted h _ | noneWarm h | ready h
        | unready h => simp [hwaiting] at h
      | missed h _ _ | registered h => simp [hwaiting] at h
      | dead h | dropped h _ | confirmed h _ | evicted h _ | created h _ | stopped h =>
        simp [hwaiting] at h
    have hat : c.inside = true := by rw [hmove.running hwaiting, hpresent]; rfl
    rcases hmove.cleared h.named hc hpc with hwas | hmissing | hnone | hdead
    · exact unused_step h ht (h.clear c hc hpresent hwas) (hothers hold hat rfl) hfind
    · exact unused_step h ht (fun used hused => unused_of_missing h hold
        (fun _ => hmove.not_returned) (.inl hmissing) hused) (hothers hold hat rfl) hfind
    · exact unused_step h ht (fun used hused => unused_of_missing h hold
        (fun _ => hmove.not_returned) (.inr hnone) hused) (hothers hold hat rfl) hfind
    · rw [hdead] at hfind
      cases hfind
  | cancelled _ he =>
    rw [he] at hclear
    cases hclear
  | abandoned _ _ he =>
    rw [he] at hgone
    cases hgone
  | new _ _ he =>
    rw [he] at hclear
    simp only at hclear
    split_ifs at hclear <;> cases hclear

theorem unprotected_step (h : s.Kept idOf timeout) (hslip : ¬ s.Slips timeout event)
    (ht : s.Stepped idOf timeout event t) (id : SandboxId) (hpending : t.Pending id) :
    ¬ t.Protected timeout id := by
  rintro ⟨used, hfind, hrecent⟩
  have hfind : t.inUse.find id = some used := hfind
  have hclock := (counters_le ht).1
  rcases pending_step ht hpending with hpending | hnone | ⟨hwhy, hsame⟩
  · rcases inUse_step ht hfind with hold | ⟨-, ⟨i, c, hobtains⟩ | ⟨rfl, hactive, hold, -⟩⟩
    · exact h.pending id hpending ⟨used, hold, by linarith⟩
    · exact not_doomed hslip hobtains hpending
    · exact hslip (.inr (.inr ⟨hactive, hold, hpending⟩))
  · rw [hnone] at hfind
    cases hfind
  · rw [hsame] at hfind
    cases hwhy with
    | failing hfailing =>
      rw [h.failing id hfailing] at hfind
      cases hfind
    | @unready c hc hpc hid =>
      have hgone := h.present c hc (by rw [hpc]; rfl)
      rw [← hid] at hfind
      obtain ⟨-, hexpired⟩ := h.clear c hc hgone (by rw [hpc]; rfl) used hfind
      linarith
    | warm hwarm =>
      rw [h.cold id (by rw [hfind]; rfl)] at hwarm
      cases hwarm
    | @idle j answer rest lastActivity hevent hj hlast hidle =>
      obtain ⟨-, ⟨lastActivity', hlast', hle⟩ | ⟨-, hexpired⟩⟩ := h.active id used hfind
      · rw [hlast] at hlast'
        cases hlast'
        subst hevent
        refine hslip (.inr (.inr ⟨_, hj, ⟨used, hfind, by linarith⟩, lastActivity, hlast, ?_⟩))
        linarith
      · linarith

theorem kept_started (h : Started s) : s.Kept idOf timeout := by
  have hnone (id : SandboxId) : s.inUse.find id = none := by
    rw [h.inUse]
    rfl
  constructor
  · exact named_started h
  · exact sameIds_started h
  · exact apart_started h
  · intro i j c d hc
    rw [h.acquires] at hc
    cases hc
  · intro c hc
    rw [h.acquires] at hc
    cases hc
  · intro id info htracks
    rw [Provider.tracks_iff, h.sandboxInfos] at htracks
    rcases htracks with htracks | htracks
    · cases htracks
    · obtain ⟨e, he, rfl⟩ := Option.map_eq_some_iff.mp htracks
      exact h.infos _ (Assoc.mem_rows.mpr he)
  · intro c hc
    rw [h.acquires] at hc
    cases hc
  · intro id hused
    rw [hnone] at hused
    cases hused
  · intro id used hused
    rw [hnone] at hused
    cases hused
  · intro id hused
    rw [hnone] at hused
    cases hused
  · intro id hused
    rw [hnone] at hused
    cases hused
  · intro c hc
    rw [h.acquires] at hc
    cases hc
  · intro id _
    exact hnone id
  · rintro id - ⟨used, hused, -⟩
    have hused : s.inUse.find id = some used := hused
    rw [hnone] at hused
    cases hused

theorem kept_step (h : s.Kept idOf timeout) (hshare : ¬ s.SharesId idOf event)
    (hslip : ¬ s.Slips timeout event) (ht : s.Stepped idOf timeout event t) :
    t.Kept idOf timeout := by
  have hids := sameIds_step h.sameIds ht
  have hapart := apart_step h.apart (pooled_of_not_slips hslip) ht
  exact {
    named := named_step h.named ht
    sameIds := hids
    apart := hapart
    owners := owners_step h hshare ht
    present := present_step h.present ht
    infos := infos_step h ht
    checked := checked_step h ht
    cold := cold_step h hids hapart ht
    active := active_step h hids ht
    mapped := mapped_step h hshare ht
    returned := returned_of_used h ht
    clear := clear_step h ht
    failing := failing_step h hslip ht
    pending := unprotected_step h hslip ht }

theorem pending_of_destroys (h : s.destroys event = some id) : s.Pending id := by
  cases event with
  | advance i answer =>
    obtain ⟨c, hi, hc⟩ := Option.bind_eq_some_iff.mp h
    split at hc
    · next hpc =>
      cases hc
      exact pending_of_acquire hi (by simp [hpc, AcquirePc.stops])
    · cases hc
  | work j answer =>
    obtain ⟨job, hj, hjob⟩ := Option.bind_eq_some_iff.mp h
    split at hjob
    · cases hjob
      exact pending_of_job hj (.inl (List.mem_cons_self ..))
    · cases hjob
  | _ => cases h

end Steps

section InUse
variable {idOf : ThreadKey → SandboxId} {timeout : Rat} {replicas : Int} {s : Aio}
  {event : AioEvent} {id : SandboxId}

/-- The runs in which distinct threads have distinct ids and no step slips. -/
def withoutSlips (idOf : ThreadKey → SandboxId) (timeout : Rat) (replicas : Int) :
    System Aio AioEvent :=
  (system idOf timeout replicas).when fun s event =>
    ¬ s.SharesId idOf event ∧ ¬ s.Slips timeout event

/-- No step of such a run executes `backend.destroy` on a sandbox in use. -/
theorem in_use_not_destroyed (h : Reachable (withoutSlips idOf timeout replicas) s)
    (hdestroys : s.destroys event = some id) : ¬ s.Protected timeout id := by
  have hkept : s.Kept idOf timeout := by
    refine h.invariant (I := Kept idOf timeout) (fun _ hs => kept_started hs) ?_
    intro s event t _ hs ht
    have hstep : s.Stepped idOf timeout event t := step_cases ht.2
    exact kept_step hs ht.1.1 ht.1.2 hstep
  exact hkept.pending id (pending_of_destroys hdestroys)

section Runs

private def useId : SandboxId := "a:t".toList

private def useIdOf : ThreadKey → SandboxId := fun key => key.1 ++ ':' :: key.2

private def useKey : ThreadKey := ("a".toList, "t".toList)

/-- A sandbox is acquired and found idle; the recheck under the lock passes. -/
private def idleScript (events : List AioEvent) : List (Aio → AioEvent) :=
  let idle : List AioEvent := [.tick 601, .cleanupIdle, .work 0 .yes, .work 0 .yes]
  (fun _ => .acquire (some useKey) [] false) :: creation 0 ++
    (idle ++ events).map fun event _ => event

/-- The idle sandbox is destroyed, and it is not in use. -/
theorem in_use_not_destroyed_idle : ∃ (s : Aio) (event : AioEvent) (id : SandboxId),
    s.destroys event = some id ∧ (s.inUse.find id).isSome = true ∧
      ¬ s.Protected 600 id := by
  have hrun : (runScript (guarded (fun s event => ¬ s.SharesId useIdOf event ∧
      ¬ s.Slips 600 event) (step useIdOf 600 3)) start (idleScript [.work 0 .yes])).any (fun s =>
        decide (s.destroys (.work 0 .yes) = some useId ∧
          (s.inUse.find useId).isSome = true)) = true := by
    decide +kernel
  obtain ⟨s, hs, hdestroys, hused⟩ := exists_reachable_of_decide _ hrun
  exact ⟨s, .work 0 .yes, useId, hdestroys, hused,
    in_use_not_destroyed (reachable_guarded hs) hdestroys⟩

/-- Between the recheck and the removal the thread acquires its sandbox again. -/
theorem in_use_destroyed : ∃ (s : Aio) (event : AioEvent) (id : SandboxId),
    Reachable (system (fun key => key.1 ++ ':' :: key.2) 600 3) s ∧
      s.destroys event = some id ∧ s.Protected 600 id := by
  have hrun : (runScript (step useIdOf 600 3) start (idleScript [.acquire (some useKey) [] false,
      .advance 1 .yes, .advance 1 .yes, .advance 1 .yes, .advance 1 .yes, .work 0 .yes])).any
        (fun s => decide (s.destroys (.work 0 .yes) = some useId ∧
          s.Protected 600 useId)) = true := by
    decide +kernel
  obtain ⟨s, hs, h⟩ := exists_reachable_of_decide _ hrun
  exact ⟨s, .work 0 .yes, useId, reachable_start hs, h⟩

end Runs

end InUse

end Aio

end DeerFlow.Sandbox
