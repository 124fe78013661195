import DeerFlow.Sandbox.AioProvider

/-! What one step of the provider can do: the ways an acquire goes on, and what each of them does
to the maps. -/

namespace DeerFlow.Sandbox
open Transition

namespace Provider
variable {p p' : Provider} {owner : Option ThreadKey} {id id' : SandboxId} {now : Rat}

/-- A look that finds nothing may forget a thread whose sandbox is not active any more. -/
def Forgets (p p' : Provider) : Prop :=
  p' = p ∨ ∃ key existing, p.threadSandboxes.find key = some existing ∧
    p.sandboxes.find existing = none ∧
    p' = { p with threadSandboxes := p.threadSandboxes.erase key }

/-- No sandbox of the thread is active under the id. -/
def Missing (p : Provider) (owner : Option ThreadKey) (id : SandboxId) : Prop :=
  ∀ key, owner = some key → p.threadSandboxes.find key = some id → p.sandboxes.find id = none

/-- What the first section of a cache has read. -/
inductive Sees (p : Provider) (owner : Option ThreadKey) (sandboxId : SandboxId) :
    Cache → SandboxId → Option Nat → Prop
  | inProcess {key : ThreadKey} {id : SandboxId} : owner = some key →
      p.threadSandboxes.find key = some id → (p.sandboxes.find id).isSome = true →
      Sees p owner sandboxId .inProcess id (p.sandboxInfos.find id)
  | warm {key : ThreadKey} {e : Nat × Rat} : owner = some key →
      p.warmPool.find sandboxId = some e → Sees p owner sandboxId .warm sandboxId (some e.1)

theorem lookup_seen {sandboxId : SandboxId} {cache : Cache} {info : Option Nat}
    (h : p.lookup owner sandboxId cache = (p', some (id, info))) :
    p' = p ∧ p.Sees owner sandboxId cache id info := by
  unfold lookup at h
  cases owner with
  | none => cases cache <;> simp at h
  | some key =>
    cases cache with
    | inProcess =>
      rcases hkey : p.threadSandboxes.find key with _ | existing
      · simp [hkey] at h
      · simp only [hkey] at h
        split_ifs at h with hactive
        · simp only [Prod.mk.injEq, Option.some.injEq] at h
          obtain ⟨rfl, rfl, rfl⟩ := h
          exact ⟨rfl, .inProcess rfl hkey hactive⟩
        · simp at h
    | warm =>
      simp only [Prod.mk.injEq, Option.map_eq_some_iff] at h
      obtain ⟨rfl, e, he, rfl, rfl⟩ := h
      exact ⟨rfl, .warm rfl he⟩

theorem lookup_missed {sandboxId : SandboxId} {cache : Cache}
    (h : p.lookup owner sandboxId cache = (p', none)) :
    p.Forgets p' ∧ (cache = .inProcess → p.Missing owner sandboxId) := by
  unfold lookup at h
  cases owner with
  | none =>
    cases cache with
    | inProcess | warm =>
      simp only [Prod.mk.injEq, and_true] at h
      subst h
      exact ⟨.inl rfl, fun _ key hkey => by cases hkey⟩
  | some key =>
    cases cache with
    | inProcess =>
      rcases hkey : p.threadSandboxes.find key with _ | existing
      · simp only [hkey, Prod.mk.injEq, and_true] at h
        subst h
        refine ⟨.inl rfl, fun _ key' hkey' hfind => ?_⟩
        cases hkey'
        rw [hkey] at hfind
        cases hfind
      · simp only [hkey] at h
        split_ifs at h with hactive
        · simp at h
        · simp only [Prod.mk.injEq, and_true] at h
          have hnone : p.sandboxes.find existing = none := by simpa using hactive
          refine ⟨.inr ⟨key, existing, hkey, hnone, h.symm⟩, fun _ key' hkey' hfind => ?_⟩
          cases hkey'
          rw [hkey] at hfind
          cases hfind
          exact hnone
    | warm =>
      simp only [Prod.mk.injEq] at h
      obtain ⟨rfl, _⟩ := h
      exact ⟨.inl rfl, fun h => by cases h⟩

theorem confirm_missed {cache : Cache} (h : p.confirm owner id now cache = (p', false)) :
    p.Forgets p' ∧ (cache = .inProcess → p.Missing owner id) := by
  unfold confirm at h
  cases cache with
  | inProcess =>
    cases owner with
    | none =>
      simp only [Prod.mk.injEq, and_true] at h
      subst h
      exact ⟨.inl rfl, fun _ key hkey => by cases hkey⟩
    | some key =>
      simp only at h
      split_ifs at h with hkey hactive
      · simp at h
      · simp only [Prod.mk.injEq, and_true] at h
        have hnone : p.sandboxes.find id = none := by simpa using hactive
        exact ⟨.inr ⟨key, id, hkey, hnone, h.symm⟩, fun _ _ _ _ => hnone⟩
      · simp only [Prod.mk.injEq, and_true] at h
        subst h
        refine ⟨.inl rfl, fun _ key' hkey' hfind => ?_⟩
        cases hkey'
        exact absurd hfind hkey
  | warm =>
    rcases hwarm : p.warmPool.find id with _ | e
    · simp only [hwarm, Prod.mk.injEq, and_true] at h
      subst h
      exact ⟨.inl rfl, fun h => by cases h⟩
    · simp [hwarm] at h

/-- What the second section does where it finds the sandbox again. -/
inductive Confirms (p : Provider) (owner : Option ThreadKey) (id : SandboxId) (now : Rat) :
    Provider → Prop
  | inProcess {key : ThreadKey} : owner = some key → p.threadSandboxes.find key = some id →
      (p.sandboxes.find id).isSome = true →
      Confirms p owner id now { p with lastActivity := p.lastActivity.set id now }
  | warm {e : Nat × Rat} : p.warmPool.find id = some e →
      Confirms p owner id now
        ({ p with warmPool := p.warmPool.erase id }.track owner id e.1 now)

theorem confirm_found {cache : Cache} (h : p.confirm owner id now cache = (p', true)) :
    p.Confirms owner id now p' := by
  unfold confirm at h
  cases cache with
  | inProcess =>
    cases owner with
    | none => simp at h
    | some key =>
      simp only at h
      split_ifs at h with hkey hactive
      · simp only [Prod.mk.injEq, and_true] at h
        subst h
        exact .inProcess rfl hkey hactive
      · simp at h
      · simp at h
  | warm =>
    rcases hwarm : p.warmPool.find id with _ | e
    · simp [hwarm] at h
    · simp only [hwarm, Prod.mk.injEq, and_true] at h
      subst h
      exact .warm hwarm

theorem mem_warmPool_of_oldestWarm (h : p.oldestWarm = some id) :
    (p.warmPool.find id).isSome = true := by
  unfold oldestWarm at h
  obtain ⟨e, he, rfl⟩ := Option.map_eq_some_iff.mp h
  rw [Assoc.isSome_find]
  exact List.mem_map_of_mem (List.mem_of_find?_eq_some he)

theorem find_release (p : Provider) (id : SandboxId) (now : Rat) (x : SandboxId) :
    (p.release id now).warmPool.find x = p.warmPool.find x ∨
      x = id ∧ p.warmPool.find x = none ∧ ∃ info, p.sandboxInfos.find x = some info ∧
        (p.release id now).warmPool.find x = some (info, now) := by
  unfold release
  rcases hinfo : p.sandboxInfos.find id with _ | info
  · exact .inl rfl
  · simp only
    split_ifs with hnone
    · rw [Assoc.find_set]
      split_ifs with hid
      · subst hid
        exact .inr ⟨rfl, by simpa using hnone, info, hinfo, rfl⟩
      · exact .inl rfl
    · exact .inl rfl

theorem tracks_iff {info : Nat} : p.tracks id info = true ↔
    p.sandboxInfos.find id = some info ∨ (p.warmPool.find id).map (·.1) = some info := by
  simp [tracks]

end Provider

/-- Where only the acquire itself goes on, and no function that was handed to a thread. -/
def AcquirePc.present : AcquirePc → Bool
  | .ready | .registerDiscovered | .registerCreated => true
  | _ => false

namespace Aio
variable {idOf : ThreadKey → SandboxId} {timeout : Rat} {replicas : Int} {s t : Aio} {i j : Nat}
  {c : Acquire} {answer : Answer} {id : SandboxId}

inductive Onward (s : Aio) (c : Acquire) (answer : Answer) : AcquirePc → Prop
  | enter : c.pc = .waiting → s.locked c.owner = false →
      Onward s c answer (.lookup .inProcess false)
  | quit : (c.pc = .lookup .inProcess true ∨ c.pc = .discover ∨ c.pc = .replicas ∨
      c.pc = .create ∨ c.pc = .ready ∧ answer = .raises) → Onward s c answer .ended
  | seen {cache : Cache} {postLock : Bool} {id : SandboxId} {info : Option Nat} :
      c.pc = .lookup cache postLock → s.provider.Sees c.owner c.sandboxId cache id info →
      Onward s c answer (.check cache postLock id info)
  | alive {cache : Cache} {postLock : Bool} {id : SandboxId} {info : Option Nat} :
      c.pc = .check cache postLock id info → Onward s c answer (.confirm cache postLock id)
  | kept {cache : Cache} {postLock : Bool} {id : SandboxId} {info : Nat} :
      c.pc = .drop cache postLock id info → Onward s c answer (c.missed cache postLock)
  | found : c.pc = .discover → Onward s c answer (c.proceed .registerDiscovered)
  | notFound : c.pc = .discover → Onward s c answer (c.proceed .replicas)
  | counted {pc : AcquirePc} : c.pc = .replicas → pc = .evict ∨ pc = .create → Onward s c answer pc
  | noneWarm : c.pc = .evict → Onward s c answer (c.proceed .create)
  | ready : c.pc = .ready → Onward s c answer .registerCreated
  | unready : c.pc = .ready → Onward s c answer (.stopping c.sandboxId .raise)

inductive Advanced (s : Aio) (i : Nat) (c : Acquire) (answer : Answer) : AcquirePc → Aio → Prop
  | onward {pc : AcquirePc} : s.Onward c answer pc → Advanced s i c answer pc (s.goTo i pc)
  | missed {cache : Cache} {postLock : Bool} {id : SandboxId} {p : Provider} :
      (c.pc = .lookup cache postLock ∧ id = c.sandboxId ∨ c.pc = .confirm cache postLock id) →
      s.provider.Forgets p → (cache = .inProcess → s.provider.Missing c.owner id) →
      Advanced s i c answer (c.missed cache postLock)
        ((s.withProvider p).goTo i (c.missed cache postLock))
  | dead {cache : Cache} {postLock : Bool} {id : SandboxId} {info : Nat} :
      c.pc = .check cache postLock id (some info) →
      Advanced s i c answer (.drop cache postLock id info)
        { s.goTo i (.drop cache postLock id info) with inUse := s.inUse.erase id }
  | dropped {cache : Cache} {postLock : Bool} {id : SandboxId} {info : Nat} :
      c.pc = .drop cache postLock id info → s.provider.tracks id info = true →
      Advanced s i c answer (.stopping id (.missed cache postLock))
        ((s.withProvider (s.provider.removeTrackedSandbox id)).goTo i
          (.stopping id (.missed cache postLock)))
  | confirmed {cache : Cache} {postLock : Bool} {id : SandboxId} {p : Provider} :
      c.pc = .confirm cache postLock id → s.provider.confirm c.owner id s.clock cache = (p, true) →
      Advanced s i c answer (c.proceed (.returned id)) ((s.withProvider p).obtain i c id)
  | registered : c.pc = .registerDiscovered ∨ c.pc = .registerCreated →
      Advanced s i c answer (c.proceed (.returned c.sandboxId)) (s.register i c)
  | evicted {id : SandboxId} : c.pc = .evict → (s.provider.warmPool.find id).isSome = true →
      Advanced s i c answer (.stopping id .create)
        ((s.withProvider { s.provider with warmPool := s.provider.warmPool.erase id }).goTo i
          (.stopping id .create))
  | created : c.pc = .create → answer = .yes →
      Advanced s i c answer (c.proceed .ready)
        ({ s with containers := s.containers.set c.sandboxId true }.goTo i (c.proceed .ready))
  | stopped {id : SandboxId} {next : Next} : c.pc = .stopping id next →
      Advanced s i c answer (c.next next) ((s.backendDestroy id answer).goTo i (c.next next))

theorem trackedInfo_of_tracks {p : Provider} {info : Nat} (h : p.tracks id info = true) :
    ∃ info', p.trackedInfo id = some info' := by
  unfold Provider.trackedInfo
  unfold Provider.tracks at h
  rcases hactive : p.sandboxInfos.find id with _ | active
  · rw [hactive] at h
    have hwarm : (p.warmPool.find id).map (·.1) = some info := by simpa using h
    exact ⟨info, by rw [hwarm]; rfl⟩
  · exact ⟨active, rfl⟩

theorem advance_cases (h : s.advance replicas i c answer = some t) : ∃ pc, s.Advanced i c answer pc t := by
  unfold advance at h
  split at h
  · next hpc =>
    split_ifs at h with hfree
    cases h
    exact ⟨_, .onward (.enter hpc (by simpa using hfree))⟩
  · next cache postLock hpc =>
    split_ifs at h with hraises
    · cases h
      obtain ⟨rfl, rfl, -⟩ := hraises
      exact ⟨_, .onward (.quit (.inl hpc))⟩
    · cases h
      unfold advanceLookup
      rcases hlook : s.provider.lookup c.owner c.sandboxId cache with ⟨p, _ | ⟨id, info⟩⟩
      · obtain ⟨hp, hmissing⟩ := Provider.lookup_missed hlook
        exact ⟨_, .missed (.inl ⟨hpc, rfl⟩) hp hmissing⟩
      · obtain ⟨rfl, hsees⟩ := Provider.lookup_seen hlook
        exact ⟨_, .onward (.seen hpc hsees)⟩
  · next cache postLock id info hpc =>
    cases h
    unfold advanceCheck
    cases info with
    | none => exact ⟨_, .onward (.alive hpc)⟩
    | some object =>
      simp only
      split_ifs with hdead
      · exact ⟨_, .dead hpc⟩
      · exact ⟨_, .onward (.alive hpc)⟩
  · next cache postLock id info hpc =>
    cases h
    unfold advanceDrop
    split_ifs with htracks
    · obtain ⟨info', hinfo⟩ := trackedInfo_of_tracks htracks
      rw [hinfo]
      exact ⟨_, .dropped hpc htracks⟩
    · exact ⟨_, .onward (.kept hpc)⟩
  · next cache postLock id hpc =>
    cases h
    unfold advanceConfirm
    rcases hconfirm : s.provider.confirm c.owner id s.clock cache with ⟨p, _ | _⟩
    · obtain ⟨hp, hmissing⟩ := Provider.confirm_missed hconfirm
      exact ⟨_, .missed (.inr hpc) hp hmissing⟩
    · exact ⟨_, .confirmed hpc hconfirm⟩
  · next hpc =>
    cases answer with
    | yes =>
      simp only at h
      split_ifs at h
      cases h
      exact ⟨_, .onward (.found hpc)⟩
    | no =>
      cases h
      exact ⟨_, .onward (.notFound hpc)⟩
    | raises =>
      cases h
      exact ⟨_, .onward (.quit (.inr (.inl hpc)))⟩
  · next hpc =>
    cases h
    exact ⟨_, .registered (.inl hpc)⟩
  · next hpc =>
    cases h
    exact ⟨_, .registered (.inr hpc)⟩
  · next hpc =>
    split_ifs at h
    · cases h
      exact ⟨_, .onward (.quit (.inr (.inr (.inl hpc))))⟩
    · cases h
      exact ⟨_, .onward (.counted hpc (.inl rfl))⟩
    · cases h
      exact ⟨_, .onward (.counted hpc (.inr rfl))⟩
  · next hpc =>
    cases h
    unfold advanceEvict
    split
    · exact ⟨_, .onward (.noneWarm hpc)⟩
    · next id hid => exact ⟨_, .evicted hpc (Provider.mem_warmPool_of_oldestWarm hid)⟩
  · next hpc =>
    split_ifs at h with hyes
    · cases h
      exact ⟨_, .created hpc hyes⟩
    · cases h
      exact ⟨_, .onward (.quit (.inr (.inr (.inr (.inl hpc)))))⟩
  · next hpc =>
    cases answer with
    | yes =>
      cases h
      exact ⟨_, .onward (.ready hpc)⟩
    | no =>
      cases h
      exact ⟨_, .onward (.unready hpc)⟩
    | raises =>
      cases h
      exact ⟨_, .onward (.quit (.inr (.inr (.inr (.inr ⟨hpc, rfl⟩)))))⟩
  · next id next hpc =>
    cases h
    exact ⟨_, .stopped hpc⟩
  · cases h
  · cases h

theorem cancel_cases (h : s.cancel i c = some t) :
    c.abandoned = false ∧
      (t = s.abandon i ∧ c.pc.present = false ∨
        t = s.goTo i .ended ∧ (c.pc = .waiting ∨ c.pc = .replicas ∨ c.pc = .ready)) := by
  unfold cancel at h
  split_ifs at h with hc
  have habandoned : c.abandoned = false := by
    simp only [Bool.and_eq_true, Bool.not_eq_true'] at hc
    exact hc.2
  refine ⟨habandoned, ?_⟩
  split at h
  · next hpc => exact .inr ⟨(Option.some.inj h).symm, .inl hpc⟩
  · next hpc => exact .inr ⟨(Option.some.inj h).symm, .inr (.inl hpc)⟩
  · next hpc => exact .inr ⟨(Option.some.inj h).symm, .inr (.inr hpc)⟩
  all_goals first
    | cases h; done
    | next hpc => exact .inl ⟨(Option.some.inj h).symm, by rw [hpc]; rfl⟩

inductive Worked (timeout : Rat) (s : Aio) (j : Nat) (rest : List Task) (answer : Answer) :
    Task → Aio → Prop
  | mark {now : Rat} : Worked timeout s j rest answer (.mark now)
      (s.setJob j ((s.provider.idle timeout now).map .recheck ++ (.readTime :: rest)))
  | skipped {id : SandboxId} : Worked timeout s j rest answer (.recheck id) (s.setJob j rest)
  | marked {id : SandboxId} {lastActivity : Rat} :
      s.provider.lastActivity.find id = some lastActivity → ¬ s.clock - lastActivity < timeout →
      Worked timeout s j rest answer (.recheck id) (s.setJob j (.remove id :: rest))
  | absent {id : SandboxId} : s.provider.trackedInfo id = none →
      Worked timeout s j rest answer (.remove id)
        ((s.withProvider (s.provider.removeTrackedSandbox id)).setJob j rest)
  | removed {id : SandboxId} :
      Worked timeout s j rest answer (.remove id)
        ((s.withProvider (s.provider.removeTrackedSandbox id)).setJob j (.stop id :: rest))
  | stop {id : SandboxId} :
      Worked timeout s j rest answer (.stop id) ((s.backendDestroy id answer).setJob j rest)
  | readTime : Worked timeout s j rest answer .readTime (s.setJob j (.reap s.clock :: rest))
  | reap {now : Rat} : Worked timeout s j rest answer (.reap now)
      ((s.withProvider (s.provider.reap timeout now)).setJob j
        ((s.provider.expired timeout now).map .stop ++ rest))

theorem work_cases (s : Aio) (j : Nat) (task : Task) (rest : List Task) (answer : Answer) :
    s.Worked timeout j rest answer task (s.work timeout j task rest answer) := by
  cases task with
  | mark now => exact .mark
  | recheck id =>
    rcases hfind : s.provider.lastActivity.find id with _ | lastActivity
    · simp only [work, hfind]
      exact .skipped
    · simp only [work, hfind]
      split_ifs with hrecent
      · exact .skipped
      · exact .marked hfind hrecent
  | remove id =>
    rcases hinfo : s.provider.trackedInfo id with _ | info
    · simp only [work, hinfo]
      exact .absent hinfo
    · simp only [work, hinfo]
      exact .removed
  | stop id => exact .stop
  | readTime => exact .readTime
  | reap now => exact .reap

inductive Stepped (idOf : ThreadKey → SandboxId) (timeout : Rat) (s : Aio) : AioEvent → Aio → Prop
  | acquire {owner : Option ThreadKey} {uuid : SandboxId} {isAsync : Bool} :
      Stepped idOf timeout s (.acquire owner uuid isAsync) (s.acquire idOf owner uuid isAsync)
  | advance {i : Nat} {answer : Answer} {c : Acquire} {pc : AcquirePc} {t : Aio} :
      s.acquires[i]? = some c → s.Advanced i c answer pc t →
      Stepped idOf timeout s (.advance i answer) t
  | abandoned {i : Nat} {c : Acquire} : s.acquires[i]? = some c → c.abandoned = false →
      c.pc.present = false → Stepped idOf timeout s (.cancel i) (s.abandon i)
  | cancelled {i : Nat} {c : Acquire} : s.acquires[i]? = some c →
      (c.pc = .waiting ∨ c.pc = .replicas ∨ c.pc = .ready) →
      Stepped idOf timeout s (.cancel i) (s.goTo i .ended)
  | get {id : SandboxId} : Stepped idOf timeout s (.get id) (s.get id)
  | release {id : SandboxId} : Stepped idOf timeout s (.release id) (s.release id)
  | destroy {id : SandboxId} : Stepped idOf timeout s (.destroy id) (s.destroy id)
  | cleanupIdle : Stepped idOf timeout s .cleanupIdle (s.addJob [.mark s.clock])
  | shutdown : Stepped idOf timeout s .shutdown s.shutdown
  | work {j : Nat} {task : Task} {rest : List Task} {answer : Answer} {t : Aio} :
      s.jobs[j]? = some (task :: rest) → s.Worked timeout j rest answer task t →
      Stepped idOf timeout s (.work j answer) t
  | tick {d : Rat} : 0 ≤ d → Stepped idOf timeout s (.tick d) { s with clock := s.clock + d }
  | running {id : SandboxId} : Stepped idOf timeout s (.start id) s
  | start {id : SandboxId} : s.containers.find id = none →
      Stepped idOf timeout s (.start id) { s with containers := s.containers.set id false }
  | die {id : SandboxId} :
      Stepped idOf timeout s (.die id) { s with containers := s.containers.erase id }

theorem step_cases {event : AioEvent} (h : s.step idOf timeout replicas event = some t) :
    s.Stepped idOf timeout event t := by
  cases event with
  | acquire owner uuid isAsync =>
    cases h
    exact .acquire
  | advance i answer =>
    obtain ⟨c, hc, ht⟩ := Option.bind_eq_some_iff.mp h
    obtain ⟨pc, hpc⟩ := advance_cases ht
    exact .advance hc hpc
  | cancel i =>
    obtain ⟨c, hc, ht⟩ := Option.bind_eq_some_iff.mp h
    obtain ⟨habandoned, ⟨rfl, hpc⟩ | ⟨rfl, hpc⟩⟩ := cancel_cases ht
    · exact .abandoned hc habandoned hpc
    · exact .cancelled hc hpc
  | get id =>
    cases h
    exact .get
  | release id =>
    cases h
    exact .release
  | destroy id =>
    cases h
    exact .destroy
  | cleanupIdle =>
    simp only [step] at h
    split_ifs at h
    cases h
    exact .cleanupIdle
  | shutdown =>
    cases h
    exact .shutdown
  | work j answer =>
    simp only [step] at h
    split at h
    · next task rest hj =>
      cases h
      exact .work hj (work_cases s j task rest answer)
    · cases h
    · cases h
  | tick d =>
    simp only [step] at h
    split_ifs at h with hd
    cases h
    exact .tick hd
  | start id =>
    simp only [step] at h
    split_ifs at h with hrunning
    · cases h
      exact .running
    · cases h
      exact .start (by simpa using hrunning)
  | die id =>
    cases h
    exact .die

section Members
variable {c' : Acquire} {pc : AcquirePc} {p : Acquire → Prop} {job : List Task}
  {q : List Task → Prop}

/-- An acquire with a property is still there, when the one that moved keeps it. -/
theorem exists_goTo (hc : s.acquires[i]? = some c) (hmove : p c → p { c with pc := pc })
    (h : ∃ c ∈ s.acquires, p c) : ∃ c ∈ (s.goTo i pc).acquires, p c :=
  Slots.exists_modify hc hmove h

theorem mem_goTo (hc : s.acquires[i]? = some c) :
    { c with pc := pc } ∈ (s.goTo i pc).acquires := by
  apply List.mem_of_getElem? (i := i)
  exact Slots.modify_self (f := fun c : Acquire => { c with pc := pc }) hc

/-- An acquire after a move is the one that moved, or was there before. -/
theorem getElem?_goTo (hc : s.acquires[i]? = some c) (h : (s.goTo i pc).acquires[j]? = some c') :
    i = j ∧ c' = { c with pc := pc } ∨ i ≠ j ∧ s.acquires[j]? = some c' :=
  Slots.modify_cases hc h

theorem exists_abandon (hc : s.acquires[i]? = some c)
    (hmove : p c → p { c with abandoned := true }) (h : ∃ c ∈ s.acquires, p c) :
    ∃ c ∈ (s.abandon i).acquires, p c := Slots.exists_modify hc hmove h

theorem getElem?_abandon (hc : s.acquires[i]? = some c)
    (h : (s.abandon i).acquires[j]? = some c') :
    i = j ∧ c' = { c with abandoned := true } ∨ i ≠ j ∧ s.acquires[j]? = some c' :=
  Slots.modify_cases hc h

theorem mem_of_mem_goTo (hi : s.acquires[i]? = some c) (h : c' ∈ (s.goTo i pc).acquires) :
    c' = { c with pc := pc } ∨ c' ∈ s.acquires := by
  obtain ⟨k, hk⟩ := List.mem_iff_getElem?.mp h
  rcases getElem?_goTo hi hk with ⟨-, rfl⟩ | ⟨-, hk⟩
  · exact .inl rfl
  · exact .inr (List.mem_of_getElem? hk)

theorem mem_of_mem_abandon (hi : s.acquires[i]? = some c) (h : c' ∈ (s.abandon i).acquires) :
    c' = { c with abandoned := true } ∨ c' ∈ s.acquires := by
  obtain ⟨k, hk⟩ := List.mem_iff_getElem?.mp h
  rcases getElem?_abandon hi hk with ⟨-, rfl⟩ | ⟨-, hk⟩
  · exact .inl rfl
  · exact .inr (List.mem_of_getElem? hk)

theorem exists_setJob {new : List Task} (hj : s.jobs[j]? = some job) (hmove : q job → q new)
    (h : ∃ job ∈ s.jobs, q job) : ∃ job ∈ (s.setJob j new).jobs, q job := by
  obtain ⟨job', hjob', hq⟩ := h
  obtain ⟨k, hk⟩ := List.mem_iff_getElem?.mp hjob'
  by_cases hkj : j = k
  · subst hkj
    rw [hj] at hk
    cases hk
    have hlt := (List.getElem?_eq_some_iff.mp hj).1
    exact ⟨new, List.mem_of_getElem? (List.getElem?_set_self hlt), hmove hq⟩
  · refine ⟨job', List.mem_of_getElem? (i := k) ?_, hq⟩
    exact (List.getElem?_set_ne hkj).trans hk

theorem mem_setJob {new : List Task} (hj : s.jobs[j]? = some job) :
    new ∈ (s.setJob j new).jobs := by
  have hlt := (List.getElem?_eq_some_iff.mp hj).1
  exact List.mem_of_getElem? (List.getElem?_set_self hlt)

end Members

@[simp] theorem provider_obtain (s : Aio) (i : Nat) (c : Acquire) (id : SandboxId) :
    (s.obtain i c id).provider = s.provider := by
  unfold obtain
  split_ifs <;> rfl

@[simp] theorem acquires_obtain (s : Aio) (i : Nat) (c : Acquire) (id : SandboxId) :
    (s.obtain i c id).acquires = (s.goTo i (c.proceed (.returned id))).acquires := by
  unfold obtain Acquire.proceed
  split_ifs <;> rfl

@[simp] theorem jobs_obtain (s : Aio) (i : Nat) (c : Acquire) (id : SandboxId) :
    (s.obtain i c id).jobs = s.jobs := by
  unfold obtain
  split_ifs <;> rfl

@[simp] theorem containers_obtain (s : Aio) (i : Nat) (c : Acquire) (id : SandboxId) :
    (s.obtain i c id).containers = s.containers := by
  unfold obtain
  split_ifs <;> rfl

@[simp] theorem provider_backendDestroy (s : Aio) (id : SandboxId) (answer : Answer) :
    (s.backendDestroy id answer).provider = s.provider := by
  unfold backendDestroy
  split_ifs <;> rfl

theorem Advanced.acquires {pc : AcquirePc} (h : s.Advanced i c answer pc t) :
    t.acquires = (s.goTo i pc).acquires := by
  cases h with
  | onward _ | missed _ _ _ | dead _ | dropped _ _ | evicted _ _ | created _ _ => rfl
  | confirmed _ _ | registered _ => exact acquires_obtain ..
  | stopped _ =>
    unfold backendDestroy
    split_ifs <;> rfl

end Aio

section Maps

namespace Provider
variable {p p' : Provider} {owner : Option ThreadKey} {id : SandboxId} {now : Rat}

/-- The three maps of the active sandboxes have the same ids. -/
structure SameIds (p : Provider) : Prop where
  infos : ∀ id, (p.sandboxInfos.find id).isSome = (p.sandboxes.find id).isSome
  activity : ∀ id, (p.lastActivity.find id).isSome = (p.sandboxes.find id).isSome

theorem SameIds.track (h : p.SameIds) (owner : Option ThreadKey) (id : SandboxId) (info : Nat)
    (now : Rat) : (p.track owner id info now).SameIds := by
  constructor
  · intro x
    have hx := h.infos x
    simp only [Provider.track, Assoc.find_set]
    split_ifs <;> simp_all
  · intro x
    have hx := h.activity x
    simp only [Provider.track, Assoc.find_set]
    split_ifs <;> simp_all

theorem SameIds.untrack (h : p.SameIds) (id : SandboxId) : (p.untrack id).SameIds := by
  constructor
  · intro x
    have hx := h.infos x
    simp only [Provider.untrack, Assoc.find_erase]
    split_ifs <;> simp_all
  · intro x
    have hx := h.activity x
    simp only [Provider.untrack, Assoc.find_erase]
    split_ifs <;> simp_all

theorem SameIds.touch (h : p.SameIds) (hactive : (p.sandboxes.find id).isSome = true) :
    SameIds { p with lastActivity := p.lastActivity.set id now } := by
  refine ⟨h.infos, fun x => ?_⟩
  have hx := h.activity x
  simp only [Assoc.find_set]
  split_ifs with hid
  · rw [hid, hactive]
    rfl
  · exact hx

theorem SameIds.get (h : p.SameIds) (id : SandboxId) (now : Rat) : (p.get id now).SameIds := by
  unfold Provider.get
  split_ifs with hactive
  · exact h.touch hactive
  · exact h

theorem SameIds.forgets (h : p.SameIds) (hp : p.Forgets p') : p'.SameIds := by
  rcases hp with rfl | ⟨key, existing, -, -, rfl⟩
  · exact h
  · exact ⟨h.infos, h.activity⟩

theorem SameIds.confirms (h : p.SameIds) (hp : p.Confirms owner id now p') : p'.SameIds := by
  cases hp with
  | inProcess _ _ hactive => exact h.touch hactive
  | warm _ =>
    apply SameIds.track
    exact ⟨h.infos, h.activity⟩

end Provider

namespace Aio
variable {idOf : ThreadKey → SandboxId} {timeout : Rat} {replicas : Int} {s t : Aio}
  {event : AioEvent}

theorem sameIds_advanced {i : Nat} {c : Acquire} {answer : Answer} {pc : AcquirePc}
    (h : s.provider.SameIds) (ht : s.Advanced i c answer pc t) : t.provider.SameIds := by
  cases ht with
  | onward _ | dead _ | created _ _ => exact h
  | missed _ hp _ => exact h.forgets hp
  | dropped _ _ => exact ⟨(h.untrack _).infos, (h.untrack _).activity⟩
  | confirmed _ hp =>
    rw [provider_obtain]
    exact h.confirms (Provider.confirm_found hp)
  | registered _ =>
    unfold register
    rw [provider_obtain]
    exact h.track ..
  | evicted _ _ => exact ⟨h.infos, h.activity⟩
  | stopped _ =>
    change (s.backendDestroy _ answer).provider.SameIds
    rw [provider_backendDestroy]
    exact h

theorem sameIds_worked {j : Nat} {task : Task} {rest : List Task} {answer : Answer}
    (h : s.provider.SameIds) (ht : s.Worked timeout j rest answer task t) :
    t.provider.SameIds := by
  cases ht with
  | mark | skipped | marked _ _ | readTime => exact h
  | absent _ | removed => exact ⟨(h.untrack _).infos, (h.untrack _).activity⟩
  | stop =>
    change (s.backendDestroy _ answer).provider.SameIds
    rwa [provider_backendDestroy]
  | reap => exact ⟨h.infos, h.activity⟩

theorem sameIds_step (h : s.provider.SameIds) (ht : s.Stepped idOf timeout event t) :
    t.provider.SameIds := by
  cases ht with
  | acquire | abandoned _ _ _ | cancelled _ _ | destroy | cleanupIdle | tick _ | running | start _
  | die => exact h
  | advance _ ht => exact sameIds_advanced h ht
  | get => exact h.get _ s.clock
  | release => exact ⟨(h.untrack _).infos, (h.untrack _).activity⟩
  | shutdown =>
    unfold shutdown
    split_ifs
    · exact h
    · exact ⟨h.infos, h.activity⟩
  | work _ ht => exact sameIds_worked h ht

theorem sameIds_started (h : Started s) : s.provider.SameIds := by
  constructor
  · intro id
    rw [h.sandboxes, h.sandboxInfos]
  · intro id
    rw [h.sandboxes, h.lastActivity]
    rfl

end Aio

end Maps

section Apart

namespace Provider
variable {p p' : Provider} {owner : Option ThreadKey} {id : SandboxId} {now timeout : Rat}

def Apart (p : Provider) : Prop :=
  ∀ id, (p.sandboxes.find id).isSome = true → p.warmPool.find id = none

/-- Nothing becomes active, and nothing becomes warm. -/
theorem Apart.of_sub (h : p.Apart)
    (hactive : ∀ x, (p'.sandboxes.find x).isSome = true → (p.sandboxes.find x).isSome = true)
    (hwarm : ∀ x, p.warmPool.find x = none → p'.warmPool.find x = none) : p'.Apart := by
  intro x hx
  exact hwarm x (h x (hactive x hx))

theorem isSome_untrack {x : SandboxId} (h : ((p.untrack id).sandboxes.find x).isSome = true) :
    x ≠ id ∧ (p.sandboxes.find x).isSome = true := by
  simp only [untrack, Assoc.find_erase] at h
  split_ifs at h with hid
  · cases h
  · exact ⟨hid, h⟩

theorem Apart.track (h : p.Apart) (hwarm : p.warmPool.find id = none) (info : Nat) :
    (p.track owner id info now).Apart := by
  intro x hx
  by_cases hid : x = id
  · rw [hid]
    exact hwarm
  · simp only [Provider.track, Assoc.find_set, if_neg hid] at hx
    exact h x hx

theorem Apart.forgets (h : p.Apart) (hp : p.Forgets p') : p'.Apart := by
  rcases hp with rfl | ⟨key, existing, -, -, rfl⟩
  · exact h
  · exact h

theorem Apart.erase (h : p.Apart) (id : SandboxId) :
    Apart { p with warmPool := p.warmPool.erase id } := by
  refine h.of_sub (fun _ hx => hx) fun x hx => ?_
  simp [hx]

theorem Apart.confirms (h : p.Apart) (hp : p.Confirms owner id now p') : p'.Apart := by
  cases hp with
  | inProcess _ _ _ => exact h
  | warm _ =>
    apply Apart.track (h.erase id)
    simp

theorem Apart.remove (h : p.Apart) (id : SandboxId) : (p.removeTrackedSandbox id).Apart := by
  apply h.of_sub
  · intro x hx
    exact (isSome_untrack hx).2
  · intro x hx
    simp [removeTrackedSandbox, hx]

theorem Apart.release (h : p.Apart) (id : SandboxId) (now : Rat) : (p.release id now).Apart := by
  intro x hx
  obtain ⟨hid, hactive⟩ := isSome_untrack hx
  rcases find_release p id now x with hwarm | ⟨rfl, -⟩
  · rw [hwarm]
    exact h x hactive
  · exact absurd rfl hid

theorem Apart.get (h : p.Apart) (id : SandboxId) (now : Rat) : (p.get id now).Apart := by
  unfold Provider.get
  split_ifs <;> exact h

theorem Apart.reap (h : p.Apart) (timeout now : Rat) : (p.reap timeout now).Apart := by
  refine h.of_sub (fun _ hx => hx) fun x hx => ?_
  simp [Provider.reap, hx]

end Provider

namespace Aio
variable {idOf : ThreadKey → SandboxId} {timeout : Rat} {replicas : Int} {s t : Aio}
  {event : AioEvent}

/-- The id that the event registers. -/
def registers (s : Aio) : AioEvent → Option SandboxId
  | .advance i _ => s.acquires[i]?.bind fun c =>
    match c.pc with
    | .registerDiscovered | .registerCreated => some c.sandboxId
    | _ => none
  | _ => none

theorem registers_eq {i : Nat} {c : Acquire} {answer : Answer} (hi : s.acquires[i]? = some c)
    (hpc : c.pc = .registerDiscovered ∨ c.pc = .registerCreated) :
    s.registers (.advance i answer) = some c.sandboxId := by
  unfold registers
  rcases hpc with hpc | hpc <;> simp [hi, hpc]

theorem apart_advanced {i : Nat} {c : Acquire} {answer : Answer} {pc : AcquirePc}
    (h : s.provider.Apart) (hi : s.acquires[i]? = some c)
    (hwarm : ∀ id ∈ s.registers (.advance i answer), s.provider.warmPool.find id = none)
    (ht : s.Advanced i c answer pc t) : t.provider.Apart := by
  cases ht with
  | onward _ | dead _ | created _ _ => exact h
  | missed _ hp _ => exact h.forgets hp
  | dropped _ _ => exact h.remove _
  | confirmed _ hp =>
    rw [provider_obtain]
    exact h.confirms (Provider.confirm_found hp)
  | registered hpc =>
    unfold register
    rw [provider_obtain]
    exact h.track (hwarm _ (registers_eq hi hpc)) _
  | evicted _ _ => exact h.erase _
  | stopped _ =>
    change (s.backendDestroy _ answer).provider.Apart
    rwa [provider_backendDestroy]

theorem apart_worked {j : Nat} {task : Task} {rest : List Task} {answer : Answer}
    (h : s.provider.Apart) (ht : s.Worked timeout j rest answer task t) : t.provider.Apart := by
  cases ht with
  | mark | skipped | marked _ _ | readTime => exact h
  | absent _ | removed => exact h.remove _
  | stop =>
    change (s.backendDestroy _ answer).provider.Apart
    rwa [provider_backendDestroy]
  | reap => exact h.reap timeout _

theorem apart_step (h : s.provider.Apart)
    (hwarm : ∀ id ∈ s.registers event, s.provider.warmPool.find id = none)
    (ht : s.Stepped idOf timeout event t) : t.provider.Apart := by
  cases ht with
  | acquire | abandoned _ _ _ | cancelled _ _ | destroy | cleanupIdle | tick _ | running | start _
  | die => exact h
  | advance hi ht => exact apart_advanced h hi hwarm ht
  | get => exact h.get _ s.clock
  | release => exact h.release _ s.clock
  | shutdown =>
    unfold shutdown
    split_ifs
    · exact h
    · intro x _
      rfl
  | work _ ht => exact apart_worked h ht

theorem apart_started (h : Started s) : s.provider.Apart := by
  intro id hid
  rw [h.sandboxes] at hid
  cases hid

end Aio

end Apart

end DeerFlow.Sandbox
