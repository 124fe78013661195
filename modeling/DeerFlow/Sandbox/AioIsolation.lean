import DeerFlow.Lib.Sha256
import DeerFlow.Sandbox.AioSteps

/-! Which thread gets which container. Every way to a sandbox goes by its id, and the id of a thread
is cut from a digest: two threads are kept apart exactly as far as that cut does. -/

namespace DeerFlow.Sandbox
open Transition

section Ids

/-- `_SAFE_USER_ID_RE` and `_SAFE_THREAD_ID_RE`; their `$` also matches before a last newline. -/
def accepted (id : Text) : Bool :=
  let core := if id.getLast? = some '\n' then id.dropLast else id
  !core.isEmpty && core.all fun c => c.isAlphanum || c = '_' || c = '-'

def encode (t : Text) : List Sha256.Byte :=
  t.flatMap fun c => (String.utf8EncodeChar c).map (·.toBitVec)

def hexWord (w : Sha256.Word) : Text :=
  [7, 6, 5, 4, 3, 2, 1, 0].map fun i => Nat.digitChar (w.toNat / 16 ^ i % 16)

def hexdigest (s : Sha256.State) : Text :=
  [s.a, s.b, s.c, s.d, s.e, s.f, s.g, s.h].flatMap hexWord

/-- The digest of `user_id:thread_id`. -/
def scopeDigest (key : ThreadKey) : Sha256.State := Sha256.sha256 (encode (key.1 ++ ':' :: key.2))

/-- `_deterministic_sandbox_id` -/
def deterministicSandboxId (key : ThreadKey) : SandboxId := (hexdigest (scopeDigest key)).take 8

theorem digitChar_inj {m n : Nat} (hm : m < 16) (hn : n < 16)
    (h : Nat.digitChar m = Nat.digitChar n) : m = n := by
  have hall : ∀ m < 16, ∀ n < 16, Nat.digitChar m = Nat.digitChar n → m = n := by decide
  exact hall m hm n hn h

/-- Numbers of so many hexadecimal digits are told apart by a digit. -/
theorem eq_of_hexDigits {n v w : Nat} (hv : v < 16 ^ n) (hw : w < 16 ^ n)
    (h : ∀ i < n, v / 16 ^ i % 16 = w / 16 ^ i % 16) : v = w := by
  induction n generalizing v w with
  | zero =>
    rw [pow_zero, Nat.lt_one_iff] at hv hw
    rw [hv, hw]
  | succ n ih =>
    rw [pow_succ'] at hv hw
    have hlast : v % 16 = w % 16 := by
      simpa using h 0 n.succ_pos
    have hrest : v / 16 = w / 16 := by
      refine ih (Nat.div_lt_of_lt_mul hv) (Nat.div_lt_of_lt_mul hw) fun i hi => ?_
      have hdigit := h (i + 1) (Nat.succ_lt_succ hi)
      rwa [pow_succ', ← Nat.div_div_eq_div_mul, ← Nat.div_div_eq_div_mul] at hdigit
    omega

theorem hexWord_injective : Function.Injective hexWord := by
  intro v w h
  have hdigits : ∀ i ∈ [7, 6, 5, 4, 3, 2, 1, 0],
      Nat.digitChar (v.toNat / 16 ^ i % 16) = Nat.digitChar (w.toNat / 16 ^ i % 16) :=
    List.map_inj_left.mp h
  apply BitVec.eq_of_toNat_eq
  refine eq_of_hexDigits (n := 8) v.isLt w.isLt fun i hi => ?_
  refine digitChar_inj (Nat.mod_lt _ (by decide)) (Nat.mod_lt _ (by decide)) (hdigits i ?_)
  simp only [List.mem_cons, List.not_mem_nil, or_false]
  omega

/-- The id is the first word of the digest. -/
theorem deterministicSandboxId_eq (key : ThreadKey) :
    deterministicSandboxId key = hexWord (scopeDigest key).a := by
  unfold deterministicSandboxId hexdigest
  rw [List.flatMap_cons]
  exact List.take_left' rfl

end Ids

section Names

def AcquirePc.id? : AcquirePc → Option SandboxId
  | .check _ _ id _ | .drop _ _ id _ | .confirm _ _ id | .returned id => some id
  | _ => none

namespace Aio
variable {idOf : ThreadKey → SandboxId} {timeout : Rat} {replicas : Int} {s t : Aio}
  {event : AioEvent} {i : Nat} {c c' : Acquire} {pc : AcquirePc} {answer : Answer}
  {id : SandboxId} {key : ThreadKey}

/-- The id that is looked up and returned for a thread is its own. -/
structure Named (idOf : ThreadKey → SandboxId) (s : Aio) : Prop where
  owned : ∀ c ∈ s.acquires, ∀ key, c.owner = some key → c.sandboxId = idOf key
  placed : ∀ c ∈ s.acquires, ∀ id, c.pc.id? = some id → id = c.sandboxId
  threads : ∀ key id, s.provider.threadSandboxes.find key = some id → id = idOf key

theorem Named.move (h : s.Named idOf) (hi : s.acquires[i]? = some c)
    (hacquires : t.acquires = (s.goTo i pc).acquires)
    (hpc : ∀ id, pc.id? = some id → id = c.sandboxId)
    (hthreads : ∀ key id, t.provider.threadSandboxes.find key = some id → id = idOf key) :
    t.Named idOf := by
  have hc := List.mem_of_getElem? hi
  refine ⟨fun c' hc' => ?_, fun c' hc' => ?_, hthreads⟩
  · rw [hacquires] at hc'
    rcases mem_of_mem_goTo hi hc' with rfl | hc'
    · exact h.owned c hc
    · exact h.owned c' hc'
  · rw [hacquires] at hc'
    rcases mem_of_mem_goTo hi hc' with rfl | hc'
    · exact hpc
    · exact h.placed c' hc'

theorem id?_proceed (h : (c.proceed pc).id? = some id) : pc.id? = some id := by
  unfold Acquire.proceed at h
  split_ifs at h
  · cases h
  · exact h

theorem id?_missed (cache : Cache) (postLock : Bool) : (c.missed cache postLock).id? = none := by
  unfold Acquire.missed Acquire.proceed
  split <;> repeat' split
  all_goals rfl

theorem Onward.named (h : s.Onward c answer pc) (hs : s.Named idOf)
    (hi : s.acquires[i]? = some c) (hid : pc.id? = some id) : id = c.sandboxId := by
  have hc := List.mem_of_getElem? hi
  cases h with
  | enter _ _ | quit _ | ready _ | unready _ => cases hid
  | seen _ hsees =>
    cases hid
    cases hsees with
    | inProcess howner hfind _ => rw [hs.threads _ _ hfind, hs.owned c hc _ howner]
    | warm _ _ => rfl
  | alive hpc =>
    cases hid
    apply hs.placed c hc
    rw [hpc]
    rfl
  | kept _ =>
    rw [id?_missed] at hid
    cases hid
  | found _ | notFound _ | noneWarm _ =>
    have hnone := id?_proceed hid
    cases hnone
  | counted _ hpc =>
    rcases hpc with rfl | rfl <;> cases hid

theorem find_track_threads {p : Provider} {owner : Option ThreadKey} {info : Nat} {now : Rat}
    (hthreads : ∀ key id, p.threadSandboxes.find key = some id → id = idOf key)
    (howner : ∀ key, owner = some key → id = idOf key) (key' : ThreadKey) (id' : SandboxId)
    (h : (p.track owner id info now).threadSandboxes.find key' = some id') : id' = idOf key' := by
  cases owner with
  | none => exact hthreads key' id' h
  | some key =>
    simp only [Provider.track, Assoc.find_set] at h
    split_ifs at h with hkey
    · cases h
      rw [hkey]
      exact howner key rfl
    · exact hthreads key' id' h

theorem named_advanced (h : s.Named idOf) (hi : s.acquires[i]? = some c)
    (ht : s.Advanced i c answer pc t) : t.Named idOf := by
  have hc := List.mem_of_getElem? hi
  have hacquires := ht.acquires
  cases ht with
  | onward hmove => exact h.move hi hacquires (fun id hid => hmove.named h hi hid) h.threads
  | missed _ hp _ =>
    refine h.move hi hacquires (fun id hid => ?_) ?_
    · rw [id?_missed] at hid
      cases hid
    · rcases hp with rfl | ⟨key, existing, -, -, rfl⟩
      · exact h.threads
      · intro key' id' hfind
        change Assoc.find (Table.erase _ key) key' = _ at hfind
        rw [Assoc.find_erase] at hfind
        split_ifs at hfind
        exact h.threads key' id' hfind
  | dead hpc =>
    refine h.move hi hacquires (fun id hid => ?_) h.threads
    cases hid
    apply h.placed c hc
    rw [hpc]
    rfl
  | dropped _ _ =>
    refine h.move hi hacquires (fun id hid => by cases hid) fun key id hfind => ?_
    change Assoc.find (Table.keep _ _) key = _ at hfind
    rw [Assoc.find_keep, Option.filter_eq_some_iff] at hfind
    exact h.threads key id hfind.1
  | @confirmed cache postLock id p hpc hp =>
    have hid : id = c.sandboxId := by
      apply h.placed c hc
      rw [hpc]
      rfl
    refine h.move hi hacquires (fun id' hid' => ?_) ?_
    · obtain rfl := Option.some.inj (id?_proceed hid')
      exact hid
    · rw [provider_obtain]
      cases Provider.confirm_found hp with
      | inProcess _ _ _ => exact h.threads
      | warm _ =>
        apply find_track_threads
        · exact h.threads
        · intro key howner
          rw [hid]
          exact h.owned c hc key howner
  | registered _ =>
    refine h.move hi hacquires (fun id' hid' => ?_) ?_
    · obtain rfl := Option.some.inj (id?_proceed hid')
      rfl
    · unfold register
      rw [provider_obtain]
      exact find_track_threads h.threads (h.owned c hc)
  | evicted _ _ => exact h.move hi hacquires (fun id hid => by cases hid) h.threads
  | created _ _ =>
    refine h.move hi hacquires (fun id hid => ?_) h.threads
    have hnone := id?_proceed hid
    cases hnone
  | @stopped id next hpc =>
    refine h.move hi hacquires (fun id' hid' => ?_) ?_
    · cases next with
      | missed cache postLock =>
        change (c.missed cache postLock).id? = some id' at hid'
        rw [id?_missed] at hid'
        cases hid'
      | create =>
        have hnone := id?_proceed hid'
        cases hnone
      | raise => cases hid'
    · change ∀ key id', (s.backendDestroy id answer).provider.threadSandboxes.find key = _ → _
      rw [provider_backendDestroy]
      exact h.threads

theorem Named.untrack (h : s.Named idOf) (id : SandboxId) (key : ThreadKey) (id' : SandboxId)
    (hfind : (s.provider.untrack id).threadSandboxes.find key = some id') : id' = idOf key := by
  change Assoc.find (Table.keep _ _) key = _ at hfind
  rw [Assoc.find_keep, Option.filter_eq_some_iff] at hfind
  exact h.threads key id' hfind.1

theorem named_step (h : s.Named idOf) (ht : s.Stepped idOf timeout event t) : t.Named idOf := by
  cases ht with
  | @acquire owner uuid isAsync =>
    refine ⟨fun c hc => ?_, fun c hc => ?_, h.threads⟩
    · rcases List.mem_append.mp hc with hc | hc
      · exact h.owned c hc
      · obtain rfl := List.mem_singleton.mp hc
        rintro key rfl
        rfl
    · rcases List.mem_append.mp hc with hc | hc
      · exact h.placed c hc
      · obtain rfl := List.mem_singleton.mp hc
        intro id hid
        split_ifs at hid <;> cases hid
  | advance hi ht => exact named_advanced h hi ht
  | @abandoned i c hi _ _ =>
    refine ⟨fun c' hc' => ?_, fun c' hc' => ?_, h.threads⟩
    · rcases mem_of_mem_abandon hi hc' with rfl | hc'
      · exact h.owned c (List.mem_of_getElem? hi)
      · exact h.owned c' hc'
    · rcases mem_of_mem_abandon hi hc' with rfl | hc'
      · exact h.placed c (List.mem_of_getElem? hi)
      · exact h.placed c' hc'
  | cancelled hi _ => exact h.move hi rfl (fun id hid => by cases hid) h.threads
  | get =>
    refine ⟨h.owned, h.placed, ?_⟩
    change ∀ key id', (s.provider.get _ s.clock).threadSandboxes.find key = _ → _
    unfold Provider.get
    split_ifs <;> exact h.threads
  | release => exact ⟨h.owned, h.placed, h.untrack _⟩
  | destroy | cleanupIdle | tick _ | running | start _ | die => exact ⟨h.owned, h.placed, h.threads⟩
  | shutdown =>
    unfold shutdown
    split_ifs
    · exact h
    · exact ⟨h.owned, h.placed, h.threads⟩
  | work _ ht =>
    cases ht with
    | mark | skipped | marked _ _ | readTime | reap => exact ⟨h.owned, h.placed, h.threads⟩
    | absent _ | removed => exact ⟨h.owned, h.placed, h.untrack _⟩
    | @stop id =>
      unfold backendDestroy
      split_ifs <;> exact ⟨h.owned, h.placed, h.threads⟩

theorem named_started (h : Started s) : s.Named idOf := by
  refine ⟨fun c hc => ?_, fun c hc => ?_, fun key id hfind => ?_⟩
  · rw [h.acquires] at hc
    cases hc
  · rw [h.acquires] at hc
    cases hc
  · rw [h.threadSandboxes] at hfind
    cases hfind

theorem named_reachable (h : Reachable (system idOf timeout replicas) s) : s.Named idOf := by
  refine h.invariant (I := Named idOf) (fun _ hs => named_started hs) fun s event t _ hs ht => ?_
  have hstep : s.Stepped idOf timeout event t := step_cases ht
  exact named_step hs hstep

end Aio

end Names

section Isolation

namespace Aio
variable {idOf : ThreadKey → SandboxId} {timeout : Rat} {replicas : Int} {s : Aio}
  {key k₁ k₂ : ThreadKey} {c : Acquire} {pc pc' : AcquirePc} {id : SandboxId}

def Received (s : Aio) (key : ThreadKey) (id : SandboxId) : Prop :=
  ∃ c ∈ s.acquires, c.owner = some key ∧ c.pc = .returned id

def Isolated (timeout : Rat) (replicas : Int) (k₁ k₂ : ThreadKey) : Prop :=
  ∀ s, Reachable (system deterministicSandboxId timeout replicas) s →
    ∀ id, s.Received k₁ id → ¬ s.Received k₂ id

theorem Received.own (h : s.Received key id) (hs : s.Named idOf) : id = idOf key := by
  obtain ⟨c, hc, howner, hpc⟩ := h
  rw [hs.placed c hc id (by rw [hpc]; rfl)]
  exact hs.owned c hc key howner

def adding (s : Aio) (c : Acquire) : Aio := { s with acquires := s.acquires ++ [c] }

theorem getElem?_adding (s : Aio) (c : Acquire) :
    (s.adding c).acquires[s.acquires.length]? = some c := List.getElem?_concat_length

theorem goTo_adding (s : Aio) (c : Acquire) (pc : AcquirePc) :
    (s.adding c).goTo s.acquires.length pc = s.adding { c with pc := pc } := by
  unfold goTo adding
  rw [Slots.modify_concat]

theorem reachable_onward (answer : Answer)
    (h : Reachable (system idOf timeout replicas) (s.adding ⟨some key, id, false, false, pc⟩))
    (hmove : (s.adding ⟨some key, id, false, false, pc⟩).advance replicas s.acquires.length
      ⟨some key, id, false, false, pc⟩ answer =
        some ((s.adding ⟨some key, id, false, false, pc⟩).goTo s.acquires.length pc')) :
    Reachable (system idOf timeout replicas) (s.adding ⟨some key, id, false, false, pc'⟩) := by
  refine h.step (a := .advance s.acquires.length answer) ?_
  change ((s.adding _).acquires[s.acquires.length]?).bind _ = _
  rw [getElem?_adding, Option.bind_some, hmove, goTo_adding]

/-- The thread has no sandbox and no call, and the warm pool is empty. -/
structure Fresh (s : Aio) (key : ThreadKey) : Prop where
  warmPool : s.provider.warmPool = .empty
  threads : s.provider.threadSandboxes.find key = none
  acquires : ∀ c ∈ s.acquires, c.owner ≠ some key

theorem Fresh.lookup (h : s.Fresh key) (cache : Cache) :
    s.provider.lookup (some key) id cache = (s.provider, none) := by
  cases cache with
  | inProcess => simp [Provider.lookup, h.threads]
  | warm => simp [Provider.lookup, h.warmPool]

theorem advanceLookup_none {cache : Cache} {postLock : Bool} {i : Nat}
    (h : s.provider.lookup c.owner c.sandboxId cache = (s.provider, none)) :
    s.advanceLookup i c cache postLock = s.goTo i (c.missed cache postLock) := by
  unfold advanceLookup
  rw [h]
  rfl

theorem reachable_lookup {cache : Cache} {postLock : Bool} (hfresh : s.Fresh key)
    (h : Reachable (system idOf timeout replicas)
      (s.adding ⟨some key, id, false, false, .lookup cache postLock⟩)) :
    Reachable (system idOf timeout replicas) (s.adding ⟨some key, id, false, false,
      Acquire.missed ⟨some key, id, false, false, .lookup cache postLock⟩ cache postLock⟩) := by
  apply reachable_onward .yes h
  have hyes : ¬ (cache = .inProcess ∧ postLock = true ∧ Answer.yes = .raises) := by simp
  change (if _ then _ else some (advanceLookup _ _ _ _ _)) = _
  rw [if_neg hyes, advanceLookup_none (hfresh.lookup cache)]

/-- An acquire of a thread that has no sandbox can get as far as the creation of one. -/
theorem reachable_create (h : Reachable (system idOf timeout replicas) s) (hfresh : s.Fresh key) :
    Reachable (system idOf timeout replicas)
      (s.adding ⟨some key, idOf key, false, false, .create⟩) := by
  have hwaiting : Reachable (system idOf timeout replicas)
      (s.adding ⟨some key, idOf key, false, false, .waiting⟩) :=
    h.step (a := .acquire (some key) [] false) rfl
  have hfree : (s.adding ⟨some key, idOf key, false, false, .waiting⟩).locked (some key) = false := by
    unfold locked
    rw [List.any_eq_false]
    intro c hc
    rcases List.mem_append.mp hc with hc | hc
    · simp [hfresh.acquires c hc]
    · obtain rfl := List.mem_singleton.mp hc
      simp [Acquire.inside]
  have hentered : Reachable (system idOf timeout replicas)
      (s.adding ⟨some key, idOf key, false, false, .lookup .inProcess false⟩) := by
    apply reachable_onward .yes hwaiting
    change (if _ then none else _) = _
    rw [if_neg (by simpa using hfree)]
  have hmissed := reachable_lookup hfresh (reachable_lookup hfresh (reachable_lookup hfresh
    (reachable_lookup hfresh hentered)))
  have hcounting : Reachable (system idOf timeout replicas)
      (s.adding ⟨some key, idOf key, false, false, .replicas⟩) :=
    reachable_onward .no hmissed rfl
  by_cases hfull : replicas ≤ s.provider.replicaCount
  · have hevict : Reachable (system idOf timeout replicas)
        (s.adding ⟨some key, idOf key, false, false, .evict⟩) := by
      apply reachable_onward .yes hcounting
      change some (goTo _ _ (if replicas ≤ s.provider.replicaCount then _ else _)) = _
      rw [if_pos hfull]
    apply reachable_onward .yes hevict
    have hnone : s.provider.oldestWarm = none := by
      simp [Provider.oldestWarm, hfresh.warmPool, Table.empty]
    change some (advanceEvict _ _ _) = _
    unfold advanceEvict
    rw [show ∀ c, (s.adding c).provider.oldestWarm = none from fun _ => hnone]
    rfl
  · apply reachable_onward .yes hcounting
    change some (goTo _ _ (if replicas ≤ s.provider.replicaCount then _ else _)) = _
    rw [if_neg hfull]

theorem exists_received (h : Reachable (system idOf timeout replicas) s) (hfresh : s.Fresh key) :
    ∃ t, Reachable (system idOf timeout replicas) t ∧ t.Received key (idOf key) ∧
      (∀ key', s.Fresh key' → key' ≠ key → t.Fresh key') ∧
      ∀ key' id, s.Received key' id → t.Received key' id := by
  have hcreate := reachable_create h hfresh
  let u : Aio := { s with containers := s.containers.set (idOf key) true }
  have hready : Reachable (system idOf timeout replicas)
      (u.adding ⟨some key, idOf key, false, false, .ready⟩) := by
    refine hcreate.step (a := .advance s.acquires.length .yes) ?_
    change ((s.adding _).acquires[s.acquires.length]?).bind _ = _
    rw [getElem?_adding, Option.bind_some]
    exact congrArg some (goTo_adding u ⟨some key, idOf key, false, false, .create⟩ .ready)
  have hregister : Reachable (system idOf timeout replicas)
      (u.adding ⟨some key, idOf key, false, false, .registerCreated⟩) :=
    reachable_onward .yes hready rfl
  let c : Acquire := ⟨some key, idOf key, false, false, .registerCreated⟩
  let t : Aio := (u.adding c).register u.acquires.length c
  have hreached : Reachable (system idOf timeout replicas) t := by
    refine hregister.step (a := .advance u.acquires.length .yes) ?_
    change ((u.adding _).acquires[u.acquires.length]?).bind _ = _
    rw [getElem?_adding, Option.bind_some]
    rfl
  have hacquires : t.acquires = s.acquires ++ [{ c with pc := .returned (idOf key) }] :=
    congrArg Aio.acquires (goTo_adding u c (.returned (idOf key)))
  refine ⟨t, hreached, ?_, fun key' hkey' hne => ?_, fun key' id' hreceived => ?_⟩
  · refine ⟨{ c with pc := .returned (idOf key) }, ?_, rfl, rfl⟩
    rw [hacquires]
    exact List.mem_append_right _ (List.mem_singleton_self _)
  · refine ⟨hkey'.warmPool, ?_, fun c' hc' => ?_⟩
    · change (s.provider.threadSandboxes.set key (idOf key)).find key' = none
      rw [Assoc.find_set, if_neg hne]
      exact hkey'.threads
    · rw [hacquires] at hc'
      rcases List.mem_append.mp hc' with hc' | hc'
      · exact hkey'.acquires c' hc'
      · obtain rfl := List.mem_singleton.mp hc'
        intro he
        exact hne (Option.some.inj he).symm
  · obtain ⟨c', hc', hown⟩ := hreceived
    refine ⟨c', ?_, hown⟩
    rw [hacquires]
    exact List.mem_append_left _ hc'

theorem fresh_start (key : ThreadKey) : start.Fresh key :=
  ⟨rfl, rfl, fun _ hc => by cases hc⟩

/-- Two threads can be given one container exactly where the digests of their scopes begin with the
same 32 bits. -/
theorem isolated_iff (timeout : Rat) (replicas : Int) (k₁ k₂ : ThreadKey) :
    Isolated timeout replicas k₁ k₂ ↔ (scopeDigest k₁).a ≠ (scopeDigest k₂).a := by
  constructor
  · intro hisolated hsame
    have hid : deterministicSandboxId k₁ = deterministicSandboxId k₂ := by
      rw [deterministicSandboxId_eq, deterministicSandboxId_eq, hsame]
    have hinit : Reachable (system deterministicSandboxId timeout replicas) start :=
      .init started_start
    obtain ⟨s, hs, hfirst, hothers, -⟩ := exists_received hinit (fresh_start k₁)
    by_cases hkey : k₂ = k₁
    · rw [hkey] at hisolated
      exact hisolated s hs _ hfirst hfirst
    · obtain ⟨t, ht, hsecond, -, hkept⟩ :=
        exists_received hs (hothers k₂ (fresh_start k₂) hkey)
      rw [← hid] at hsecond
      exact hisolated t ht _ (hkept _ _ hfirst) hsecond
  · intro hdiffer s hs id hfirst hsecond
    have hnamed := named_reachable hs
    apply hdiffer
    apply hexWord_injective
    rw [← deterministicSandboxId_eq, ← deterministicSandboxId_eq, ← hfirst.own hnamed,
      ← hsecond.own hnamed]

section Collision

private def aliceKey : ThreadKey := ("alice".toList, "t10079".toList)

private def bobKey : ThreadKey := ("bob".toList, "t5248".toList)

private def collisionScript : List (Aio → AioEvent) :=
  (fun _ => .acquire (some aliceKey) [] false) :: creation 0 ++
    [fun _ => .release (deterministicSandboxId aliceKey),
      fun _ => .acquire (some bobKey) [] false] ++
    List.replicate 5 fun _ => .advance 1 .yes

/-- Two users with accepted ids: the second reclaims the container of the first. -/
theorem alice_and_bob_share :
    accepted aliceKey.1 = true ∧ accepted aliceKey.2 = true ∧ accepted bobKey.1 = true ∧
      accepted bobKey.2 = true ∧ aliceKey ≠ bobKey ∧
      ∃ s, Reachable (system deterministicSandboxId 600 3) s ∧
        ∃ id, s.Received aliceKey id ∧ s.Received bobKey id := by
  refine ⟨by decide, by decide, by decide, by decide, by decide, ?_⟩
  have hrun : (runScript (step deterministicSandboxId 600 3) start collisionScript).any (fun s =>
      decide (s.acquires.map (fun c => (c.owner, c.pc)) =
        [(some aliceKey, .returned (deterministicSandboxId aliceKey)),
          (some bobKey, .returned (deterministicSandboxId aliceKey))])) = true := by
    decide +kernel
  obtain ⟨s, hs, hcalls⟩ := exists_reachable_of_decide _ hrun
  refine ⟨s, reachable_start hs, deterministicSandboxId aliceKey, ?_, ?_⟩
  · have hmem : (some aliceKey, AcquirePc.returned (deterministicSandboxId aliceKey)) ∈
        s.acquires.map (fun c => (c.owner, c.pc)) := by
      rw [hcalls]
      exact List.mem_cons_self ..
    obtain ⟨c, hc, he⟩ := List.mem_map.mp hmem
    exact ⟨c, hc, congrArg Prod.fst he, congrArg Prod.snd he⟩
  · have hmem : (some bobKey, AcquirePc.returned (deterministicSandboxId aliceKey)) ∈
        s.acquires.map (fun c => (c.owner, c.pc)) := by
      rw [hcalls]
      exact List.mem_cons_of_mem _ (List.mem_cons_self ..)
    obtain ⟨c, hc, he⟩ := List.mem_map.mp hmem
    exact ⟨c, hc, congrArg Prod.fst he, congrArg Prod.snd he⟩

end Collision

end Aio

end Isolation

end DeerFlow.Sandbox
