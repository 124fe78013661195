import DeerFlow.Sandbox.AioSteps

/-! Containers that no map and no call knows of. What an acquire has created is in its hands until
it is registered, and what leaves the maps is in the hands of the call that will stop it. -/

namespace DeerFlow.Sandbox
open Transition

section Property

/-- The acquire has created the container and not yet registered it, or is about to destroy it. -/
def Acquire.holds (c : Acquire) (id : SandboxId) : Bool :=
  match c.pc with
  | .ready | .registerCreated => decide (c.sandboxId = id) && !c.abandoned
  | .stopping id' _ => decide (id' = id)
  | _ => false

namespace Provider

def Tracked (p : Provider) (id : SandboxId) : Prop :=
  (p.sandboxes.find id).isSome = true ∨ (p.warmPool.find id).isSome = true

end Provider

namespace Aio

/-- `backend.create` has returned for the container, and it has not been destroyed. -/
def Created (s : Aio) (id : SandboxId) : Prop := s.containers.find id = some true

def Held (s : Aio) (id : SandboxId) : Prop := ∃ c ∈ s.acquires, c.holds id = true

/-- Some call is about to destroy what it has taken out of the maps. -/
def Condemned (s : Aio) (id : SandboxId) : Prop := ∃ job ∈ s.jobs, .stop id ∈ job

structure NoLeak (s : Aio) : Prop where
  sameIds : s.provider.SameIds
  apart : s.provider.Apart
  owned : ∀ id, s.Created id → s.provider.Tracked id ∨ s.Held id ∨ s.Condemned id
  /-- The replica count has every container but those in the hands of a call. -/
  counted : ∀ ids : List SandboxId, ids.Nodup →
    (∀ id ∈ ids, s.Created id ∧ ¬ s.Held id ∧ ¬ s.Condemned id) →
    ids.length ≤ s.provider.replicaCount
  /-- The first shutdown takes on everything that is tracked. -/
  stopped : s.provider.shutdownCalled = false → ∀ id, s.provider.Tracked id →
    ∃ job ∈ s.shutdown.jobs, .remove id ∈ job ∨ .stop id ∈ job

/-- A container is created for a coroutine that is gone, its readiness poll raises or is cancelled,
it is registered while the warm pool has it, or `backend.destroy` leaves it running. -/
def Leaks (s : Aio) : AioEvent → Prop
  | .advance i answer => ∃ c ∈ s.acquires[i]?,
    match c.pc with
    | .create => c.abandoned = true ∧ answer = .yes
    | .ready => answer = .raises
    | .registerDiscovered | .registerCreated =>
      (s.provider.warmPool.find c.sandboxId).isSome = true
    | .stopping id _ => s.containers.find id = some true ∧ answer ≠ .yes
    | _ => False
  | .cancel i => ∃ c ∈ s.acquires[i]?, c.pc = .ready
  | .work j answer => ∃ job ∈ s.jobs[j]?,
    match job with
    | .stop id :: _ => s.containers.find id = some true ∧ answer ≠ .yes
    | _ => False
  | _ => False

instance (p : Provider) (id : SandboxId) : Decidable (p.Tracked id) :=
  inferInstanceAs (Decidable (_ ∨ _))

instance (s : Aio) (id : SandboxId) : Decidable (s.Created id) :=
  inferInstanceAs (Decidable (_ = _))

instance (s : Aio) (event : AioEvent) : Decidable (s.Leaks event) := by
  unfold Leaks
  rcases event with _ | _ <;> try infer_instance
  · refine @Option.decidableExistsMem _ _ (fun c => ?_) _
    rcases c.pc with _ | _ <;> infer_instance
  · refine @Option.decidableExistsMem _ _ (fun job => ?_) _
    rcases job with _ | ⟨_ | _, _⟩ <;> infer_instance

end Aio

end Property

section Owned

namespace Provider
variable {p p' : Provider} {owner : Option ThreadKey} {id x : SandboxId} {now timeout : Rat}

theorem Tracked.track (h : p.Tracked x) (info : Nat) : (p.track owner id info now).Tracked x := by
  refine h.imp_left fun hactive => ?_
  simp only [Provider.track, Assoc.find_set]
  split_ifs
  · rfl
  · exact hactive

theorem tracked_track (info : Nat) : (p.track owner id info now).Tracked id :=
  .inl (by simp [track])

theorem Tracked.forgets (h : p.Tracked x) (hp : p.Forgets p') : p'.Tracked x := by
  rcases hp with rfl | ⟨key, existing, -, -, rfl⟩
  · exact h
  · exact h

theorem Tracked.erase (h : p.Tracked x) (id : SandboxId) :
    x = id ∨ Tracked { p with warmPool := p.warmPool.erase id } x := by
  by_cases hid : x = id
  · exact .inl hid
  · refine .inr (h.imp_right fun hwarm => ?_)
    simpa [hid] using hwarm

theorem Tracked.confirms (h : p.Tracked x) (hp : p.Confirms owner id now p') : p'.Tracked x := by
  cases hp with
  | inProcess _ _ _ => exact h
  | warm _ =>
    rcases h.erase id with rfl | h
    · exact tracked_track _
    · exact h.track _

theorem Tracked.remove (h : p.Tracked x) (id : SandboxId) :
    x = id ∨ (p.removeTrackedSandbox id).Tracked x := by
  by_cases hid : x = id
  · exact .inl hid
  · refine .inr (h.imp (fun hactive => ?_) fun hwarm => ?_)
    · simpa [removeTrackedSandbox, untrack, hid] using hactive
    · simpa [removeTrackedSandbox, hid] using hwarm

/-- What is tracked has an info to destroy it by. -/
theorem Tracked.info (h : p.Tracked id) (hids : p.SameIds) : p.trackedInfo id ≠ none := by
  unfold trackedInfo
  rw [Ne, Option.or_eq_none_iff, Option.map_eq_none_iff]
  rintro ⟨hinfo, hwarm⟩
  rcases h with hactive | hpooled
  · rw [← hids.infos, hinfo] at hactive
    cases hactive
  · rw [hwarm] at hpooled
    cases hpooled

theorem Tracked.release (h : p.Tracked x) (hids : p.SameIds) (id : SandboxId) (now : Rat) :
    (p.release id now).Tracked x := by
  rcases find_release p id now x with hwarm | ⟨-, -, info, -, hparked⟩
  · rcases h with hactive | hpooled
    · by_cases hid : x = id
      · subst hid
        apply Or.inr
        obtain ⟨info, hinfo⟩ := Option.isSome_iff_exists.mp ((hids.infos x).trans hactive)
        unfold Provider.release at hwarm ⊢
        simp only [hinfo] at hwarm ⊢
        split_ifs with hnone
        · simp
        · simpa [Option.isSome_iff_ne_none] using hnone
      · apply Or.inl
        simpa [Provider.release, untrack, hid] using hactive
    · apply Or.inr
      rwa [hwarm]
  · apply Or.inr
    rw [hparked]
    rfl

theorem Tracked.get (h : p.Tracked x) (id : SandboxId) (now : Rat) : (p.get id now).Tracked x := by
  unfold Provider.get
  split_ifs <;> exact h

theorem Tracked.reap (h : p.Tracked x) (timeout now : Rat) :
    x ∈ p.expired timeout now ∨ (p.reap timeout now).Tracked x := by
  rcases h with hactive | hwarm
  · exact .inr (.inl hactive)
  · obtain ⟨e, he⟩ := Option.isSome_iff_exists.mp hwarm
    by_cases hold : timeout < now - e.2
    · apply Or.inl
      unfold expired
      have hrow := Assoc.mem_rows.mpr he
      exact List.mem_map.mpr ⟨(x, e), List.mem_filter.mpr ⟨hrow, by simpa using hold⟩, rfl⟩
    · refine .inr (.inr ?_)
      simp [Provider.reap, he, Option.filter, hold]

end Provider

namespace Aio
variable {idOf : ThreadKey → SandboxId} {timeout : Rat} {replicas : Int} {s t : Aio}
  {event : AioEvent} {i j : Nat} {c : Acquire} {pc : AcquirePc} {answer : Answer} {x : SandboxId}

def Accounted (s : Aio) (id : SandboxId) : Prop :=
  s.provider.Tracked id ∨ s.Held id ∨ s.Condemned id

/-- One acquire has moved. What was tracked, or in its hands, is tracked or in its hands now. -/
theorem Accounted.move (h : s.Accounted x) (hi : s.acquires[i]? = some c)
    (hacquires : t.acquires = (s.goTo i pc).acquires) (hjobs : t.jobs = s.jobs)
    (htracked : s.provider.Tracked x → t.provider.Tracked x ∨ { c with pc := pc }.holds x = true)
    (hholds : c.holds x = true → t.provider.Tracked x ∨ { c with pc := pc }.holds x = true) :
    t.Accounted x := by
  have hself : { c with pc := pc }.holds x = true → t.Held x := by
    intro hc
    refine ⟨{ c with pc := pc }, ?_, hc⟩
    rw [hacquires]
    exact mem_goTo hi
  rcases h with h | h | h
  · exact (htracked h).imp_right fun hc => .inl (hself hc)
  · by_cases hc : c.holds x = true
    · exact (hholds hc).imp_right fun hc => .inl (hself hc)
    · refine .inr (.inl ?_)
      unfold Held
      rw [hacquires]
      exact exists_goTo (p := fun c => c.holds x = true) hi (fun hc' => absurd hc' hc) h
  · refine .inr (.inr ?_)
    unfold Condemned
    rwa [hjobs]

/-- `backend.destroy` that is not a leak leaves no created container of that id. -/
theorem created_backendDestroy {id : SandboxId}
    (hleak : ¬ (s.containers.find id = some true ∧ answer ≠ .yes))
    (h : (s.backendDestroy id answer).Created x) : s.Created x ∧ x ≠ id := by
  unfold backendDestroy at h
  split_ifs at h with hyes
  · simp only [Created, Assoc.find_erase] at h
    split_ifs at h with hid
    exact ⟨h, hid⟩
  · refine ⟨h, ?_⟩
    rintro rfl
    exact hleak ⟨h, hyes⟩

/-- An acquire that moves on by itself keeps what it holds. -/
theorem Onward.holds (h : s.Onward c answer pc) (hi : s.acquires[i]? = some c)
    (hleak : ¬ s.Leaks (.advance i answer)) (hholds : c.holds x = true) :
    { c with pc := pc }.holds x = true := by
  cases h with
  | quit hpc =>
    rcases hpc with hpc | hpc | hpc | hpc | ⟨hpc, hraises⟩
    · simp [Acquire.holds, hpc] at hholds
    · simp [Acquire.holds, hpc] at hholds
    · simp [Acquire.holds, hpc] at hholds
    · simp [Acquire.holds, hpc] at hholds
    · exact absurd ⟨c, hi, by simpa [hpc] using hraises⟩ hleak
  | ready hpc => simpa [Acquire.holds, hpc] using hholds
  | unready hpc =>
    simp only [Acquire.holds, hpc, Bool.and_eq_true] at hholds
    exact hholds.1
  | enter hpc _ | seen hpc _ | alive hpc | kept hpc | found hpc | notFound hpc | counted hpc _
  | noneWarm hpc => simp [Acquire.holds, hpc] at hholds

theorem accounted_advanced (h : s.Created x → s.Accounted x) (hi : s.acquires[i]? = some c)
    (hleak : ¬ s.Leaks (.advance i answer)) (ht : s.Advanced i c answer pc t) (hx : t.Created x) :
    t.Accounted x := by
  have hacquires := ht.acquires
  cases ht with
  | onward hmove =>
    apply (h hx).move hi hacquires rfl .inl
    intro hholds
    exact .inr (hmove.holds hi hleak hholds)
  | missed hpc hp _ =>
    refine (h hx).move hi hacquires rfl (fun htracked => .inl (htracked.forgets hp)) fun hholds => ?_
    rcases hpc with ⟨hpc, -⟩ | hpc <;> simp [Acquire.holds, hpc] at hholds
  | dead hpc =>
    refine (h hx).move hi hacquires rfl .inl fun hholds => ?_
    simp [Acquire.holds, hpc] at hholds
  | @dropped cache postLock id info hpc _ =>
    refine (h hx).move hi hacquires rfl (fun htracked => ?_) fun hholds => ?_
    · rcases htracked.remove id with rfl | htracked
      · exact .inr (by simp [Acquire.holds])
      · exact .inl htracked
    · simp [Acquire.holds, hpc] at hholds
  | confirmed hpc hp =>
    have hcreated : s.Created x := by
      unfold Created at hx
      rw [containers_obtain] at hx
      exact hx
    refine (h hcreated).move hi hacquires (jobs_obtain ..) (fun htracked => .inl ?_)
      fun hholds => ?_
    · rw [provider_obtain]
      exact htracked.confirms (Provider.confirm_found hp)
    · simp [Acquire.holds, hpc] at hholds
  | registered hpc =>
    have hcreated : s.Created x := by simpa [Created, register] using hx
    refine (h hcreated).move hi hacquires (jobs_obtain ..) (fun htracked => .inl ?_)
      fun hholds => .inl ?_
    · unfold register
      rw [provider_obtain]
      exact htracked.track _
    · have hid : c.sandboxId = x := by
        rcases hpc with hpc | hpc
        · simp [Acquire.holds, hpc] at hholds
        · simp only [Acquire.holds, hpc, Bool.and_eq_true, decide_eq_true_eq] at hholds
          exact hholds.1
      subst hid
      unfold register
      rw [provider_obtain]
      exact Provider.tracked_track _
  | @evicted id hpc _ =>
    refine (h hx).move hi hacquires rfl (fun htracked => ?_) fun hholds => ?_
    · rcases htracked.erase id with rfl | htracked
      · exact .inr (by simp [Acquire.holds])
      · exact .inl htracked
    · simp [Acquire.holds, hpc] at hholds
  | created hpc hyes =>
    have hpresent : c.abandoned = false := by
      by_contra hgone
      exact hleak ⟨c, hi, by simpa [hpc] using ⟨by simpa using hgone, hyes⟩⟩
    by_cases hid : x = c.sandboxId
    · refine .inr (.inl ⟨_, mem_goTo hi, ?_⟩)
      simp [Acquire.holds, Acquire.proceed, hpresent, hid]
    · have hcreated : s.Created x := by simpa [Created, goTo, hid] using hx
      refine (h hcreated).move hi hacquires rfl .inl fun hholds => ?_
      simp [Acquire.holds, hpc] at hholds
  | @stopped id next hpc =>
    have hfine : ¬ (s.containers.find id = some true ∧ answer ≠ .yes) := by
      intro hstays
      exact hleak ⟨c, hi, by simpa [hpc] using hstays⟩
    obtain ⟨hcreated, hne⟩ := created_backendDestroy (x := x) hfine hx
    refine (h hcreated).move hi hacquires ?_ (fun htracked => .inl ?_) fun hholds => ?_
    · unfold backendDestroy
      split_ifs <;> rfl
    · change (s.backendDestroy id answer).provider.Tracked x
      rwa [provider_backendDestroy]
    · simp only [Acquire.holds, hpc, decide_eq_true_eq] at hholds
      exact absurd hholds.symm hne

/-- A job has done its first task. What it was about to destroy it still is, or it has. -/
theorem Accounted.work {task : Task} {rest job : List Task} (h : s.Accounted x)
    (hj : s.jobs[j]? = some (task :: rest)) (hacquires : t.acquires = s.acquires)
    (hjobs : t.jobs = (s.setJob j job).jobs)
    (htracked : s.provider.Tracked x → t.provider.Tracked x ∨ .stop x ∈ job)
    (hjob : .stop x ∈ task :: rest → .stop x ∈ job) : t.Accounted x := by
  have hself : .stop x ∈ job → t.Condemned x := by
    intro hstop
    refine ⟨job, ?_, hstop⟩
    rw [hjobs]
    exact mem_setJob hj
  rcases h with h | h | h
  · exact (htracked h).imp_right fun hstop => .inr (hself hstop)
  · refine .inr (.inl ?_)
    unfold Held
    rwa [hacquires]
  · refine .inr (.inr ?_)
    unfold Condemned
    rw [hjobs]
    exact exists_setJob (q := fun job => Task.stop x ∈ job) hj hjob h

theorem accounted_worked {task : Task} {rest : List Task} (hids : s.provider.SameIds)
    (h : s.Created x → s.Accounted x) (hj : s.jobs[j]? = some (task :: rest))
    (hleak : ¬ s.Leaks (.work j answer)) (ht : s.Worked timeout j rest answer task t)
    (hx : t.Created x) : t.Accounted x := by
  cases ht with
  | mark | marked _ _ | readTime | skipped =>
    refine (h hx).work hj rfl rfl .inl fun hstop => ?_
    simpa using hstop
  | @absent id hnone =>
    refine (h hx).work hj rfl rfl (fun htracked => ?_) fun hstop => ?_
    · rcases htracked.remove id with rfl | htracked
      · exact absurd hnone (htracked.info hids)
      · exact .inl htracked
    · simpa using hstop
  | @removed id =>
    refine (h hx).work hj rfl rfl (fun htracked => ?_) fun hstop => ?_
    · rcases htracked.remove id with rfl | htracked
      · exact .inr (List.mem_cons_self ..)
      · exact .inl htracked
    · have hrest : .stop x ∈ rest := by simpa using hstop
      exact List.mem_cons_of_mem _ hrest
  | @stop id =>
    have hfine : ¬ (s.containers.find id = some true ∧ answer ≠ .yes) := by
      intro hstays
      exact hleak ⟨_, hj, hstays⟩
    obtain ⟨hcreated, hne⟩ := created_backendDestroy (x := x) hfine hx
    have hacquires : ((s.backendDestroy id answer).setJob j rest).acquires = s.acquires := by
      unfold setJob backendDestroy
      split_ifs <;> rfl
    have hjobs : ((s.backendDestroy id answer).setJob j rest).jobs = (s.setJob j rest).jobs := by
      unfold setJob backendDestroy
      split_ifs <;> rfl
    refine (h hcreated).work hj hacquires hjobs (fun htracked => .inl ?_) fun hstop => ?_
    · change (s.backendDestroy id answer).provider.Tracked x
      rwa [provider_backendDestroy]
    · simpa [hne] using hstop
  | @reap now =>
    refine (h hx).work hj rfl rfl (fun htracked => ?_) fun hstop => ?_
    · rcases htracked.reap timeout now with hold | htracked
      · apply Or.inr
        apply List.mem_append_left
        exact List.mem_map_of_mem hold
      · exact .inl htracked
    · apply List.mem_append_right
      simpa using hstop

theorem Accounted.addJob (h : s.Accounted x) (job : List Task) : (s.addJob job).Accounted x := by
  refine h.imp_right fun h => h.imp_right ?_
  rintro ⟨job', hjob', hstop⟩
  exact ⟨job', List.mem_append_left _ hjob', hstop⟩

/-- What is tracked when the provider is shut down is on the list of what it destroys. -/
theorem shutdown_tasks (hopen : s.provider.shutdownCalled = false) (h : s.provider.Tracked x) :
    ∃ job ∈ s.shutdown.jobs, .remove x ∈ job ∨ .stop x ∈ job := by
  have hfresh : ¬ s.provider.shutdownCalled = true := by simp [hopen]
  unfold shutdown
  rw [if_neg hfresh]
  refine ⟨_, List.mem_append_right _ (List.mem_singleton_self _), ?_⟩
  rcases h with hactive | hwarm
  · apply Or.inl
    apply List.mem_append_left
    obtain ⟨e, he, rfl⟩ := List.mem_map.mp (Assoc.isSome_find.mp hactive)
    exact List.mem_map.mpr ⟨e, he, rfl⟩
  · apply Or.inr
    apply List.mem_append_right
    obtain ⟨e, he, rfl⟩ := List.mem_map.mp (Assoc.isSome_find.mp hwarm)
    exact List.mem_map.mpr ⟨e, he, rfl⟩

theorem Accounted.shutdown (h : s.Accounted x) : s.shutdown.Accounted x := by
  by_cases hdone : s.provider.shutdownCalled = true
  · unfold Aio.shutdown
    rwa [if_pos hdone]
  · rcases h with htracked | hheld | ⟨job, hjob, hstop⟩
    · rcases htracked with hactive | hwarm
      · apply Or.inl
        unfold Aio.shutdown
        rw [if_neg hdone]
        exact .inl hactive
      · refine .inr (.inr ?_)
        unfold Aio.shutdown
        rw [if_neg hdone]
        refine ⟨_, List.mem_append_right _ (List.mem_singleton_self _), ?_⟩
        apply List.mem_append_right
        obtain ⟨e, he, rfl⟩ := List.mem_map.mp (Assoc.isSome_find.mp hwarm)
        exact List.mem_map.mpr ⟨e, he, rfl⟩
    · refine .inr (.inl ?_)
      unfold Aio.shutdown
      rwa [if_neg hdone]
    · refine .inr (.inr ?_)
      unfold Aio.shutdown
      rw [if_neg hdone]
      exact ⟨job, List.mem_append_left _ hjob, hstop⟩

theorem accounted_step (hids : s.provider.SameIds) (h : ∀ x, s.Created x → s.Accounted x)
    (hleak : ¬ s.Leaks event) (ht : s.Stepped idOf timeout event t) :
    ∀ x, t.Created x → t.Accounted x := by
  intro x hx
  cases ht with
  | acquire =>
    refine (h x hx).imp_right fun h => h.imp_left ?_
    rintro ⟨c, hc, hholds⟩
    exact ⟨c, List.mem_append_left _ hc, hholds⟩
  | advance hi ht => exact accounted_advanced (h x) hi hleak ht hx
  | @abandoned i c hi _ hpc =>
    refine (h x hx).imp_right fun h => h.imp_left fun h => ?_
    apply exists_abandon (p := fun c => c.holds x = true) hi _ h
    intro hholds
    rcases c with ⟨owner, sandboxId, isAsync, gone, pc⟩
    cases pc <;> simp_all [Acquire.holds, AcquirePc.present]
  | @cancelled i c hi hpc =>
    refine (h x hx).move hi rfl rfl .inl fun hholds => ?_
    rcases hpc with hpc | hpc | hpc
    · simp [Acquire.holds, hpc] at hholds
    · simp [Acquire.holds, hpc] at hholds
    · exact absurd ⟨c, hi, hpc⟩ hleak
  | get => exact (h x hx).imp_left fun htracked => htracked.get _ s.clock
  | release => exact (h x hx).imp_left fun htracked => htracked.release hids _ s.clock
  | destroy | cleanupIdle => exact (h x hx).addJob _
  | shutdown =>
    have hcreated : s.Created x := by
      unfold Aio.shutdown at hx
      split_ifs at hx <;> exact hx
    exact (h x hcreated).shutdown
  | work hj ht => exact accounted_worked hids (h x) hj hleak ht hx
  | tick _ | running => exact h x hx
  | @start id hnone =>
    apply h x
    simp only [Created, Assoc.find_set] at hx
    split_ifs at hx
    · cases hx
    · exact hx
  | @die id =>
    apply h x
    simp only [Created, Assoc.find_erase] at hx
    split_ifs at hx
    exact hx

theorem registers_of_not_leaks (hleak : ¬ s.Leaks event) :
    ∀ id ∈ s.registers event, s.provider.warmPool.find id = none := by
  intro id hid
  by_contra hne
  apply hleak
  cases event with
  | advance i answer =>
    obtain ⟨c, hi, hc⟩ := Option.bind_eq_some_iff.mp hid
    refine ⟨c, hi, ?_⟩
    have hsome := Option.ne_none_iff_isSome.mp hne
    split at hc
    · next hpc =>
      cases hc
      simpa [hpc] using hsome
    · next hpc =>
      cases hc
      simpa [hpc] using hsome
    · cases hc
  | _ => cases hid

theorem counted_of_accounted (h : ∀ x, s.Created x → s.Accounted x) {ids : List SandboxId}
    (hnodup : ids.Nodup)
    (hids : ∀ id ∈ ids, s.Created id ∧ ¬ s.Held id ∧ ¬ s.Condemned id) :
    ids.length ≤ s.provider.replicaCount := by
  have hsub : ids ⊆ s.provider.sandboxes.rows.map Prod.fst ++
      s.provider.warmPool.rows.map Prod.fst := by
    intro id hid
    obtain ⟨hcreated, hheld, hcondemned⟩ := hids id hid
    rcases h id hcreated with (hactive | hwarm) | h | h
    · exact List.mem_append_left _ (Assoc.isSome_find.mp hactive)
    · exact List.mem_append_right _ (Assoc.isSome_find.mp hwarm)
    · exact absurd h hheld
    · exact absurd h hcondemned
  have hlength := (List.subperm_of_subset hnodup hsub).length_le
  simpa [Provider.replicaCount] using hlength

theorem accounted_started (h : Started s) : ∀ x, s.Created x → s.Accounted x := by
  intro x hx
  have hflag := h.containers _ (Assoc.mem_rows.mpr hx)
  cases hflag

theorem no_container_leaked
    (h : Reachable ((system idOf timeout replicas).when fun s event => ¬ s.Leaks event) s) :
    s.NoLeak := by
  have hboth : s.provider.SameIds ∧ s.provider.Apart ∧ ∀ x, s.Created x → s.Accounted x := by
    refine h.invariant (I := fun s => s.provider.SameIds ∧ s.provider.Apart ∧
      ∀ x, s.Created x → s.Accounted x) (fun s hs => ?_) fun s event t _ hs ht => ?_
    · exact ⟨sameIds_started hs, apart_started hs, accounted_started hs⟩
    · obtain ⟨hids, hapart, hall⟩ := hs
      have hstep := step_cases ht.2
      exact ⟨sameIds_step hids hstep, apart_step hapart (registers_of_not_leaks ht.1) hstep,
        accounted_step hids hall ht.1 hstep⟩
  obtain ⟨hids, hapart, hall⟩ := hboth
  exact ⟨hids, hapart, hall, fun ids hnodup h => counted_of_accounted hall hnodup h,
    fun hopen id htracked => shutdown_tasks hopen htracked⟩

section Runs

/-- The id of user `a` and thread `t`. -/
private def leakId : SandboxId := "a:t".toList

private def leakStep : Aio → AioEvent → Option Aio :=
  step (fun key => key.1 ++ ':' :: key.2) 600 3

private def leakScript (isAsync : Bool) (n : Nat) (events : List AioEvent) :
    List (Aio → AioEvent) :=
  (fun _ => .acquire (some ("a".toList, "t".toList)) [] isAsync) :: (creation 0).take n ++
    events.map fun event _ => event

/-- A created container is tracked when the provider is shut down. -/
theorem no_container_leaked_shutdown :
    ∃ s : Aio, s.Created "a:t".toList ∧ s.provider.shutdownCalled = true ∧ s.NoLeak := by
  have hrun : (runScript (guarded (fun s event => ¬ s.Leaks event) leakStep) start
      (leakScript false 10 [.shutdown])).any (fun s =>
        decide (s.Created leakId ∧ s.provider.shutdownCalled = true)) = true := by
    decide +kernel
  obtain ⟨s, hs, hcreated, hdown⟩ := exists_reachable_of_decide _ hrun
  exact ⟨s, hcreated, hdown, no_container_leaked (reachable_guarded hs)⟩

/-- `destroy` has taken the container out of the maps and not yet stopped it; and a cancelled
`acquire_async` leaves one running that nothing knows of. -/
theorem container_unowned :
    (∃ s : Aio, Reachable (system (fun key => key.1 ++ ':' :: key.2) 600 3) s ∧
      s.Created "a:t".toList ∧ ¬ s.provider.Tracked "a:t".toList ∧
      ∀ c ∈ s.acquires, c.inside = false) ∧
    ∃ s : Aio, Reachable (system (fun key => key.1 ++ ':' :: key.2) 600 3) s ∧
      s.Created "a:t".toList ∧ ¬ s.provider.Tracked "a:t".toList ∧
      (∀ c ∈ s.acquires, c.pc = .ended) ∧ s.jobs = [] := by
  constructor
  · have hrun : (runScript leakStep start (leakScript false 10
        [.destroy leakId, .work 0 .yes])).any (fun s =>
          decide (s.Created leakId ∧ ¬ s.provider.Tracked leakId ∧
            ∀ c ∈ s.acquires, c.inside = false)) = true := by
      decide +kernel
    obtain ⟨s, hs, h⟩ := exists_reachable_of_decide _ hrun
    exact ⟨s, reachable_start hs, h⟩
  · have hrun : (runScript leakStep start (leakScript true 7
        [.cancel 0, .advance 0 .yes])).any (fun s =>
          decide (s.Created leakId ∧ ¬ s.provider.Tracked leakId ∧
            (∀ c ∈ s.acquires, c.pc = .ended) ∧ s.jobs = [])) = true := by
      decide +kernel
    obtain ⟨s, hs, h⟩ := exists_reachable_of_decide _ hrun
    exact ⟨s, reachable_start hs, h⟩

end Runs

end Aio

end Owned

end DeerFlow.Sandbox
