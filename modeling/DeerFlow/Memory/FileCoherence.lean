import DeerFlow.Memory.FileStorage

/-! The cache is coherent: a document under the modification time of the file is what the
file holds. A `reload` and a `save` break this when another rename comes before their `stat`,
which then gives an older document the time of a newer one. -/

namespace DeerFlow.Memory
open Transition

section Coherence
variable {D : Type} (empty : D)

namespace FileStorage

/-- What is cached under the time of the file is what the file holds. -/
def Coherent (s : FileStorage D) : Prop :=
  ∀ data mtime, s.cache = some (data, mtime) → mtime = s.mtime → data = s.content empty

end FileStorage

/-- The call is about to pair a document with the time of another one, or takes a file that
it cannot read for an empty memory. -/
def StorageCall.Stale (s : FileStorage D) (fails : Bool) : StorageCall D → Prop
  | .reload (.stat data) | .save (.stat data) => fails = false ∧ data ≠ s.content empty
  | .load (.read mtime) => fails = true ∧ mtime = s.mtime ∧ s.content empty ≠ empty
  | _ => False

/-- The document that a call has returned. -/
def StorageCall.result? : StorageCall D → Option D
  | .done result => result
  | .load _ | .reload _ | .save _ => none

namespace StorageState

def Stale (s : StorageState D) : StorageEvent D → Prop
  | .start _ => False
  | .step i fails => ∃ c ∈ s.calls[i]?, c.Stale empty s.storage fails

/-- A `load` that runs alone from here returns what the file holds. -/
def LoadsFile (s : StorageState D) : Prop :=
  ∃ k t, runScript (StorageState.step empty) s ((fun _ => .start .load) ::
      List.replicate k fun _ => .step s.calls.length false) = some t ∧
    t.calls[s.calls.length]?.bind StorageCall.result? = some (s.storage.content empty)

end StorageState

instance [DecidableEq D] (s : FileStorage D) (fails : Bool) (c : StorageCall D) :
    Decidable (c.Stale empty s fails) := by
  unfold StorageCall.Stale
  split <;> infer_instance

instance [DecidableEq D] (s : StorageState D) (event : StorageEvent D) :
    Decidable (s.Stale empty event) := by
  unfold StorageState.Stale
  split <;> infer_instance

end Coherence

section Fitting
variable {D : Type} {empty : D} {s : FileStorage D} {data : D} {mtime : Option Nat}

namespace FileStorage

def Known (s : FileStorage D) (mtime : Option Nat) : Prop := ∀ m ∈ mtime, m < s.nextMtime

structure Fits (empty : D) (s : FileStorage D) (data : D) (mtime : Option Nat) : Prop where
  known : s.Known mtime
  same : mtime = s.mtime → data = s.content empty

theorem Known.rename (h : s.Known mtime) (d : D) : (s.rename d).Known mtime :=
  fun m hm => Nat.lt_succ_of_lt (h m hm)

/-- The time of a rename is new, so nothing that was known before has it. -/
theorem Fits.rename (h : s.Fits empty data mtime) (d : D) : (s.rename d).Fits empty data mtime := by
  refine ⟨h.known.rename d, fun hsame => ?_⟩
  have hlt := h.known s.nextMtime hsame
  exact absurd hlt (Nat.lt_irrefl _)

theorem Fits.put (h : s.Fits empty data mtime) (d : D) (m : Option Nat) :
    (s.put d m).Fits empty data mtime := ⟨h.known, h.same⟩

theorem known_stat (h : s.Known s.mtime) (fails : Bool) : s.Known (s.stat fails) := by
  unfold stat
  split
  · exact fun m hm => (by cases hm)
  · exact h

theorem content_of_mtime_none (h : s.mtime = none) : s.content empty = empty := by
  have hfile : s.file = none := Option.map_eq_none_iff.mp h
  unfold content
  rw [hfile]
  rfl

end FileStorage

open FileStorage

/-- What a call in progress holds fits the file. -/
def StorageCall.Fits (empty : D) (s : FileStorage D) : StorageCall D → Prop
  | .load (.lookup mtime) | .load (.read mtime) => s.Known mtime
  | .reload (.stat data) | .save (.stat data) => s.mtime = none → data = empty
  | .load (.store data mtime) | .reload (.store data mtime) | .save (.store data mtime) =>
    s.Fits empty data mtime
  | .load .stat | .reload .read | .save (.write _) | .save (.rename _) | .done _ => True

theorem StorageCall.Fits.rename {c : StorageCall D} (h : c.Fits empty s) (d : D) :
    c.Fits empty (s.rename d) := by
  unfold StorageCall.Fits at h ⊢
  split
  · exact Known.rename h d
  · exact Known.rename h d
  · exact nofun
  · exact nofun
  · exact FileStorage.Fits.rename h d
  · exact FileStorage.Fits.rename h d
  · exact FileStorage.Fits.rename h d
  all_goals trivial

theorem StorageCall.Fits.put {c : StorageCall D} (h : c.Fits empty s) (d : D) (m : Option Nat) :
    c.Fits empty (s.put d m) := by
  unfold StorageCall.Fits at h ⊢
  split
  · exact h
  · exact h
  · exact h
  · exact h
  · exact FileStorage.Fits.put h d m
  · exact FileStorage.Fits.put h d m
  · exact FileStorage.Fits.put h d m
  all_goals trivial

structure FileStorage.Sound (empty : D) (s : FileStorage D) : Prop where
  file : s.Known s.mtime
  cache : ∀ data mtime, s.cache = some (data, mtime) → s.Fits empty data mtime

theorem FileStorage.Sound.put (h : s.Sound empty) (hfits : s.Fits empty data mtime) :
    (s.put data mtime).Sound empty := by
  refine ⟨h.file, fun d m hcache => ?_⟩
  cases hcache
  exact hfits.put data mtime

theorem FileStorage.Sound.rename (h : s.Sound empty) (d : D) : (s.rename d).Sound empty where
  file m hm := by
    cases hm
    exact Nat.lt_succ_self _
  cache data mtime hcache := (h.cache data mtime hcache).rename d

theorem FileStorage.Sound.stat (h : s.Sound empty) {fails : Bool}
    (habsent : s.mtime = none → data = empty)
    (hfresh : ¬ (fails = false ∧ data ≠ s.content empty)) : s.Fits empty data (s.stat fails) := by
  refine ⟨known_stat h.file fails, fun hsame => ?_⟩
  unfold FileStorage.stat at hsame
  -- a `stat` that fails gives no time, which is right when there is no file
  cases fails with
  | true =>
    have hnone : s.mtime = none := hsame.symm
    rw [habsent hnone, content_of_mtime_none hnone]
  | false =>
    exact Classical.not_not.mp fun hne => hfresh ⟨rfl, hne⟩

theorem FileStorage.Sound.read {fails : Bool} (hknown : s.Known mtime)
    (hread : ¬ (fails = true ∧ mtime = s.mtime ∧ s.content empty ≠ empty)) :
    s.Fits empty (s.read empty fails) mtime := by
  refine ⟨hknown, fun hsame => ?_⟩
  unfold FileStorage.read
  cases fails with
  | true =>
    exact Classical.not_not.mp fun hne => hread ⟨rfl, hsame, fun hempty => hne hempty.symm⟩
  | false => rfl

/-- What a step does to the storage: at most one rename, or one write to the cache. -/
inductive Moved (s : FileStorage D) : FileStorage D → Prop
  | same : Moved s s
  | renamed (d : D) : Moved s (s.rename d)
  | cached (d : D) (m : Option Nat) : Moved s (s.put d m)

theorem StorageCall.Fits.moved {c : StorageCall D} {t : FileStorage D} (h : c.Fits empty s)
    (hmoved : Moved s t) : c.Fits empty t := by
  cases hmoved with
  | same => exact h
  | renamed d => exact h.rename d
  | cached d m => exact h.put d m

/-- A step that is not stale keeps the storage sound, and what it leaves of the call fits. -/
theorem StorageCall.step_sound {c d : StorageCall D} {fails : Bool} {t : FileStorage D}
    (h : c.step empty s fails = some (t, d)) (hs : s.Sound empty) (hc : c.Fits empty s)
    (hfresh : ¬ c.Stale empty s fails) : t.Sound empty ∧ d.Fits empty t ∧ Moved s t := by
  cases c with
  | load pc =>
    cases pc with
    | stat =>
      cases h
      exact ⟨hs, known_stat hs.file fails, .same⟩
    | lookup mtime =>
      unfold StorageCall.step FileStorage.loadStep at h
      simp only at h
      split at h
      · next heq =>
        split at heq
        · obtain ⟨rfl, hpc⟩ := Prod.mk.inj heq
          obtain rfl := Progress.goOn.inj hpc
          cases h
          exact ⟨hs, hc, .same⟩
        · split at heq
          · cases (Prod.mk.inj heq).2
          · obtain ⟨rfl, hpc⟩ := Prod.mk.inj heq
            obtain rfl := Progress.goOn.inj hpc
            cases h
            exact ⟨hs, hc, .same⟩
      · next heq =>
        split at heq
        · cases (Prod.mk.inj heq).2
        · split at heq
          · obtain ⟨rfl, -⟩ := Prod.mk.inj heq
            cases h
            exact ⟨hs, trivial, .same⟩
          · cases (Prod.mk.inj heq).2
    | read mtime =>
      cases h
      exact ⟨hs, FileStorage.Sound.read hc hfresh, .same⟩
    | store data mtime =>
      cases h
      exact ⟨hs.put hc, trivial, .cached data mtime⟩
  | reload pc =>
    cases pc with
    | read =>
      cases h
      refine ⟨hs, fun hnone => ?_, .same⟩
      unfold FileStorage.read
      rw [content_of_mtime_none hnone, ite_self]
    | stat data =>
      cases h
      exact ⟨hs, hs.stat hc hfresh, .same⟩
    | store data mtime =>
      cases h
      exact ⟨hs.put hc, trivial, .cached data mtime⟩
  | save pc =>
    cases pc with
    | write data =>
      cases fails with
      | true | false =>
        cases h
        exact ⟨hs, trivial, .same⟩
    | rename data =>
      cases fails with
      | true =>
        cases h
        exact ⟨hs, trivial, .same⟩
      | false =>
        cases h
        exact ⟨hs.rename data, nofun, .renamed data⟩
    | stat data =>
      cases h
      exact ⟨hs, hs.stat hc hfresh, .same⟩
    | store data mtime =>
      cases h
      exact ⟨hs.put hc, trivial, .cached data mtime⟩
  | done result => cases h

end Fitting

section Results
variable {D : Type} {empty : D}

structure StorageState.Sound (empty : D) (s : StorageState D) : Prop where
  storage : s.storage.Sound empty
  calls : ∀ c ∈ s.calls, c.Fits empty s.storage

theorem sound_step {s t : StorageState D} {event : StorageEvent D}
    (h : StorageState.step empty s event = some t) (hs : s.Sound empty)
    (hfresh : ¬ s.Stale empty event) : t.Sound empty := by
  cases event with
  | start op =>
    cases h
    refine ⟨hs.storage, fun c hc => ?_⟩
    rcases List.mem_append.mp hc with hc | hc
    · exact hs.calls c hc
    · rw [List.mem_singleton.mp hc]
      cases op <;> exact trivial
  | step i fails =>
    obtain ⟨c, hcall, h⟩ := Option.bind_eq_some_iff.mp h
    obtain ⟨⟨u, d⟩, hstep, rfl⟩ := Option.map_eq_some_iff.mp h
    have hc := hs.calls c (List.mem_of_getElem? hcall)
    -- the call that moves is followed by `step_sound`, the others see a rename or a cached entry
    obtain ⟨hu, hd, hmoved⟩ := StorageCall.step_sound hstep hs.storage hc
      fun hstale => hfresh ⟨c, hcall, hstale⟩
    refine ⟨hu, fun e he => ?_⟩
    rcases List.mem_or_eq_of_mem_set he with he | rfl
    · exact (hs.calls e he).moved hmoved
    · exact hd

theorem sound_of_reachable {s : StorageState D}
    (h : Reachable ((memoryStorage empty).when fun s event => ¬ s.Stale empty event) s) :
    s.Sound empty := by
  refine h.invariant ?_ fun s event t _ hs hstep => ?_
  · rintro s rfl
    exact ⟨⟨fun m hm => (by cases hm), fun d m hm => (by cases hm)⟩, fun c hc => (by cases hc)⟩
  · exact sound_step hstep.2 hs hstep.1

/-- The last call takes a step, and then the others of its own. -/
theorem solo_step {u v : FileStorage D} {cs : List (StorageCall D)} {c d : StorageCall D} {k : Nat}
    {t : StorageState D} (h : c.step empty u false = some (v, d))
    (hrest : runScript (StorageState.step empty) ⟨v, cs ++ [d]⟩
      (List.replicate k fun _ => .step cs.length false) = some t) :
    runScript (StorageState.step empty) ⟨u, cs ++ [c]⟩
      (List.replicate (k + 1) fun _ => .step cs.length false) = some t := by
  have hstep : StorageState.step empty ⟨u, cs ++ [c]⟩ (.step cs.length false) =
      some ⟨v, cs ++ [d]⟩ := by
    unfold StorageState.step
    simp [h]
  rw [List.replicate_succ, runScript, hstep]
  exact hrest

theorem solo_done {u : FileStorage D} {cs : List (StorageCall D)} {c : StorageCall D} :
    runScript (StorageState.step empty) ⟨u, cs ++ [c]⟩
      (List.replicate 0 fun _ => .step cs.length false) = some ⟨u, cs ++ [c]⟩ := rfl

theorem loadsFile_of_sound {s : StorageState D} (h : s.storage.Sound empty) :
    s.LoadsFile empty := by
  obtain ⟨u, cs⟩ := s
  have hread : ∀ {c : StorageCall D}, c.step empty u false = some (u, .load (.read u.mtime)) →
      ∃ t, runScript (StorageState.step empty) ⟨u, cs ++ [c]⟩
        (List.replicate 3 fun _ => .step cs.length false) = some t ∧
          t.calls[cs.length]?.bind StorageCall.result? = some (u.content empty) := by
    intro c hc
    refine ⟨⟨u.put (u.content empty) u.mtime, cs ++ [.done (some (u.content empty))]⟩, ?_, ?_⟩
    · exact solo_step hc (solo_step rfl (solo_step rfl solo_done))
    · rw [List.getElem?_concat_length]
      rfl
  have hstat : StorageCall.step empty u false (.load .stat) =
      some (u, .load (.lookup u.mtime)) := rfl
  cases hcache : u.cache with
  | none =>
    have hmiss : StorageCall.step empty u false (.load (.lookup u.mtime)) =
        some (u, .load (.read u.mtime)) := by
      unfold StorageCall.step FileStorage.loadStep
      rw [hcache]
    obtain ⟨t, ht, hdone⟩ := hread hmiss
    exact ⟨4, t, solo_step hstat ht, hdone⟩
  | some entry =>
    obtain ⟨data, cached⟩ := entry
    -- an entry under the time of the file is what the file holds, since the cache is sound
    by_cases hsame : cached = u.mtime
    · have hhit : StorageCall.step empty u false (.load (.lookup u.mtime)) =
          some (u, .done (some (u.content empty))) := by
        unfold StorageCall.step FileStorage.loadStep
        rw [hcache, (h.cache data cached hcache).same hsame, hsame]
        simp
      refine ⟨2, ⟨u, cs ++ [.done (some (u.content empty))]⟩, ?_, ?_⟩
      · exact solo_step hstat (solo_step hhit solo_done)
      · rw [List.getElem?_concat_length]
        rfl
    · have hmiss : StorageCall.step empty u false (.load (.lookup u.mtime)) =
          some (u, .load (.read u.mtime)) := by
        unfold StorageCall.step FileStorage.loadStep
        rw [hcache]
        simp [hsame]
      obtain ⟨t, ht, hdone⟩ := hread hmiss
      exact ⟨4, t, solo_step hstat ht, hdone⟩

/-- While every `reload` and `save` finds at its `stat` the document that it holds, and no
`load` fails to read the file, the cache is coherent and a load alone returns the last rename. -/
theorem cache_coherent {s : StorageState D}
    (h : Reachable ((memoryStorage empty).when fun s event => ¬ s.Stale empty event) s) :
    s.storage.Coherent empty ∧ s.LoadsFile empty := by
  have hs := (sound_of_reachable h).storage
  exact ⟨fun data mtime hcache => (hs.cache data mtime hcache).same, loadsFile_of_sound hs⟩

namespace StorageRun

/-- A memory is saved and loaded, from the cache and from the file. -/
def saved : List (StorageState Nat → StorageEvent Nat) :=
  ([.start .load, .step 0 false, .step 0 false, .step 0 false, .start (.save 7), .step 1 false,
    .step 1 false, .step 0 false, .step 1 false, .step 1 false] : List (StorageEvent Nat)).map
      fun event _ => event

/-- A memory is saved between the read of a reload and its `stat`, and then loaded. -/
def reloaded : List (StorageState Nat → StorageEvent Nat) :=
  ([.start .reload, .step 0 false, .start (.save 7), .step 1 false, .step 1 false, .step 1 false,
    .step 1 false, .step 0 false, .step 0 false, .start .load, .step 2 false, .step 2 false] :
      List (StorageEvent Nat)).map fun event _ => event

/-- Another memory is saved between the rename of a save and its `stat`. -/
def overtaken : List (StorageState Nat → StorageEvent Nat) :=
  ([.start (.save 7), .step 0 false, .step 0 false, .start (.save 8), .step 1 false, .step 1 false,
    .step 1 false, .step 1 false, .step 0 false, .step 0 false, .start .load, .step 2 false,
    .step 2 false] : List (StorageEvent Nat)).map fun event _ => event

end StorageRun

theorem cache_coherent_when_saved :
    ∃ s, Reachable ((memoryStorage 0).when fun s event => ¬ s.Stale 0 event) s ∧
      s.storage.cache = some (7, some 0) ∧ s.storage.Coherent 0 ∧ s.LoadsFile 0 := by
  have hrun : (runScript (guarded (fun s event => ¬ StorageState.Stale 0 s event)
      (StorageState.step 0)) .init StorageRun.saved).any (fun s =>
        decide (s.storage.cache = some (7, some 0))) = true := by
    decide
  obtain ⟨s, hs, h⟩ := exists_reachable_of_decide _ hrun
  exact ⟨s, when_of_guarded hs, h, cache_coherent (when_of_guarded hs)⟩

/-- All calls have returned, and the cache holds an older document under the time of the file,
which the last of them, a `load`, has returned. -/
theorem cache_stale_after_reload_and_after_save :
    (∃ s, Reachable (memoryStorage 0) s ∧ s.calls.map StorageCall.result? = [some 0, none, some 0] ∧
      s.storage.content 0 = 7 ∧ ¬ s.storage.Coherent 0) ∧
    (∃ s, Reachable (memoryStorage 0) s ∧ s.calls.map StorageCall.result? = [none, none, some 7] ∧
      s.storage.content 0 = 8 ∧ ¬ s.storage.Coherent 0) := by
  have hstale : ∀ {s : FileStorage Nat} {data : Nat},
      s.cache = some (data, s.mtime) ∧ data ≠ s.content 0 → ¬ s.Coherent 0 :=
    fun h hcoherent => h.2 (hcoherent _ _ h.1 rfl)
  constructor
  · have hrun : (runScript (StorageState.step 0) .init StorageRun.reloaded).any (fun s =>
        decide (s.calls.map StorageCall.result? = [some 0, none, some 0] ∧ s.storage.content 0 = 7 ∧
          s.storage.cache = some (0, s.storage.mtime))) = true := by
      decide
    obtain ⟨s, hs, hcalls, hcontent, hcache⟩ := exists_reachable_of_decide _ hrun
    exact ⟨s, hs, hcalls, hcontent, hstale ⟨hcache, by rw [hcontent]; decide⟩⟩
  · have hrun : (runScript (StorageState.step 0) .init StorageRun.overtaken).any (fun s =>
        decide (s.calls.map StorageCall.result? = [none, none, some 7] ∧ s.storage.content 0 = 8 ∧
          s.storage.cache = some (7, s.storage.mtime))) = true := by
      decide
    obtain ⟨s, hs, hcalls, hcontent, hcache⟩ := exists_reachable_of_decide _ hrun
    exact ⟨s, hs, hcalls, hcontent, hstale ⟨hcache, by rw [hcontent]; decide⟩⟩

end Results

end DeerFlow.Memory
