import DeerFlow.Lib.Except
import DeerFlow.Memory.MemoryOperations

/-! A fact that a user has deleted stays deleted, and one created or edited stays as it was
written, as long as every write is made from a snapshot that has the facts of the stored
memory under that identifier. -/

namespace DeerFlow.Memory
open Transition

section Changes
variable {cfg : MemoryConfig} {op : MemoryOp} {base data : MemoryData} {id : String}

theorem createMemoryFact_id {content category uuid now : String} {confidence : Rat} {f : Fact}
    (h : createMemoryFact content category confidence uuid now = some f) :
    f.id = "fact_" ++ uuid := by
  unfold createMemoryFact at h
  split at h
  · cases h
  · cases h
    rfl

theorem editFact_id {content category : Option String} {confidence : Option Rat} {f g : Fact}
    (h : editFact content category confidence f = some g) : g.id = f.id := by
  unfold editFact at h
  split_ifs at h
  cases h
  rfl

theorem MemoryOp.mem_apply (h : op.apply cfg base = some data) {f : Fact} (hf : f ∈ data.facts) :
    (∃ g ∈ base.facts, g.id = f.id) ∨ op.Brings f.id := by
  cases op with
  | createFact content category confidence uuid now =>
    obtain ⟨g, hg, rfl⟩ := Option.map_eq_some_iff.mp h
    rcases List.mem_append.mp hf with hf | hf
    · exact .inl ⟨f, hf, rfl⟩
    · obtain rfl := List.mem_singleton.mp hf
      exact .inr (createMemoryFact_id hg).symm
  | deleteFact id =>
    unfold MemoryOp.apply at h
    simp only at h
    split_ifs at h
    cases h
    exact .inl ⟨f, List.mem_of_mem_filter hf, rfl⟩
  | updateFact id content category confidence =>
    unfold MemoryOp.apply at h
    simp only at h
    split_ifs at h
    obtain ⟨facts, hfacts, rfl⟩ := Option.map_eq_some_iff.mp h
    obtain ⟨g, hg, hedit⟩ := mem_mapM hfacts hf
    refine .inl ⟨g, hg, ?_⟩
    split_ifs at hedit
    · exact (editFact_id hedit).symm
    · exact congrArg Fact.id (Option.some.inj hedit)
  | background reply =>
    obtain ⟨r, rfl, rfl⟩ := Option.map_eq_some_iff.mp h
    rcases mem_finalizeUpdate hf with hf | ⟨n, hn, hid⟩
    · exact .inl ⟨f, hf, rfl⟩
    · exact .inr ⟨n, hn, hid.symm⟩
  | get | reload | clear | importData _ => cases h

theorem MemoryOp.mem_whole (h : op.whole? = some data) {f : Fact} (hf : f ∈ data.facts) :
    op.Brings f.id := by
  cases op with
  | clear =>
    cases h
    cases hf
  | importData d =>
    cases h
    exact List.mem_map_of_mem hf
  | get | reload | createFact | deleteFact | updateFact | background => cases h

theorem factsOf_eq_nil {m : MemoryData} : m.factsOf id = [] ↔ ∀ f ∈ m.facts, f.id ≠ id := by
  unfold MemoryData.factsOf
  rw [List.filter_eq_nil_iff]
  simp only [decide_eq_true_iff]

theorem mem_factsOf {m : MemoryData} {f : Fact} : f ∈ m.factsOf f.id ↔ f ∈ m.facts := by
  unfold MemoryData.factsOf
  rw [List.mem_filter]
  simp only [decide_true, and_true]

end Changes

section Writes
variable {cfg : MemoryConfig} {s t : MemoryState} {event : MemoryEvent}

/-- The document of a save, from what was loaded for it. -/
def MemoryOp.document (cfg : MemoryConfig) (op : MemoryOp) : Option MemoryData → Option MemoryData
  | none => op.whole?
  | some base => op.apply cfg base

def SavePc.data {D : Type} : SavePc D → D
  | .write data | .rename data | .stat data | .store data _ => data

/-- A save in progress is of the document that its operation makes. -/
def MemoryCall.Makes (cfg : MemoryConfig) (op : MemoryOp) : MemoryPc → Prop
  | .saving base pc => op.document cfg base = some pc.data
  | .loading _ | .asking _ | .rereading _ | .reloading _ | .done _ => True

theorem MemoryOp.begin_makes (op : MemoryOp) : MemoryCall.Makes cfg op op.begin := by
  cases op with
  | clear | importData data => rfl
  | createFact content category confidence uuid now =>
    unfold MemoryOp.begin
    simp only
    split <;> trivial
  | get | reload | deleteFact | updateFact | background => trivial

theorem MemoryOp.change_makes (op : MemoryOp) (base : MemoryData) :
    MemoryCall.Makes cfg op (op.change cfg base) := by
  unfold MemoryOp.change
  cases h : op.apply cfg base with
  | none => trivial
  | some data => exact h

theorem MemoryOp.loaded_makes (op : MemoryOp) (base : MemoryData) :
    MemoryCall.Makes cfg op (op.loaded cfg base) := by
  unfold MemoryOp.loaded
  split
  · trivial
  · trivial
  · exact op.change_makes base

theorem MemoryOp.saved_makes (op : MemoryOp) (ok : Bool) :
    MemoryCall.Makes cfg op (op.saved ok) := by
  unfold MemoryOp.saved
  split <;> trivial

theorem saveStep_data {D : Type} {s t : FileStorage D} {fails : Bool} {pc pc' : SavePc D}
    (h : s.saveStep fails pc = (t, .goOn pc')) : pc'.data = pc.data := by
  cases pc with
  | write data | rename data =>
    cases fails with
    | true => cases h
    | false => cases h; rfl
  | stat data => cases h; rfl
  | store data mtime => cases h

theorem loadStep_file {D : Type} {empty : D} {s t : FileStorage D} {fails : Bool} {pc : LoadPc D}
    {x : Progress (LoadPc D) D} (h : s.loadStep empty fails pc = (t, x)) : t.file = s.file := by
  unfold FileStorage.loadStep at h
  split at h
  · obtain ⟨rfl, -⟩ := Prod.mk.inj h
    rfl
  · split at h
    · obtain ⟨rfl, -⟩ := Prod.mk.inj h
      rfl
    · split at h
      · obtain ⟨rfl, -⟩ := Prod.mk.inj h
        rfl
      · obtain ⟨rfl, -⟩ := Prod.mk.inj h
        rfl
  · obtain ⟨rfl, -⟩ := Prod.mk.inj h
    rfl
  · obtain ⟨rfl, -⟩ := Prod.mk.inj h
    rfl

theorem reloadStep_file {D : Type} {empty : D} {s t : FileStorage D} {fails : Bool}
    {pc : ReloadPc D} {x : Progress (ReloadPc D) D} (h : s.reloadStep empty fails pc = (t, x)) :
    t.file = s.file := by
  cases pc with
  | read | stat | store =>
    obtain ⟨rfl, -⟩ := Prod.mk.inj h
    rfl

theorem saveStep_file {D : Type} (empty : D) {s t : FileStorage D} {fails : Bool} {pc : SavePc D}
    {x : Progress (SavePc D) Bool} (h : s.saveStep fails pc = (t, x)) :
    t.file = s.file ∨ ∃ data, pc = .rename data ∧ fails = false ∧ t.content empty = data := by
  cases pc with
  | write | stat | store =>
    obtain ⟨rfl, -⟩ := Prod.mk.inj h
    exact .inl rfl
  | rename data =>
    cases fails with
    | true =>
      obtain ⟨rfl, -⟩ := Prod.mk.inj h
      exact .inl rfl
    | false =>
      obtain ⟨rfl, -⟩ := Prod.mk.inj h
      exact .inr ⟨data, rfl, rfl, rfl⟩

theorem MemoryCall.step_makes {c : MemoryCall} {u : FileStorage MemoryData} {fails : Bool}
    {pc : MemoryPc} (h : c.step cfg s.storage fails = some (u, pc)) (hc : Makes cfg c.op c.pc) :
    Makes cfg c.op pc := by
  unfold MemoryCall.step at h
  split at h
  · split at h
    · obtain ⟨-, rfl⟩ := Prod.mk.inj (Option.some.inj h)
      trivial
    · obtain ⟨-, rfl⟩ := Prod.mk.inj (Option.some.inj h)
      exact c.op.loaded_makes _
  · obtain ⟨-, rfl⟩ := Prod.mk.inj (Option.some.inj h)
    exact c.op.change_makes _
  · next base pc hpc =>
    rw [hpc] at hc
    split at h
    · next hstep =>
      obtain ⟨-, rfl⟩ := Prod.mk.inj (Option.some.inj h)
      exact hc.trans (congrArg some (saveStep_data hstep).symm)
    · obtain ⟨-, rfl⟩ := Prod.mk.inj (Option.some.inj h)
      exact c.op.saved_makes _
  · split at h
    · obtain ⟨-, rfl⟩ := Prod.mk.inj (Option.some.inj h)
      trivial
    · obtain ⟨-, rfl⟩ := Prod.mk.inj (Option.some.inj h)
      trivial
  · split at h
    · obtain ⟨-, rfl⟩ := Prod.mk.inj (Option.some.inj h)
      trivial
    · obtain ⟨-, rfl⟩ := Prod.mk.inj (Option.some.inj h)
      trivial
  · cases h

theorem MemoryCall.step_file {c : MemoryCall} {u : FileStorage MemoryData} {fails : Bool}
    {pc : MemoryPc} (h : c.step cfg s.storage fails = some (u, pc)) :
    u.file = s.storage.file ∨ ∃ base data, c.pc = .saving base (.rename data) ∧ fails = false ∧
      u.content .empty = data := by
  unfold MemoryCall.step at h
  split at h
  · split at h
    · next hstep =>
      obtain ⟨rfl, -⟩ := Prod.mk.inj (Option.some.inj h)
      exact .inl (loadStep_file hstep)
    · next hstep =>
      obtain ⟨rfl, -⟩ := Prod.mk.inj (Option.some.inj h)
      exact .inl (loadStep_file hstep)
  · obtain ⟨rfl, -⟩ := Prod.mk.inj (Option.some.inj h)
    exact .inl rfl
  · next base pc' hpc =>
    have hwrite : ∀ {x}, s.storage.saveStep fails pc' = (u, x) → u.file = s.storage.file ∨
        ∃ base data, c.pc = .saving base (.rename data) ∧ fails = false ∧
          u.content .empty = data := by
      intro x hstep
      rcases saveStep_file .empty hstep with hfile | ⟨data, hrename, hfails, hdata⟩
      · exact .inl hfile
      · exact .inr ⟨base, data, hrename ▸ hpc, hfails, hdata⟩
    split at h
    · next hstep =>
      obtain ⟨rfl, -⟩ := Prod.mk.inj (Option.some.inj h)
      exact hwrite hstep
    · next hstep =>
      obtain ⟨rfl, -⟩ := Prod.mk.inj (Option.some.inj h)
      exact hwrite hstep
  · split at h
    · next hstep =>
      obtain ⟨rfl, -⟩ := Prod.mk.inj (Option.some.inj h)
      exact .inl (loadStep_file hstep)
    · next hstep =>
      obtain ⟨rfl, -⟩ := Prod.mk.inj (Option.some.inj h)
      exact .inl (loadStep_file hstep)
  · split at h
    · next hstep =>
      obtain ⟨rfl, -⟩ := Prod.mk.inj (Option.some.inj h)
      exact .inl (reloadStep_file hstep)
    · next hstep =>
      obtain ⟨rfl, -⟩ := Prod.mk.inj (Option.some.inj h)
      exact .inl (reloadStep_file hstep)
  · cases h

def MemoryState.Makes (cfg : MemoryConfig) (s : MemoryState) : Prop :=
  ∀ c ∈ s.calls, MemoryCall.Makes cfg c.op c.pc

theorem makes_step (h : MemoryState.step cfg s event = some t) (hs : s.Makes cfg) :
    t.Makes cfg := by
  intro d hd
  cases event with
  | start op =>
    cases h
    rcases List.mem_append.mp hd with hd | hd
    · exact hs d hd
    · rw [List.mem_singleton.mp hd]
      exact op.begin_makes
  | step i fails =>
    obtain ⟨c, hcall, h⟩ := Option.bind_eq_some_iff.mp h
    obtain ⟨⟨u, pc⟩, hstep, rfl⟩ := Option.map_eq_some_iff.mp h
    rcases List.mem_or_eq_of_mem_set hd with hd | rfl
    · exact hs d hd
    · exact c.step_makes hstep (hs c (List.mem_of_getElem? hcall))

theorem makes_of_reachable (h : Reachable (memoryOperations cfg) s) : s.Makes cfg := by
  refine h.invariant ?_ fun s event t _ hs hstep => ?_
  · rintro s rfl
    exact fun c hc => (by cases hc)
  · exact makes_step hstep hs

/-- A write is of the document that its operation makes of its snapshot. -/
theorem write_makes (hs : s.Makes cfg) {w : MemoryWrite} (hw : w ∈ s.write? event) :
    w.op.document cfg w.base = some w.data := by
  unfold MemoryState.write? at hw
  split at hw
  · cases hw
  · split at hw
    · next hcall =>
      cases hw
      exact hs _ (List.mem_of_getElem? hcall)
    · cases hw

theorem content_step (h : MemoryState.step cfg s event = some t) :
    t.content = s.content ∨ ∃ w ∈ s.write? event, t.content = w.data := by
  cases event with
  | start op =>
    cases h
    exact .inl rfl
  | step i fails =>
    obtain ⟨c, hcall, h⟩ := Option.bind_eq_some_iff.mp h
    obtain ⟨⟨u, pc⟩, hstep, rfl⟩ := Option.map_eq_some_iff.mp h
    refine (MemoryCall.step_file hstep).imp (fun hfile => ?_) fun ⟨base, data, hpc, hfails, hdata⟩ => ?_
    · change (u.file.map Prod.fst).getD _ = _
      rw [hfile]
      rfl
    · obtain ⟨op, pc'⟩ := c
      obtain rfl : pc' = .saving base (.rename data) := hpc
      refine ⟨⟨op, base, data⟩, ?_, hdata⟩
      unfold MemoryState.write?
      simp only [hcall, hfails]
      rfl

theorem content_write (h : MemoryState.step cfg s event = some t) {w : MemoryWrite}
    (hw : w ∈ s.write? event) : t.content = w.data := by
  unfold MemoryState.write? at hw
  split at hw
  · cases hw
  · next i fails =>
    split at hw
    · next op base data hcall =>
      cases hw
      obtain ⟨c, hc, h⟩ := Option.bind_eq_some_iff.mp h
      obtain rfl := Option.some.inj (hcall.symm.trans hc)
      obtain ⟨⟨v, pc⟩, hstep, rfl⟩ := Option.map_eq_some_iff.mp h
      obtain ⟨rfl, -⟩ := Prod.mk.inj (Option.some.inj hstep)
      rfl
    · cases hw

end Writes

section Results
variable {cfg : MemoryConfig} {s t u : MemoryState} {event : MemoryEvent} {id : String} {f : Fact}

theorem forgets_write (hs : s.Makes cfg) (hstep : MemoryState.step cfg s event = some t)
    (h : s.Forgets id event) : t.content.factsOf id = [] := by
  obtain ⟨⟨op, base, data⟩, hw, hremoves⟩ := h
  have hmakes := write_makes hs hw
  rw [content_write hstep hw, factsOf_eq_nil]
  -- `clear` writes a whole document, and a delete what it has loaded without the fact
  cases op with
  | clear =>
    cases base with
    | none =>
      cases hmakes
      exact fun f hf => (by cases hf)
    | some base => cases hmakes
  | deleteFact id' =>
    obtain rfl : id' = id := hremoves
    cases base with
    | none => cases hmakes
    | some base =>
      change MemoryOp.apply cfg (.deleteFact id') base = some data at hmakes
      unfold MemoryOp.apply at hmakes
      simp only at hmakes
      split_ifs at hmakes
      cases hmakes
      exact fun f hf => of_decide_eq_true (List.mem_filter.mp hf).2
  | get | reload | importData | createFact | updateFact | background => cases hremoves

theorem forgotten_step (hs : s.Makes cfg) (hstep : MemoryState.step cfg s event = some t)
    (hnone : s.content.factsOf id = []) (hover : ¬ s.Overwrites id event)
    (hreadd : ¬ s.Readds id event) : t.content.factsOf id = [] := by
  rcases content_step hstep with hsame | ⟨w, hw, hdata⟩
  · rwa [hsame]
  · have hmakes := write_makes hs hw
    rw [hdata, factsOf_eq_nil]
    rintro g hg rfl
    have hbrings : ¬ w.op.Brings g.id := fun hbrings => hreadd ⟨w, hw, hbrings⟩
    -- an operation that loads nothing brings the fact itself; another has it in its snapshot
    rcases hbase : w.base with _ | base
    · rw [hbase] at hmakes
      exact hbrings (MemoryOp.mem_whole hmakes hg)
    · rw [hbase] at hmakes
      have hsame : base.factsOf g.id = s.content.factsOf g.id := by
        by_contra hne
        exact hover ⟨w, hw, base, hbase, hne⟩
      rcases MemoryOp.mem_apply hmakes hg with ⟨x, hx, hid⟩ | hnew
      · exact factsOf_eq_nil.mp (hsame.trans hnone) x hx hid
      · exact hbrings hnew

theorem recorded_step (hstep : MemoryState.step cfg s event = some t) (hf : f ∈ s.content.facts)
    (hover : ¬ s.Overwrites f.id event) (hdrop : ¬ s.Drops f event) : f ∈ t.content.facts := by
  rcases content_step hstep with hsame | ⟨w, hw, hdata⟩
  · rwa [hsame]
  · rw [hdata]
    -- the snapshot has the fact, so only an operation that drops it can write without it
    by_contra hgone
    refine hdrop ⟨w, hw, fun base hbase => ?_, hgone⟩
    have hsame : base.factsOf f.id = s.content.factsOf f.id := by
      by_contra hne
      exact hover ⟨w, hw, base, hbase, hne⟩
    rw [← mem_factsOf, hsame, mem_factsOf]
    exact hf

/-- A deleted fact stays deleted and a recorded one stays recorded, until an operation brings
it back or drops it, as long as no write is made from a snapshot with other facts under that
identifier than are stored. -/
theorem memory_kept (hs : Reachable (memoryOperations cfg) s)
    (hstep : (memoryOperations cfg).step s event t) :
    (∀ id, s.Forgets id event → ∀ u, Later ((memoryOperations cfg).when fun s event =>
        ¬ s.Overwrites id event ∧ ¬ s.Readds id event) t u → u.content.factsOf id = []) ∧
    (∀ f, s.Records f event → ∀ u, Later ((memoryOperations cfg).when fun s event =>
        ¬ s.Overwrites f.id event ∧ ¬ s.Drops f event) t u → f ∈ u.content.facts) := by
  have ht := hs.step hstep
  constructor
  · intro id hforgets u hl
    refine hl.invariant (I := fun s => s.content.factsOf id = [])
      (fun s event t hs hkeeps hnone hstep => ?_) ht
      (forgets_write (makes_of_reachable hs) hstep hforgets)
    exact forgotten_step (makes_of_reachable hs) hstep hnone hkeeps.1 hkeeps.2
  · intro f hrecords u hl
    obtain ⟨w, hw, -, hf⟩ := hrecords
    refine hl.invariant (I := fun s => f ∈ s.content.facts)
      (fun s event t hs hkeeps hf hstep => ?_) ht (by rwa [content_write hstep hw])
    exact recorded_step hstep hf hkeeps.1 hkeeps.2

instance (op : MemoryOp) (id : String) : Decidable (op.Removes id) := by
  unfold MemoryOp.Removes
  split <;> infer_instance

instance (op : MemoryOp) (id : String) : Decidable (op.Brings id) := by
  unfold MemoryOp.Brings
  split <;> infer_instance

instance (s : MemoryState) (id : String) (event : MemoryEvent) : Decidable (s.Forgets id event) := by
  unfold MemoryState.Forgets
  infer_instance

instance (s : MemoryState) (f : Fact) (event : MemoryEvent) : Decidable (s.Records f event) := by
  unfold MemoryState.Records
  infer_instance

instance (s : MemoryState) (id : String) (event : MemoryEvent) :
    Decidable (s.Overwrites id event) := by
  unfold MemoryState.Overwrites
  infer_instance

instance (s : MemoryState) (id : String) (event : MemoryEvent) : Decidable (s.Readds id event) := by
  unfold MemoryState.Readds
  infer_instance

instance (s : MemoryState) (f : Fact) (event : MemoryEvent) : Decidable (s.Drops f event) := by
  unfold MemoryState.Drops
  infer_instance

namespace MemoryRun

def config : MemoryConfig where
  factConfidenceThreshold := 7 / 10
  maxFacts := 100
  stalenessAge := 90
  stalenessMaxRemovals := 10
  stalenessProtectedCategories := ["correction"]
  casefold content := content
  factDatetime _ := none
  mentionsUpload _ := false
  withoutUploads summary := summary

def create : MemoryOp := .createFact "lives in Rome" "context" 1 "a" "now"

def fact : Fact := ⟨"fact_a", "lives in Rome", "context", 1, "now", "manual", none⟩

def learn : MemoryOp := .background (some {
  update := ⟨[], [], [⟨"likes tea", "preference", 9 / 10, none⟩], [], []⟩
  now := "later"
  time := 0
  uuid _ := "b"
  threadId := some "thread" })

def steps (i n : Nat) : List MemoryEvent := List.replicate n (.step i false)

def script (events : List MemoryEvent) : List (MemoryState → MemoryEvent) :=
  events.map fun event _ => event

def creating : List MemoryEvent := .start create :: steps 0 5

def deleting : List MemoryEvent := creating ++ steps 0 3 ++ .start (.deleteFact "fact_a") :: steps 1 3

/-- A background update has loaded the memory before the fact is created. -/
def overtaken : List MemoryEvent := .start learn :: steps 0 4 ++ .start create :: steps 1 3

/-- Another has loaded the memory with the fact before it is deleted. -/
def resumed : List MemoryEvent := creating ++ steps 0 3 ++ .start learn :: steps 1 2 ++
  .start (.deleteFact "fact_a") :: steps 2 3

/-- What is stored in the end, when the write that is about to be made has these properties. -/
def ends (C : MemoryState → MemoryEvent → Prop) [∀ s event, Decidable (C s event)]
    (before : List MemoryEvent) (event : MemoryEvent) (P : MemoryState → Bool)
    (after : List MemoryEvent) (Q : MemoryState → Bool) : Bool :=
  (runScript (MemoryState.step config) .init (script before)).any fun s =>
    P s && (MemoryState.step config s event).any fun t =>
      (runScript (guarded C (MemoryState.step config)) t (script after)).any Q

theorem exists_of_ends {C : MemoryState → MemoryEvent → Prop} [∀ s event, Decidable (C s event)]
    {before after : List MemoryEvent} {event : MemoryEvent} {P Q : MemoryState → Bool}
    (h : ends C before event P after Q = true) :
    ∃ s t u, Reachable (memoryOperations config) s ∧ P s = true ∧
      (memoryOperations config).step s event t ∧ Later ((memoryOperations config).when C) t u ∧
        Q u = true := by
  obtain ⟨s, hs, h⟩ := exists_reachable_of_runScript _ h
  obtain ⟨hP, h⟩ := Bool.and_eq_true_iff.mp h
  obtain ⟨t, ht, h⟩ := Option.any_eq_true _ _ |>.mp h
  obtain ⟨u, hu, hQ⟩ := Option.any_eq_true _ _ |>.mp h
  exact ⟨s, t, u, hs, hP, ht, later_when_of_guarded (later_of_runScript hu), hQ⟩

end MemoryRun

open MemoryRun

/-- A fact is deleted, and another is kept, while the model learns a third. -/
theorem memory_kept_one_by_one :
    (∃ s t u, Reachable (memoryOperations config) s ∧ s.Forgets "fact_a" (.step 1 false) ∧
      Later ((memoryOperations config).when fun s event =>
        ¬ s.Overwrites "fact_a" event ∧ ¬ s.Readds "fact_a" event) t u ∧
        u.content.facts.map Fact.id = ["fact_b"] ∧ u.content.factsOf "fact_a" = []) ∧
    (∃ s t u, Reachable (memoryOperations config) s ∧ s.Records fact (.step 0 false) ∧
      Later ((memoryOperations config).when fun s event =>
        ¬ s.Overwrites fact.id event ∧ ¬ s.Drops fact event) t u ∧
        u.content.facts.map Fact.id = ["fact_a", "fact_b"] ∧ fact ∈ u.content.facts) := by
  constructor
  · have hrun : ends (fun s event => ¬ s.Overwrites "fact_a" event ∧ ¬ s.Readds "fact_a" event)
        deleting (.step 1 false) (fun s => decide (s.Forgets "fact_a" (.step 1 false)))
        (steps 1 2 ++ .start learn :: steps 2 7)
        (fun u => decide (u.content.facts.map Fact.id = ["fact_b"])) = true := by
      decide +kernel
    obtain ⟨s, t, u, hs, hforgets, ht, hl, hfacts⟩ := exists_of_ends hrun
    have hforgets' := of_decide_eq_true hforgets
    exact ⟨s, t, u, hs, hforgets', hl, of_decide_eq_true hfacts,
      (memory_kept hs ht).1 "fact_a" hforgets' u hl⟩
  · have hrun : ends (fun s event => ¬ s.Overwrites fact.id event ∧ ¬ s.Drops fact event)
        creating (.step 0 false) (fun s => decide (s.Records fact (.step 0 false)))
        (steps 0 2 ++ .start learn :: steps 1 7)
        (fun u => decide (u.content.facts.map Fact.id = ["fact_a", "fact_b"])) = true := by
      decide +kernel
    obtain ⟨s, t, u, hs, hrecords, ht, hl, hfacts⟩ := exists_of_ends hrun
    have hrecords' := of_decide_eq_true hrecords
    exact ⟨s, t, u, hs, hrecords', hl, of_decide_eq_true hfacts,
      (memory_kept hs ht).2 fact hrecords' u hl⟩

/-- A background update that has loaded the memory brings back a fact that is deleted meanwhile,
and loses one that is created meanwhile. -/
theorem memory_lost_to_background_update :
    (∃ s t u, Reachable (memoryOperations config) s ∧ s.Forgets "fact_a" (.step 2 false) ∧
      (memoryOperations config).step s (.step 2 false) t ∧
      Later ((memoryOperations config).when fun s event => ¬ s.Readds "fact_a" event) t u ∧
        u.content.factsOf "fact_a" = [fact]) ∧
    (∃ s t u, Reachable (memoryOperations config) s ∧ s.Records fact (.step 1 false) ∧
      (memoryOperations config).step s (.step 1 false) t ∧
      Later ((memoryOperations config).when fun s event => ¬ s.Drops fact event) t u ∧
        fact ∉ u.content.facts) := by
  constructor
  · have hrun : ends (fun s event => ¬ s.Readds "fact_a" event) resumed (.step 2 false)
        (fun s => decide (s.Forgets "fact_a" (.step 2 false))) (steps 2 2 ++ steps 1 5)
        (fun u => decide (u.content.factsOf "fact_a" = [fact])) = true := by
      decide +kernel
    obtain ⟨s, t, u, hs, hforgets, ht, hl, hfacts⟩ := exists_of_ends hrun
    exact ⟨s, t, u, hs, of_decide_eq_true hforgets, ht, hl, of_decide_eq_true hfacts⟩
  · have hrun : ends (fun s event => ¬ s.Drops fact event) overtaken (.step 1 false)
        (fun s => decide (s.Records fact (.step 1 false))) (steps 1 2 ++ steps 0 5)
        (fun u => decide (fact ∉ u.content.facts)) = true := by
      decide +kernel
    obtain ⟨s, t, u, hs, hrecords, ht, hl, hfacts⟩ := exists_of_ends hrun
    exact ⟨s, t, u, hs, of_decide_eq_true hrecords, ht, hl, of_decide_eq_true hfacts⟩

end Results

end DeerFlow.Memory
