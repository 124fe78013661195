import DeerFlow.Lib.Newest
import DeerFlow.Memory.MemoryOperations
import DeerFlow.Memory.MemoryResponses

/-! What every write to a user's memory should keep: the facts are sound, and an update removes,
adds and cuts no others than it may. The facts that a user creates or edits are sound. -/

namespace DeerFlow.Memory
open Newest

def Fact.Sound (f : Fact) : Prop := strip f.content ≠ "" ∧ 0 ≤ f.confidence ∧ f.confidence ≤ 1

structure SoundMemory extends MemoryData where
  sound : ∀ f ∈ facts, f.Sound

structure CheckedConfig extends MemoryConfig where
  zero_le_threshold : 0 ≤ factConfidenceThreshold
  threshold_le_one : factConfidenceThreshold ≤ 1
  ten_le_maxFacts : 10 ≤ maxFacts
  maxFacts_le : maxFacts ≤ 500
  one_le_maxRemovals : 1 ≤ stalenessMaxRemovals
  maxRemovals_le : stalenessMaxRemovals ≤ 50

/-- A reply that is accepted, and what its application adds to it. -/
structure AcceptedReply (floats : PyFloat) where
  content : ResponseContent
  data : MemoryUpdateData
  accepted : parseMemoryUpdateResponse floats content = .ok data
  now : String
  time : Int
  uuid : Nat → String
  threadId : Option String

namespace AcceptedReply
variable {floats : PyFloat} (r : AcceptedReply floats)

/-- The summaries that `_apply_updates` sets, of the user and of the history. -/
def summaries : Except ResponseFault (Dict Json × Dict Json) := do
  let user ← sectionSummaries floats ["workContext", "personalContext", "topOfMind"] r.data.user
  let history ← sectionSummaries floats ["recentMonths", "earlierContext", "longTermBackground"]
    r.data.history
  .ok (user, history)

/-- The reply as it is applied. Where a summary is no text, what it is set in is never stored. -/
def reply : Except ResponseFault MemoryReply :=
  let read (sections : Dict Json) : Dict SectionUpdate :=
    sections.map fun x => (x.1, ⟨(asText x.2).getD "", true⟩)
  r.summaries.map fun s => {
    update := {
      user := read s.1
      history := read s.2
      newFacts := r.data.newFacts
      factsToRemove := r.data.factsToRemove
      staleFactsToRemove := r.data.staleFactsToRemove.map StaleRemoval.id }
    now := r.now
    time := r.time
    uuid := r.uuid
    threadId := r.threadId }

/-- The summaries can be cleaned, which `re.sub` does only with texts. -/
def cleanable : Bool :=
  match r.summaries with
  | .ok s => (s.1 ++ s.2).all fun x => (asText x.2).isSome
  | .error _ => false

/-- What `_finalize_update` stores. -/
def stored (cfg : MemoryConfig) (m : MemoryData) : Except ResponseFault MemoryData := do
  let reply ← r.reply
  if r.cleanable then .ok (finalizeUpdate cfg m reply) else .error .typeError

end AcceptedReply

section Stages
variable (cfg : MemoryConfig) (m : MemoryData) (r : MemoryReply)

def currentFacts : List Fact := withoutIds m.facts r.update.factsToRemove

def staleIds : List String :=
  staleRemovals cfg (currentFacts m r) r.update.staleFactsToRemove r.time

def removedFacts : List Fact := (currentFacts m r).filter fun f => f.id ∈ staleIds cfg m r

def keptFacts : List Fact := withoutIds (currentFacts m r) (staleIds cfg m r)

def addFacts (news : List NewFact) (facts : List Fact) : List Fact :=
  news.zipIdx.foldl (fun facts x => addFact cfg r facts x.1 x.2) facts

def addedFacts : List Fact :=
  (addFacts cfg r r.update.newFacts (keptFacts cfg m r)).drop (keptFacts cfg m r).length

/-- Old enough to be reviewed, and in no protected category. -/
def Fact.Stale (time : Int) (f : Fact) : Prop :=
  f.category ∉ cfg.stalenessProtectedCategories ∧
    ∃ created ∈ cfg.factDatetime f.createdAt, created < time - cfg.stalenessAge

def keys (facts : List Fact) : List (Option String) :=
  facts.map fun f => factContentKey cfg f.content

/-- What the application of an update promises. -/
structure UpdateKeeps : Prop where
  bounded : (applyUpdates cfg m r).facts.length ≤ cfg.maxFacts
  new : ∀ key ∈ keys cfg (addedFacts cfg m r), key ∉ keys cfg (keptFacts cfg m r)
  distinct : (keys cfg (addedFacts cfg m r)).Nodup
  stale : ∀ f ∈ removedFacts cfg m r, f.Stale cfg r.time
  few : (removedFacts cfg m r).length ≤ cfg.stalenessMaxRemovals
  cut : ∃ cut, ((applyUpdates cfg m r).facts ++ cut).Perm
      (keptFacts cfg m r ++ addedFacts cfg m r) ∧
    ∀ f ∈ cut, ∀ g ∈ (applyUpdates cfg m r).facts, f.confidence ≤ g.confidence

/-- The identifiers of candidates that the list of stale facts has. -/
def namedIds : List String :=
  let candidates := (selectStaleCandidates cfg (currentFacts m r) r.time).map Fact.id
  (r.update.staleFactsToRemove.filter fun id => id ∈ candidates).dedup

/-- All facts under these identifiers, the least certain ones first. -/
def namedFacts : List Fact :=
  ((currentFacts m r).filter fun f => f.id ∈ namedIds cfg m r).insertionSort
    fun f g => f.confidence ≤ g.confidence

/-- Of too many identifiers only the least certain facts count. -/
def chosenFacts : List Fact :=
  if cfg.stalenessMaxRemovals < (namedIds cfg m r).length then
    (namedFacts cfg m r).take cfg.stalenessMaxRemovals
  else namedFacts cfg m r

/-- The facts that are not contradicted and do not share an identifier with a chosen one. -/
def remainingFacts : List Fact :=
  (currentFacts m r).filter fun f => ∀ g ∈ chosenFacts cfg m r, g.id ≠ f.id

/-- The new fact repeats neither a fact that stays nor an earlier one that is certain enough. -/
def IsNew (kept : List Fact) (before : List NewFact) (f : NewFact) : Prop :=
  factContentKey cfg f.content ∉ keys cfg kept ∧
    ∀ g ∈ before, cfg.factConfidenceThreshold ≤ g.confidence →
      factContentKey cfg g.content ≠ factContentKey cfg f.content

instance (kept : List Fact) (before : List NewFact) (f : NewFact) :
    Decidable (IsNew cfg kept before f) := inferInstanceAs (Decidable (_ ∧ _))

def unrepeated (kept : List Fact) (news : List NewFact) : List NewFact :=
  (news.zipIdx.filter fun x => IsNew cfg kept (news.take x.2) x.1).map Prod.fst

def Fact.stated (f : Fact) : String × Rat := (f.content, f.confidence)

def NewFact.stated (f : NewFact) : String × Rat := (strip f.content, f.confidence)

/-- The contents that are more certain than certain, as far as the facts have room for them. -/
def overstated (kept : List Fact) (news : List NewFact) : List (String × Rat) :=
  newest Prod.snd cfg.maxFacts
    (((unrepeated cfg kept news).map NewFact.stated).filter fun x => 1 < x.2)

structure RemovalSafe : Prop where
  /-- No fact that is chosen shares its identifier with one of the other kind. -/
  kinds : ∀ f ∈ chosenFacts cfg m r, ∀ g ∈ currentFacts m r, g.id = f.id →
    (f.Stale cfg r.time ↔ g.Stale cfg r.time)
  chosen : (chosenFacts cfg m r).length ≤ cfg.stalenessMaxRemovals
  /-- Nor with one that is named but not chosen. -/
  apart : ∀ f ∈ chosenFacts cfg m r,
    ∀ g ∈ (namedFacts cfg m r).drop (chosenFacts cfg m r).length, g.id ≠ f.id

end Stages

/-- What every write promises: of the facts that are stored, and of the application of an update
that does not fail. -/
structure WritesKeep {floats : PyFloat} (cfg : MemoryConfig) (m : MemoryData)
    (r : AcceptedReply floats) : Prop where
  created : ∀ content category confidence uuid now,
    ∀ data ∈ (MemoryOp.createFact content category confidence uuid now).apply cfg m,
      ∀ f ∈ data.facts, f.Sound
  edited : ∀ id content category confidence,
    ∀ data ∈ (MemoryOp.updateFact id content category confidence).apply cfg m,
      ∀ f ∈ data.facts, f.Sound
  stored : ∀ data, r.stored cfg m = .ok data → ∀ f ∈ data.facts, f.Sound
  updated : ∀ reply, r.reply = .ok reply → UpdateKeeps cfg m reply

structure UpdateSafe {floats : PyFloat} (cfg : MemoryConfig) (m : MemoryData)
    (r : AcceptedReply floats) : Prop where
  /-- Where the reply is stored, only mentions of uploads are more certain than certain. -/
  stated : ∀ reply, r.reply = .ok reply → r.cleanable = true →
    ∀ x ∈ overstated cfg (remainingFacts cfg m reply) reply.update.newFacts,
      cfg.mentionsUpload x.1 = true
  removal : ∀ reply, r.reply = .ok reply → RemovalSafe cfg m reply

section Writes
variable {cfg : MemoryConfig} {m : MemoryData} {content category : String} {confidence : Rat}

theorem createMemoryFact_sound {uuid now : String} {f : Fact}
    (h : createMemoryFact content category confidence uuid now = some f) : f.Sound := by
  obtain ⟨hrefused, h⟩ := Option.ite_none_left_eq_some.mp h
  cases h
  simp only [not_or, not_lt] at hrefused
  refine ⟨?_, hrefused.2.1, hrefused.2.2⟩
  show strip (strip content) ≠ ""
  rw [strip_strip]
  exact hrefused.1

theorem editFact_sound {content category : Option String} {confidence : Option Rat} {f g : Fact}
    (hf : f.Sound) (h : editFact content category confidence f = some g) : g.Sound := by
  unfold editFact at h
  split_ifs at h with hrefused
  cases h
  rw [not_or] at hrefused
  obtain ⟨hcontent, hconfidence⟩ := hrefused
  refine ⟨?_, ?_⟩
  · show strip ((content.map strip).getD f.content) ≠ ""
    cases content with
    | none => exact hf.1
    | some c =>
      show strip (strip c) ≠ ""
      rw [strip_strip]
      exact fun hblank => hcontent ⟨c, rfl, hblank⟩
  · show 0 ≤ confidence.getD f.confidence ∧ confidence.getD f.confidence ≤ 1
    cases confidence with
    | none => exact hf.2
    | some c =>
      have hbounds : ¬(c < 0 ∨ 1 < c) := fun hc => hconfidence ⟨c, rfl, hc⟩
      rw [not_or, not_lt, not_lt] at hbounds
      exact hbounds

theorem apply_createFact_sound (hm : ∀ f ∈ m.facts, f.Sound) {uuid now : String} {data : MemoryData}
    (h : (MemoryOp.createFact content category confidence uuid now).apply cfg m = some data) :
    ∀ f ∈ data.facts, f.Sound := by
  obtain ⟨g, hg, rfl⟩ := Option.map_eq_some_iff.mp h
  intro f hf
  rcases List.mem_append.mp hf with hf | hf
  · exact hm f hf
  · obtain rfl := List.mem_singleton.mp hf
    exact createMemoryFact_sound hg

theorem apply_updateFact_sound (hm : ∀ f ∈ m.facts, f.Sound) {id : String}
    {content category : Option String} {confidence : Option Rat} {data : MemoryData}
    (h : (MemoryOp.updateFact id content category confidence).apply cfg m = some data) :
    ∀ f ∈ data.facts, f.Sound := by
  unfold MemoryOp.apply at h
  simp only at h
  split_ifs at h
  obtain ⟨facts, hfacts, rfl⟩ := Option.map_eq_some_iff.mp h
  intro f hf
  obtain ⟨g, hg, hedit⟩ := mem_mapM hfacts hf
  split_ifs at hedit
  · exact editFact_sound (hm g hg) hedit
  · exact Option.some.inj hedit ▸ hm g hg

end Writes

end DeerFlow.Memory
