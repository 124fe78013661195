import DeerFlow.Runtime.AuthorizationContext

/-! The memory of a user, and how a model's reply is applied to it. A confidence is a finite
float; the reply is as it is after it was parsed and normalized. -/

namespace DeerFlow.Memory

structure Fact where
  id : String
  content : String
  category : String
  confidence : Rat
  createdAt : String
  source : String
  sourceError : Option String
  deriving DecidableEq

structure MemorySection where
  summary : String
  updatedAt : String
  deriving DecidableEq

structure MemoryData where
  user : Dict MemorySection
  history : Dict MemorySection
  facts : List Fact
  deriving DecidableEq

/-- `create_empty_memory`. -/
def MemoryData.empty : MemoryData where
  user := [("workContext", ⟨"", ""⟩), ("personalContext", ⟨"", ""⟩), ("topOfMind", ⟨"", ""⟩)]
  history := [("recentMonths", ⟨"", ""⟩), ("earlierContext", ⟨"", ""⟩),
    ("longTermBackground", ⟨"", ""⟩)]
  facts := []

structure SectionUpdate where
  summary : String
  shouldUpdate : Bool

structure NewFact where
  content : String
  category : String
  confidence : Rat
  sourceError : Option String

structure MemoryUpdate where
  user : Dict SectionUpdate
  history : Dict SectionUpdate
  newFacts : List NewFact
  factsToRemove : List String
  staleFactsToRemove : List String

/-- The settings, and what the texts of the facts are tested and cleaned with. -/
structure MemoryConfig where
  factConfidenceThreshold : Rat
  maxFacts : Nat
  stalenessAge : Int
  stalenessMaxRemovals : Nat
  stalenessProtectedCategories : List String
  casefold : String → String
  /-- `_parse_fact_datetime`. -/
  factDatetime : String → Option Int
  /-- `_UPLOAD_SENTENCE_RE.search`. -/
  mentionsUpload : String → Bool
  /-- A summary without its sentences about uploads. -/
  withoutUploads : String → String

/-- What a model call adds to its reply: the time, and the identifiers that are made. -/
structure MemoryReply where
  update : MemoryUpdate
  now : String
  time : Int
  uuid : Nat → String
  threadId : Option String

section Apply
variable (cfg : MemoryConfig)

def factContentKey (content : String) : Option String :=
  let stripped := strip content
  if stripped = "" then none else some (cfg.casefold stripped)

/-- `_select_stale_candidates`. -/
def selectStaleCandidates (facts : List Fact) (time : Int) : List Fact :=
  facts.filter fun f => f.category ∉ cfg.stalenessProtectedCategories &&
    (cfg.factDatetime f.createdAt).any fun created => created < time - cfg.stalenessAge

def updateSections (sections : Dict MemorySection) (updates : Dict SectionUpdate)
    (names : List String) (now : String) : Dict MemorySection :=
  names.foldl (fun sections name =>
    match updates.get name with
    | some u => if u.shouldUpdate && u.summary ≠ "" then sections.set name ⟨u.summary, now⟩
      else sections
    | none => sections) sections

/-- Only candidates are removed, and of too many the ones with the lowest confidence. -/
def staleRemovals (facts : List Fact) (ids : List String) (time : Int) : List String :=
  let candidates := (selectStaleCandidates cfg facts time).map Fact.id
  let ids := (ids.filter fun id => id ∈ candidates).dedup
  if cfg.stalenessMaxRemovals < ids.length then
    (((facts.filter fun f => f.id ∈ ids).insertionSort fun f g => f.confidence ≤ g.confidence).take
      cfg.stalenessMaxRemovals).map Fact.id
  else ids

/-- The facts with the `n`-th new one, unless it is too uncertain, empty or already there. -/
def addFact (reply : MemoryReply) (facts : List Fact) (f : NewFact) (n : Nat) : List Fact :=
  let content := strip f.content
  match factContentKey cfg content with
  | none => facts
  | some key =>
    if f.confidence < cfg.factConfidenceThreshold then facts
    else if some key ∈ facts.map fun g => factContentKey cfg g.content then facts
    else facts ++ [{
      id := "fact_" ++ reply.uuid n
      content := content
      category := f.category
      confidence := f.confidence
      createdAt := reply.now
      source := (reply.threadId.filter (· ≠ "")).getD "unknown"
      sourceError := (f.sourceError.map strip).filter (· ≠ "") }]

def capFacts (facts : List Fact) : List Fact :=
  if cfg.maxFacts < facts.length then
    (facts.insertionSort fun f g => g.confidence ≤ f.confidence).take cfg.maxFacts
  else facts

def withoutIds (facts : List Fact) (ids : List String) : List Fact :=
  facts.filter fun f => f.id ∉ ids

/-- `_apply_updates`. -/
def applyUpdates (m : MemoryData) (reply : MemoryReply) : MemoryData :=
  let u := reply.update
  let kept := withoutIds m.facts u.factsToRemove
  let fresh := withoutIds kept (staleRemovals cfg kept u.staleFactsToRemove reply.time)
  let added := u.newFacts.zipIdx.foldl (fun facts x => addFact cfg reply facts x.1 x.2) fresh
  { user := updateSections m.user u.user ["workContext", "personalContext", "topOfMind"] reply.now
    history := updateSections m.history u.history
      ["recentMonths", "earlierContext", "longTermBackground"] reply.now
    facts := capFacts cfg added }

/-- `_strip_upload_mentions_from_memory`. -/
def stripUploadMentions (m : MemoryData) : MemoryData :=
  let clean := fun (s : MemorySection) => { s with summary := cfg.withoutUploads s.summary }
  { user := m.user.map fun x => (x.1, clean x.2)
    history := m.history.map fun x => (x.1, clean x.2)
    facts := m.facts.filter fun f => !cfg.mentionsUpload f.content }

/-- What `_finalize_update` saves. -/
def finalizeUpdate (m : MemoryData) (reply : MemoryReply) : MemoryData :=
  stripUploadMentions cfg (applyUpdates cfg m reply)

end Apply

section Facts
variable {cfg : MemoryConfig} {m : MemoryData} {reply : MemoryReply}

theorem mem_addFact {facts : List Fact} {g : NewFact} {n : Nat} {f : Fact}
    (h : f ∈ addFact cfg reply facts g n) : f ∈ facts ∨ f.id = "fact_" ++ reply.uuid n := by
  unfold addFact at h
  simp only at h
  split at h
  · exact .inl h
  · split_ifs at h
    · exact .inl h
    · exact .inl h
    · rcases List.mem_append.mp h with h | h
      · exact .inl h
      · rw [List.mem_singleton.mp h]
        exact .inr rfl

theorem mem_addFacts {news : List (NewFact × Nat)} {facts : List Fact} {f : Fact}
    (h : f ∈ news.foldl (fun facts x => addFact cfg reply facts x.1 x.2) facts) :
    f ∈ facts ∨ ∃ x ∈ news, f.id = "fact_" ++ reply.uuid x.2 := by
  induction news generalizing facts with
  | nil => exact .inl h
  | cons x news ih =>
    rw [List.foldl_cons] at h
    rcases ih h with h | ⟨y, hy, hid⟩
    · exact (mem_addFact h).imp_right fun hid => ⟨x, List.mem_cons_self .., hid⟩
    · exact .inr ⟨y, List.mem_cons_of_mem _ hy, hid⟩

theorem mem_capFacts {facts : List Fact} {f : Fact} (h : f ∈ capFacts cfg facts) : f ∈ facts := by
  unfold capFacts at h
  split_ifs at h
  · have hsorted := List.mem_of_mem_take h
    rwa [List.mem_insertionSort] at hsorted
  · exact h

theorem mem_withoutIds {facts : List Fact} {ids : List String} {f : Fact} :
    f ∈ withoutIds facts ids ↔ f ∈ facts ∧ f.id ∉ ids := by
  unfold withoutIds
  rw [List.mem_filter, decide_eq_true_iff]

theorem mem_finalizeUpdate {f : Fact} (h : f ∈ (finalizeUpdate cfg m reply).facts) :
    f ∈ m.facts ∨ ∃ n < reply.update.newFacts.length, f.id = "fact_" ++ reply.uuid n := by
  unfold finalizeUpdate stripUploadMentions at h
  have hcapped : f ∈ (applyUpdates cfg m reply).facts := List.mem_of_mem_filter h
  unfold applyUpdates at hcapped
  rcases mem_addFacts (mem_capFacts hcapped) with hfresh | ⟨x, hx, hid⟩
  · exact .inl (mem_withoutIds.mp (mem_withoutIds.mp hfresh).1).1
  · exact .inr ⟨x.2, List.snd_lt_of_mem_zipIdx hx, hid⟩

end Facts

end DeerFlow.Memory
