import DeerFlow.Memory.FactStore

/-! The application of an update, stage by stage: which facts the stale list removes, what the
new facts add, and what the limit cuts off. -/

namespace DeerFlow.Memory
open Newest

section Adding
variable {cfg : MemoryConfig} {r : MemoryReply}

theorem factContentKey_strip (content : String) :
    factContentKey cfg (strip content) = factContentKey cfg content := by
  unfold factContentKey
  rw [strip_strip]

theorem factContentKey_eq_none {content : String} :
    factContentKey cfg content = none ↔ strip content = "" := by
  unfold factContentKey
  simp only [ite_eq_left_iff, reduceCtorEq, imp_false, not_not]

variable (cfg r) in
theorem addFact_cases (facts : List Fact) (f : NewFact) (n : Nat) :
    (∃ g, addFact cfg r facts f n = facts ++ [g] ∧ g.content = strip f.content ∧
      g.confidence = f.confidence ∧ cfg.factConfidenceThreshold ≤ f.confidence ∧
      factContentKey cfg f.content ≠ none ∧ factContentKey cfg f.content ∉ keys cfg facts) ∨
    addFact cfg r facts f n = facts ∧ (factContentKey cfg f.content = none ∨
      f.confidence < cfg.factConfidenceThreshold ∨ factContentKey cfg f.content ∈ keys cfg facts) := by
  simp only [addFact, factContentKey_strip]
  rcases hkey : factContentKey cfg f.content with _ | key
  · exact .inr ⟨rfl, .inl rfl⟩
  · simp only
    split_ifs with hthreshold hthere
    · exact .inr ⟨rfl, .inr (.inl hthreshold)⟩
    · exact .inr ⟨rfl, .inr (.inr hthere)⟩
    · exact .inl ⟨_, rfl, rfl, rfl, not_lt.mp hthreshold, nofun, hthere⟩

theorem unrepeated_append (cfg : MemoryConfig) (kept : List Fact) (news : List NewFact)
    (f : NewFact) : unrepeated cfg kept (news ++ [f]) =
      unrepeated cfg kept news ++ if IsNew cfg kept news f then [f] else [] := by
  have hbefore :
      news.zipIdx.filter (fun x => decide (IsNew cfg kept ((news ++ [f]).take x.2) x.1)) =
      news.zipIdx.filter fun x => decide (IsNew cfg kept (news.take x.2) x.1) := by
    refine List.filter_congr fun x hx => ?_
    rw [List.take_append_of_le_length (List.snd_lt_of_mem_zipIdx hx).le]
  unfold unrepeated
  rw [List.zipIdx_append, List.filter_append, List.map_append, hbefore, Nat.zero_add,
    List.zipIdx_singleton, List.filter_singleton, List.take_left]
  by_cases hnew : IsNew cfg kept news f
  · simp [hnew]
  · simp [hnew]

/-- What the new facts that were added have to do with the ones that were read. -/
structure Adds (cfg : MemoryConfig) (kept : List Fact) (news : List NewFact) (added : List Fact) :
    Prop where
  mem_keys : ∀ key, some key ∈ keys cfg (kept ++ added) ↔ some key ∈ keys cfg kept ∨
    ∃ g ∈ news, cfg.factConfidenceThreshold ≤ g.confidence ∧
      factContentKey cfg g.content = some key
  new : ∀ key ∈ keys cfg added, key ∉ keys cfg kept
  distinct : (keys cfg added).Nodup
  content : ∀ f ∈ added, strip f.content ≠ ""
  confidence : ∀ f ∈ added, cfg.factConfidenceThreshold ≤ f.confidence
  stated : (added.filter fun f => 1 < f.confidence).map Fact.stated =
    ((unrepeated cfg kept news).map NewFact.stated).filter fun x => 1 < x.2

theorem keys_append (facts added : List Fact) :
    keys cfg (facts ++ added) = keys cfg facts ++ keys cfg added := List.map_append

theorem adds_nil (kept : List Fact) : Adds cfg kept [] [] where
  mem_keys key := by simp
  new key hkey := absurd hkey List.not_mem_nil
  distinct := List.nodup_nil
  content f hf := absurd hf List.not_mem_nil
  confidence f hf := absurd hf List.not_mem_nil
  stated := rfl

variable {kept added : List Fact} {news : List NewFact} {f : NewFact} {g : Fact}

theorem Adds.not_mem_iff (h : Adds cfg kept news added) (hf : strip f.content ≠ "") :
    factContentKey cfg f.content ∉ keys cfg (kept ++ added) ↔ IsNew cfg kept news f := by
  have hsome : factContentKey cfg f.content ≠ none := mt factContentKey_eq_none.mp hf
  obtain ⟨key, hkey⟩ := Option.ne_none_iff_exists'.mp hsome
  unfold IsNew
  rw [hkey, h.mem_keys, not_or]
  simp only [not_exists, not_and, ne_eq]

theorem Adds.skip (h : Adds cfg kept news added) (hle : cfg.factConfidenceThreshold ≤ 1)
    (hf : strip f.content ≠ "") (hskip : f.confidence < cfg.factConfidenceThreshold ∨
      factContentKey cfg f.content ∈ keys cfg (kept ++ added)) :
    Adds cfg kept (news ++ [f]) added where
  mem_keys key := by
    rw [h.mem_keys]
    constructor
    · exact .imp_right fun ⟨g, hg, hkey⟩ => ⟨g, List.mem_append_left _ hg, hkey⟩
    · rintro (hkept | ⟨g, hg, hthreshold, hkey⟩)
      · exact .inl hkept
      · rcases List.mem_append.mp hg with hg | hg
        · exact .inr ⟨g, hg, hthreshold, hkey⟩
        · obtain rfl := List.mem_singleton.mp hg
          rcases hskip with hlow | hthere
          · exact absurd hthreshold (not_le.mpr hlow)
          · rw [hkey] at hthere
            exact (h.mem_keys key).mp hthere
  new := h.new
  distinct := h.distinct
  content := h.content
  confidence := h.confidence
  stated := by
    rw [h.stated, unrepeated_append]
    split_ifs with hnew
    · rcases hskip with hlow | hthere
      · have hcertain : ¬ 1 < f.stated.2 := not_lt.mpr (hlow.trans_le hle).le
        rw [List.map_append, List.filter_append, List.map_singleton,
          List.filter_cons_of_neg (by simpa using hcertain), List.filter_nil, List.append_nil]
      · exact absurd hthere ((h.not_mem_iff hf).mpr hnew)
    · rw [List.append_nil]

theorem Adds.add (h : Adds cfg kept news added) (hcontent : g.content = strip f.content)
    (hconfidence : g.confidence = f.confidence)
    (hthreshold : cfg.factConfidenceThreshold ≤ f.confidence) (hf : strip f.content ≠ "")
    (hnew : factContentKey cfg f.content ∉ keys cfg (kept ++ added)) :
    Adds cfg kept (news ++ [f]) (added ++ [g]) := by
  have hkeys : keys cfg [g] = [factContentKey cfg f.content] := by
    unfold keys
    rw [List.map_singleton, hcontent, factContentKey_strip]
  have hsome : factContentKey cfg f.content ≠ none := mt factContentKey_eq_none.mp hf
  obtain ⟨key, hkey⟩ := Option.ne_none_iff_exists'.mp hsome
  have hold := hnew
  rw [keys_append, List.mem_append, not_or] at hnew
  refine ⟨fun key' => ?_, ?_, ?_, ?_, ?_, ?_⟩
  · rw [← List.append_assoc, keys_append, hkeys, List.mem_append, h.mem_keys, List.mem_singleton,
      or_assoc]
    refine or_congr_right ?_
    constructor
    · rintro (⟨g, hg, hg'⟩ | heq)
      · exact ⟨g, List.mem_append_left _ hg, hg'⟩
      · exact ⟨f, List.mem_append_right _ (List.mem_singleton_self f), hthreshold, heq.symm⟩
    · rintro ⟨g, hg, hg'⟩
      rcases List.mem_append.mp hg with hg | hg
      · exact .inl ⟨g, hg, hg'⟩
      · obtain rfl := List.mem_singleton.mp hg
        exact .inr hg'.2.symm
  · intro key hmem
    rw [keys_append, hkeys, List.mem_append, List.mem_singleton] at hmem
    rcases hmem with hmem | rfl
    · exact h.new key hmem
    · exact hnew.1
  · rw [keys_append, hkeys, List.nodup_append]
    refine ⟨h.distinct, List.nodup_singleton _, ?_⟩
    rintro key hmem _ hsingle rfl
    rw [List.mem_singleton.mp hsingle] at hmem
    exact hnew.2 hmem
  · rw [List.forall_mem_append, List.forall_mem_singleton, hcontent, strip_strip]
    exact ⟨h.content, hf⟩
  · rw [List.forall_mem_append, List.forall_mem_singleton, hconfidence]
    exact ⟨h.confidence, hthreshold⟩
  · have hstated : g.stated = f.stated := Prod.ext hcontent hconfidence
    rw [List.filter_append, List.map_append, h.stated, unrepeated_append,
      if_pos ((h.not_mem_iff hf).mp hold), List.map_append, List.filter_append, List.map_singleton,
      ← hstated]
    by_cases hlt : 1 < g.confidence
    · have hlt' : 1 < g.stated.2 := hlt
      simp [hlt, hlt']
    · have hlt' : ¬ 1 < g.stated.2 := hlt
      simp [hlt, hlt']

theorem addFacts_append_singleton (news : List NewFact) (f : NewFact) (facts : List Fact) :
    addFacts cfg r (news ++ [f]) facts = addFact cfg r (addFacts cfg r news facts) f news.length := by
  unfold addFacts
  rw [List.zipIdx_append, List.foldl_append, Nat.zero_add, List.zipIdx_singleton, List.foldl_cons,
    List.foldl_nil]

theorem exists_adds (hle : cfg.factConfidenceThreshold ≤ 1) (kept : List Fact)
    (hnews : ∀ f ∈ news, strip f.content ≠ "") :
    ∃ added, addFacts cfg r news kept = kept ++ added ∧ Adds cfg kept news added := by
  induction news using List.reverseRecOn with
  | nil => exact ⟨[], (List.append_nil kept).symm, adds_nil kept⟩
  | append_singleton news f ih =>
    rw [List.forall_mem_append, List.forall_mem_singleton] at hnews
    obtain ⟨added, hfold, hadds⟩ := ih hnews.1
    have hturn := addFact_cases cfg r (kept ++ added) f news.length
    rw [addFacts_append_singleton, hfold]
    rcases hturn with ⟨g, hg, hcontent, hconfidence, hthreshold, -, hnew⟩ | ⟨hsame, hskip⟩
    · refine ⟨added ++ [g], ?_, hadds.add hcontent hconfidence hthreshold hnews.2 hnew⟩
      rw [hg, List.append_assoc]
    · have hskip' := hskip.resolve_left (mt factContentKey_eq_none.mp hnews.2)
      exact ⟨added, hsame, hadds.skip hle hnews.2 hskip'⟩

end Adding

section Removing
variable {cfg : MemoryConfig} {m : MemoryData} {r : MemoryReply}

theorem mem_selectStaleCandidates {facts : List Fact} {time : Int} {f : Fact} :
    f ∈ selectStaleCandidates cfg facts time ↔ f ∈ facts ∧ f.Stale cfg time := by
  unfold selectStaleCandidates Fact.Stale
  rw [List.mem_filter, Bool.and_eq_true, decide_eq_true_eq, Option.any_eq_true]
  simp only [decide_eq_true_eq, Option.mem_def]

theorem exists_of_mem_namedIds {id : String} (h : id ∈ namedIds cfg m r) :
    ∃ f ∈ currentFacts m r, f.id = id ∧ f.Stale cfg r.time := by
  have hcandidate := (List.mem_filter.mp (List.mem_dedup.mp h)).2
  obtain ⟨f, hf, hid⟩ := List.mem_map.mp (of_decide_eq_true hcandidate)
  obtain ⟨hcurrent, hstale⟩ := mem_selectStaleCandidates.mp hf
  exact ⟨f, hcurrent, hid, hstale⟩

theorem mem_namedFacts {f : Fact} :
    f ∈ namedFacts cfg m r ↔ f ∈ currentFacts m r ∧ f.id ∈ namedIds cfg m r := by
  unfold namedFacts
  rw [List.mem_insertionSort, List.mem_filter, decide_eq_true_eq]

theorem namedFacts_perm : (namedFacts cfg m r).Perm
    ((currentFacts m r).filter fun f => f.id ∈ namedIds cfg m r) := List.perm_insertionSort _ _

theorem namedIds_subset : namedIds cfg m r ⊆ (namedFacts cfg m r).map Fact.id := by
  intro id hid
  obtain ⟨f, hf, rfl, -⟩ := exists_of_mem_namedIds hid
  exact List.mem_map_of_mem (mem_namedFacts.mpr ⟨hf, hid⟩)

/-- Every identifier that is named has a fact of its own. -/
theorem length_namedIds_le : (namedIds cfg m r).length ≤ (namedFacts cfg m r).length := by
  have hnodup : (namedIds cfg m r).Nodup := List.nodup_dedup _
  have hle := (hnodup.subperm namedIds_subset).length_le
  rwa [List.length_map] at hle

theorem chosenFacts_eq_take :
    chosenFacts cfg m r = (namedFacts cfg m r).take (chosenFacts cfg m r).length := by
  unfold chosenFacts
  split_ifs with hmany
  · have hlong : cfg.stalenessMaxRemovals ≤ (namedFacts cfg m r).length :=
      hmany.le.trans length_namedIds_le
    rw [List.length_take_of_le hlong]
  · rw [List.take_length]

theorem length_chosenFacts_of_many (h : cfg.stalenessMaxRemovals < (namedIds cfg m r).length) :
    (chosenFacts cfg m r).length = cfg.stalenessMaxRemovals := by
  unfold chosenFacts
  rw [if_pos h]
  exact List.length_take_of_le (h.le.trans length_namedIds_le)

theorem mem_chosenFacts {f : Fact} (h : f ∈ chosenFacts cfg m r) : f ∈ namedFacts cfg m r := by
  rw [chosenFacts_eq_take] at h
  exact List.mem_of_mem_take h

theorem mem_staleIds {id : String} :
    id ∈ staleIds cfg m r ↔ ∃ f ∈ chosenFacts cfg m r, f.id = id := by
  have heq : staleIds cfg m r =
      if cfg.stalenessMaxRemovals < (namedIds cfg m r).length then
        ((namedFacts cfg m r).take cfg.stalenessMaxRemovals).map Fact.id
      else namedIds cfg m r := rfl
  rw [heq]
  unfold chosenFacts
  split_ifs
  · exact List.mem_map
  · constructor
    · exact fun hid => List.mem_map.mp (namedIds_subset hid)
    · rintro ⟨f, hf, rfl⟩
      exact (mem_namedFacts.mp hf).2

theorem mem_removedFacts {f : Fact} :
    f ∈ removedFacts cfg m r ↔ f ∈ currentFacts m r ∧ ∃ g ∈ chosenFacts cfg m r, g.id = f.id := by
  unfold removedFacts
  rw [List.mem_filter, decide_eq_true_eq, mem_staleIds]

/-- The facts that are removed are the ones chosen, and others under their identifiers. -/
theorem removedFacts_perm : (removedFacts cfg m r).Perm (chosenFacts cfg m r ++
    ((namedFacts cfg m r).drop (chosenFacts cfg m r).length).filter
      fun f => f.id ∈ staleIds cfg m r) := by
  have hnamed : removedFacts cfg m r =
      ((currentFacts m r).filter fun f => f.id ∈ namedIds cfg m r).filter
        fun f => f.id ∈ staleIds cfg m r := by
    unfold removedFacts
    rw [List.filter_filter]
    refine List.filter_congr fun f hf => ?_
    by_cases hid : f.id ∈ staleIds cfg m r
    · obtain ⟨g, hg, hgid⟩ := mem_staleIds.mp hid
      have hname := (mem_namedFacts.mp (mem_chosenFacts hg)).2
      rw [hgid] at hname
      simp only [hid, hname, decide_true, Bool.and_true]
    · simp only [hid, decide_false, Bool.false_and]
  have hchosen : (chosenFacts cfg m r).filter (fun f => f.id ∈ staleIds cfg m r) =
      chosenFacts cfg m r :=
    List.filter_eq_self.mpr fun f hf => decide_eq_true (mem_staleIds.mpr ⟨f, hf, rfl⟩)
  have hsplit : chosenFacts cfg m r ++ (namedFacts cfg m r).drop (chosenFacts cfg m r).length =
      namedFacts cfg m r := by
    nth_rewrite 1 [chosenFacts_eq_take]
    exact List.take_append_drop _ _
  rw [hnamed]
  refine (namedFacts_perm.symm.filter _).trans ?_
  nth_rewrite 1 [← hsplit]
  rw [List.filter_append, hchosen]

theorem removed_few_iff : (removedFacts cfg m r).length ≤ cfg.stalenessMaxRemovals ↔
    (chosenFacts cfg m r).length ≤ cfg.stalenessMaxRemovals ∧
    ∀ f ∈ chosenFacts cfg m r,
      ∀ g ∈ (namedFacts cfg m r).drop (chosenFacts cfg m r).length, g.id ≠ f.id := by
  rw [removedFacts_perm.length_eq, List.length_append]
  constructor
  · intro hle
    refine ⟨by omega, fun f hf g hg hid => ?_⟩
    have hmem : g ∈ ((namedFacts cfg m r).drop (chosenFacts cfg m r).length).filter
        fun f => f.id ∈ staleIds cfg m r :=
      List.mem_filter.mpr ⟨hg, decide_eq_true (mem_staleIds.mpr ⟨f, hf, hid.symm⟩)⟩
    have hpos := List.length_pos_of_mem hmem
    by_cases hmany : cfg.stalenessMaxRemovals < (namedIds cfg m r).length
    · have hlength := length_chosenFacts_of_many hmany
      omega
    · have hall : chosenFacts cfg m r = namedFacts cfg m r := if_neg hmany
      rw [hall, List.drop_length] at hg
      exact absurd hg List.not_mem_nil
  · rintro ⟨hle, hapart⟩
    have hnone : ((namedFacts cfg m r).drop (chosenFacts cfg m r).length).filter
        (fun f => f.id ∈ staleIds cfg m r) = [] := by
      rw [List.filter_eq_nil_iff]
      intro g hg hid
      obtain ⟨f, hf, heq⟩ := mem_staleIds.mp (of_decide_eq_true hid)
      exact hapart f hf g hg heq.symm
    rw [hnone, List.length_nil]
    exact hle

theorem removed_stale_iff : (∀ f ∈ removedFacts cfg m r, f.Stale cfg r.time) ↔
    ∀ f ∈ chosenFacts cfg m r, ∀ g ∈ currentFacts m r, g.id = f.id →
      (f.Stale cfg r.time ↔ g.Stale cfg r.time) := by
  constructor
  · intro h f hf g hg hid
    have hcurrent := (mem_namedFacts.mp (mem_chosenFacts hf)).1
    have hf' := h f (mem_removedFacts.mpr ⟨hcurrent, f, hf, rfl⟩)
    have hg' := h g (mem_removedFacts.mpr ⟨hg, f, hf, hid.symm⟩)
    exact iff_of_true hf' hg'
  · intro h g hg
    obtain ⟨hcurrent, f, hf, hid⟩ := mem_removedFacts.mp hg
    obtain ⟨c, hc, hcid, hstale⟩ := exists_of_mem_namedIds (mem_namedFacts.mp (mem_chosenFacts hf)).2
    have hf' := (h f hf c hc hcid).mpr hstale
    exact (h f hf g hcurrent hid.symm).mp hf'

theorem mem_keptFacts {f : Fact} :
    f ∈ keptFacts cfg m r ↔ f ∈ currentFacts m r ∧ ∀ g ∈ chosenFacts cfg m r, g.id ≠ f.id := by
  unfold keptFacts
  rw [mem_withoutIds, mem_staleIds]
  simp only [not_exists, not_and]

end Removing

section Capping
variable {cfg : MemoryConfig} {facts : List Fact}

/-- The facts that are cut off are the least certain ones, and then the memory is full. -/
theorem exists_cut (cfg : MemoryConfig) (facts : List Fact) :
    ∃ cut, (capFacts cfg facts ++ cut).Perm facts ∧
      (∀ f ∈ cut, ∀ g ∈ capFacts cfg facts, f.confidence ≤ g.confidence) ∧
      (capFacts cfg facts).length ≤ cfg.maxFacts ∧
      (cut ≠ [] → (capFacts cfg facts).length = cfg.maxFacts) := by
  unfold capFacts
  split_ifs with hmany
  · have hlength : (newest Fact.confidence cfg.maxFacts facts).length = cfg.maxFacts := by
      rw [length_newest, Nat.min_eq_left hmany.le]
    exact ⟨(newestFirst Fact.confidence facts).drop cfg.maxFacts, newest_append_cut _ _,
      fun f hf g hg => le_of_mem_cut hf hg, hlength.le, fun _ => hlength⟩
  · refine ⟨[], ?_, nofun, not_lt.mp hmany, fun h => absurd rfl h⟩
    rw [List.append_nil]

/-- The facts above a bound are cut among themselves. -/
theorem mem_capFacts_above {bound : Rat} {f : Fact} :
    f ∈ capFacts cfg facts ∧ bound < f.confidence ↔
      f ∈ newest Fact.confidence cfg.maxFacts (facts.filter fun f => bound < f.confidence) := by
  unfold capFacts
  split_ifs with hmany
  · have hcut : (newest Fact.confidence cfg.maxFacts facts).filter (fun f => bound < f.confidence) =
        newest Fact.confidence cfg.maxFacts (facts.filter fun f => bound < f.confidence) :=
      newest_filter bound cfg.maxFacts facts
    rw [← hcut, List.mem_filter, decide_eq_true_eq]
    rfl
  · have hfew : (newestFirst Fact.confidence (facts.filter fun f => bound < f.confidence)).length ≤
        cfg.maxFacts := by
      rw [(newestFirst_perm _).length_eq]
      exact (List.length_filter_le _ _).trans (not_lt.mp hmany)
    unfold newest
    rw [List.take_of_length_le hfew, (newestFirst_perm _).mem_iff, List.mem_filter,
      decide_eq_true_eq]

end Capping

namespace AcceptedReply
variable {floats : PyFloat} (r : AcceptedReply floats) {cfg : MemoryConfig} {m data : MemoryData}
  {reply : MemoryReply}

theorem content_of_reply (h : r.reply = .ok reply) :
    ∀ f ∈ reply.update.newFacts, strip f.content ≠ "" := by
  obtain ⟨summaries, -, rfl⟩ := map_eq_ok.mp h
  exact fun f hf => content_of_parse r.accepted hf

theorem stored_of_cleanable (h : r.reply = .ok reply) (hclean : r.cleanable = true) :
    r.stored cfg m = .ok (finalizeUpdate cfg m reply) := by
  refine bind_eq_ok.mpr ⟨reply, h, ?_⟩
  rw [if_pos hclean]

theorem stored_eq_ok (h : r.stored cfg m = .ok data) :
    ∃ reply, r.reply = .ok reply ∧ r.cleanable = true ∧ finalizeUpdate cfg m reply = data := by
  obtain ⟨reply, hreply, hdata⟩ := bind_eq_ok.mp h
  split_ifs at hdata with hclean
  exact ⟨reply, hreply, hclean, Except.ok.inj hdata⟩

end AcceptedReply

section Updates
variable {cfg : MemoryConfig} {m : MemoryData} {r : MemoryReply}

theorem exists_added (hle : cfg.factConfidenceThreshold ≤ 1)
    (hnews : ∀ f ∈ r.update.newFacts, strip f.content ≠ "") :
    (applyUpdates cfg m r).facts = capFacts cfg (keptFacts cfg m r ++ addedFacts cfg m r) ∧
    Adds cfg (keptFacts cfg m r) r.update.newFacts (addedFacts cfg m r) := by
  obtain ⟨added, hfold, hadds⟩ := exists_adds (r := r) hle (keptFacts cfg m r) hnews
  have hadded : addedFacts cfg m r = added := by
    unfold addedFacts
    rw [hfold, List.drop_left]
  rw [hadded]
  refine ⟨?_, hadds⟩
  show capFacts cfg (addFacts cfg r r.update.newFacts (keptFacts cfg m r)) = _
  rw [hfold]

theorem sound_of_mem_keptFacts (hm : ∀ f ∈ m.facts, f.Sound) {f : Fact}
    (hf : f ∈ keptFacts cfg m r) : f.Sound :=
  hm f (mem_withoutIds.mp (mem_keptFacts.mp hf).1).1

theorem keptFacts_eq : keptFacts cfg m r = remainingFacts cfg m r := by
  unfold keptFacts remainingFacts withoutIds
  refine List.filter_congr fun f _ => ?_
  simp only [mem_staleIds, not_exists, not_and]

theorem stated_above (hm : ∀ f ∈ m.facts, f.Sound)
    (hadds : Adds cfg (keptFacts cfg m r) r.update.newFacts (addedFacts cfg m r)) :
    (newest Fact.confidence cfg.maxFacts ((keptFacts cfg m r ++ addedFacts cfg m r).filter
      fun f => 1 < f.confidence)).map Fact.stated =
      overstated cfg (remainingFacts cfg m r) r.update.newFacts := by
  have hkept : (keptFacts cfg m r).filter (fun f => 1 < f.confidence) = [] := by
    refine List.filter_eq_nil_iff.mpr fun f hf => ?_
    simpa using (sound_of_mem_keptFacts hm hf).2.2
  rw [List.filter_append, hkept, List.nil_append, overstated, ← keptFacts_eq, ← hadds.stated]
  exact newest_map Prod.snd Fact.stated cfg.maxFacts _

/-- The facts that are stored are sound if the ones above certainty are dropped for an upload. -/
theorem sound_iff_mentions (h0 : 0 ≤ cfg.factConfidenceThreshold) (hm : ∀ f ∈ m.facts, f.Sound)
    (heq : (applyUpdates cfg m r).facts = capFacts cfg (keptFacts cfg m r ++ addedFacts cfg m r))
    (hadds : Adds cfg (keptFacts cfg m r) r.update.newFacts (addedFacts cfg m r)) :
    (∀ f ∈ (finalizeUpdate cfg m r).facts, f.Sound) ↔
      ∀ x ∈ overstated cfg (remainingFacts cfg m r) r.update.newFacts,
        cfg.mentionsUpload x.1 = true := by
  have hsound : ∀ f ∈ capFacts cfg (keptFacts cfg m r ++ addedFacts cfg m r),
      f.Sound ↔ f.confidence ≤ 1 := by
    intro f hf
    refine ⟨fun h => h.2.2, fun h => ?_⟩
    rcases List.mem_append.mp (mem_capFacts hf) with hkept | hnew
    · exact sound_of_mem_keptFacts hm hkept
    · exact ⟨hadds.content f hnew, h0.trans (hadds.confidence f hnew), h⟩
  have hstored : (finalizeUpdate cfg m r).facts =
      (capFacts cfg (keptFacts cfg m r ++ addedFacts cfg m r)).filter
        fun f => !cfg.mentionsUpload f.content := by
    rw [← heq]
    rfl
  rw [hstored, ← stated_above hm hadds, List.forall_mem_map]
  constructor
  · intro h f hf
    obtain ⟨hcapped, habove⟩ := mem_capFacts_above.mpr hf
    by_contra hmentions
    have hmem : f ∈ (capFacts cfg (keptFacts cfg m r ++ addedFacts cfg m r)).filter
        fun f => !cfg.mentionsUpload f.content :=
      List.mem_filter.mpr ⟨hcapped, by simpa [Fact.stated] using hmentions⟩
    exact absurd (h f hmem).2.2 (not_le.mpr habove)
  · intro h f hf
    obtain ⟨hcapped, hmentions⟩ := List.mem_filter.mp hf
    rw [hsound f hcapped]
    by_contra hlt
    have hupload := h f (mem_capFacts_above.mp ⟨hcapped, not_le.mp hlt⟩)
    rw [Fact.stated] at hupload
    rw [hupload] at hmentions
    cases hmentions

end Updates

/-- A user's writes keep the facts sound, and an update does what it promises exactly when no
content above certainty is stored and no identifier is shared where it matters. -/
theorem writesKeep_iff_updateSafe {floats : PyFloat} (cfg : CheckedConfig) (m : SoundMemory)
    (r : AcceptedReply floats) :
    WritesKeep cfg.toMemoryConfig m.toMemoryData r ↔
      UpdateSafe cfg.toMemoryConfig m.toMemoryData r := by
  have hsound : ∀ reply, r.reply = .ok reply →
      ((∀ f ∈ (finalizeUpdate cfg.toMemoryConfig m.toMemoryData reply).facts, f.Sound) ↔
        ∀ x ∈ overstated cfg.toMemoryConfig (remainingFacts cfg.toMemoryConfig m.toMemoryData reply)
          reply.update.newFacts, cfg.mentionsUpload x.1 = true) := by
    intro reply hreply
    obtain ⟨heq, hadds⟩ := exists_added (m := m.toMemoryData) cfg.threshold_le_one
      (r.content_of_reply hreply)
    exact sound_iff_mentions cfg.zero_le_threshold m.sound heq hadds
  constructor
  · intro h
    refine ⟨fun reply hreply hclean => ?_, fun reply hreply => ?_⟩
    · exact (hsound reply hreply).mp (h.stored _ (r.stored_of_cleanable hreply hclean))
    · have hupdated := h.updated reply hreply
      obtain ⟨hchosen, hapart⟩ := removed_few_iff.mp hupdated.few
      exact ⟨removed_stale_iff.mp hupdated.stale, hchosen, hapart⟩
  · intro h
    refine ⟨?_, ?_, fun data hdata => ?_, fun reply hreply => ?_⟩
    · intro content category confidence uuid now data hdata
      exact apply_createFact_sound m.sound hdata
    · intro id content category confidence data hdata
      exact apply_updateFact_sound m.sound hdata
    · obtain ⟨reply, hreply, hclean, rfl⟩ := r.stored_eq_ok hdata
      exact (hsound reply hreply).mpr (h.stated reply hreply hclean)
    · obtain ⟨heq, hadds⟩ := exists_added (m := m.toMemoryData) cfg.threshold_le_one
        (r.content_of_reply hreply)
      obtain ⟨cut, hperm, hcut, hbounded, -⟩ := exists_cut cfg.toMemoryConfig
        (keptFacts cfg.toMemoryConfig m.toMemoryData reply ++
          addedFacts cfg.toMemoryConfig m.toMemoryData reply)
      rw [← heq] at hperm hcut hbounded
      have hremoval := h.removal reply hreply
      exact {
        bounded := hbounded
        new := hadds.new
        distinct := hadds.distinct
        stale := removed_stale_iff.mpr hremoval.kinds
        few := removed_few_iff.mpr ⟨hremoval.chosen, hremoval.apart⟩
        cut := ⟨cut, hperm, hcut⟩ }

section Percent

/-- `float` on the numbers of the reply below. -/
def smallFloats : PyFloat where
  ofText _ := none
  ofLiteral _ := none
  ofInt n := some n

def percentReply : AcceptedReply smallFloats where
  content := .text ("\x7b\"user\": \x7b\x7d, \"history\": \x7b\x7d, ".toList ++
    "\"newFacts\": [\x7b\"content\": \"Likes tea\", \"confidence\": 95\x7d], ".toList ++
    "\"factsToRemove\": []\x7d".toList)
  data := ⟨[], [], [⟨"Likes tea", "context", 95, none⟩], [], []⟩
  accepted := rfl
  now := "2026-01-01T00:00:00Z"
  time := 0
  uuid _ := "00000000"
  threadId := none

def defaultSettings : CheckedConfig where
  factConfidenceThreshold := 7 / 10
  maxFacts := 100
  stalenessAge := 90
  stalenessMaxRemovals := 10
  stalenessProtectedCategories := ["correction"]
  casefold := id
  factDatetime _ := none
  mentionsUpload _ := false
  withoutUploads := id
  zero_le_threshold := by decide +kernel
  threshold_le_one := by decide +kernel
  ten_le_maxFacts := by decide
  maxFacts_le := by decide
  one_le_maxRemovals := by decide
  maxRemovals_le := by decide

/-- The certainty in percent is stored as it is. -/
theorem percent_is_stored :
    ((percentReply.stored defaultSettings.toMemoryConfig .empty).toOption.map fun data =>
      data.facts.map Fact.confidence) = some [95] ∧
    ¬WritesKeep defaultSettings.toMemoryConfig .empty percentReply := by
  have hstored : ((percentReply.stored defaultSettings.toMemoryConfig .empty).toOption.map
      fun data => data.facts.map Fact.confidence) = some [95] := by
    decide +kernel
  refine ⟨hstored, fun h => ?_⟩
  obtain ⟨data, hdata, hconfidence⟩ := Option.map_eq_some_iff.mp hstored
  have hmem : (95 : Rat) ∈ data.facts.map Fact.confidence := by
    rw [hconfidence]
    exact List.mem_singleton_self _
  obtain ⟨f, hf, hcertain⟩ := List.mem_map.mp hmem
  have hok : percentReply.stored defaultSettings.toMemoryConfig .empty = .ok data := by
    cases hs : percentReply.stored defaultSettings.toMemoryConfig .empty with
    | error e =>
      rw [hs] at hdata
      cases hdata
    | ok stored =>
      rw [hs] at hdata
      exact congrArg Except.ok (Option.some.inj hdata)
  have hle := (h.stored data hok f hf).2.2
  rw [hcertain] at hle
  exact absurd hle (by decide +kernel)

end Percent

end DeerFlow.Memory
