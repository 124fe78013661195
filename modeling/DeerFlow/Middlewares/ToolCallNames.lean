import DeerFlow.Middlewares.DanglingToolCalls

/-! Repairing the names of the calls of a message: the calls keep their ids and
their order, and a second repair finds nothing. -/

namespace DeerFlow.Middlewares.DanglingToolCalls

section Names

theorem validToolName_normalize (name : Value) :
    validToolName (.str (normalizeToolName name)) = true := by
  have hunknown : validToolName (.str unknownToolName) = true := by decide
  unfold normalizeToolName
  cases name with
  | str s =>
    dsimp only
    split_ifs with h
    · simp [validToolName, strip_strip, h]
    · exact hunknown
  | none | bool | int | float | list | dict => exact hunknown

theorem normalize_of_valid {name : String} (h : validToolName (.str name) = true) :
    normalizeToolName (.str name) = strip name := by
  unfold validToolName at h
  unfold normalizeToolName
  exact if_pos (of_decide_eq_true h)

theorem normalize_normalize (name : Value) :
    normalizeToolName (.str (normalizeToolName name)) = normalizeToolName name := by
  rw [normalize_of_valid (validToolName_normalize name)]
  have hunknown : strip unknownToolName = unknownToolName := by decide
  unfold normalizeToolName
  cases name with
  | str s =>
    dsimp only
    split_ifs with h
    · exact strip_strip s
    · exact hunknown
  | none | bool | int | float | list | dict => exact hunknown

theorem truthy_of_valid {name : String} (h : validToolName (.str name) = true) :
    (Value.str name).truthy = true := by
  unfold validToolName at h
  have hname : strip name ≠ "" := of_decide_eq_true h
  have hne : name ≠ "" := by
    rintro rfl
    exact hname (by decide)
  simp [Value.truthy, hne]

end Names

section Items
variable {d : Dict Value} {k : String}

theorem item_set (d : Dict Value) (k k' : String) (v : Value) :
    item (d.set k v) k' = if k' = k then v else item d k' := by
  unfold item
  rw [Dict.get_set]
  split_ifs <;> rfl

@[simp] theorem item_set_self (d : Dict Value) (k : String) (v : Value) :
    item (d.set k v) k = v := by simp [item_set]

theorem item_set_ne {k' : String} (h : k' ≠ k) (v : Value) : item (d.set k v) k' = item d k' := by
  simp [item_set, h]

@[simp] theorem item_sanitizeName_name (d : Dict Value) :
    item (sanitizeName d) "name" = .str (normalizeToolName (item d "name")) := by
  unfold sanitizeName
  dsimp only
  split_ifs with h
  · exact h
  · exact item_set_self d "name" _

theorem item_sanitizeName (h : k ≠ "name") : item (sanitizeName d) k = item d k := by
  unfold sanitizeName
  dsimp only
  split_ifs
  · rfl
  · exact item_set_ne h _

theorem sanitizeName_sanitizeName (d : Dict Value) :
    sanitizeName (sanitizeName d) = sanitizeName d := by
  have hname : item (sanitizeName d) "name" =
      .str (normalizeToolName (item (sanitizeName d) "name")) := by
    rw [item_sanitizeName_name, normalize_normalize]
  conv_lhs => unfold sanitizeName
  exact if_pos hname

theorem item_sanitizeRawName_id (d : Dict Value) : item (sanitizeRawName d) "id" = item d "id" := by
  unfold sanitizeRawName
  split
  · split_ifs
    · rfl
    · exact item_set_ne (by decide) _
  · exact item_sanitizeName (by decide)

theorem sanitizeRawName_sanitizeRawName (d : Dict Value) :
    sanitizeRawName (sanitizeRawName d) = sanitizeRawName d := by
  rcases hd : item d "function" with _ | b | n | q | s | xs | f
  case dict =>
    by_cases hf : sanitizeName f = f
    · have hsame : sanitizeRawName d = d := by simp [sanitizeRawName, hd, hf]
      rw [hsame, hsame]
    · have hset : sanitizeRawName d = d.set "function" (.dict (sanitizeName f)) := by
        simp [sanitizeRawName, hd, hf]
      have hagain : sanitizeRawName (d.set "function" (.dict (sanitizeName f))) =
          d.set "function" (.dict (sanitizeName f)) := by
        conv_lhs => unfold sanitizeRawName
        simp [sanitizeName_sanitizeName]
      rw [hset, hagain]
  all_goals
    have hsan : sanitizeRawName d = sanitizeName d := by simp [sanitizeRawName, hd]
    have hagain : sanitizeRawName (sanitizeName d) = sanitizeName (sanitizeName d) := by
      simp [sanitizeRawName, item_sanitizeName, hd]
    rw [hsan, hagain, sanitizeName_sanitizeName]

end Items

section Calls
variable {c c' : Dict Value} {m : AiMessage}

/-- The call has the same id, and is marked as without a name at most if it was. -/
structure Repaired (c c' : Dict Value) : Prop where
  id : callId c' = callId c
  marked : (item c' "invalid_tool_name").truthy = true → (item c "invalid_tool_name").truthy = true

theorem Repaired.refl (c : Dict Value) : Repaired c c := ⟨rfl, fun h => h⟩

theorem item_markInvalidName {name : Value} {k : String} (h : k ≠ "invalid_tool_name") :
    item (markInvalidName c name) k = item c k := by
  unfold markInvalidName
  split_ifs
  · rfl
  · exact item_set_ne h _

theorem marked_markInvalidName (c : Dict Value) (name : Value) :
    item (markInvalidName c name) "invalid_tool_name" =
      if validToolName name then item c "invalid_tool_name" else .bool true := by
  unfold markInvalidName
  split_ifs
  · rfl
  · exact item_set_self c _ _

theorem repaired_structuredCall (d : Dict Value) :
    Repaired (structuredCall d) (structuredCall (sanitizeName d)) := by
  constructor
  · unfold callId structuredCall
    simp [item_markInvalidName, item_set_ne, item_sanitizeName]
  · unfold structuredCall
    dsimp only
    rw [marked_markInvalidName, marked_markInvalidName, item_sanitizeName_name,
      validToolName_normalize, if_pos rfl, item_set_ne (by decide), item_set_ne (by decide),
      item_sanitizeName (by decide)]
    split_ifs
    · exact id
    · exact fun _ => rfl

theorem validToolName_rawName (d : Dict Value) (h : validToolName (rawName d) = true) :
    validToolName (rawName (sanitizeRawName d)) = true := by
  rcases hd : item d "function" with _ | b | n | q | s | xs | f
  case dict =>
    by_cases hf : sanitizeName f = f
    · have hsame : sanitizeRawName d = d := by simp [sanitizeRawName, hd, hf]
      rw [hsame]
      exact h
    · have hset : sanitizeRawName d = d.set "function" (.dict (sanitizeName f)) := by
        simp [sanitizeRawName, hd, hf]
      rw [hset]
      unfold rawName at h ⊢
      have hname : item (d.set "function" (.dict (sanitizeName f))) "name" = item d "name" :=
        item_set_ne (by decide) _
      rw [hname, item_set_self]
      dsimp only at h ⊢
      split_ifs at h ⊢ with htruthy
      · exact h
      · rw [item_sanitizeName_name]
        exact validToolName_normalize _
  all_goals
    have hsan : sanitizeRawName d = sanitizeName d := by simp [sanitizeRawName, hd]
    have hvalid := validToolName_normalize (item d "name")
    have hname : rawName (sanitizeName d) = .str (normalizeToolName (item d "name")) := by
      simp [rawName, truthy_of_valid hvalid]
    rw [hsan, hname]
    exact hvalid

theorem repaired_rawCall (d : Dict Value) :
    Repaired (rawCall d) (rawCall (sanitizeRawName d)) := by
  constructor
  · have hid : ∀ d : Dict Value, callId (rawCall d) = item d "id" := by
      intro d
      unfold callId rawCall
      rw [item_markInvalidName (by decide)]
      rfl
    rw [hid, hid, item_sanitizeRawName_id]
  · unfold rawCall
    rw [marked_markInvalidName, marked_markInvalidName]
    by_cases hvalid : validToolName (rawName d) = true
    · rw [if_pos hvalid, if_pos (validToolName_rawName d hvalid)]
      exact fun h => h
    · rw [if_neg hvalid]
      exact fun _ => rfl

theorem dicts_map (f : Dict Value → Dict Value) (xs : List Value) :
    dicts (xs.map (mapDict f)) = (dicts xs).map f := by
  induction xs with
  | nil => rfl
  | cons x xs ih =>
    unfold dicts at ih ⊢
    cases x with
    | dict d | none | bool | int | float | str | list => simp [mapDict, ih]

theorem map_mapDict {f : Dict Value → Dict Value} (hf : ∀ d, f (f d) = f d) (xs : List Value) :
    (xs.map (mapDict f)).map (mapDict f) = xs.map (mapDict f) := by
  rw [List.map_map]
  apply List.map_congr_left
  intro x _
  cases x with
  | dict d => simp [mapDict, hf]
  | none | bool | int | float | str | list => rfl

theorem iterate_list (xs : List Value) : iterate (.list xs) = some xs := by
  unfold iterate Value.truthy
  cases xs with
  | nil | cons x xs => rfl

theorem sanitizeRawToolCalls_of_list {kwargs : Dict Value} {raw : List Value}
    (h : rawToolCalls kwargs = .list raw) : sanitizeRawToolCalls kwargs =
      if raw.map (mapDict sanitizeRawName) = raw then kwargs
      else kwargs.set "tool_calls" (.list (raw.map (mapDict sanitizeRawName))) := by
  simp [sanitizeRawToolCalls, h]

theorem rawToolCalls_sanitize {kwargs : Dict Value} {raw : List Value}
    (h : rawToolCalls kwargs = .list raw) :
    rawToolCalls (sanitizeRawToolCalls kwargs) = .list (raw.map (mapDict sanitizeRawName)) := by
  rw [sanitizeRawToolCalls_of_list h]
  split_ifs with hsame
  · rw [h, hsame]
  · exact item_set_self _ _ _

theorem sanitizeRawToolCalls_of_not_list {kwargs : Dict Value}
    (h : ∀ raw, rawToolCalls kwargs ≠ .list raw) : sanitizeRawToolCalls kwargs = kwargs := by
  unfold sanitizeRawToolCalls
  split
  · next raw hraw => exact absurd hraw (h raw)
  · rfl

theorem sanitizeRawToolCalls_sanitizeRawToolCalls (kwargs : Dict Value) :
    sanitizeRawToolCalls (sanitizeRawToolCalls kwargs) = sanitizeRawToolCalls kwargs := by
  by_cases h : ∃ raw, rawToolCalls kwargs = .list raw
  · obtain ⟨raw, hraw⟩ := h
    have hsame := map_mapDict sanitizeRawName_sanitizeRawName raw
    rw [sanitizeRawToolCalls_of_list (rawToolCalls_sanitize hraw), if_pos hsame]
  · have hkwargs : sanitizeRawToolCalls kwargs = kwargs :=
      sanitizeRawToolCalls_of_not_list (not_exists.mp h)
    rw [hkwargs, hkwargs]

theorem sanitize_sanitize (m : AiMessage) :
    sanitizeAiMessageToolNames (sanitizeAiMessageToolNames m) = sanitizeAiMessageToolNames m := by
  have hcalls := map_mapDict sanitizeName_sanitizeName m.toolCalls
  have hkwargs := sanitizeRawToolCalls_sanitizeRawToolCalls m.additionalKwargs
  unfold sanitizeAiMessageToolNames
  dsimp only
  rw [hcalls, hkwargs]

theorem messageToolCalls_sanitize {calls : List (Dict Value)}
    (h : messageToolCalls m = some calls) : ∃ calls',
      messageToolCalls (sanitizeAiMessageToolNames m) = some calls' ∧
        List.Forall₂ Repaired calls calls' := by
  have hmap : ∀ (f g : Dict Value → Dict Value), (∀ d, Repaired (f d) (f (g d))) →
      ∀ ds : List (Dict Value), List.Forall₂ Repaired (ds.map f) ((ds.map g).map f) := by
    intro f g hfg ds
    induction ds with
    | nil => exact .nil
    | cons d ds ih => exact .cons (hfg d) ih
  have hinvalid : List.Forall₂ Repaired ((dicts m.invalidToolCalls).map invalidCall)
      ((dicts m.invalidToolCalls).map invalidCall) := List.forall₂_same.mpr fun c _ => .refl c
  unfold messageToolCalls at h ⊢
  dsimp only at h ⊢
  by_cases hempty : m.toolCalls = []
  · have hempty' : (sanitizeAiMessageToolNames m).toolCalls = [] := by
      simp [sanitizeAiMessageToolNames, hempty]
    rw [if_pos hempty] at h
    rw [if_pos hempty']
    change ∃ calls', (iterate (rawToolCalls (sanitizeRawToolCalls m.additionalKwargs))).map
      (fun raw => (dicts raw).map rawCall ++ (dicts m.invalidToolCalls).map invalidCall) =
        some calls' ∧ _
    obtain ⟨items, hitems, rfl⟩ := Option.map_eq_some_iff.mp h
    by_cases hlist : ∃ raw, rawToolCalls m.additionalKwargs = .list raw
    · obtain ⟨raw, hraw⟩ := hlist
      rw [hraw, iterate_list] at hitems
      cases hitems
      rw [rawToolCalls_sanitize hraw, iterate_list, Option.map_some, dicts_map]
      exact ⟨_, rfl, List.rel_append (hmap rawCall sanitizeRawName repaired_rawCall _) hinvalid⟩
    · rw [sanitizeRawToolCalls_of_not_list (not_exists.mp hlist), hitems, Option.map_some]
      exact ⟨_, rfl, List.forall₂_same.mpr fun c _ => .refl c⟩
  · have hempty' : (sanitizeAiMessageToolNames m).toolCalls ≠ [] := by
      simp [sanitizeAiMessageToolNames, hempty]
    rw [if_neg hempty] at h
    cases h
    rw [if_neg hempty']
    refine ⟨_, rfl, List.rel_append ?_ hinvalid⟩
    have hdicts : dicts (sanitizeAiMessageToolNames m).toolCalls =
        (dicts m.toolCalls).map sanitizeName := dicts_map sanitizeName m.toolCalls
    rw [hdicts]
    exact hmap structuredCall sanitizeName repaired_structuredCall _

theorem validToolName_of_mem {calls : List (Dict Value)} (h : messageToolCalls m = some calls) :
    ∀ c ∈ calls, validToolName (item c "name") = true := by
  have hinvalid : ∀ c ∈ (dicts m.invalidToolCalls).map invalidCall,
      validToolName (item c "name") = true := by
    intro c hc
    obtain ⟨d, -, rfl⟩ := List.mem_map.mp hc
    unfold invalidCall
    rw [item_markInvalidName (by decide)]
    exact validToolName_normalize (item d "name")
  unfold messageToolCalls at h
  dsimp only at h
  split_ifs at h with hempty
  · obtain ⟨raw, -, rfl⟩ := Option.map_eq_some_iff.mp h
    intro c hc
    rcases List.mem_append.mp hc with hc | hc
    · obtain ⟨d, -, rfl⟩ := List.mem_map.mp hc
      unfold rawCall
      rw [item_markInvalidName (by decide)]
      exact validToolName_normalize (rawName d)
    · exact hinvalid c hc
  · cases h
    intro c hc
    rcases List.mem_append.mp hc with hc | hc
    · obtain ⟨d, -, rfl⟩ := List.mem_map.mp hc
      unfold structuredCall
      rw [item_markInvalidName (by decide), item_set_self]
      exact validToolName_normalize (item d "name")
    · exact hinvalid c hc

end Calls

end DeerFlow.Middlewares.DanglingToolCalls
