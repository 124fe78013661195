import DeerFlow.Gateway.ThreadScope

/-! A thread keeps the scope it is bound to, and every key the value last written to it, in each
run in which no document is written back over another one's change and no bind call returns
without its binding stored. -/

namespace DeerFlow.Gateway
open Transition Persistence

section Documents
variable {β : Type*}

/-- Every item of `w` is found in `d`. -/
def Recorded (w d : Dict β) : Prop := ∀ k v, w.get k = some v → d.get k = some v

/-- Somebody changed, since `seen` was read, a key that `m` does not write. -/
def Stale [DecidableEq β] (seen m d : Dict β) : Prop :=
  ∃ k ∈ d.keys ++ seen.keys, m.get k = none ∧ d.get k ≠ seen.get k

instance [DecidableEq β] (seen m d : Dict β) : Decidable (Stale seen m d) :=
  inferInstanceAs (Decidable (∃ k ∈ _, _))

variable [DecidableEq β] {seen m w d : Dict β} {k : String}

theorem get_of_not_stale (h : ¬ Stale seen m d) (hm : m.get k = none) : d.get k = seen.get k := by
  by_cases hk : k ∈ d.keys ++ seen.keys
  · by_contra hne
    exact h ⟨k, hk, hm, hne⟩
  · rw [List.mem_append, not_or, Dict.mem_keys, Dict.mem_keys] at hk
    have hd : d.get k = none := by simpa using hk.1
    have hs : seen.get k = none := by simpa using hk.2
    rw [hd, hs]

/-- A document merged into one read earlier keeps what it does not write. -/
theorem get_merged (h : ¬ Stale seen m d) (hm : m.get k = none) :
    (seen.update m).get k = d.get k := by
  rw [Dict.get_update, hm, Option.none_or, get_of_not_stale h hm]

theorem recorded_merged (h : ¬ Stale seen m d) (hw : Recorded w d) :
    Recorded (w.update m) (seen.update m) := by
  intro k v hk
  rw [Dict.get_update] at hk ⊢
  rcases hm : m.get k with _ | v'
  · rw [hm, Option.none_or] at hk
    rw [Option.none_or, ← get_of_not_stale h hm]
    exact hw k v hk
  · rwa [hm] at hk

end Documents

section Property

/-- The row's metadata carries the binding. -/
def Carries (b : ScopeBinding) (r : ThreadMetaRow) : Prop := b.toValue.eq (currentBinding r) = true

instance (b : ScopeBinding) (r : ThreadMetaRow) : Decidable (Carries b r) :=
  inferInstanceAs (Decidable (_ = _))

/-- Every binding a bind call has returned with is stored, no two of them differ, and every
written key has the value last written to it. -/
structure ThreadState.ScopeKept (s : ThreadState) : Prop where
  binding : ∀ b ∈ s.bound, ∃ r ∈ s.row, Carries b r
  agree : ∀ b ∈ s.bound, ∀ b' ∈ s.bound, b = b'
  written : ∀ k v, s.written.get k = some v → ∃ r ∈ s.row, r.metadataJson.get k = some v

/-- The next step of the call writes back a document over a change that somebody made since it
was read, or stores a binding in the place of another, or returns from a bind call whose
binding is not stored because the thread was deleted in between. -/
def ThreadCall.Slips (row : Option ThreadMetaRow) (c : ThreadCall) : Prop :=
  match c.request, c.pc with
  | .updateMetadata metadata _, .merging seen =>
    ∃ r ∈ row, Stale seen (stripReservedMetadata metadata) r.metadataJson
  | .bind _ authorization _ _, .binding _ seen =>
    ∃ r ∈ row, Stale seen (saasScopeBinding authorization).metadata r.metadataJson ∨
      currentBinding r ≠ .none ∧ ¬ Carries (saasScopeBinding authorization) r
  | .bind _ _ _ _, .unbound existing => row = none ∧ existing.userId ≠ none
  | .bind _ authorization _ _, .claiming _ =>
    ∀ r ∈ row, ¬ Carries (saasScopeBinding authorization) r
  | _, _ => False

instance (row : Option ThreadMetaRow) (c : ThreadCall) : Decidable (c.Slips row) := by
  unfold ThreadCall.Slips
  split <;> infer_instance

def ThreadState.Slips (s : ThreadState) : ThreadEvent → Prop
  | .step i _ => ∃ c ∈ s.calls[i]?, c.Slips s.row
  | .call _ | .cancel _ => False

instance (s : ThreadState) (event : ThreadEvent) : Decidable (s.Slips event) := by
  unfold ThreadState.Slips
  split <;> infer_instance

end Property

section Bindings
variable {b b' : ScopeBinding} {r : ThreadMetaRow}

theorem eq_str {t : String} {v : Value} (h : Value.eq (.str t) v = true) : v = .str t := by
  cases v with
  | str u =>
    have htu : t = u := by simpa [Value.eq] using h
    rw [htu]
  | none | bool | int | float | list | dict => simp [Value.eq] at h

theorem get_of_eqItems {k t : String} {xs ys : Dict Value}
    (h : Value.eqItems ((k, .str t) :: xs) ys = true) :
    Dict.get ys k = some (.str t) ∧ Value.eqItems xs ys = true := by
  rw [Value.eqItems, Bool.and_eq_true] at h
  refine ⟨?_, h.2⟩
  rcases hk : Dict.get ys k with _ | v
  · rw [hk] at h
    cases h.1
  · rw [hk] at h
    rw [eq_str h.1]

theorem eq_binding_inj {v : Value} (h : b.toValue.eq v = true) (h' : b'.toValue.eq v = true) :
    b = b' := by
  unfold ScopeBinding.toValue at h h'
  cases v with
  | dict ys =>
    rw [Value.eq, Bool.and_eq_true] at h h'
    obtain ⟨hp, hrest⟩ := get_of_eqItems h.2
    obtain ⟨ht, hrest⟩ := get_of_eqItems hrest
    obtain ⟨hs, hrest⟩ := get_of_eqItems hrest
    obtain ⟨hh, hrest⟩ := get_of_eqItems hrest
    obtain ⟨hv, -⟩ := get_of_eqItems hrest
    obtain ⟨hp', hrest'⟩ := get_of_eqItems h'.2
    obtain ⟨ht', hrest'⟩ := get_of_eqItems hrest'
    obtain ⟨hs', hrest'⟩ := get_of_eqItems hrest'
    obtain ⟨hh', hrest'⟩ := get_of_eqItems hrest'
    obtain ⟨hv', -⟩ := get_of_eqItems hrest'
    have hsame {x y : String} {o : Option Value} (hx : o = some (.str x))
        (hy : o = some (.str y)) : x = y := by
      rw [hx] at hy
      exact Value.str.inj (Option.some.inj hy)
    cases b
    cases b'
    rw [ScopeBinding.mk.injEq]
    exact ⟨hsame hp hp', hsame ht ht', hsame hs hs', hsame hh hh', hsame hv hv'⟩
  | none | bool | int | float | str | list => simp [Value.eq] at h

theorem carries_inj (h : Carries b r) (h' : Carries b' r) : b = b' := eq_binding_inj h h'

theorem eq_toValue_self (b : ScopeBinding) : b.toValue.eq b.toValue = true := by
  simp [ScopeBinding.toValue, Value.eq, Value.eqItems, Dict.get_cons]

theorem carries_of_get (h : r.metadataJson.get saasScopeBindingMetadataKey = some b.toValue) :
    Carries b r := by
  unfold Carries currentBinding
  rw [h]
  exact eq_toValue_self b

theorem Carries.congr {r' : ThreadMetaRow} (h : Carries b r)
    (hget : r'.metadataJson.get saasScopeBindingMetadataKey =
      r.metadataJson.get saasScopeBindingMetadataKey) : Carries b r' := by
  unfold Carries currentBinding at h ⊢
  rwa [hget]

theorem Carries.ne_none (h : Carries b r) : currentBinding r ≠ .none := by
  intro hnone
  unfold Carries at h
  rw [hnone] at h
  cases h

theorem get_stripReservedMetadata (metadata : Dict Value) :
    (stripReservedMetadata metadata).get saasScopeBindingMetadataKey = none := by
  unfold stripReservedMetadata
  rw [Dict.get_filter metadata fun k => !serverReservedMetadataKeys.contains k]
  exact if_neg (by decide)

theorem get_metadata_self (b : ScopeBinding) :
    b.metadata.get saasScopeBindingMetadataKey = some b.toValue := by
  unfold ScopeBinding.metadata
  rw [Dict.get_cons, if_pos rfl]

end Bindings

namespace ThreadState
variable {s t : ThreadState} {r existing : ThreadMetaRow} {b : ScopeBinding} {i : Nat}
variable {now : DateTime} {threadId : String}

section Operations

theorem ScopeKept.of_binding (hb : ∀ b ∈ s.bound, ∃ r ∈ s.row, Carries b r)
    (hw : ∀ k v, s.written.get k = some v → ∃ r ∈ s.row, r.metadataJson.get k = some v) :
    s.ScopeKept := by
  refine ⟨hb, ?_, hw⟩
  intro b hmem b' hmem'
  obtain ⟨r, hr, hc⟩ := hb b hmem
  obtain ⟨r', hr', hc'⟩ := hb b' hmem'
  have hrr : r' = r := Option.mem_unique hr' hr
  subst hrr
  exact carries_inj hc hc'

theorem ScopeKept.nothing_bound (h : s.ScopeKept) (hrow : s.row = none) :
    ∀ b ∈ s.bound, False := by
  intro b hb
  obtain ⟨r, hr, -⟩ := h.binding b hb
  rw [hrow] at hr
  cases hr

theorem ScopeKept.nothing_written (h : s.ScopeKept) (hrow : s.row = none) {k : String} {v : Value}
    (hk : s.written.get k = some v) : False := by
  obtain ⟨r, hr, -⟩ := h.written k v hk
  rw [hrow] at hr
  cases hr

theorem kept_goto (h : s.ScopeKept) (pc : ThreadPc) : (s.goto i pc).ScopeKept :=
  ⟨h.binding, h.agree, h.written⟩

theorem kept_finish (h : s.ScopeKept) (hrow : ∃ r ∈ s.row, Carries b r) :
    (s.finish i b existing).ScopeKept := by
  refine ScopeKept.of_binding ?_ h.written
  intro b' hb'
  rcases List.mem_append.mp hb' with hb' | hb'
  · exact h.binding b' hb'
  · rw [List.mem_singleton] at hb'
    subst hb'
    exact hrow

theorem kept_insertRow (h : s.ScopeKept) (hrow : s.row = none) : (s.insertRow r).ScopeKept := by
  refine ScopeKept.of_binding ?_ ?_
  · intro b hb
    exact (h.nothing_bound hrow b hb).elim
  · intro k v hk
    exact (h.nothing_written hrow hk).elim

theorem kept_commitColumn (h : s.ScopeKept) (c : Column) : (s.commitColumn c now).ScopeKept := by
  refine ScopeKept.of_binding ?_ ?_
  · intro b hb
    obtain ⟨r, hr, hc⟩ := h.binding b hb
    refine ⟨r.setColumn c now, Option.mem_map_of_mem _ hr, hc.congr ?_⟩
    rw [ThreadMetaRow.setColumn_metadataJson]
  · intro k v hk
    obtain ⟨r, hr, hget⟩ := h.written k v hk
    refine ⟨r.setColumn c now, Option.mem_map_of_mem _ hr, ?_⟩
    rwa [ThreadMetaRow.setColumn_metadataJson]

/-- Writing back a whole document over one that has not changed since it was read. -/
theorem kept_commitMetadata {seen metadata : Dict Value} (h : s.ScopeKept) (hr : s.row = some r)
    (hstale : ¬ Stale seen metadata r.metadataJson)
    (hbinding : ∀ b, Carries b r → Carries b (r.setMetadata (seen.update metadata) now)) :
    (s.commitMetadata r seen metadata now).ScopeKept := by
  have hrecorded : Recorded s.written r.metadataJson := by
    intro k v hk
    obtain ⟨r', hr', hget⟩ := h.written k v hk
    rw [hr, Option.mem_some_iff] at hr'
    subst hr'
    exact hget
  refine ScopeKept.of_binding ?_ ?_
  · intro b hb
    obtain ⟨r', hr', hc⟩ := h.binding b hb
    rw [hr, Option.mem_some_iff] at hr'
    subst hr'
    exact ⟨_, rfl, hbinding b hc⟩
  · intro k v hk
    exact ⟨_, rfl, recorded_merged hstale hrecorded k v hk⟩

theorem kept_deleteRow (h : s.ScopeKept) : s.deleteRow.ScopeKept := by
  unfold deleteRow
  split
  · exact h
  · refine ⟨?_, ?_, ?_⟩
    · intro b hb
      cases hb
    · intro b hb
      cases hb
    · intro k v hk
      cases hk

theorem carries_stripped {seen metadata : Dict Value}
    (hstale : ¬ Stale seen (stripReservedMetadata metadata) r.metadataJson) (h : Carries b r) :
    Carries b (r.setMetadata (seen.update (stripReservedMetadata metadata)) now) := by
  refine h.congr ?_
  rw [ThreadMetaRow.setMetadata_metadataJson]
  exact get_merged hstale (get_stripReservedMetadata metadata)

theorem carries_stored (seen : Dict Value) :
    Carries b (r.setMetadata (seen.update b.metadata) now) := by
  refine carries_of_get ?_
  rw [ThreadMetaRow.setMetadata_metadataJson, Dict.get_update, get_metadata_self, Option.some_or]

theorem kept_validate (h : s.ScopeKept) (hr : s.row = some existing) :
    (s.validate i b existing).ScopeKept := by
  unfold validate
  dsimp only
  split_ifs with hother hunbound howner
  · exact kept_goto h _
  · exact kept_goto h _
  · exact kept_goto h _
  · refine kept_finish h ⟨existing, hr, ?_⟩
    unfold Carries
    by_contra hne
    exact hother ⟨hunbound, hne⟩

theorem kept_bindingStored (h : s.ScopeKept)
    (hrow : existing.userId ≠ none → ∃ r ∈ s.row, Carries b r) :
    (s.bindingStored i b existing).ScopeKept := by
  unfold bindingStored
  dsimp only
  split_ifs with howner
  · exact kept_goto h _
  · exact kept_finish h (hrow howner)

end Operations

section Steps

theorem row_of_getOwned {row : Option ThreadMetaRow} {user : Option String}
    (h : ThreadMetaRepository.getOwned row user = some existing) : row = some existing :=
  (Option.filter_eq_some_iff.mp h).1

theorem row_of_readMetadata {row : Option ThreadMetaRow}
    (h : ThreadMetaRepository.readMetadata row none = none) : row = none := by
  cases row with
  | none => rfl
  | some r => cases h

section Bind
variable {process : Nat} {authorization : AuthorizationContext} {assistantId : Option String}
variable {metadata : Option (Dict Value)}

theorem kept_created (h : s.ScopeKept) (hrow : s.row = none)
    (hget : r.metadataJson.get saasScopeBindingMetadataKey = some b.toValue) :
    ((s.insertRow r).finish i b r).ScopeKept :=
  kept_finish (kept_insertRow h hrow) ⟨r, rfl, carries_of_get hget⟩

theorem kept_bound {seen : Dict Value} (h : s.ScopeKept) (hr : s.row = some r)
    (hstale : ¬ Stale seen b.metadata r.metadataJson)
    (hother : ¬ (currentBinding r ≠ .none ∧ ¬ Carries b r)) :
    ((s.commitMetadata r seen b.metadata now).bindingStored i b existing).ScopeKept := by
  have hkept : (s.commitMetadata r seen b.metadata now).ScopeKept := by
    refine kept_commitMetadata h hr hstale fun b' hb' => ?_
    -- what the row carries already is this binding
    have hb : Carries b r := by
      by_contra hne
      exact hother ⟨hb'.ne_none, hne⟩
    rw [carries_inj hb' hb]
    exact carries_stored seen
  exact kept_bindingStored hkept fun _ => ⟨_, rfl, carries_stored seen⟩

theorem kept_bindStep {pc : ThreadPc} (h : s.ScopeKept)
    (hslip : ¬ ThreadCall.Slips s.row ⟨.bind process authorization assistantId metadata, pc⟩)
    (ht : s.bindStep threadId i process authorization assistantId metadata now pc = some t) :
    t.ScopeKept := by
  cases pc with
  | start =>
    simp only [bindStep] at ht
    split_ifs at ht
    split at ht
    · rename_i existing hfound
      cases ht
      exact kept_validate h (row_of_getOwned hfound)
    · cases ht
      exact kept_goto h _
  | unknown =>
    simp only [bindStep] at ht
    split at ht
    · rename_i existing hfound
      split_ifs at ht
      · cases ht
        exact kept_goto h _
      · cases ht
        exact kept_validate h (row_of_getOwned hfound)
    · cases ht
      exact kept_goto h _
  | missing =>
    simp only [bindStep] at ht
    split at ht
    · cases ht
      exact kept_goto h _
    · rename_i hrow
      cases ht
      refine kept_created h hrow ?_
      exact Dict.get_set_self _ _ _
  | unbound existing =>
    simp only [bindStep] at ht
    split at ht
    · cases ht
      exact kept_goto h _
    · rename_i hread
      cases ht
      -- the thread was deleted; only an unowned one is still to be claimed
      refine kept_bindingStored h fun howner => ?_
      exact absurd ⟨row_of_readMetadata hread, howner⟩ hslip
  | binding existing seen =>
    simp only [bindStep] at ht
    split at ht
    · rename_i r hrow
      cases ht
      refine kept_bound h hrow ?_ ?_
      · exact fun hstale => hslip ⟨r, hrow, .inl hstale⟩
      · exact fun hother => hslip ⟨r, hrow, .inr hother⟩
    · cases ht
      exact kept_goto h _
  | claiming existing =>
    cases ht
    refine kept_finish (kept_commitColumn h _) ?_
    have hcarries : ∃ r ∈ s.row, Carries (saasScopeBinding authorization) r := by
      by_contra hnone
      exact hslip fun r hr hc => hnone ⟨r, hr, hc⟩
    obtain ⟨r, hr, hc⟩ := hcarries
    refine ⟨_, Option.mem_map_of_mem _ hr, hc.congr ?_⟩
    rw [ThreadMetaRow.setColumn_metadataJson]
  | merging | permitted | done | bound | raised => cases ht

end Bind

theorem kept_callStep {c : ThreadCall} (h : s.ScopeKept) (hslip : ¬ c.Slips s.row)
    (ht : s.callStep threadId i now c = some t) : t.ScopeKept := by
  obtain ⟨request, pc⟩ := c
  cases request with
  | create args =>
    cases pc with
    | start =>
      simp only [callStep] at ht
      split at ht
      · cases ht
        exact kept_goto h _
      · rename_i hrow
        cases ht
        exact kept_goto (kept_insertRow h hrow) _
    | _ => cases ht
  | updateMetadata metadata user =>
    cases pc with
    | start =>
      simp only [callStep] at ht
      split at ht
      · cases ht
        exact kept_goto h _
      · cases ht
        exact kept_goto h _
    | merging seen =>
      simp only [callStep] at ht
      split at ht
      · rename_i r hrow
        cases ht
        have hstale : ¬ Stale seen (stripReservedMetadata metadata) r.metadataJson :=
          fun hstale => hslip ⟨r, hrow, hstale⟩
        exact kept_goto (kept_commitMetadata h hrow hstale fun _ hb => carries_stripped hstale hb) _
      · cases ht
        exact kept_goto h _
    | _ => cases ht
  | updateColumn column user =>
    cases pc with
    | start =>
      cases ht
      exact kept_goto h _
    | permitted =>
      cases ht
      exact kept_goto (kept_commitColumn h column) _
    | _ => cases ht
  | delete user =>
    cases pc with
    | start =>
      cases ht
      exact kept_goto h _
    | permitted =>
      cases ht
      exact kept_goto (kept_deleteRow h) _
    | _ => cases ht
  | bind process authorization assistantId metadata => exact kept_bindStep h hslip ht

theorem kept_step {event : ThreadEvent} (h : s.ScopeKept) (hslip : ¬ s.Slips event)
    (ht : s.step threadId event = some t) : t.ScopeKept := by
  cases event with
  | call request =>
    cases ht
    exact ⟨h.binding, h.agree, h.written⟩
  | step i now =>
    obtain ⟨c, hc, hstep⟩ := Option.bind_eq_some_iff.mp ht
    have hcall : ¬ c.Slips s.row := fun hs => hslip ⟨c, hc, hs⟩
    exact kept_callStep h hcall hstep
  | cancel i =>
    obtain ⟨c, hc, hstep⟩ := Option.bind_eq_some_iff.mp ht
    split at hstep
    · cases hstep
    · cases hstep
    · cases hstep
    · cases hstep
      exact kept_goto h _

end Steps

end ThreadState

section Runs
variable {threadId : String} {row : Option ThreadMetaRow} {s : ThreadState}

theorem scope_binding_kept
    (h : Reachable ((threadScope threadId row).when fun s event => ¬ s.Slips event) s) :
    s.ScopeKept := by
  refine h.invariant (I := ThreadState.ScopeKept) ?_ ?_
  · rintro s rfl
    refine ⟨?_, ?_, ?_⟩
    · intro b hb
      cases hb
    · intro b hb
      cases hb
    · intro k v hk
      cases hk
  · intro s event t _ hkept ht
    exact ThreadState.kept_step hkept ht.1 ht.2

private def noon : DateTime := ⟨2026, 1, 2, 12, 0, 0, 0⟩

private def scopeOf (tenant : String) : AuthorizationContext :=
  { (default : AuthorizationContext) with principalId := "alice", tenantId := tenant }

private def unscoped : ThreadMetaRow := .create "t" ⟨none, some "alice", none, none⟩ noon

private def rename : ThreadRequest := .updateMetadata [("title", .str "x")] (some "alice")

private def bindIn (process : Nat) (tenant : String) : ThreadRequest :=
  .bind process (scopeOf tenant) none none

private def takeSteps (n i : Nat) : List ThreadEvent := List.replicate n (.step i noon)

private def scopeScript (events : List ThreadEvent) : List (ThreadState → ThreadEvent) :=
  events.map fun event _ => event

/-- The thread is bound, renamed, and bound again to the same scope in another process. -/
theorem scope_binding_kept_renamed : ∃ s : ThreadState,
    s.bound = [saasScopeBinding (scopeOf "a"), saasScopeBinding (scopeOf "a")] ∧
      s.written.get "title" = some (.str "x") ∧ s.ScopeKept := by
  have hrun : (runScript (guarded (fun s event => ¬ ThreadState.Slips s event)
      (ThreadState.step "t")) (.init (some unscoped)) (scopeScript (.call (bindIn 0 "a") ::
        takeSteps 3 0 ++ .call rename :: takeSteps 2 1 ++ .call (bindIn 1 "a") ::
          takeSteps 1 2))).any (fun s =>
        decide (s.bound = [saasScopeBinding (scopeOf "a"), saasScopeBinding (scopeOf "a")] ∧
          s.written.get "title" = some (.str "x"))) = true := by
    decide +kernel
  obtain ⟨s, hs, hbound, hwritten⟩ := exists_reachable_of_decide _ hrun
  exact ⟨s, hbound, hwritten, scope_binding_kept (when_of_guarded hs)⟩

/-- The renaming read the thread before it was bound and writes it back after: the binding is
gone, and the next bind call gives the thread to another tenant. -/
theorem scope_binding_lost : ∃ s : ThreadState, Reachable (threadScope "t" (some unscoped)) s ∧
    s.bound = [saasScopeBinding (scopeOf "a"), saasScopeBinding (scopeOf "b")] ∧
      ¬ s.ScopeKept := by
  have hrun : (runScript (ThreadState.step "t") (.init (some unscoped)) (scopeScript
      (.call rename :: takeSteps 1 0 ++ .call (bindIn 0 "a") :: takeSteps 3 1 ++ takeSteps 1 0 ++
        .call (bindIn 0 "b") :: takeSteps 3 2))).any (fun s =>
        decide (s.bound = [saasScopeBinding (scopeOf "a"), saasScopeBinding (scopeOf "b")])) =
      true := by
    decide +kernel
  obtain ⟨s, hs, hbound⟩ := exists_reachable_of_decide _ hrun
  refine ⟨s, hs, hbound, fun hkept => ?_⟩
  have hsame : saasScopeBinding (scopeOf "a") = saasScopeBinding (scopeOf "b") :=
    hkept.agree _ (by simp [hbound]) _ (by simp [hbound])
  exact absurd hsame (by decide)

end Runs

end DeerFlow.Gateway
