import DeerFlow.Runtime.TokenAccounting

/-! Token accounting is conserved. The counters always are the sums over a list of contributions,
one for each run or source that was counted. -/

namespace DeerFlow.Runtime

section Contributions

inductive UsageSource where
  | llm (runId : String)
  | external (sourceId : String)
  deriving DecidableEq

/-- What one model call adds to the counters. -/
structure Contribution where
  source : UsageSource
  caller : CallerKind
  inputTokens : Nat
  outputTokens : Nat
  totalTokens : Nat
  deriving DecidableEq

/-- The total that is counted where none is given. -/
def countedTotal (given inputTokens outputTokens : Nat) : Nat :=
  if given = 0 then inputTokens + outputTokens else given

def UsageMessage.contribution (m : UsageMessage) (runId caller : String) : Contribution :=
  let inputTokens := (m.usage.bind (·.inputTokens)).getD 0
  let outputTokens := (m.usage.bind (·.outputTokens)).getD 0
  ⟨.llm runId, callerKind caller, inputTokens, outputTokens,
    countedTotal ((m.usage.bind (·.totalTokens)).getD 0) inputTokens outputTokens⟩

def ExternalUsage.contribution (r : ExternalUsage) : Contribution :=
  let inputTokens := r.inputTokens.getD 0
  let outputTokens := r.outputTokens.getD 0
  ⟨.external r.sourceRunId, callerKind r.caller, inputTokens, outputTokens,
    countedTotal (r.totalTokens.getD 0) inputTokens outputTokens⟩

/-- Everything a callback offers to be counted. -/
def UsageCallback.offers : UsageCallback → List Contribution
  | .onLlmEnd runId tags messages =>
    messages.map fun m => m.contribution runId (identifyCaller tags)
  | .external records => records.map (·.contribution)

def callerSum (kind : CallerKind) (cs : List Contribution) : Nat :=
  ((cs.filter fun c => c.caller = kind).map (·.totalTokens)).sum

theorem callerSum_concat (kind : CallerKind) (cs : List Contribution) (c : Contribution) :
    callerSum kind (cs ++ [c]) =
      callerSum kind cs + if c.caller = kind then c.totalTokens else 0 := by
  unfold callerSum
  by_cases h : c.caller = kind <;> simp [h]

theorem callerSum_add (cs : List Contribution) :
    callerSum .leadAgent cs + callerSum .subagent cs + callerSum .middleware cs =
      (cs.map (·.totalTokens)).sum := by
  induction cs using List.reverseRecOn with
  | nil => rfl
  | append_singleton cs c ih =>
    rw [callerSum_concat, callerSum_concat, callerSum_concat, List.map_append, List.sum_append,
      ← ih]
    cases hc : c.caller
    all_goals
      simp
      omega

end Contributions

namespace TokenCounters
variable {s t : TokenCounters} {cs : List Contribution} {c : Contribution}

def Counted (s : TokenCounters) : UsageSource → Prop
  | .llm runId => runId ∈ s.countedLlmRunIds
  | .external sourceId => sourceId ∈ s.countedExternalSourceIds

def callerTokens (s : TokenCounters) : CallerKind → Nat
  | .leadAgent => s.leadAgentTokens
  | .subagent => s.subagentTokens
  | .middleware => s.middlewareTokens

/-- The counters are the sums over the contributions, of which no two are of one source. -/
structure Accounts (s : TokenCounters) (cs : List Contribution) : Prop where
  once : (cs.map (·.source)).Nodup
  counted : ∀ source, source ∈ cs.map (·.source) ↔ s.Counted source
  input : s.totalInputTokens = (cs.map (·.inputTokens)).sum
  output : s.totalOutputTokens = (cs.map (·.outputTokens)).sum
  total : s.totalTokens = (cs.map (·.totalTokens)).sum
  caller : ∀ kind, s.callerTokens kind = callerSum kind cs
  modelInput : s.tokensByModel.total (·.inputTokens) = (cs.map (·.inputTokens)).sum
  modelOutput : s.tokensByModel.total (·.outputTokens) = (cs.map (·.outputTokens)).sum
  modelTotal : s.tokensByModel.total (·.totalTokens) = (cs.map (·.totalTokens)).sum

/-- What it takes for one contribution to be counted. -/
structure Adds (s : TokenCounters) (c : Contribution) (t : TokenCounters) : Prop where
  counted : ∀ source, t.Counted source ↔ s.Counted source ∨ source = c.source
  input : t.totalInputTokens = s.totalInputTokens + c.inputTokens
  output : t.totalOutputTokens = s.totalOutputTokens + c.outputTokens
  total : t.totalTokens = s.totalTokens + c.totalTokens
  caller : ∀ kind,
    t.callerTokens kind = s.callerTokens kind + if c.caller = kind then c.totalTokens else 0
  modelInput :
    t.tokensByModel.total (·.inputTokens) = s.tokensByModel.total (·.inputTokens) + c.inputTokens
  modelOutput : t.tokensByModel.total (·.outputTokens) =
    s.tokensByModel.total (·.outputTokens) + c.outputTokens
  modelTotal :
    t.tokensByModel.total (·.totalTokens) = s.tokensByModel.total (·.totalTokens) + c.totalTokens

theorem Accounts.add (h : s.Accounts cs) (hadd : s.Adds c t) (hnew : ¬ s.Counted c.source) :
    t.Accounts (cs ++ [c]) := by
  have hsum (f : Contribution → Nat) : ((cs ++ [c]).map f).sum = (cs.map f).sum + f c := by
    rw [List.map_append, List.sum_append]
    simp
  have hfresh : c.source ∉ cs.map (·.source) := fun hmem => hnew ((h.counted c.source).mp hmem)
  refine ⟨?_, ?_, ?_, ?_, ?_, ?_, ?_, ?_, ?_⟩
  · rw [List.map_append, List.map_singleton]
    refine h.once.append (List.nodup_singleton _) ?_
    rw [List.disjoint_singleton]
    exact hfresh
  · intro source
    rw [List.map_append, List.mem_append, h.counted, hadd.counted, List.map_singleton,
      List.mem_singleton]
  · rw [hadd.input, hsum, h.input]
  · rw [hadd.output, hsum, h.output]
  · rw [hadd.total, hsum, h.total]
  · intro kind
    rw [hadd.caller, callerSum_concat, h.caller]
  · rw [hadd.modelInput, hsum, h.modelInput]
  · rw [hadd.modelOutput, hsum, h.modelOutput]
  · rw [hadd.modelTotal, hsum, h.modelTotal]

section Buckets

/-- A field of the buckets that a contribution adds to. -/
theorem total_recordModelUsage (s : TokenCounters) (modelName : Option String)
    (i o cache : Nat) {n : Nat} (hn : n ≠ 0) :
    (s.recordModelUsage modelName i o n cache).tokensByModel.total (·.inputTokens) =
        s.tokensByModel.total (·.inputTokens) + i ∧
      (s.recordModelUsage modelName i o n cache).tokensByModel.total (·.outputTokens) =
        s.tokensByModel.total (·.outputTokens) + o ∧
      (s.recordModelUsage modelName i o n cache).tokensByModel.total (·.totalTokens) =
        s.tokensByModel.total (·.totalTokens) + n := by
  have hgrow (f : ModelUsage → Nat) (hf : f .zero = 0) (name : String) (v : ModelUsage) (n : Nat)
      (hv : f v = f ((s.tokensByModel.get name).getD .zero) + n) :
      (s.tokensByModel.set name v).total f = s.tokensByModel.total f + n := by
    have hset := Dict.total_set f s.tokensByModel name v
    rcases hget : s.tokensByModel.get name with _ | w
    · rw [hget, Option.getD_none, hf] at hv
      rw [hget] at hset
      simp only [Option.map_none, Option.getD_none] at hset
      omega
    · rw [hget, Option.getD_some] at hv
      rw [hget] at hset
      simp only [Option.map_some, Option.getD_some] at hset
      omega
  unfold recordModelUsage
  rw [if_neg hn]
  exact ⟨hgrow _ rfl _ _ _ rfl, hgrow _ rfl _ _ _ rfl, hgrow _ rfl _ _ _ rfl⟩

end Buckets

section Steps

/-- The source is counted, and nothing else has changed. -/
structure Marks (s : TokenCounters) (source : UsageSource) (u : TokenCounters) : Prop where
  counted : ∀ other, u.Counted other ↔ s.Counted other ∨ other = source
  input : u.totalInputTokens = s.totalInputTokens
  output : u.totalOutputTokens = s.totalOutputTokens
  total : u.totalTokens = s.totalTokens
  caller : ∀ kind, u.callerTokens kind = s.callerTokens kind
  models : u.tokensByModel = s.tokensByModel

theorem recordModelUsage_rest (s : TokenCounters) (modelName : Option String)
    (i o n cache : Nat) :
    ∃ models, s.recordModelUsage modelName i o n cache = { s with tokensByModel := models } := by
  by_cases hn : n = 0
  · exact ⟨s.tokensByModel, if_pos hn⟩
  · exact ⟨_, if_neg hn⟩

theorem addCaller_cases (s : TokenCounters) (caller : String) (n : Nat) :
    (∀ source, (s.addCaller caller n).Counted source ↔ s.Counted source) ∧
      (s.addCaller caller n).totalInputTokens = s.totalInputTokens ∧
      (s.addCaller caller n).totalOutputTokens = s.totalOutputTokens ∧
      (s.addCaller caller n).totalTokens = s.totalTokens ∧
      (s.addCaller caller n).tokensByModel = s.tokensByModel ∧
      ∀ kind, (s.addCaller caller n).callerTokens kind =
        s.callerTokens kind + if callerKind caller = kind then n else 0 := by
  unfold addCaller
  cases callerKind caller
  all_goals
    refine ⟨?_, rfl, rfl, rfl, rfl, ?_⟩
    · intro source
      cases source <;> exact Iff.rfl
    · intro kind
      cases kind <;> rfl

/-- Both paths end in the same three updates. -/
theorem adds_of_marks {u : TokenCounters} {caller : String} (modelName : Option String)
    (cache : Nat) (hu : s.Marks c.source u) (hcaller : c.caller = callerKind caller)
    (htotal : c.totalTokens ≠ 0) :
    s.Adds c (((u.addTotals c.inputTokens c.outputTokens c.totalTokens).addCaller caller
      c.totalTokens).recordModelUsage modelName c.inputTokens c.outputTokens c.totalTokens
        cache) := by
  obtain ⟨hcounted, hinput, houtput, htotals, hmodels, hkind⟩ :=
    addCaller_cases (u.addTotals c.inputTokens c.outputTokens c.totalTokens) caller c.totalTokens
  obtain ⟨hmi, hmo, hmt⟩ := total_recordModelUsage
    ((u.addTotals c.inputTokens c.outputTokens c.totalTokens).addCaller caller c.totalTokens)
    modelName c.inputTokens c.outputTokens cache htotal
  rw [hmodels] at hmi hmo hmt
  obtain ⟨models, hrest⟩ := recordModelUsage_rest
    ((u.addTotals c.inputTokens c.outputTokens c.totalTokens).addCaller caller c.totalTokens)
    modelName c.inputTokens c.outputTokens c.totalTokens cache
  refine ⟨?_, ?_, ?_, ?_, ?_, ?_, ?_, ?_⟩
  · intro source
    rw [hrest, ← hu.counted source]
    have hsame := hcounted source
    cases source <;> exact hsame
  · rw [hrest]
    exact hinput.trans (congrArg (· + c.inputTokens) hu.input)
  · rw [hrest]
    exact houtput.trans (congrArg (· + c.outputTokens) hu.output)
  · rw [hrest]
    exact htotals.trans (congrArg (· + c.totalTokens) hu.total)
  · intro kind
    have hsame := hkind kind
    have hbase := hu.caller kind
    rw [hrest, hcaller, ← hbase]
    cases kind <;> exact hsame
  · rw [hmi, ← hu.models]
    rfl
  · rw [hmo, ← hu.models]
    rfl
  · rw [hmt, ← hu.models]
    rfl

theorem countMessage_eq (s : TokenCounters) (runId caller : String) (m : UsageMessage) :
    countMessage runId caller s m =
      if 0 < (m.contribution runId caller).totalTokens ∧ runId ∉ s.countedLlmRunIds then
        let c := m.contribution runId caller
        let u := { s with
          countedLlmRunIds := s.countedLlmRunIds ++ [runId], llmCallCount := s.llmCallCount + 1 }
        ((u.addTotals c.inputTokens c.outputTokens c.totalTokens).addCaller caller
          c.totalTokens).recordModelUsage (orElse m.modelName m.model) c.inputTokens
            c.outputTokens c.totalTokens ((m.usage.bind (·.cacheRead)).getD 0).toNat
      else s := rfl

/-- `on_llm_end` leaves the counters alone, or counts the message for a run not yet counted. -/
theorem countMessage_cases (s : TokenCounters) (runId caller : String) (m : UsageMessage) :
    countMessage runId caller s m = s ∨
      ¬ s.Counted (.llm runId) ∧
        s.Adds (m.contribution runId caller) (countMessage runId caller s m) := by
  by_cases hcount : 0 < (m.contribution runId caller).totalTokens ∧ runId ∉ s.countedLlmRunIds
  · refine .inr ⟨hcount.2, ?_⟩
    have hmarks : s.Marks (.llm runId) { s with
        countedLlmRunIds := s.countedLlmRunIds ++ [runId], llmCallCount := s.llmCallCount + 1 } := by
      refine ⟨?_, rfl, rfl, rfl, ?_, rfl⟩
      · intro other
        cases other with
        | llm otherId | external sourceId => simp [Counted]
      · intro kind
        cases kind <;> rfl
    rw [countMessage_eq, if_pos hcount]
    exact adds_of_marks (orElse m.modelName m.model) ((m.usage.bind (·.cacheRead)).getD 0).toNat
      hmarks rfl (Nat.pos_iff_ne_zero.mp hcount.1)
  · refine .inl ?_
    rw [countMessage_eq, if_neg hcount]

theorem countExternal_eq (s : TokenCounters) (r : ExternalUsage) :
    s.countExternal r =
      if r.sourceRunId = "" then s
      else if r.sourceRunId ∈ s.countedExternalSourceIds then s
      else if r.contribution.totalTokens = 0 then s
      else
        let c := r.contribution
        let u := { s with
          countedExternalSourceIds := s.countedExternalSourceIds ++ [r.sourceRunId] }
        ((u.addTotals c.inputTokens c.outputTokens c.totalTokens).addCaller r.caller
          c.totalTokens).recordModelUsage r.modelName c.inputTokens c.outputTokens c.totalTokens
            (r.cacheReadTokens.getD 0) := rfl

theorem countExternal_cases (s : TokenCounters) (r : ExternalUsage) :
    s.countExternal r = s ∨
      ¬ s.Counted (.external r.sourceRunId) ∧ s.Adds r.contribution (s.countExternal r) := by
  rw [countExternal_eq]
  split_ifs with hempty hcounted htotal
  · exact .inl rfl
  · exact .inl rfl
  · exact .inl rfl
  · refine .inr ⟨hcounted, ?_⟩
    have hmarks : s.Marks (.external r.sourceRunId) { s with
        countedExternalSourceIds := s.countedExternalSourceIds ++ [r.sourceRunId] } := by
      refine ⟨?_, rfl, rfl, rfl, ?_, rfl⟩
      · intro other
        cases other with
        | llm otherId | external sourceId => simp [Counted]
      · intro kind
        cases kind <;> rfl
    exact adds_of_marks r.modelName (r.cacheReadTokens.getD 0) hmarks rfl htotal

end Steps

section Runs
variable {trackTokens : Bool} {callbacks : List UsageCallback}

/-- The counters account for contributions among those in `offered`. -/
def Tallied (offered : List Contribution) (s : TokenCounters) : Prop :=
  ∃ cs, s.Accounts cs ∧ ∀ c ∈ cs, c ∈ offered

theorem accounts_init : init.Accounts [] := by
  refine ⟨List.nodup_nil, ?_, rfl, rfl, rfl, ?_, rfl, rfl, rfl⟩
  · intro source
    cases source <;> simp [Counted, init]
  · intro kind
    cases kind <;> rfl

/-- A step that leaves the counters alone or counts an offered contribution once. -/
theorem Tallied.step {offered : List Contribution} (h : s.Tallied offered) (hc : c ∈ offered)
    (ht : t = s ∨ ¬ s.Counted c.source ∧ s.Adds c t) : t.Tallied offered := by
  rcases ht with rfl | ⟨hnew, hadd⟩
  · exact h
  · obtain ⟨cs, hcs, hoffered⟩ := h
    refine ⟨cs ++ [c], hcs.add hadd hnew, ?_⟩
    intro c' hc'
    rcases List.mem_append.mp hc' with hc' | hc'
    · exact hoffered c' hc'
    · rwa [List.mem_singleton.mp hc']

theorem Tallied.messages {offered : List Contribution} {runId caller : String}
    {messages : List UsageMessage} (h : s.Tallied offered)
    (hall : ∀ m ∈ messages, m.contribution runId caller ∈ offered) :
    (messages.foldl (countMessage runId caller) s).Tallied offered := by
  induction messages generalizing s with
  | nil => exact h
  | cons m messages ih =>
    rw [List.forall_mem_cons] at hall
    exact ih (h.step hall.1 (countMessage_cases s runId caller m)) hall.2

theorem Tallied.records {offered : List Contribution} {records : List ExternalUsage}
    (h : s.Tallied offered) (hall : ∀ r ∈ records, r.contribution ∈ offered) :
    (records.foldl countExternal s).Tallied offered := by
  induction records generalizing s with
  | nil => exact h
  | cons r records ih =>
    rw [List.forall_mem_cons] at hall
    exact ih (h.step hall.1 (countExternal_cases s r)) hall.2

theorem Tallied.callback {offered : List Contribution} {e : UsageCallback}
    (h : s.Tallied offered) (hall : ∀ c ∈ e.offers, c ∈ offered) :
    (s.callback trackTokens e).Tallied offered := by
  cases e with
  | onLlmEnd runId tags messages =>
    simp only [TokenCounters.callback, onLlmEnd]
    split_ifs
    · exact h.messages fun m hm => hall _ (List.mem_map_of_mem hm)
    · exact h
  | external records =>
    simp only [TokenCounters.callback, recordExternal]
    split_ifs
    · exact h.records fun r hr => hall _ (List.mem_map_of_mem hr)
    · exact h

theorem tallied_after (trackTokens : Bool) (callbacks : List UsageCallback) :
    (after trackTokens callbacks).Tallied (callbacks.flatMap (·.offers)) := by
  have hfold (callbacks rest : List UsageCallback) (s : TokenCounters)
      (h : s.Tallied (rest.flatMap (·.offers)))
      (hall : ∀ e ∈ callbacks, e ∈ rest) :
      (callbacks.foldl (callback trackTokens) s).Tallied (rest.flatMap (·.offers)) := by
    induction callbacks generalizing s with
    | nil => exact h
    | cons e callbacks ih =>
      rw [List.forall_mem_cons] at hall
      refine ih _ (h.callback ?_) hall.2
      intro c hc
      exact List.mem_flatMap.mpr ⟨e, hall.1, hc⟩
  refine hfold callbacks callbacks init ?_ fun e he => he
  exact ⟨[], accounts_init, by simp⟩

end Runs

end TokenCounters

section Property

/-- The equations between the fields of the completion data. -/
structure CompletionTokens.Conserved (d : CompletionTokens) : Prop where
  callers : d.totalTokens = d.leadAgentTokens + d.subagentTokens + d.middlewareTokens
  models : d.totalTokens = d.tokenUsageByModel.total (·.totalTokens)
  input : d.totalInputTokens = d.tokenUsageByModel.total (·.inputTokens)
  output : d.totalOutputTokens = d.tokenUsageByModel.total (·.outputTokens)

theorem TokenCounters.Accounts.conserved {s : TokenCounters} {cs : List Contribution}
    (h : s.Accounts cs) : s.completionTokens.Conserved := by
  refine ⟨?_, ?_, ?_, ?_⟩
  · have hlead : s.leadAgentTokens = callerSum .leadAgent cs := h.caller .leadAgent
    have hsub : s.subagentTokens = callerSum .subagent cs := h.caller .subagent
    have hmid : s.middlewareTokens = callerSum .middleware cs := h.caller .middleware
    change s.totalTokens = s.leadAgentTokens + s.subagentTokens + s.middlewareTokens
    rw [h.total, hlead, hsub, hmid, callerSum_add]
  · exact h.total.trans h.modelTotal.symm
  · exact h.input.trans h.modelInput.symm
  · exact h.output.trans h.modelOutput.symm

theorem token_accounting_conserved (trackTokens : Bool) (callbacks : List UsageCallback) :
    (TokenCounters.after trackTokens callbacks).completionTokens.Conserved ∧
      ∃ cs : List Contribution, (TokenCounters.after trackTokens callbacks).Accounts cs ∧
        ∀ c ∈ cs, ∃ callback ∈ callbacks, c ∈ callback.offers := by
  obtain ⟨cs, hcs, hoffered⟩ := TokenCounters.tallied_after trackTokens callbacks
  refine ⟨hcs.conserved, cs, hcs, fun c hc => ?_⟩
  exact List.mem_flatMap.mp (hoffered c hc)

example : (TokenCounters.after true
    [.onLlmEnd "r" [.str "subagent:a"] [⟨some ⟨some 3, some 4, none, none⟩, some "m", none⟩],
      .onLlmEnd "r" [] [⟨some ⟨some 3, some 4, none, none⟩, some "m", none⟩]]).completionTokens =
      ⟨3, 4, 7, 1, 0, 7, 0, [("m", ⟨3, 4, 7, none⟩)]⟩ := by decide +kernel

end Property

end DeerFlow.Runtime
