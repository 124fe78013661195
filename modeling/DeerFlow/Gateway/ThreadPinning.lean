import DeerFlow.Gateway.RunConfig

/-! The thread a run reads and writes. `start_run` checks the ownership of the
thread in the URL; the run uses `configurable.thread_id`. They are the same
thread exactly when the caller's own `configurable` does not name another one. -/

namespace DeerFlow.Gateway

/-- The server-side run profiles of the routers. -/
inductive RunProfile where
  | plain
  | sqlCrossValidation
  | saasQuery

def RunProfile.contextOverrides : RunProfile → Dict Value
  | .plain => []
  | .sqlCrossValidation => [("subagent_enabled", .bool true), ("max_concurrent_subagents", .int 2)]
  | .saasQuery => [("subagent_enabled", .bool true), ("max_concurrent_subagents", .int 1)]

/-- What `start_run` reads after it has built the configuration. -/
structure StartRun where
  checkpointer : Checkpointer
  checkpoint : Value
  checkpointId : Option String
  context : Dict Value
  profile : RunProfile
  /-- The model an enforced routing decision chose. -/
  routedModel : Option String
  internalCaller : Bool
  user : Option User
  internalOwnerUser : Option User
  ownerUserId : String
  assistantId : Option String
  traceId : String
  saas : Option SaasContext

namespace StartRun
variable (run : StartRun)

def bodyContext : Dict Value :=
  let context := run.context.update run.profile.contextOverrides
  match run.routedModel with
  | some model => context.set "model_name" (.str model)
  | none => context

def isSaasQuery : Bool := run.assistantId = some saasQueryAssistantId

def steps : List (RunConfig → RunConfig) := [
  mergeRunContextOverrides run.bodyContext run.internalCaller,
  match run.routedModel with
    | some model => forceRunContextValues [("model_name", .str model)]
    | none => id,
  forceRunContextValues run.profile.contextOverrides,
  if run.internalCaller then id else stripInternalContextKeys,
  injectAuthenticatedUserContext run.user run.internalOwnerUser,
  if run.isSaasQuery then
      fun config => updateSection config "context" fun d =>
        d.set "semantic_trace_id" (.str run.traceId)
    else id,
  injectTrustedSaasContext run.saas run.ownerUserId run.isSaasQuery]

/-- The configuration after the checkpoint and after each following step; none when the
checkpoint is refused. -/
def laterConfigs (env : Env) (threadId : String) (config : RunConfig) : List RunConfig :=
  match applyCheckpointToRunConfig env run.checkpointer run.checkpoint run.checkpointId threadId
      config with
  | .error _ => []
  | .ok config => run.steps.scanl (fun config step => step config) config

end StartRun

def threadIn (config : RunConfig) (name : String) : Option Value :=
  (sectionOf config name).get "thread_id"

structure ThreadPinned (threadId : String) (config : RunConfig) : Prop where
  configurable : threadIn config "configurable" = some (.str threadId)
  context : ∀ v, threadIn config "context" = some v → v = .str threadId

/-- The request carries `context`, or its `configurable` names no other thread. -/
def CallerKeepsThread (threadId : String) : Option (Dict Value) → Prop
  | none => True
  | some requestConfig => requestConfig.contains "context" = true ∨
      ∀ d v, requestConfig.get "configurable" = some (.dict d) → Dict.get d "thread_id" = some v →
        v = .str threadId

section Threads
variable {config : RunConfig} {f : Dict Value → Dict Value}

theorem sectionOf_set (name name' : String) (d : Dict Value) :
    sectionOf (config.set name (.dict d)) name' =
      if name' = name then d else sectionOf config name' := by
  unfold sectionOf
  rw [Dict.get_set]
  split_ifs <;> rfl

theorem threadIn_set {k name : String} {v : Value} (h : name ≠ k) :
    threadIn (config.set k v) name = threadIn config name := by
  unfold threadIn sectionOf
  rw [Dict.get_set_ne h]

theorem threadIn_setdefault {k name : String} {v : Value} (h : name ≠ k) :
    threadIn (config.setdefault k v) name = threadIn config name := by
  unfold threadIn sectionOf
  rw [Dict.get_setdefault_ne h]

theorem sectionOf_setdefault (name name' : String) :
    sectionOf (config.setdefault name (.dict [])) name' = sectionOf config name' := by
  unfold sectionOf
  rw [Dict.get_setdefault]
  split_ifs with h
  · subst h
    rcases config.get name' with _ | v
    · rfl
    · rfl
  · rfl

theorem threadIn_updateSection (hf : ∀ d, (f d).get "thread_id" = Dict.get d "thread_id")
    (name name' : String) :
    threadIn (updateSection config name f) name' = threadIn config name' := by
  have hd : sectionOf (config.setdefault name (.dict [])) name' = sectionOf config name' :=
    sectionOf_setdefault name name'
  unfold updateSection threadIn
  simp only
  split
  · next d hget =>
    rw [sectionOf_set]
    split_ifs with h
    · subst h
      rw [hf, ← hd, sectionOf, hget]
    · rw [hd]
  · rw [hd]

theorem get_setDefaults {context : Dict Value} {k : String} {keys : List String}
    (h : k ∉ keys) (d : Dict Value) : (setDefaults context keys d).get k = Dict.get d k := by
  unfold setDefaults
  induction keys generalizing d with
  | nil => rfl
  | cons j keys ih =>
    rw [List.mem_cons, not_or] at h
    rw [List.foldl_cons, ih h.2]
    split
    · exact Dict.get_setdefault_ne h.1
    · rfl

theorem get_foldl_set {k : String} {values : Dict Value} (h : k ∉ values.keys) (d : Dict Value) :
    Dict.get (values.foldl (fun d item => Dict.set d item.1 item.2) d) k = d.get k := by
  induction values generalizing d with
  | nil => rfl
  | cons p values ih =>
    rw [Dict.keys, List.map_cons, List.mem_cons, not_or] at h
    rw [List.foldl_cons, ih h.2, Dict.get_set_ne h.1]

def KeepsThreads (step : RunConfig → RunConfig) : Prop :=
  ∀ config name, threadIn (step config) name = threadIn config name

theorem keepsThreads_id : KeepsThreads id := fun _ _ => rfl

theorem keepsThreads_merge (context : Dict Value) (internal : Bool) :
    KeepsThreads (mergeRunContextOverrides context internal) := by
  intro config name
  unfold mergeRunContextOverrides
  split_ifs with h hi
  · rfl
  all_goals
    rw [threadIn_updateSection (get_setDefaults (by decide)),
      threadIn_updateSection (get_setDefaults (by decide))]

theorem keepsThreads_force {values : Dict Value} (h : "thread_id" ∉ values.keys) :
    KeepsThreads (forceRunContextValues values) := by
  intro config name
  unfold forceRunContextValues
  split_ifs
  · rfl
  · rw [threadIn_updateSection (get_foldl_set h), threadIn_updateSection (get_foldl_set h)]

theorem threadIn_strip (config : RunConfig) (name name' : String) :
    threadIn (match config.get name with
      | some (.dict d) => config.set name (.dict (contextInternalCallerKeys.foldl Dict.pop d))
      | _ => config) name' = threadIn config name' := by
  split
  · next d hget =>
    unfold threadIn
    rw [sectionOf_set]
    split_ifs with h
    · subst h
      rw [sectionOf, hget]
      exact Dict.get_pop_ne (by decide)
    · rfl
  · rfl

theorem keepsThreads_strip : KeepsThreads stripInternalContextKeys := by
  intro config name
  exact (threadIn_strip _ "configurable" name).trans (threadIn_strip _ "context" name)

theorem get_stampUser (userId : Option String) (user : User) (d : Dict Value) :
    (stampUser userId user d).get "thread_id" = Dict.get d "thread_id" := by
  unfold stampUser
  rw [Dict.get_set_ne (by decide), Dict.get_set_ne (by decide), Dict.get_set_ne (by decide)]
  cases userId with
  | none => rfl
  | some id => exact Dict.get_set_ne (by decide)

theorem keepsThreads_user (user owner : Option User) :
    KeepsThreads (injectAuthenticatedUserContext user owner) := by
  intro config name
  unfold injectAuthenticatedUserContext
  rcases user with _ | user
  · rfl
  · simp only
    split_ifs
    · rfl
    · rcases owner with _ | owner
      · refine threadIn_updateSection (fun d => ?_) _ _
        rw [Dict.get_pop_ne (by decide), Dict.get_pop_ne (by decide), Dict.get_pop_ne (by decide)]
      · exact threadIn_updateSection (get_stampUser _ _) _ _
    · exact threadIn_updateSection (get_stampUser _ _) _ _

theorem get_stampAuthorization (saas : SaasContext) (includeToken : Bool) (d : Dict Value) :
    (stampAuthorization saas includeToken d).get "thread_id" = Dict.get d "thread_id" := by
  unfold stampAuthorization
  rcases saas.authorization with _ | a
  · rfl
  · have hset : ((Dict.set d "saas_user_id" (.str a.principalId)).set "authorization_context"
        (.dict a.toRuntimeDict)).get "thread_id" = Dict.get d "thread_id" := by
      rw [Dict.get_set_ne (by decide), Dict.get_set_ne (by decide)]
    simp only
    split_ifs
    · rcases saas.token with _ | token
      · exact hset
      · exact (Dict.get_set_ne (by decide)).trans hset
    · exact (Dict.get_pop_ne (by decide)).trans hset

theorem keepsThreads_saas (saas : Option SaasContext) (ownerUserId : String)
    (includeToken : Bool) : KeepsThreads (injectTrustedSaasContext saas ownerUserId includeToken) := by
  intro config name
  unfold injectTrustedSaasContext
  rcases saas with _ | saas
  · rfl
  · refine threadIn_updateSection (fun d => ?_) _ _
    have htenant : saas.toDict.get "thread_id" = none := by
      unfold SaasContext.toDict
      rcases saas.tenantName with _ | n <;> rfl
    rw [get_stampAuthorization, Dict.get_update, htenant, Option.none_or]
    split_ifs
    · rfl
    · exact Dict.get_set_ne (by decide)

theorem keepsThreads_steps (run : StartRun) : ∀ step ∈ run.steps, KeepsThreads step := by
  intro step hstep
  simp only [StartRun.steps, List.mem_cons, List.not_mem_nil, or_false] at hstep
  rcases hstep with rfl | rfl | rfl | rfl | rfl | rfl | rfl
  · exact keepsThreads_merge _ _
  · split
    · exact keepsThreads_force (by simp [Dict.keys])
    · exact keepsThreads_id
  · refine keepsThreads_force ?_
    rcases run.profile with _ | _ | _ <;> decide
  · split_ifs
    · exact keepsThreads_id
    · exact keepsThreads_strip
  · exact keepsThreads_user _ _
  · split_ifs
    · exact fun config name => threadIn_updateSection (fun d => Dict.get_set_ne (by decide)) _ _
    · exact keepsThreads_id
  · exact keepsThreads_saas _ _ _

theorem threadIn_scanl {steps : List (RunConfig → RunConfig)}
    (h : ∀ step ∈ steps, KeepsThreads step) {config c : RunConfig}
    (hc : c ∈ steps.scanl (fun config step => step config) config) (name : String) :
    threadIn c name = threadIn config name := by
  induction steps generalizing config with
  | nil =>
    obtain rfl := List.mem_singleton.mp hc
    rfl
  | cons step steps ih =>
    rw [List.scanl_cons] at hc
    rcases List.mem_cons.mp hc with rfl | hc
    · rfl
    · rw [ih (fun s hs => h s (.tail _ hs)) hc, h step (.head _)]

end Threads

section Build
variable {env : Env} {threadId : String} {requestConfig : Dict Value} {config config' : RunConfig}

theorem sectionOf_passThrough {name : String} (h : name = "configurable" ∨ name = "context") :
    sectionOf (passThrough requestConfig config) name = sectionOf config name := by
  have hget : (passThrough requestConfig config).get name = config.get name := by
    unfold passThrough
    refine get_foldl_set (fun hmem => ?_) config
    obtain ⟨item, hitem, rfl⟩ := List.mem_map.mp hmem
    have hne := (List.mem_filter.mp hitem).2
    rcases h with h | h <;> rw [h] at hne <;> simp at hne
  unfold sectionOf
  rw [hget]

theorem threadIn_injectAgentName {assistantId : Option String}
    (h : injectAgentName env assistantId config = .ok config') {name : String}
    (hname : name ≠ "run_name") : threadIn config' name = threadIn config name := by
  unfold injectAgentName at h
  rcases assistantId with _ | a
  · rw [← Except.ok.inj h]
  · simp only at h
    split_ifs at h
    · rw [← Except.ok.inj h]
    all_goals
      rw [← Except.ok.inj h, threadIn_setdefault hname,
        threadIn_updateSection (fun d => Dict.get_set_ne (by decide)),
        threadIn_updateSection (fun d => Dict.get_set_ne (by decide))]

theorem threadIn_mergeMetadata {metadata : Option (Dict Value)}
    (h : mergeMetadata metadata config = .ok config') {name : String} (hname : name ≠ "metadata") :
    threadIn config' name = threadIn config name := by
  unfold mergeMetadata at h
  split at h
  · rw [← Except.ok.inj h]
  · rw [← Except.ok.inj h]
  · simp only at h
    split at h
    · rw [← Except.ok.inj h, threadIn_set hname, threadIn_setdefault hname]
    · cases h

theorem threadIn_contextSections
    (h : contextSections threadId requestConfig config = .ok config') :
    threadIn config' "configurable" = some (.str threadId) ∧
      threadIn config' "context" = some (.str threadId) := by
  unfold contextSections at h
  obtain ⟨_, -, h⟩ := bind_eq_ok.mp h
  obtain ⟨context, -, h⟩ := bind_eq_ok.mp h
  rw [← Except.ok.inj h]
  constructor
  · rw [threadIn, sectionOf_set, if_pos rfl]
    rfl
  · rw [threadIn_set (by decide), threadIn, sectionOf_set, if_pos rfl, Dict.get_set_self]

theorem get_callerConfigurable :
    (callerConfigurable threadId requestConfig).get "thread_id" =
      (match requestConfig.get "configurable" with
        | some (.dict d) => Dict.get d "thread_id"
        | _ => none).or (some (.str threadId)) := by
  have hstrip : ∀ d : Dict Value, (stripProtectedSaasContextValues d).get "thread_id" =
      Dict.get d "thread_id" := by
    intro d
    unfold stripProtectedSaasContextValues
    rw [Dict.get_filter, if_pos (by decide)]
  unfold callerConfigurable
  rcases requestConfig.get "configurable" with _ | v
  · rfl
  · cases v with
    | dict d => exact (Dict.get_update _ _ _).trans (by rw [hstrip]; rfl)
    | _ => rfl

theorem threadIn_clampRequested {name : String} (h : name ≠ "recursion_limit") :
    threadIn (clampRequested env requestConfig config) name = threadIn config name := by
  unfold clampRequested
  split
  · rfl
  · exact threadIn_set h

theorem threadPinned_threadSections
    (h : threadSections threadId requestConfig config = .ok config')
    (hnone : threadIn config "context" = none) :
    ThreadPinned threadId config' ↔ CallerKeepsThread threadId (some requestConfig) := by
  unfold threadSections at h
  split_ifs at h with hc
  · obtain ⟨h1, h2⟩ := threadIn_contextSections h
    refine iff_of_true ⟨h1, fun v hv => ?_⟩ (.inl hc)
    rw [h2] at hv
    exact (Option.some.inj hv).symm
  · rw [← Except.ok.inj h]
    have hctx : threadIn (config.set "configurable"
        (.dict (callerConfigurable threadId requestConfig))) "context" = none := by
      rw [threadIn_set (by decide), hnone]
    have hconf : threadIn (config.set "configurable"
        (.dict (callerConfigurable threadId requestConfig))) "configurable" =
        (callerConfigurable threadId requestConfig).get "thread_id" := by
      rw [threadIn, sectionOf_set, if_pos rfl]
    rw [get_callerConfigurable] at hconf
    constructor
    · intro hp
      refine .inr fun d v hd hv => ?_
      have heq := hconf.symm.trans hp.configurable
      rw [hd] at heq
      simp only [hv, Option.some_or] at heq
      exact Option.some.inj heq
    · intro hk
      refine ⟨?_, fun v hv => by rw [hctx] at hv; cases hv⟩
      rw [hconf]
      split
      · next d hd =>
        rcases hv : Dict.get d "thread_id" with _ | v
        · rfl
        · rw [hk.resolve_left hc d v hd hv]
          rfl
      · rfl

theorem threadPinned_congr (hconf : threadIn config' "configurable" = threadIn config "configurable")
    (hctx : threadIn config' "context" = threadIn config "context") :
    ThreadPinned threadId config' ↔ ThreadPinned threadId config :=
  ⟨fun ⟨a, b⟩ => ⟨hconf ▸ a, hctx ▸ b⟩, fun ⟨a, b⟩ => ⟨hconf ▸ a, hctx ▸ b⟩⟩

theorem threadPinned_requestSections {requestConfig : Option (Dict Value)}
    (h : requestSections env threadId requestConfig config = .ok config')
    (hnone : threadIn config "context" = none) :
    ThreadPinned threadId config' ↔ CallerKeepsThread threadId requestConfig := by
  have hdefault : ThreadPinned threadId
      (config.set "configurable" (.dict [("thread_id", .str threadId)])) := by
    refine ⟨?_, fun v hv => ?_⟩
    · rw [threadIn, sectionOf_set, if_pos rfl]
      rfl
    · rw [threadIn_set (by decide), hnone] at hv
      cases hv
  unfold requestSections at h
  split at h
  · rw [← Except.ok.inj h]
    exact iff_of_true hdefault trivial
  · rw [← Except.ok.inj h]
    exact iff_of_true hdefault (.inr nofun)
  · next requestConfig _ =>
    obtain ⟨sections, hs, h⟩ := bind_eq_ok.mp h
    have hsame : ∀ {name}, name = "configurable" ∨ name = "context" →
        threadIn config' name = threadIn sections name := by
      intro name hname
      have hne : name ≠ "recursion_limit" := by rcases hname with rfl | rfl <;> decide
      rw [← Except.ok.inj h, threadIn_clampRequested hne, threadIn,
        sectionOf_passThrough hname, ← threadIn]
    rw [threadPinned_congr (hsame (.inl rfl)) (hsame (.inr rfl))]
    exact threadPinned_threadSections hs hnone

theorem threadPinned_build {requestConfig metadata : Option (Dict Value)}
    {assistantId : Option String}
    (h : buildRunConfig env threadId requestConfig metadata assistantId = .ok config) :
    ThreadPinned threadId config ↔ CallerKeepsThread threadId requestConfig := by
  obtain ⟨c1, h1, h⟩ := bind_eq_ok.mp h
  obtain ⟨c2, h2, h3⟩ := bind_eq_ok.mp h
  rw [threadPinned_congr (threadIn_mergeMetadata h3 (by decide))
      (threadIn_mergeMetadata h3 (by decide)),
    threadPinned_congr (threadIn_injectAgentName h2 (by decide))
      (threadIn_injectAgentName h2 (by decide))]
  exact threadPinned_requestSections h1 rfl

theorem get_stampCheckpoint (ns id : String) (map : Value) (d : Dict Value) :
    (stampCheckpoint threadId ns id map d).get "thread_id" = some (.str threadId) := by
  unfold stampCheckpoint
  have hset : (((Dict.set d "thread_id" (.str threadId)).set "checkpoint_ns" (.str ns)).set
      "checkpoint_id" (.str id)).get "thread_id" = some (.str threadId) := by
    rw [Dict.get_set_ne (by decide), Dict.get_set_ne (by decide), Dict.get_set_self]
  simp only
  split_ifs
  · exact hset
  · exact (Dict.get_set_ne (by decide)).trans hset

theorem ThreadPinned.attachCheckpoint {checkpointer : Checkpointer} {ns id : String}
    {map : Value} (hp : ThreadPinned threadId config)
    (h : Gateway.attachCheckpoint checkpointer threadId ns id map config = .ok config') :
    ThreadPinned threadId config' := by
  unfold Gateway.attachCheckpoint at h
  split_ifs at h
  · exact Except.ok.inj h ▸ hp
  · split at h
    · cases h
    · cases h
    · split at h
      · next d hd =>
        rw [← Except.ok.inj h]
        unfold updateSection
        simp only [hd]
        refine ⟨?_, fun v hv => ?_⟩
        · rw [threadIn, sectionOf_set, if_pos rfl, get_stampCheckpoint]
        · rw [threadIn_set (by decide), threadIn_setdefault (by decide)] at hv
          exact hp.context v hv
      · cases h

theorem ThreadPinned.laterConfigs (hp : ThreadPinned threadId config) (run : StartRun)
    {c : RunConfig} (hc : c ∈ run.laterConfigs env threadId config) : ThreadPinned threadId c := by
  unfold StartRun.laterConfigs at hc
  split at hc
  · cases hc
  · next resumed h =>
    obtain ⟨mapping, -, h⟩ := bind_eq_ok.mp h
    have hresumed := hp.attachCheckpoint h
    have hsame := threadIn_scanl (keepsThreads_steps run) hc
    exact (threadPinned_congr (hsame _) (hsame _)).mpr hresumed

/-- The configuration names the thread of the URL, when it is built and after every later step,
exactly when the caller does not name another. -/
theorem thread_pinned_iff_caller_keeps_thread {requestConfig metadata : Option (Dict Value)}
    {assistantId : Option String} (run : StartRun)
    (h : buildRunConfig env threadId requestConfig metadata assistantId = .ok config) :
    (ThreadPinned threadId config ∧
      ∀ c ∈ run.laterConfigs env threadId config, ThreadPinned threadId c) ↔
    CallerKeepsThread threadId requestConfig := by
  rw [← threadPinned_build h]
  exact ⟨fun hp => hp.1, fun hp => ⟨hp, fun c hc => hp.laterConfigs run hc⟩⟩

end Build

/-- A browser's request: no checkpoint, no run context, an ordinary user. -/
def webRun : StartRun where
  checkpointer := fun _ => some true
  checkpoint := .none
  checkpointId := none
  context := []
  profile := .plain
  routedModel := none
  internalCaller := false
  user := some ⟨some "user-1", .str "user", .none, .none⟩
  internalOwnerUser := none
  ownerUserId := ""
  assistantId := none
  traceId := ""
  saas := none

def asciiEnv : Env where
  str := fun v => match v with
    | .str s => s
    | _ => ""
  repr := fun s => "'" ++ s ++ "'"
  lower := fun s => String.ofList (s.toList.map Char.toLower)
  maxRecursionLimit := 1000

theorem thread_pinned_with_model :
    ∃ config, buildRunConfig asciiEnv "thread-1"
        (some [("configurable", .dict [("model_name", .str "small")])]) none none = .ok config ∧
      ThreadPinned "thread-1" config ∧
      ∀ c ∈ webRun.laterConfigs asciiEnv "thread-1" config, ThreadPinned "thread-1" c := by
  have hbuilt : buildRunConfig asciiEnv "thread-1"
      (some [("configurable", .dict [("model_name", .str "small")])]) none none = .ok _ := rfl
  have hkeeps : CallerKeepsThread "thread-1"
      (some [("configurable", .dict [("model_name", .str "small")])]) := by
    refine Or.inr fun d v hd hv => ?_
    obtain rfl := Value.dict.inj (Option.some.inj hd)
    cases hv
  exact ⟨_, hbuilt, (thread_pinned_iff_caller_keeps_thread webRun hbuilt).mpr hkeeps⟩

/-- A caller of `thread-1` names `thread-2`, and the run works on `thread-2`. -/
theorem caller_moves_thread :
    ¬ ∀ (requestConfig : Option (Dict Value)) (config : RunConfig),
      buildRunConfig asciiEnv "thread-1" requestConfig none none = .ok config →
      ThreadPinned "thread-1" config ∧
      ∀ c ∈ webRun.laterConfigs asciiEnv "thread-1" config, ThreadPinned "thread-1" c := by
  intro hall
  have hp := (hall (some [("configurable", .dict [("thread_id", .str "thread-2")])]) _ rfl).1
  have heq : (some (.str "thread-2") : Option Value) = some (.str "thread-1") := hp.configurable
  exact absurd heq (by decide)

end DeerFlow.Gateway
