import DeerFlow.Lib.Except
import DeerFlow.Runtime.AuthorizationContext

/-! How the Gateway assembles the configuration of a run: the request's own
configuration, the checkpoint to resume from, the run context and the values the
server stamps, in the order in which `start_run` applies them. -/

namespace DeerFlow.Gateway

abbrev RunConfig := Dict Value

/-- Text functions of the interpreter and the limit the app configuration sets. -/
structure Env where
  str : Value → String
  repr : String → String
  lower : String → String
  maxRecursionLimit : Int

inductive RunConfigError where
  | value (message : String)
  | attribute
  | http (statusCode : Nat) (detail : String)
  deriving DecidableEq

def defaultAssistantId : String := "lead_agent"

def sqlCrossValidationAssistantId : String := "sql-cross-validation"

def saasQueryAssistantId : String := "saas-query"

def contextConfigurableKeys : List String :=
  ["model_name", "mode", "thinking_enabled", "reasoning_effort", "is_plan_mode",
   "subagent_enabled", "max_concurrent_subagents", "agent_name", "is_bootstrap"]

def contextInternalCallerKeys : List String := ["non_interactive"]

def contextRuntimeOnlyKeys : List String := ["github_token", "disable_clarification"]

def protectedSaasContextKeys : List String :=
  ["saas_user_id", "tenant_id", "tenant_code", "tenant_name", "system_code",
   "authorization_context", "principal_id", "role_codes", "scope_mode", "allowed_site_ids",
   "allowed_project_ids", "scope_ref", "permission_version", "scope_hash", "semantic_trace_id"]

def callerKey (key : String) : Bool :=
  !protectedSaasContextKeys.contains key && !"__".toList.isPrefixOf key.toList

def stripProtectedSaasContextValues (context : Dict Value) : Dict Value :=
  context.filter fun item => callerKey item.1

/-- `config.setdefault(name, {})`, changed in place when it is a dictionary. -/
def updateSection (config : RunConfig) (name : String) (f : Dict Value → Dict Value) :
    RunConfig :=
  let config := config.setdefault name (.dict [])
  match config.get name with
  | some (.dict d) => config.set name (.dict (f d))
  | _ => config

def defaultRecursionLimit : Int := 100

def clampRecursionLimit (value : Value) (maxLimit : Int) : Int :=
  match value with
  | .int n => if n ≤ 0 then defaultRecursionLimit else min n maxLimit
  | _ => defaultRecursionLimit

/-- The warning about a request with both sections lists the keys of `configurable`. -/
def warnBothSections (requestConfig : Dict Value) : Except RunConfigError Unit :=
  match requestConfig.get "configurable" with
  | none | some (.dict _) => .ok ()
  | some _ => .error .attribute

def callerContext (requestConfig : Dict Value) : Except RunConfigError (Dict Value) :=
  match (requestConfig.get "context").getD .none with
  | .none => .ok []
  | .dict d => .ok (stripProtectedSaasContextValues d)
  | _ => .error (.value "request config 'context' must be a mapping or null.")

/-- `context` and `configurable` of a request that carries `context`. -/
def contextSections (threadId : String) (requestConfig : Dict Value) (config : RunConfig) :
    Except RunConfigError RunConfig := do
  warnBothSections requestConfig
  let context ← callerContext requestConfig
  return (config.set "context" (.dict (context.set "thread_id" (.str threadId)))).set
    "configurable" (.dict [("thread_id", .str threadId)])

/-- `configurable` of a request without `context`: the caller's keys are applied over the
server's. -/
def callerConfigurable (threadId : String) (requestConfig : Dict Value) : Dict Value :=
  let configurable : Dict Value := [("thread_id", .str threadId)]
  match (requestConfig.get "configurable").getD (.dict []) with
  | .dict d => configurable.update (stripProtectedSaasContextValues d)
  | _ => configurable

def passThrough (requestConfig : Dict Value) (config : RunConfig) : RunConfig :=
  (requestConfig.filter fun item => item.1 ≠ "configurable" && item.1 ≠ "context").foldl
    (fun config item => config.set item.1 item.2) config

def threadSections (threadId : String) (requestConfig : Dict Value) (config : RunConfig) :
    Except RunConfigError RunConfig :=
  if requestConfig.contains "context" then contextSections threadId requestConfig config
  else .ok (config.set "configurable" (.dict (callerConfigurable threadId requestConfig)))

def clampRequested (env : Env) (requestConfig : Dict Value) (config : RunConfig) : RunConfig :=
  match requestConfig.get "recursion_limit" with
  | none => config
  | some limit =>
    config.set "recursion_limit" (.int (clampRecursionLimit limit env.maxRecursionLimit))

def requestSections (env : Env) (threadId : String) (requestConfig : Option (Dict Value))
    (config : RunConfig) : Except RunConfigError RunConfig :=
  match requestConfig with
  | none | some [] => .ok (config.set "configurable" (.dict [("thread_id", .str threadId)]))
  | some requestConfig => do
    let config ← threadSections threadId requestConfig config
    return clampRequested env requestConfig (passThrough requestConfig config)

def sectionOf (config : RunConfig) (name : String) : Dict Value :=
  match config.get name with
  | some (.dict d) => d
  | _ => []

def agentNameIn (config : RunConfig) (name : String) : Option String :=
  match (sectionOf config name).get "agent_name" with
  | some (.str s) => some s
  | _ => none

def resolveRootRunName (config : RunConfig) (assistantId : String) : String :=
  match (["context", "configurable"].filterMap (agentNameIn config)).find? (strip · ≠ "") with
  | some name => name
  | none => if assistantId = "" then "lead_agent" else assistantId

def normalizedAssistantId (env : Env) (assistantId : String) : String :=
  String.ofList ((env.lower (strip assistantId)).toList.map fun c => if c = '_' then '-' else c)

def validAssistantId (s : String) : Bool :=
  s ≠ "" && s.toList.all fun c => c.isLower || c.isDigit || c = '-'

def injectAgentName (env : Env) (assistantId : Option String) (config : RunConfig) :
    Except RunConfigError RunConfig :=
  match assistantId with
  | none => .ok config
  | some assistantId =>
    if assistantId = "" ∨ assistantId = defaultAssistantId ∨
        assistantId = sqlCrossValidationAssistantId ∨ assistantId = saasQueryAssistantId then
      .ok config
    else
      let normalized := normalizedAssistantId env assistantId
      if validAssistantId normalized = false then
        .error (.value ("Invalid assistant_id " ++ env.repr assistantId ++
          ": must contain only letters, digits, and hyphens after normalization."))
      else
        let explicit := (agentNameIn config "configurable").or (agentNameIn config "context")
        let effective := if explicit.getD "" = "" then normalized else explicit.getD ""
        let stamp := fun d : Dict Value => d.set "agent_name" (.str effective)
        let config := updateSection (updateSection config "configurable" stamp) "context" stamp
        .ok (config.setdefault "run_name" (.str (resolveRootRunName config normalized)))

def mergeMetadata (metadata : Option (Dict Value)) (config : RunConfig) :
    Except RunConfigError RunConfig :=
  match metadata with
  | none | some [] => .ok config
  | some metadata =>
    let config := config.setdefault "metadata" (.dict [])
    match config.get "metadata" with
    | some (.dict d) => .ok (config.set "metadata" (.dict (Dict.update d metadata)))
    | _ => .error .attribute

def buildRunConfig (env : Env) (threadId : String) (requestConfig metadata : Option (Dict Value))
    (assistantId : Option String) : Except RunConfigError RunConfig := do
  let config ← requestSections env threadId requestConfig
    [("recursion_limit", .int defaultRecursionLimit)]
  let config ← injectAgentName env assistantId config
  mergeMetadata metadata config

/-- What `aget_tuple` answers for a configuration: it raises, or it finds the checkpoint or
not. -/
abbrev Checkpointer := RunConfig → Option Bool

/-- The checkpoint object of the request, when it is one for this thread. -/
def checkpointMapping (env : Env) (checkpoint : Value) (threadId : String) :
    Except RunConfigError (Dict Value) :=
  if checkpoint.truthy then
    match checkpoint with
    | .dict d =>
      match Dict.get d "thread_id" with
      | none | some .none => .ok d
      | some v =>
        if env.str v ≠ threadId then
          .error (.http 400 "checkpoint thread_id does not match request thread_id")
        else .ok d
    | _ => .error (.http 400 "checkpoint must be an object")
  else .ok []

/-- What a checkpoint puts into `configurable`. -/
def stampCheckpoint (threadId checkpointNs checkpointId : String) (checkpointMap : Value)
    (d : Dict Value) : Dict Value :=
  let d := ((d.set "thread_id" (.str threadId)).set "checkpoint_ns" (.str checkpointNs)).set
    "checkpoint_id" (.str checkpointId)
  if checkpointMap = .none then d else d.set "checkpoint_map" checkpointMap

/-- Attach the checkpoint `id`, if there is one and the checkpointer finds it. -/
def attachCheckpoint (checkpointer : Checkpointer) (threadId ns id : String) (map : Value)
    (config : RunConfig) : Except RunConfigError RunConfig :=
  if id = "" then .ok config
  else match checkpointer [("configurable", .dict (stampCheckpoint threadId ns id map []))] with
    | none => .error (.http 500 "Failed to validate checkpoint")
    | some false => .error (.http 404 ("Checkpoint " ++ id ++ " not found"))
    | some true =>
      match (config.setdefault "configurable" (.dict [])).get "configurable" with
      | some (.dict _) =>
        .ok (updateSection config "configurable" (stampCheckpoint threadId ns id map))
      | _ => .error (.http 400 "request config configurable must be an object")

def applyCheckpointToRunConfig (env : Env) (checkpointer : Checkpointer)
    (checkpoint : Value) (checkpointId : Option String) (threadId : String)
    (config : RunConfig) : Except RunConfigError RunConfig := do
  let mapping ← checkpointMapping env checkpoint threadId
  let rawId := (mapping.get "checkpoint_id").getD .none
  let id := if rawId.truthy then env.str rawId else checkpointId.getD ""
  let ns := match (mapping.get "checkpoint_ns").getD .none with
    | .none => ""
    | v => env.str v
  attachCheckpoint checkpointer threadId ns id ((mapping.get "checkpoint_map").getD .none) config

/-- `setdefault` for each of `keys` that `context` has. -/
def setDefaults (context : Dict Value) (keys : List String) (d : Dict Value) : Dict Value :=
  keys.foldl (fun d key => match context.get key with
    | some v => d.setdefault key v
    | none => d) d

def mergeRunContextOverrides (context : Dict Value) (internal : Bool) (config : RunConfig) :
    RunConfig :=
  if context = [] then config
  else
    let keys := if internal then contextConfigurableKeys ++ contextInternalCallerKeys
      else contextConfigurableKeys
    updateSection (updateSection config "configurable" (setDefaults context keys)) "context"
      (setDefaults context (keys ++ contextRuntimeOnlyKeys ++ ["user_id", "channel_user_id"]))

def forceRunContextValues (values : Dict Value) (config : RunConfig) : RunConfig :=
  if values = [] then config
  else
    let force := fun d : Dict Value => values.foldl (fun d item => d.set item.1 item.2) d
    updateSection (updateSection config "configurable" force) "context" force

def stripInternalContextKeys (config : RunConfig) : RunConfig :=
  ["context", "configurable"].foldl (fun config name => match config.get name with
    | some (.dict d) => config.set name (.dict (contextInternalCallerKeys.foldl Dict.pop d))
    | _ => config) config

structure User where
  id : Option String
  systemRole : Value
  oauthProvider : Value
  oauthId : Value

def internalSystemRole : Value := .str "internal"

def stampUser (userId : Option String) (user : User) (d : Dict Value) : Dict Value :=
  let d := match userId with
    | some id => d.set "user_id" (.str id)
    | none => d
  ((d.set "user_role" user.systemRole).set "oauth_provider" user.oauthProvider).set
    "oauth_id" user.oauthId

def injectAuthenticatedUserContext (user internalOwnerUser : Option User) (config : RunConfig) :
    RunConfig :=
  match user with
  | none => config
  | some user =>
    if user.id = none then config
    else if user.systemRole = internalSystemRole then
      match internalOwnerUser with
      | none => updateSection config "context" fun d =>
          ((d.pop "user_role").pop "oauth_provider").pop "oauth_id"
      | some owner => updateSection config "context" (stampUser owner.id owner)
    else updateSection config "context" (stampUser user.id user)

structure SaasContext where
  tenantId : String
  tenantCode : String
  systemCode : String
  tenantName : Option String
  authorization : Option AuthorizationContext
  token : Option String

def saasAuthorizationTokenContextKey : String := "__saas_authorization_token"

/-- What `get_trusted_saas_context` returns. -/
def SaasContext.toDict (c : SaasContext) : Dict Value :=
  [("tenant_id", .str c.tenantId), ("tenant_code", .str c.tenantCode),
   ("system_code", .str c.systemCode)] ++
    match c.tenantName with
    | some name => [("tenant_name", .str name)]
    | none => []

def stampAuthorization (saas : SaasContext) (includeToken : Bool) (d : Dict Value) :
    Dict Value :=
  match saas.authorization with
  | none => d
  | some authorization =>
    let d := (d.set "saas_user_id" (.str authorization.principalId)).set "authorization_context"
      (.dict authorization.toRuntimeDict)
    if includeToken then
      match saas.token with
      | some token => d.set saasAuthorizationTokenContextKey (.str token)
      | none => d
    else d.pop saasAuthorizationTokenContextKey

def injectTrustedSaasContext (saas : Option SaasContext) (ownerUserId : String)
    (includeToken : Bool) (config : RunConfig) : RunConfig :=
  match saas with
  | none => config
  | some saas => updateSection config "context" fun d =>
      let d := if ownerUserId = "" then d else d.set "saas_user_id" (.str ownerUserId)
      stampAuthorization saas includeToken (d.update saas.toDict)

end DeerFlow.Gateway
