import DeerFlow.Lib.Except
import DeerFlow.Lib.RoseTree
import DeerFlow.Runtime.AuthorizationContext

/-! The SQL guard: the policy of each table, and how one parsed query is checked,
scoped to the caller's resources and bounded. A query is its sqlglot tree. -/

namespace DeerFlow.Semantic
open RoseTree

/-- The classes of tree nodes the guard tells apart. Identifiers, aliases and integer literals are
kept as texts and numbers of the node they belong to; `""` is an absent one. The children of a node
are its other arguments in the order in which they are visited; `this` comes first. -/
inductive SqlKind where
  | select
  | setOperation
  | subquery (aliasName : String)
  | withClause (recursive : Bool)
  | cte (aliasName : String)
  | fromClause
  | join
  | lateral (aliasName : String)
  | whereClause
  | table (name db aliasName : String)
  /-- `tableSql` is the qualifier as SQL text, with its quotes. -/
  | column (name table tableSql : String)
  | star
  | func (className functionName : String) (aggregate : Bool)
  | isIn
  | placeholder (name : String)
  | limit (expression : Option Nat)
  | fetch (count : Option Nat)
  | offset (expression : Option Nat)
  | other (className : String)
  deriving DecidableEq, Inhabited

abbrev SqlNode := RoseTree SqlKind

abbrev SqlLoc := Loc SqlKind

namespace SqlKind

/-- `isinstance(node, exp.Query)`. -/
def isQuery : SqlKind → Bool
  | select | setOperation | subquery _ => true
  | _ => false

def isAggregate : SqlKind → Bool
  | func _ _ aggregate => aggregate
  | _ => false

/-- `type(node).__name__`, for the classes the guard looks up by name. -/
def className? : SqlKind → Option String
  | func className _ _ | other className => some className
  | _ => none

end SqlKind

inductive SqlError where
  | scope (detail : String)
  | assertion
  deriving DecidableEq

/-- Text functions of the interpreter, and the parser: `none` is a `ParseError`, and an empty
statement parses to `none`. -/
structure SqlEnv where
  str : Value → String
  repr : String → String
  lower : String → String
  lower_lower : ∀ s, lower (lower s) = lower s
  parse : String → Option (List (Option SqlNode))

inductive Access where
  | scoped
  | reference
  | forbidden
  deriving DecidableEq, Inhabited

def Access.ofText : String → Option Access
  | "scoped" => some .scoped
  | "reference" => some .reference
  | "forbidden" => some .forbidden
  | _ => none

structure TableScopePolicy where
  access : Access
  scopeDimension : Option String := none
  scopeColumn : Option String := none
  allowedFields : Option (List String) := none
  hiddenFields : List String := []
  maskedFields : List String := []
  aggregateOnlyFields : List String := []
  deriving DecidableEq, Inhabited

structure SqlScopePolicyRegistry where
  version : String
  tables : Dict TableScopePolicy

structure ScopedQuery where
  /-- The tree that is rendered as the query's text. -/
  sql : SqlNode
  parameters : Dict String
  referencedTables : List String
  policyVersion : String
  scopeHash : String
  referencedFields : List String
  scopePredicatesApplied : Nat

def defaultQueryLimit : Int := 100

def maxQueryLimit : Int := 1000

def maxQueryOffset : Nat := 10000

def systemDatabases : List String := ["mysql", "information_schema", "performance_schema", "sys"]

def scopeDimensions : List String := ["site", "project"]

def forbiddenSelectNodes : List String :=
  ["Command", "CurrentCatalog", "CurrentRole", "CurrentSchema", "CurrentUser", "Hint", "Into",
   "Lock", "Parameter", "PropertyEQ", "SessionParameter", "Transaction", "Use"]

def forbiddenFunctions : List String :=
  ["benchmark", "connection_id", "current_catalog", "current_role", "current_schema",
   "current_user", "database", "get_lock", "is_free_lock", "is_used_lock", "last_insert_id",
   "load_file", "master_pos_wait", "release_all_locks", "release_lock", "row_count", "schema",
   "session_user", "sleep", "system_user", "sys_eval", "sys_exec", "user", "version",
   "found_rows"]

variable (E : SqlEnv)

/-! Policies -/

/-- `str(value or "").strip()`. -/
def SqlEnv.textOf (value : Value) : String := strip (if value.truthy then E.str value else "")

/-- `str(value).strip()`, when there is a value. -/
def SqlEnv.optionalText : Value → Option String
  | .none => none
  | value => some (strip (E.str value))

def SqlEnv.fieldSet (items : List Value) : List String := (items.map fun item => strip (E.str item)).dedup

/-- `value or []`, which must be a list. -/
def SqlEnv.classification (tableName : String) (value : Value) : Except SqlError (List String) :=
  match if value.truthy then value else .list [] with
  | .list items => .ok (E.fieldSet items)
  | _ => .error (.scope ("Table " ++ E.repr tableName ++ " field classifications must be lists"))

def SqlEnv.accessOf (tableName : String) (value : Value) : Except SqlError Access :=
  match Access.ofText (E.lower (E.textOf value)) with
  | some access => .ok access
  | none => .error (.scope ("Table " ++ E.repr tableName ++ " has invalid access policy"))

def overlap (xs ys : List String) : Bool := xs.any ys.contains

def SqlEnv.tablePolicyFromMapping (tableName : String) (value : Dict Value) :
    Except SqlError TableScopePolicy := do
  let field (k : String) : Value := (value.get k).getD .none
  let access ← E.accessOf tableName (field "access")
  let scopeDimension := (E.optionalText (field "scope_dimension")).map E.lower
  let scopeColumn := E.optionalText (field "scope_column")
  if access = .scoped ∧ (¬ scopeDimension.any scopeDimensions.contains ∨ scopeColumn.getD "" = "")
  then
    .error (.scope ("Table " ++ E.repr tableName ++ " requires scope_dimension and scope_column"))
  else
    let allowedFields := match field "allowed_fields" with
      | .list items => some (E.fieldSet items)
      | _ => none
    let hiddenFields ← E.classification tableName (field "hidden_fields")
    let maskedFields ← E.classification tableName (field "masked_fields")
    let aggregateOnlyFields ← E.classification tableName (field "aggregate_only_fields")
    if overlap hiddenFields maskedFields || overlap hiddenFields aggregateOnlyFields ||
        overlap maskedFields aggregateOnlyFields then
      .error (.scope ("Table " ++ E.repr tableName ++ " field classifications must not overlap"))
    else
      return { access, scopeDimension, scopeColumn, allowedFields, hiddenFields, maskedFields,
               aggregateOnlyFields }

def SqlEnv.addPolicy (tables : Dict TableScopePolicy) (item : String × Value) :
    Except SqlError (Dict TableScopePolicy) :=
  match item.2 with
  | .dict policy => do
    let policy ← E.tablePolicyFromMapping item.1 policy
    return tables.set (E.lower (strip item.1)) policy
  | _ => .ok tables

def SqlEnv.registryFromMapping (value : Dict Value) : Except SqlError SqlScopePolicyRegistry :=
  let version := E.textOf ((value.get "version").getD .none)
  match version, value.get "tables" with
  | "", _ => .error (.scope "SQL scope policy requires version and tables")
  | version, some (.dict tables) => do
    let tables ← tables.foldlM E.addPolicy []
    return { version, tables }
  | _, _ => .error (.scope "SQL scope policy requires version and tables")

def SqlEnv.policyFor (registry : SqlScopePolicyRegistry) (tableName : String) :
    Except SqlError TableScopePolicy :=
  let denied : SqlError :=
    .scope ("Table " ++ E.repr tableName ++ " is not allowed by SQL scope policy")
  match registry.tables.get (E.lower tableName) with
  | none => .error denied
  | some policy => if policy.access = .forbidden then .error denied else .ok policy

/-! The statement and its nodes -/

def SqlEnv.parseOne (query : String) : Except SqlError SqlNode :=
  match E.parse query with
  | none => .error (.scope "SQL could not be parsed")
  | some [some statement] =>
    if statement.label.isQuery then .ok statement
    else .error (.scope "Only SELECT queries are allowed")
  | some [none] => .error (.scope "Only SELECT queries are allowed")
  | some _ => .error (.scope "Exactly one SQL statement is required")

def SqlEnv.checkNode (l : SqlLoc) : Except SqlError Unit :=
  match l.focus.label.className? with
  | none => .ok ()
  | some className =>
    if forbiddenSelectNodes.contains className then
      .error (.scope ("SQL construct " ++ E.repr className ++ " is not allowed"))
    else match l.focus.label with
      | .func _ functionName _ =>
        if forbiddenFunctions.contains (E.lower functionName) then
          .error (.scope ("SQL function " ++ E.repr (E.lower functionName) ++ " is not allowed"))
        else .ok ()
      | _ => .ok ()

def SqlEnv.cteNames (statement : SqlNode) : List String :=
  statement.walk.filterMap fun l => match l.focus.label with
    | .cte aliasName => some (E.lower aliasName)
    | _ => none

def SqlEnv.checkShadowing (registry : SqlScopePolicyRegistry) (statement : SqlNode) :
    Except SqlError Unit :=
  match (E.cteNames statement).filter registry.tables.contains with
  | [] => .ok ()
  | shadowed => .error (.scope ("CTE alias shadows SQL policy table: " ++
      ", ".intercalate (sorted shadowed.dedup)))

/-! The tables -/

structure TableNode where
  path : NodePath
  name : String
  db : String
  aliasName : String

def TableNode.aliasOrName (t : TableNode) : String :=
  if t.aliasName ≠ "" then t.aliasName else t.name

def tableNode? (l : SqlLoc) : Option TableNode :=
  match l.focus.label with
  | .table name db aliasName => some ⟨l.path, name, db, aliasName⟩
  | _ => none

/-- The references that no common table expression of the statement can be meant by. -/
def SqlEnv.tableNodes (statement : SqlNode) : List TableNode :=
  (statement.walk.filterMap tableNode?).filter fun t =>
    t.db ≠ "" || !(E.cteNames statement).contains (E.lower t.name)

def SqlEnv.checkTable (allowedDatabases : List String) (registry : SqlScopePolicyRegistry)
    (t : TableNode) : Except SqlError (TableNode × TableScopePolicy) :=
  let database := E.lower t.db
  if database ≠ "" ∧
      (database ∈ systemDatabases ∨ database ∉ allowedDatabases.map E.lower) then
    .error (.scope ("Database " ++ E.repr t.db ++ " is not allowed"))
  else do
    let policy ← E.policyFor registry (E.lower t.name)
    return (t, policy)

def SqlEnv.checkTables (allowedDatabases : List String) (registry : SqlScopePolicyRegistry)
    (statement : SqlNode) : Except SqlError (List (TableNode × TableScopePolicy)) :=
  match E.tableNodes statement with
  | [] => .error (.scope "Query must reference at least one authorized table")
  | tables => tables.mapM (E.checkTable allowedDatabases registry)

def SqlEnv.addAlias (aliases : Dict TableScopePolicy) (x : TableNode × TableScopePolicy) :
    Dict TableScopePolicy :=
  (aliases.set (E.lower x.1.aliasOrName) x.2).setdefault (E.lower x.1.name) x.2

def SqlEnv.aliases (tables : List (TableNode × TableScopePolicy)) : Dict TableScopePolicy :=
  tables.foldl E.addAlias []

/-! The columns -/

def insideAggregate (l : SqlLoc) : Bool :=
  (l.above.takeWhile fun x => x.1.label ≠ .select).any fun x => x.1.label.isAggregate

def candidates (aliases : Dict TableScopePolicy) (qualifier : String) : List TableScopePolicy :=
  match aliases.get qualifier with
  | some policy => [policy]
  | none => aliases.values

/-- `star.parent.args.get("table")`, as text. -/
def starTable (l : SqlLoc) : String :=
  match l.above with
  | (.node (.column _ _ tableSql) _, _) :: _ => tableSql
  | _ => ""

def TableScopePolicy.restricted (policy : TableScopePolicy) : Bool :=
  policy.hiddenFields ≠ [] || policy.maskedFields ≠ [] || policy.aggregateOnlyFields ≠ [] ||
    policy.allowedFields.isSome

def SqlEnv.checkStar (aliases : Dict TableScopePolicy) (l : SqlLoc) : Except SqlError Unit :=
  match l.focus.label with
  | .star =>
    if insideAggregate l then .ok ()
    else if (candidates aliases (E.lower (starTable l))).any TableScopePolicy.restricted then
      .error (.scope "SELECT * is not allowed for field-restricted tables")
    else .ok ()
  | _ => .ok ()

def SqlEnv.checkColumn (aliases : Dict TableScopePolicy) (l : SqlLoc) : Except SqlError Unit :=
  match l.focus.label with
  | .column name table _ =>
    let name := E.lower name
    let candidates := candidates aliases (E.lower table)
    if candidates.any fun policy => policy.hiddenFields.contains name then
      .error (.scope ("Field " ++ E.repr name ++ " is hidden by SQL scope policy"))
    else if candidates.any fun policy => policy.maskedFields.contains name then
      .error (.scope ("Field " ++ E.repr name ++
        " is masked and cannot be selected by SQL agents"))
    else if (candidates.any fun policy => policy.aggregateOnlyFields.contains name) &&
        !insideAggregate l then
      .error (.scope ("Field " ++ E.repr name ++ " is aggregate-only by SQL scope policy"))
    else if !((candidates.filterMap TableScopePolicy.allowedFields).all fun allowed =>
        allowed.contains name) then
      .error (.scope ("Field " ++ E.repr name ++ " is not allowed by SQL scope policy"))
    else .ok ()
  | _ => .ok ()

def SqlEnv.validateColumns (statement : SqlNode) (aliases : Dict TableScopePolicy) :
    Except SqlError Unit := do
  forM statement.walk (E.checkStar aliases)
  forM statement.walk (E.checkColumn aliases)

/-! The scope -/

def resourceIds (context : AuthorizationContext) (dimension : String) : List String :=
  if dimension = "site" then context.allowedSiteIds else context.allowedProjectIds

def scopeValues (context : AuthorizationContext) (dimension : String) :
    Except SqlError (List String) :=
  match context.scopeMode with
  | .tenantAll => .ok []
  | .none => .error (.scope "Authorization scope denies data access")
  | .scopeRef => .error (.scope "scope_ref must be resolved before SQL execution")
  | .resourceSet =>
    if resourceIds context dimension = [] then
      .error (.scope ("Authorization scope contains no " ++ dimension ++ " resources"))
    else .ok (resourceIds context dimension)

def parametersOf (stem : String) (values : List String) : Dict String :=
  values.zipIdx.map fun x => (stem ++ "_" ++ toString x.2, x.1)

/-- `column IN (placeholders)`. -/
def inPredicate (column : String) (names : List String) : SqlNode :=
  .node .isIn (.leaf (.column column "" "") :: names.map fun name => .leaf (.placeholder name))

def parameterizedPredicate (column stem : String) (values : List String) :
    SqlNode × Dict String :=
  let parameters := parametersOf stem values
  (inPredicate column parameters.keys, parameters)

def dropAlias : SqlKind → SqlKind
  | .table name db _ => .table name db ""
  | kind => kind

/-- `source.set("alias", None)`. -/
def withoutAlias (source : SqlNode) : SqlNode := .node (dropAlias source.label) source.children

/-- `(SELECT * FROM source WHERE predicate) AS aliasName`, over a copy of the table. -/
def scopedSource (predicate : SqlNode) (aliasName : String) (source : SqlNode) : SqlNode :=
  .node (.subquery aliasName) [.node .select [.leaf .star,
    .node .fromClause [withoutAlias source], .node .whereClause [predicate]]]

structure Scoping where
  statement : SqlNode
  replaced : List NodePath
  parameters : Dict String
  predicatesApplied : Nat

def scopeTable (authorization : AuthorizationContext) (s : Scoping)
    (x : (TableNode × TableScopePolicy) × Nat) : Except SqlError Scoping :=
  let ((table, policy), index) := x
  if policy.access ≠ .scoped ∨ authorization.scopeMode = .tenantAll then .ok s
  else match policy.scopeDimension, policy.scopeColumn with
    | some dimension, some column => do
      let values ← scopeValues authorization dimension
      let (predicate, parameters) :=
        parameterizedPredicate column ("scope_" ++ toString index) values
      let (statement, replaced) :=
        replaceNode (scopedSource predicate table.aliasOrName) table.path (s.statement, s.replaced)
      return { statement, replaced,
               parameters := s.parameters.update parameters,
               predicatesApplied := s.predicatesApplied + 1 }
    | _, _ => .error .assertion

def scopeTables (authorization : AuthorizationContext) (statement : SqlNode)
    (tables : List (TableNode × TableScopePolicy)) : Except SqlError Scoping :=
  tables.zipIdx.foldlM (scopeTable authorization) ⟨statement, [], [], 0⟩

/-! The rows -/

def boundedLimit (limit : Int) : Nat := (max 1 (min limit maxQueryLimit)).toNat

def checkLimit (l : SqlLoc) : Except SqlError Unit :=
  match l.focus.label with
  | .limit none => .error (.scope "LIMIT must be a fixed integer")
  | _ => .ok ()

def checkOffset (l : SqlLoc) : Except SqlError Unit :=
  match l.focus.label with
  | .offset none => .error (.scope "OFFSET must be a fixed integer")
  | .offset (some n) =>
    if n > maxQueryOffset then
      .error (.scope ("OFFSET exceeds " ++ toString maxQueryOffset))
    else .ok ()
  | _ => .ok ()

def clampLimit (bound : Nat) : SqlKind → SqlKind
  | .limit (some requested) => .limit (some (if requested > bound then bound else requested))
  | kind => kind

/-- What the slot `limit` of a query holds. -/
def isRowLimit : SqlKind → Bool
  | .limit _ | .fetch _ => true
  | _ => false

def addLimit (bound : Nat) (statement : SqlNode) : SqlNode :=
  if statement.children.any fun c => isRowLimit c.label then statement
  else .node statement.label (statement.children ++ [.leaf (.limit (some bound))])

def boundRows (limit : Int) (statement : SqlNode) : Except SqlError SqlNode := do
  forM statement.walk checkLimit
  forM statement.walk checkOffset
  return addLimit (boundedLimit limit) (statement.map (clampLimit (boundedLimit limit)))

/-! The guard -/

def SqlEnv.referencedFields (statement : SqlNode) : List String :=
  sorted (statement.walk.filterMap fun l => match l.focus.label with
    | .column name _ _ => some (E.lower name)
    | _ => none).dedup

def SqlEnv.referencedTables (tables : List (TableNode × TableScopePolicy)) : List String :=
  sorted (tables.map fun x => E.lower x.1.name).dedup

def SqlEnv.guardSqlQuery (query : String) (authorization : AuthorizationContext)
    (allowedDatabases : List String) (registry : SqlScopePolicyRegistry) (limit : Int) :
    Except SqlError ScopedQuery := do
  let statement ← E.parseOne query
  forM statement.walk E.checkNode
  E.checkShadowing registry statement
  let tables ← E.checkTables allowedDatabases registry statement
  E.validateColumns statement (E.aliases tables)
  let scoping ← scopeTables authorization statement tables
  let sql ← boundRows limit scoping.statement
  return { sql,
           parameters := scoping.parameters,
           referencedTables := E.referencedTables tables,
           policyVersion := registry.version,
           scopeHash := authorization.scopeHash,
           referencedFields := E.referencedFields sql,
           scopePredicatesApplied := scoping.predicatesApplied }

/-! Reading a statement -/

/-- What a parenthesised join or a comma adds to a table. -/
def isJoined : SqlKind → Bool
  | .join | .lateral _ => true
  | _ => false

/-- The policy of the table a node refers to. -/
def SqlEnv.policyAt (registry : SqlScopePolicyRegistry) (n : SqlNode) : Option TableScopePolicy :=
  match n.label with
  | .table name _ _ => registry.tables.get (E.lower name)
  | _ => none

section Accepted
variable {E : SqlEnv} {authorization : AuthorizationContext} {allowedDatabases : List String}
  {registry : SqlScopePolicyRegistry} {limit : Int} {statement : SqlNode}
  {tables : List (TableNode × TableScopePolicy)} {scoping : Scoping} {out : ScopedQuery}

/-- What the guard has found out about a statement when it accepts it. -/
structure SqlEnv.Accepts (E : SqlEnv) (authorization : AuthorizationContext)
    (allowedDatabases : List String) (registry : SqlScopePolicyRegistry) (limit : Int)
    (statement : SqlNode) (tables : List (TableNode × TableScopePolicy)) (scoping : Scoping)
    (out : ScopedQuery) : Prop where
  query : statement.label.isQuery = true
  unshadowed : ∀ name ∈ E.cteNames statement, registry.tables.get name = none
  checked : E.checkTables allowedDatabases registry statement = .ok tables
  validated : E.validateColumns statement (E.aliases tables) = .ok ()
  rewritten : scopeTables authorization statement tables = .ok scoping
  bounded : boundRows limit scoping.statement = .ok out.sql
  parameters : out.parameters = scoping.parameters
  referenced : out.referencedTables = E.referencedTables tables

theorem SqlEnv.parseOne_eq_ok {query : String} (hq : E.parse query = some [some statement])
    {parsed : SqlNode} (h : E.parseOne query = .ok parsed) :
    parsed = statement ∧ statement.label.isQuery = true := by
  unfold SqlEnv.parseOne at h
  rw [hq] at h
  simp only at h
  split_ifs at h with hquery
  exact ⟨(Except.ok.inj h).symm, hquery⟩

theorem SqlEnv.checkShadowing_eq_ok (h : E.checkShadowing registry statement = .ok ()) :
    ∀ name ∈ E.cteNames statement, registry.tables.get name = none := by
  unfold SqlEnv.checkShadowing at h
  split at h
  · next hnil =>
    intro name hname
    have hnot := List.filter_eq_nil_iff.mp hnil name hname
    simpa [Dict.contains] using hnot
  · cases h

theorem SqlEnv.accepts_of_guard {query : String}
    (hq : E.parse query = some [some statement])
    (h : E.guardSqlQuery query authorization allowedDatabases registry limit = .ok out) :
    ∃ tables scoping, E.Accepts authorization allowedDatabases registry limit statement tables
      scoping out := by
  obtain ⟨parsed, hparse, h⟩ := bind_eq_ok.mp h
  obtain ⟨rfl, hquery⟩ := E.parseOne_eq_ok hq hparse
  obtain ⟨-, -, h⟩ := bind_eq_ok.mp h
  obtain ⟨_, hshadow, h⟩ := bind_eq_ok.mp h
  obtain ⟨tables, htables, h⟩ := bind_eq_ok.mp h
  obtain ⟨_, hvalidate, h⟩ := bind_eq_ok.mp h
  obtain ⟨scoping, hscoping, h⟩ := bind_eq_ok.mp h
  obtain ⟨sql, hsql, h⟩ := bind_eq_ok.mp h
  cases h
  exact ⟨tables, scoping, hquery, E.checkShadowing_eq_ok hshadow, htables, hvalidate, hscoping,
    hsql, rfl, rfl⟩

theorem SqlEnv.policyFor_eq_ok {name : String} {policy : TableScopePolicy}
    (h : E.policyFor registry name = .ok policy) :
    registry.tables.get (E.lower name) = some policy ∧ policy.access ≠ .forbidden := by
  unfold SqlEnv.policyFor at h
  simp only at h
  split at h
  · cases h
  · next policy' hget =>
    split_ifs at h with hacc
    cases h
    exact ⟨hget, hacc⟩

theorem SqlEnv.checkTable_eq_ok {t : TableNode} {x : TableNode × TableScopePolicy}
    (h : E.checkTable allowedDatabases registry t = .ok x) :
    x.1 = t ∧ registry.tables.get (E.lower t.name) = some x.2 ∧ x.2.access ≠ .forbidden ∧
      E.lower t.db ∉ systemDatabases := by
  unfold SqlEnv.checkTable at h
  simp only at h
  split_ifs at h with hdb
  obtain ⟨policy, hpolicy, h⟩ := bind_eq_ok.mp h
  cases h
  obtain ⟨hget, hacc⟩ := E.policyFor_eq_ok hpolicy
  rw [E.lower_lower] at hget
  refine ⟨rfl, hget, hacc, fun hsys => hdb ⟨?_, .inl hsys⟩⟩
  intro hempty
  rw [hempty] at hsys
  exact absurd hsys (by decide)

theorem SqlEnv.mapM_checkTable_eq_ok {ts : List TableNode}
    (h : ts.mapM (E.checkTable allowedDatabases registry) = .ok tables) :
    tables.map Prod.fst = ts ∧
    ∀ x ∈ tables, registry.tables.get (E.lower x.1.name) = some x.2 ∧ x.2.access ≠ .forbidden ∧
      E.lower x.1.db ∉ systemDatabases := by
  have hforall := mapM_eq_ok.mp h
  clear h
  induction hforall with
  | nil => exact ⟨rfl, nofun⟩
  | cons hx _ ih =>
    obtain ⟨rfl, hchecked⟩ := E.checkTable_eq_ok hx
    exact ⟨by rw [List.map_cons, ih.1], List.forall_mem_cons.mpr ⟨hchecked, ih.2⟩⟩

theorem SqlEnv.checkTables_eq_ok
    (h : E.checkTables allowedDatabases registry statement = .ok tables) :
    (E.tableNodes statement).mapM (E.checkTable allowedDatabases registry) = .ok tables := by
  unfold SqlEnv.checkTables at h
  split at h
  · cases h
  · exact h

variable (h : E.Accepts authorization allowedDatabases registry limit statement tables scoping out)
include h

theorem SqlEnv.Accepts.fst_eq_tableNodes : tables.map Prod.fst = E.tableNodes statement :=
  (E.mapM_checkTable_eq_ok (E.checkTables_eq_ok h.checked)).1

theorem SqlEnv.Accepts.table_checked {x : TableNode × TableScopePolicy} (hx : x ∈ tables) :
    registry.tables.get (E.lower x.1.name) = some x.2 ∧ x.2.access ≠ .forbidden ∧
      E.lower x.1.db ∉ systemDatabases :=
  (E.mapM_checkTable_eq_ok (E.checkTables_eq_ok h.checked)).2 x hx

/-- A reference that the guard does not take for a common table expression has been checked. -/
theorem SqlEnv.Accepts.exists_table {l : SqlLoc} {t : TableNode} (hl : l ∈ statement.walk)
    (ht : tableNode? l = some t) (hname : t.db ≠ "" ∨ E.lower t.name ∉ E.cteNames statement) :
    ∃ policy, (t, policy) ∈ tables := by
  have hmem : t ∈ E.tableNodes statement := by
    refine List.mem_filter.mpr ⟨List.mem_filterMap.mpr ⟨l, hl, ht⟩, ?_⟩
    simpa using hname
  rw [← h.fst_eq_tableNodes] at hmem
  obtain ⟨⟨t, policy⟩, hx, rfl⟩ := List.mem_map.mp hmem
  exact ⟨policy, hx⟩

end Accepted

/-! A small registry with two scoped tables, a reference table and a forbidden one -/

theorem toLower_toLower (c : Char) : c.toLower.toLower = c.toLower := by
  unfold Char.toLower
  split_ifs with h h'
  · exfalso
    simp only [ge_iff_le, UInt32.le_iff_toNat_le, UInt32.toNat_add] at h h'
    have hlt : c.val.toNat < 2 ^ 32 := c.val.toNat_lt
    simp at h h'
    omega
  · rfl
  · rfl

def demoEnv (statement : SqlNode) : SqlEnv where
  str := fun v => match v with
    | .str s => s
    | _ => ""
  repr := fun s => "'" ++ s ++ "'"
  lower := fun s => String.ofList (s.toList.map Char.toLower)
  lower_lower := fun s => by
    rw [String.toList_ofList, List.map_map]
    exact congrArg String.ofList (List.map_congr_left fun c _ => toLower_toLower c)
  parse := fun _ => some [some statement]

def demoRegistry : SqlScopePolicyRegistry where
  version := "test-1"
  tables := [
    ("demo_sites", {
      access := .scoped, scopeDimension := some "site", scopeColumn := some "id",
      allowedFields := some ["id", "name"] }),
    ("demo_devices", {
      access := .scoped, scopeDimension := some "project", scopeColumn := some "project_id",
      hiddenFields := ["secret"], maskedFields := ["serial_no"],
      aggregateOnlyFields := ["reading"] }),
    ("demo_reference_values", { access := .reference }),
    ("demo_private_credentials", { access := .forbidden })]

def demoAuthorization : AuthorizationContext where
  principalId := "public-user-001"
  tenantId := "public-tenant-001"
  tenantCode := "public_demo"
  systemCode := "demo"
  roleCodes := ["site_admin"]
  scopeMode := .resourceSet
  allowedSiteIds := ["site-demo-001", "site-demo-002"]
  allowedProjectIds := ["project-demo-001"]
  scopeRef := none
  permissionVersion := "1"
  scopeHash := ""

def demoGuard (statement : SqlNode) : Except SqlError ScopedQuery :=
  (demoEnv statement).guardSqlQuery "" demoAuthorization ["semantic_demo"] demoRegistry
    defaultQueryLimit

end DeerFlow.Semantic
