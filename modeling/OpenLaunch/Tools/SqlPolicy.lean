import OpenLaunch.SyntaxTree
import OpenLaunch.Tools.ResultGovernance

/-! # Which queries a data source runs

`enforce_sql_policy` takes one statement, refuses what may write, compares the tables and columns
the statement names with the lists of the policy, and appends the row predicates of the policy to
every SELECT. The statement is the tree that `sqlglot` parses it to. -/

namespace OpenLaunch.Tools

open Python

/-! ## Statements -/

/-- A table as written: the parts that are not written are empty. -/
structure TableName where
  catalog : String
  db : String
  name : String
  deriving DecidableEq

/-- What a node of a statement is. A reference also carries what it stands for in the database,
which the policy code does not see. -/
inductive SqlKind
  | select
  /-- A table as written, and whether it is a base table: otherwise a common table expression. -/
  | table (written : TableName) (base : Bool)
  /-- A column with its qualifier as written, and the base table it is read from, if any. -/
  | column (table name : String) (origin : Option TableName)
  | star
  | join
  /-- A call of a function that the parser does not know. -/
  | anonymous (name : String)
  | other (key : String)
  deriving DecidableEq

/-- `node.key`. -/
def SqlKind.key : SqlKind → String
  | .select => "select"
  | .table _ _ => "table"
  | .column _ _ _ => "column"
  | .star => "star"
  | .join => "join"
  | .anonymous _ => "anonymous"
  | .other key => key

/-- A parsed statement or a part of one. The conditions that a WHERE joins by AND are arguments of
the SELECT, one by one. -/
abbrev SqlNode := SyntaxTree SqlKind

/-- Why a statement is not parsed. -/
inductive ParseFailure
  | parseError
  | other

/-- What the policy code takes from `sqlglot`. -/
structure SqlGlot where
  /-- `parse(text, read=dialect)`. -/
  parse : String → String → Except ParseFailure (List (Option SqlNode))
  /-- `isinstance(expression, (exp.Query, exp.Describe, exp.Show))`. -/
  readOnly : SqlNode → Bool
  /-- `expression.sql(dialect=dialect, pretty=False)`. -/
  sql : SqlNode → String → String
  /-- `_fingerprint(expression, dialect)`. -/
  fingerprint : SqlNode → String → String

/-! ## Refusals -/

/-- How a call does not return. -/
inductive Refusal
  /-- `SQLPolicyError` with its message. -/
  | policy (message : String)
  /-- Another exception. -/
  | raised (e : PyErr)
  /-- The call never ends. -/
  | forever
  deriving DecidableEq

/-- A part of the code that raises no policy error. -/
def ofPy {α : Type} : Except PyErr α → Except Refusal α
  | .ok a => .ok a
  | .error e => .error (.raised e)

/-- `if not condition: raise SQLPolicyError(message)`. -/
def require (condition : Bool) (message : String) : Except Refusal Unit :=
  if condition then .ok () else .error (.policy message)

/-! ## The parts of the policy code -/

/-- `DIALECTS`. -/
def DIALECTS : List (String × String) :=
  [("postgresql", "postgres"), ("sql_server", "tsql"), ("azure_sql", "tsql"),
    ("snowflake", "snowflake")]

/-- `_MUTATING_KEYS`. -/
def _MUTATING_KEYS : List String :=
  ["insert", "update", "delete", "merge", "create", "drop", "alter", "truncate", "copy", "grant",
    "revoke", "transaction", "commit", "rollback", "set", "use", "execute", "command", "into",
    "load_data"]

/-- `_UNSAFE_FUNCTIONS`. -/
def _UNSAFE_FUNCTIONS : List String :=
  ["BENCHMARK", "DBMS_LOCK.SLEEP", "DBLINK", "DBLINK_CONNECT", "HTTP_GET", "HTTP_POST", "LO_EXPORT",
    "LO_IMPORT", "OPENROWSET", "OPENDATASOURCE", "PG_LS_DIR", "PG_READ_BINARY_FILE", "PG_READ_FILE",
    "PG_SLEEP", "SYSTEM$WAIT"]

/-- `".".join(part for part in parts if part)`. -/
def dotted (parts : List String) : String := ".".intercalate (parts.filter (· ≠ ""))

/-- `_table_name(table)`. -/
def _table_name (t : TableName) : String := dotted [t.catalog, t.db, t.name]

/-- A column as the policy compares it. -/
def columnText (table name : String) : String := dotted [table, name]

/-- The texts of the tables a statement names, base tables or not. -/
def tableTexts (ns : List SqlNode) : List String :=
  ns.filterMap fun n => match n.kind with
    | .table t _ => some (_table_name t)
    | _ => none

/-- The texts of the columns a statement names. -/
def columnTexts (ns : List SqlNode) : List String :=
  ns.filterMap fun n => match n.kind with
    | .column table name _ => some (columnText table name)
    | _ => none

/-- `DIALECTS.get(provider_type)`. -/
def dialectOf (provider_type : String) : Except Refusal String :=
  match Assoc.get? DIALECTS provider_type with
  | some dialect => .ok dialect
  | none => .error (.policy "The SQL dialect is unsupported.")

variable (py : Interpreter) (glot : SqlGlot)

/-- The one statement of the query. -/
def parseQuery (query dialect : String) : Except Refusal SqlNode := do
  require (strip query.toList ≠ [] ∧ '\x00' ∉ query.toList) "A valid query is required."
  match glot.parse query dialect with
  | .error .parseError => .error (.policy "The query could not be classified safely.")
  | .error .other => .error (.raised .upstream)
  | .ok statements =>
    match statements.filterMap id with
    | [expression] => .ok expression
    | _ => .error (.policy "Only one statement is allowed.")

/-- The loop over the nodes of the statement. -/
def checkNodes : List SqlNode → Except Refusal Unit
  | [] => .ok ()
  | n :: ns => do
    require (py.lower n.kind.key ∉ _MUTATING_KEYS) "The query contains an unsafe operation."
    match n.kind with
    | .anonymous name =>
      require (py.upper name ∉ _UNSAFE_FUNCTIONS) "The query contains a blocked function."
      checkNodes ns
    | _ => checkNodes ns

/-- The messages of one pair of lists: a name on the deny list, a name off the allow list. -/
structure ListMessages where
  denied : String
  outside : String

/-- `not allow or _matches(name, allow)`. -/
def allowedBy (allow : List Json) (name : String) : Except Refusal Bool :=
  if allow = [] then .ok true else ofPy (_matches py name allow)

/-- One name against the lists of the policy. -/
def checkName (m : ListMessages) (deny allow : List Json) (name : String) :
    Except Refusal Unit := do
  let denied ← ofPy (_matches py name deny)
  require (!denied) m.denied
  let allowed ← allowedBy py allow name
  require allowed m.outside

/-- The loop over the names. -/
def checkNames (m : ListMessages) (deny allow : List Json) : List String → Except Refusal Unit
  | [] => .ok ()
  | name :: names => do
    checkName py m deny allow name
    checkNames m deny allow names

/-- The messages about tables. -/
def objectMessages : ListMessages :=
  ⟨"The query references a denied object.",
    "The query references an object outside the allowlist."⟩

/-- The messages about columns. -/
def columnMessages : ListMessages :=
  ⟨"The query references a denied column.",
    "The query references a column outside the allowlist."⟩

/-- `list(policy.get(key) or [])`. -/
def listField (policy : Json) (key : String) : Except PyErr (List Json) := do
  ((← policy.get key).or (.list [])).iter

/-- `(policy.get("row_predicates") or {}).items()`. -/
def rowPredicates (policy : Json) : Except PyErr (List (String × Json)) := do
  match (← policy.get "row_predicates").or (.dict []) with
  | .dict items => .ok items
  | _ => .error .attributeError

/-- `max(low, int(policy.get(key, default)))`. -/
def limitField (policy : Json) (key : String) (default low : ℤ) : Except PyErr ℤ := do
  let n ← py.conv.int (← policy.getD key (.int default))
  .ok (max low n)

/-- `_matches(text, [name])`. -/
def namesText (name text : String) : Bool := fnmatchcase (py.lower text) (py.lower name)

/-- The predicates whose name matches a table of the statement. -/
def applicablePredicates (predicates : List (String × Json)) (objects : List String) : List Json :=
  (predicates.filter fun e => objects.any (namesText py e.1)).map (·.2)

/-- `parse(str(predicate), read=dialect)[0]`, which is none for a predicate without text. -/
def conditionOf (dialect : String) (predicate : Json) : Except Refusal (Option SqlNode) :=
  match glot.parse (py.conv.str predicate) dialect with
  | .ok (condition :: _) => .ok condition
  | _ => .error (.policy "A configured row policy is invalid.")

/-- A condition of a WHERE. -/
def whereNode (condition : SqlNode) : SqlNode := .node (.other "where") [condition]

/-- The statement or condition has a SELECT. -/
def hasSelect (n : SqlNode) : Bool := n.walk.any (·.kind = .select)

/-- The loop that appends the predicates to every SELECT. It walks the tree that it changes, so a
predicate that has a SELECT is appended to itself for ever. -/
def addRowPredicates (dialect : String) (applicable : List Json) (expression : SqlNode) :
    Except Refusal SqlNode := do
  if applicable = [] ∨ hasSelect expression = false then .ok expression
  else
    let conditions ← applicable.mapM (conditionOf py glot dialect)
    if (conditions.filterMap id).any hasSelect then .error .forever
    else
      .ok (expression.addArgs (· = .select) ((conditions.filterMap id).map whereNode))

/-- `SQLPolicyDecision`. -/
structure SQLPolicyDecision where
  query : String
  dialect : String
  objects : List String
  columns : List String
  fingerprint : String
  join_count : ℕ
  deriving DecidableEq

/-- `enforce_sql_policy(query, provider_type, policy)`. -/
def enforce_sql_policy (query provider_type : String) (policy : Json) :
    Except Refusal SQLPolicyDecision := do
  let policy := policy.or (.dict [])
  let dialect ← dialectOf provider_type
  let expression ← parseQuery glot query dialect
  require (glot.readOnly expression) "Only read-only query statements are allowed."
  checkNodes py expression.walk
  let objects := (tableTexts expression.walk).eraseDups
  let allow_objects ← ofPy (listField policy "object_allowlist")
  let deny_objects ← ofPy (listField policy "object_denylist")
  checkNames py objectMessages deny_objects allow_objects objects
  let columns := (columnTexts expression.walk).eraseDups
  let allow_columns ← ofPy (listField policy "column_allowlist")
  let deny_columns ← ofPy (listField policy "column_denylist")
  checkNames py columnMessages deny_columns allow_columns columns
  require ((allow_columns = [] ∧ deny_columns = []) ∨
      expression.walk.all (·.kind ≠ .star))
    "Wildcard columns are not allowed when column policy is active."
  let join_count := expression.walk.countP (·.kind = .join)
  let max_joins ← ofPy (limitField py policy "max_joins" 12 0)
  let max_scans ← ofPy (limitField py policy "max_scans" 24 1)
  require ((join_count : ℤ) ≤ max_joins ∧ (objects.length : ℤ) ≤ max_scans)
    "The query exceeds configured cost safeguards."
  let predicates ← ofPy (rowPredicates policy)
  let rewritten ← addRowPredicates py glot dialect (applicablePredicates py predicates objects)
    expression
  .ok ⟨glot.sql rewritten dialect, dialect, objects, columns, glot.fingerprint rewritten dialect,
    join_count⟩

end OpenLaunch.Tools
