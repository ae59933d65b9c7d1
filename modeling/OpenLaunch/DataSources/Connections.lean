import OpenLaunch.Python.Conversions
import OpenLaunch.Python.FirstByKey
import OpenLaunch.Python.Items
import OpenLaunch.Python.JsonText
import OpenLaunch.Python.Text

/-! # Configured data sources

The connections of the environment, of a file, of the table and of the older settings are validated
in this order; of the valid ones with one id the first is taken. A record whose secret cannot be
resolved makes the load of the table raise, and then none of its records is taken. -/

/-! ## Secrets of connections

A connection names its secret by a reference: an environment variable, a file or a literal. The
secret is put into a copy of the metadata of the connection. A reference that cannot be resolved
raises. -/

namespace OpenLaunch.DataSources

open Python Json

/-- What the code sees of the process and of the interpreter. -/
structure Host where
  /-- Conversions of values to text. -/
  conv : Conversions
  /-- `str.lower`. -/
  lower : String → String
  /-- `os.environ`. -/
  environ : String → Option String
  /-- Whether a path is absolute, and that of a file. -/
  isAbsoluteFile : String → Bool
  /-- `Path(path).read_text(encoding="utf-8")`. -/
  readText : String → Except PyErr String

/-- `str(d.get(k) or default)`. -/
def textOf (conv : Conversions) (d : List (String × Json)) (k default : String) : String :=
  conv.str ((field d k).or (.str default))

/-- `xs[n]`, where a negative index counts from the end. -/
def elementAt {α : Type} (xs : List α) (n : ℤ) : Option α :=
  if 0 ≤ n then xs[n.toNat]? else if (-n).toNat ≤ xs.length then xs[xs.length - (-n).toNat]? else none

/-- `document[key]`, where it does not raise. -/
def subscript : Json → Json → Option Json
  | .dict kvs, .str k => Assoc.get? kvs k
  | .list xs, .int n => elementAt xs n
  | .list xs, .bool b => elementAt xs (if b then 1 else 0)
  | .str s, .int n => (elementAt s.toList n).map fun c => .str (String.singleton c)
  | .str s, .bool b =>
    (elementAt s.toList (if b then 1 else 0)).map fun c => .str (String.singleton c)
  | _, _ => none

/-- `EnvironmentSecretResolver.resolve`. -/
def resolveEnvironment (host : Host) (reference : List (String × Json)) : Except PyErr String :=
  let name := textOf host.conv reference "name" ""
  if name = "" then .error .runtimeError
  else match host.environ name with
    | some value => .ok value
    | none => .error .runtimeError

/-- `FileSecretResolver.resolve`. -/
def resolveFile (host : Host) (reference : List (String × Json)) : Except PyErr String := do
  let path := textOf host.conv reference "path" ""
  if host.isAbsoluteFile path = false then throw .runtimeError
  let value ← host.readText path
  let key := field reference "key"
  if key.truthy then
    match (loads value.toList).toOption.bind fun document => subscript document key with
    | some value => return stripped (host.conv.str value)
    | none => throw .runtimeError
  else return stripped value

/-- `LiteralSecretResolver.resolve`. -/
def resolveLiteral (reference : List (String × Json)) : Except PyErr String :=
  match field reference "value" with
  | .str value => if value = "" then .error .runtimeError else .ok value
  | _ => .error .runtimeError

/-- `resolve_secret`. -/
def resolve_secret (host : Host) (reference : List (String × Json)) : Except PyErr String :=
  match textOf host.conv reference "type" "" with
  | "env" => resolveEnvironment host reference
  | "file" => resolveFile host reference
  | "literal" => resolveLiteral reference
  | _ => .error .runtimeError

/-- The fields of a connection that may hold a secret. -/
def secretFields : List String :=
  ["url", "connection_string", "config", "password", "token", "private_key"]

/-- `inject_connection_secret`. -/
def inject_connection_secret (host : Host) (metadata : List (String × Json))
    (reference : Option (List (String × Json))) : Except PyErr (List (String × Json)) :=
  match reference with
  | none | some [] => .ok metadata
  | some reference => do
    let field := textOf host.conv reference "field" "url"
    if field ∉ secretFields then throw .runtimeError
    let value ← resolve_secret host reference
    if field = "config" then
      match loads value.toList with
      | .ok (.dict kvs) => return Assoc.set metadata field (.dict kvs)
      | _ => throw .runtimeError
    else return Assoc.set metadata field (.str value)

end OpenLaunch.DataSources

namespace OpenLaunch.DataSources

open Python Json

/-! ## The code -/

/-- A connection, as a dictionary. -/
abbrev Connection := List (String × Json)

/-- A row of the table of connections. Who made it and when is left out. -/
structure DataConnection where
  id : String
  scope_type : String
  scope_id : String
  provider_type : String
  description : String
  enabled : Bool
  safe_metadata : List (String × Json)
  secret_ref : Option (List (String × Json))
  policy : Json
  access_grants : Json

/-- The settings the code reads. -/
structure Settings where
  DATA_SOURCE_CONNECTIONS : String
  DATA_SOURCE_CONNECTIONS_FILE : String
  ENABLE_SQL_DATABASE_TOOL : Bool
  SQL_DATABASE_URL : String

/-- The connection of a record, with its secret. -/
def runtimeConnection (host : Host) (record : DataConnection) : Except PyErr Connection := do
  let connection ← inject_connection_secret host record.safe_metadata record.secret_ref
  return Assoc.update connection
    [("id", .str record.id),
     ("type", .str record.provider_type),
     ("description", .str record.description),
     ("scope_type", .str record.scope_type),
     ("scope_id", .str record.scope_id),
     ("access_grants", record.access_grants.or (.list [])),
     ("policy", record.policy.or (.dict []))]

/-- `get_persisted_runtime_connections`. -/
def get_persisted_runtime_connections (host : Host) (records : List DataConnection) :
    Except PyErr (List Connection) :=
  (records.filter DataConnection.enabled).mapM (runtimeConnection host)

/-- `_parse_connection_document`. -/
def _parse_connection_document : Json → Except PyErr (List Connection)
  | .dict kvs => .ok (kvs.filterMap fun e => match e.2 with
    | .dict value => some (Assoc.set value "id" (.str e.1))
    | _ => none)
  | .list xs => .ok (xs.filterMap fun item => match item with
    | .dict item => some item
    | _ => none)
  | _ => .error .valueError

/-- The connections of a document, or none if it is invalid. -/
def documentConnections (text : Except PyErr String) : List Connection :=
  match (do _parse_connection_document (← loads (← text).toList)) with
  | .ok connections => connections
  | .error _ => []

/-- The connections of the environment and of the file. -/
def settingsConnections (host : Host) (settings : Settings) : List Connection :=
  (if stripped settings.DATA_SOURCE_CONNECTIONS = "" then []
    else documentConnections (.ok settings.DATA_SOURCE_CONNECTIONS)) ++
  (if stripped settings.DATA_SOURCE_CONNECTIONS_FILE = "" then []
    else documentConnections (host.readText settings.DATA_SOURCE_CONNECTIONS_FILE))

/-- The connection of the older settings. -/
def legacyConnections (settings : Settings) : List Connection :=
  if settings.ENABLE_SQL_DATABASE_TOOL = true ∧ stripped settings.SQL_DATABASE_URL ≠ "" then
    [[("id", .str "default-postgresql"),
      ("type", .str "postgresql"),
      ("description", .str "Default PostgreSQL database"),
      ("url", .str settings.SQL_DATABASE_URL),
      ("access_grants", .list [.dict [("principal_type", .str "user"), ("principal_id", .str "*"),
        ("permission", .str "read")]])]]
  else []

/-- `_normalize_type`. -/
def _normalize_type (host : Host) (value : Json) : String :=
  match host.lower (stripped (host.conv.str (value.or (.str "")))) with
  | "postgres" => "postgresql"
  | "mssql" => "sql_server"
  | "sqlserver" => "sql_server"
  | "azure-sql" => "azure_sql"
  | normalized => normalized

/-- `SUPPORTED_DATA_SOURCE_TYPES`. -/
def SUPPORTED_DATA_SOURCE_TYPES : List String :=
  ["postgresql", "sql_server", "azure_sql", "snowflake", "redis"]

/-- One of `A-Za-z0-9`. -/
def isAlnum (c : Char) : Bool := c.isAlpha || c.isDigit

/-- `_CONNECTION_ID_PATTERN.fullmatch`. -/
def isConnectionId (s : String) : Bool :=
  match s.toList with
  | [] => false
  | c :: cs => isAlnum c && cs.length ≤ 63 &&
    cs.all fun c => isAlnum c || c = '.' || c = '_' || c = '-'

/-- The id of a connection. -/
def connectionId (host : Host) (item : Connection) : String :=
  stripped (textOf host.conv item "id" "")

/-- The type of a connection. -/
def sourceType (host : Host) (item : Connection) : String :=
  _normalize_type host (field item "type")

/-- The connection that is returned for a valid one. -/
def normalized (host : Host) (item : Connection) : Connection :=
  Assoc.update item
    [("id", .str (connectionId host item)), ("type", .str (sourceType host item))]

/-- The validation loop, where the ids `seen_ids` have been taken. -/
def validConnections (host : Host) (seen_ids : List String) : List Connection → List Connection
  | [] => []
  | item :: items =>
    if ((Assoc.get? item "enabled").getD (.bool true)).truthy = false then
      validConnections host seen_ids items
    else if isConnectionId (connectionId host item) = false then
      validConnections host seen_ids items
    else if connectionId host item ∈ seen_ids then validConnections host seen_ids items
    else if sourceType host item ∉ SUPPORTED_DATA_SOURCE_TYPES then
      validConnections host seen_ids items
    else normalized host item :: validConnections host (connectionId host item :: seen_ids) items

/-- `get_configured_data_sources`, where the table is available. -/
def get_configured_data_sources (host : Host) (settings : Settings)
    (records : List DataConnection) : List Connection :=
  let persisted := match get_persisted_runtime_connections host records with
    | .ok connections => connections
    | .error _ => []
  validConnections host []
    (settingsConnections host settings ++ persisted ++ legacyConnections settings)

/-! ## What it is for -/

/-- A connection that may be used. -/
def isValid (host : Host) (item : Connection) : Bool :=
  ((Assoc.get? item "enabled").getD (.bool true)).truthy && isConnectionId (connectionId host item)
    && SUPPORTED_DATA_SOURCE_TYPES.contains (sourceType host item)

/-- **The first valid definition of each id** is what there is, and no id is there twice. -/
structure FirstDefinitions (host : Host) (items result : List Connection) : Prop where
  mem_iff : ∀ connection, connection ∈ result ↔
    ∃ item, IsFirst (isValid host) (connectionId host) items item ∧
      normalized host item = connection
  nodup : (result.map (field · "id")).Nodup

/-- The connections of the enabled records whose secrets are there. -/
def resolvedConnections (host : Host) (records : List DataConnection) : List Connection :=
  (records.filter DataConnection.enabled).filterMap fun record =>
    (runtimeConnection host record).toOption

/-- The records whose secrets are missing do not matter for what is returned. -/
def Isolates (host : Host) (settings : Settings) (records : List DataConnection) : Prop :=
  FirstDefinitions host
    (settingsConnections host settings ++ resolvedConnections host records ++
      legacyConnections settings)
    (get_configured_data_sources host settings records)

/-- No enabled record has a secret that is missing. -/
def EveryResolves (host : Host) (records : List DataConnection) : Prop :=
  ∀ record ∈ records, record.enabled = true →
    ∃ connection, runtimeConnection host record = .ok connection

/-- No record would be returned: none is valid whose id is not one of the settings. -/
def NothingToLose (host : Host) (settings : Settings) (records : List DataConnection) : Prop :=
  ∀ record ∈ records, record.enabled = true → ∀ connection,
    runtimeConnection host record = .ok connection → isValid host connection = true →
      ∃ item ∈ settingsConnections host settings, isValid host item = true ∧
        connectionId host item = connectionId host connection

/-! ## The validation loop -/

variable {host : Host} {settings : Settings} {records : List DataConnection}
variable {item connection : Connection} {items persisted : List Connection}

/-- The loop is the one that keeps the first valid connection of each id. -/
theorem validConnections_eq (seen_ids : List String) (items : List Connection) :
    validConnections host seen_ids items =
      (firstsFrom (isValid host) (connectionId host) seen_ids items).map (normalized host) := by
  induction items generalizing seen_ids with
  | nil => rfl
  | cons item items ih =>
    rw [validConnections, firstsFrom]
    by_cases henabled : ((Assoc.get? item "enabled").getD (.bool true)).truthy = false
    · simp [henabled, isValid, ih]
    by_cases hid : isConnectionId (connectionId host item) = false
    · simp [henabled, hid, isValid, ih]
    by_cases hseen : connectionId host item ∈ seen_ids
    · simp [henabled, hid, hseen, ih]
    by_cases htype : sourceType host item ∉ SUPPORTED_DATA_SOURCE_TYPES
    · simp [henabled, hid, hseen, htype, isValid, ih]
    · simp only [Bool.not_eq_false] at henabled hid
      simp only [not_not] at htype
      simp [henabled, hid, hseen, htype, isValid, ih]

@[simp] theorem field_id_normalized (host : Host) (item : Connection) :
    field (normalized host item) "id" = .str (connectionId host item) := by
  have hkeys : (Assoc.keys [("id", Json.str (connectionId host item)),
      ("type", .str (sourceType host item))]).Nodup := by simp
  rw [field, normalized, Assoc.get?_update hkeys]
  rfl

/-- **The loop takes the first definitions.** -/
theorem firstDefinitions_validConnections (host : Host) (items : List Connection) :
    FirstDefinitions host items (validConnections host [] items) where
  mem_iff := by
    intro connection
    rw [validConnections_eq, List.mem_map]
    refine exists_congr fun item => and_congr_left fun _ => ?_
    rw [mem_firstsFrom_iff, and_iff_left List.not_mem_nil]
  nodup := by
    rw [validConnections_eq, List.map_map]
    have hids : ((firstsFrom (isValid host) (connectionId host) [] items).map
        (connectionId host)).Nodup := nodup_firstsFrom [] items
    have hstrs := hids.map fun a b (h : Json.str a = .str b) => Json.str.inj h
    rw [List.map_map] at hstrs
    have hids' : (field · "id") ∘ normalized host = Json.str ∘ connectionId host := by
      funext item
      exact field_id_normalized host item
    rw [hids']
    exact hstrs

/-! ## The load of the table -/

/-- What a load that does not raise returns. -/
theorem resolvedConnections_of_ok
    (h : get_persisted_runtime_connections host records = .ok persisted) :
    resolvedConnections host records = persisted := by
  rw [get_persisted_runtime_connections] at h
  rw [resolvedConnections]
  generalize records.filter DataConnection.enabled = enabled at h ⊢
  have hall := forall₂_of_mapM h
  clear h
  induction hall with
  | nil => rfl
  | cons hrecord _ ih =>
    rw [List.filterMap_cons, hrecord, ← ih]
    rfl

/-- **The load does not raise** exactly if every secret can be resolved. -/
theorem exists_persisted_iff :
    (∃ persisted, get_persisted_runtime_connections host records = .ok persisted) ↔
      EveryResolves host records := by
  constructor
  · rintro ⟨persisted, h⟩ record hrecord henabled
    obtain ⟨connection, -, hconnection⟩ := (mem_of_mapM h).2 record (List.mem_filter.mpr
      ⟨hrecord, henabled⟩)
    exact ⟨connection, hconnection⟩
  · intro h
    refine exists_mapM fun record hrecord => ?_
    obtain ⟨hrecord, henabled⟩ := List.mem_filter.mp hrecord
    exact h record hrecord henabled

/-- With all secrets the records are taken. -/
theorem configured_of_resolves (h : EveryResolves host records) :
    get_configured_data_sources host settings records =
      validConnections host [] (settingsConnections host settings ++
        resolvedConnections host records ++ legacyConnections settings) := by
  obtain ⟨persisted, hpersisted⟩ := exists_persisted_iff.mpr h
  rw [get_configured_data_sources, hpersisted, resolvedConnections_of_ok hpersisted]

/-- Without one of them no record is taken. -/
theorem configured_of_not_resolves (h : ¬ EveryResolves host records) :
    get_configured_data_sources host settings records =
      validConnections host [] (settingsConnections host settings ++ legacyConnections settings) := by
  rw [get_configured_data_sources]
  cases hpersisted : get_persisted_runtime_connections host records with
  | ok persisted => exact absurd (exists_persisted_iff.mp ⟨persisted, hpersisted⟩) h
  | error e => rw [List.append_nil]

/-! ## The records -/

theorem mem_resolvedConnections_iff : connection ∈ resolvedConnections host records ↔
    ∃ record ∈ records, record.enabled = true ∧ runtimeConnection host record = .ok connection := by
  have hok : ∀ record, (runtimeConnection host record).toOption = some connection ↔
      runtimeConnection host record = .ok connection := by
    intro record
    cases runtimeConnection host record <;> simp [Except.toOption]
  rw [resolvedConnections, List.mem_filterMap]
  simp only [List.mem_filter, and_assoc, hok]

/-- A record's connection has a scope, which the one of the older settings has not. -/
theorem field_scope_of_resolved (h : connection ∈ resolvedConnections host records) :
    ∃ scope_type, field (normalized host connection) "scope_type" = .str scope_type := by
  obtain ⟨record, -, -, hrecord⟩ := mem_resolvedConnections_iff.mp h
  rw [runtimeConnection] at hrecord
  obtain ⟨secret, -, hrecord⟩ := bind_eq_ok.mp hrecord
  cases hrecord
  refine ⟨record.scope_type, ?_⟩
  rw [field, normalized, Assoc.get?_update (by simp), Assoc.get?_update (by simp)]
  rfl

theorem field_scope_of_legacy (h : item ∈ legacyConnections settings) :
    field (normalized host item) "scope_type" = .null := by
  rw [legacyConnections] at h
  split_ifs at h
  · rw [List.mem_singleton.mp h, field, normalized, Assoc.get?_update (by simp)]
    rfl
  · cases h

/-- **What is lost.** The load isolates a record whose secret is missing exactly if there is none,
or if no record would be returned anyway. -/
theorem isolates_iff : Isolates host settings records ↔
    EveryResolves host records ∨ NothingToLose host settings records := by
  by_cases hresolves : EveryResolves host records
  · refine iff_of_true ?_ (.inl hresolves)
    rw [Isolates, configured_of_resolves hresolves]
    exact firstDefinitions_validConnections host _
  rw [or_iff_right hresolves, Isolates, configured_of_not_resolves hresolves]
  have hfirst := firstDefinitions_validConnections host
    (settingsConnections host settings ++ legacyConnections settings)
  constructor
  · intro h record hrecord henabled connection hconnection hvalid
    have hresolved := mem_resolvedConnections_iff.mpr ⟨record, hrecord, henabled, hconnection⟩
    by_contra hnone
    have hsettings : ∀ item ∈ settingsConnections host settings, isValid host item = true →
        connectionId host item ≠ connectionId host connection :=
      fun item hitem hitemValid hid => hnone ⟨item, hitem, hitemValid, hid⟩
    have hexists : ∃ first, IsFirst (isValid host) (connectionId host)
        (resolvedConnections host records) first ∧
          connectionId host first = connectionId host connection := exists_isFirst hresolved hvalid
    obtain ⟨first, hisFirst, hid⟩ := hexists
    -- The first record with the id is the first definition of it
    have hdefinition : IsFirst (isValid host) (connectionId host)
        (settingsConnections host settings ++ resolvedConnections host records ++
          legacyConnections settings) first := by
      rw [isFirst_append_iff, isFirst_append_iff]
      refine .inl (.inr ⟨hisFirst, fun item hitem hitemValid hitemId => ?_⟩)
      exact hsettings item hitem hitemValid (hitemId.trans hid)
    have hmem := (h.mem_iff _).mpr ⟨first, hdefinition, rfl⟩
    obtain ⟨item, hitem, hnormalized⟩ := (hfirst.mem_iff _).mp hmem
    have hitemId : connectionId host item = connectionId host connection := by
      have hids := congrArg (field · "id") hnormalized
      simp only [field_id_normalized, Json.str.injEq] at hids
      exact hids.trans hid
    rcases isFirst_append_iff.mp hitem with hitem | ⟨hitem, -⟩
    · exact hsettings item hitem.mem hitem.accepted hitemId
    · obtain ⟨scope_type, hscope⟩ := field_scope_of_resolved hisFirst.mem
      rw [← hnormalized, field_scope_of_legacy hitem.mem] at hscope
      cases hscope
  · intro h
    have hlost : ∀ connection ∈ resolvedConnections host records,
        isValid host connection = true → ∃ item ∈ settingsConnections host settings,
          isValid host item = true ∧ connectionId host item = connectionId host connection := by
      intro connection hconnection hvalid
      obtain ⟨record, hrecord, henabled, hok⟩ := mem_resolvedConnections_iff.mp hconnection
      exact h record hrecord henabled connection hok hvalid
    refine ⟨fun connection => (hfirst.mem_iff connection).trans ?_, hfirst.nodup⟩
    refine exists_congr fun item => and_congr_left fun _ => ?_
    rw [isFirst_append_iff, isFirst_append_iff, isFirst_append_iff]
    constructor
    · rintro (hitem | ⟨hitem, hnew⟩)
      · exact .inl (.inl hitem)
      · refine .inr ⟨hitem, List.forall_mem_append.mpr ⟨hnew, fun y hy hvalid hid => ?_⟩⟩
        obtain ⟨z, hz, hzValid, hzId⟩ := hlost y hy hvalid
        exact hnew z hz hzValid (hzId.trans hid)
    · rintro ((hitem | ⟨hitem, hnew⟩) | ⟨hitem, hnew⟩)
      · exact .inl hitem
      · obtain ⟨z, hz, hzValid, hzId⟩ := hlost item hitem.mem hitem.accepted
        exact absurd hzId (hnew z hz hzValid)
      · exact .inr ⟨hitem, fun y hy => hnew y (List.mem_append_left _ hy)⟩

/-! ## One missing secret -/

/-- A process without environment and files. -/
def bareHost : Host := ⟨plainConversions, id, fun _ => none, fun _ => false, fun _ => .error .upstream⟩

/-- Settings without connections. -/
def bareSettings : Settings := ⟨"", "", false, ""⟩

/-- A record with its secret by reference. -/
def redisRecord (id : String) (secret_ref : Option (List (String × Json))) : DataConnection :=
  ⟨id, "instance", "*", "redis", "", true, [], secret_ref, .dict [], .list []⟩

/-- The environment variable of the second record is not set, and the first record is lost too. -/
theorem one_missing_secret :
    get_configured_data_sources bareHost bareSettings [redisRecord "a" none,
      redisRecord "b" (some [("type", .str "env"), ("name", .str "B")])] = [] ∧
    ¬ Isolates bareHost bareSettings [redisRecord "a" none,
      redisRecord "b" (some [("type", .str "env"), ("name", .str "B")])] := by
  have hnothing : get_configured_data_sources bareHost bareSettings [redisRecord "a" none,
      redisRecord "b" (some [("type", .str "env"), ("name", .str "B")])] = [] := by
    decide
  refine ⟨hnothing, fun h => ?_⟩
  obtain ⟨item, hitem⟩ : ∃ item, settingsConnections bareHost bareSettings ++
      resolvedConnections bareHost [redisRecord "a" none,
        redisRecord "b" (some [("type", .str "env"), ("name", .str "B")])] ++
      legacyConnections bareSettings = [item] ∧ isValid bareHost item = true :=
    ⟨_, rfl, by decide⟩
  have hfirst : IsFirst (isValid bareHost) (connectionId bareHost) [item] item :=
    ⟨[], [], rfl, hitem.2, nofun⟩
  rw [Isolates, hitem.1, hnothing] at h
  exact absurd ((h.mem_iff _).mpr ⟨item, hfirst, rfl⟩) List.not_mem_nil

end OpenLaunch.DataSources
