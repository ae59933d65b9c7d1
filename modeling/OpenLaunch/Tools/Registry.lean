import OpenLaunch.Python.Effect
import OpenLaunch.Tools.Executor

/-! # The registry of tools

`register_tool` puts a copy of a tool into a registry, under a name that is free there, and
`merge_tool_registries` does so with all tools of another registry. Registries, tools and their
specs are objects with addresses, which may be shared. The log and the value of the timeout are left
out. -/

namespace OpenLaunch.Tools

open Python

/-! ## Objects -/

/-- A value of a tool: one of JSON, the address of a spec, or a function, by its annotations. -/
inductive Value
  | json (v : Json)
  | spec (address : ℕ)
  | callable (annotations : Json)
  deriving DecidableEq

/-- A tool of a registry, with whatever fields it has. -/
abbrev ToolDict := Dict String Value

/-- The objects. -/
structure Heap where
  /-- The specs. -/
  specs : List (List (String × Json))
  /-- The tools. -/
  tools : List ToolDict
  /-- The registries, with the addresses of their tools. -/
  registries : List (Dict String ℕ)
  /-- The registries of the registrations that have been made, which the code does not store. -/
  registrations : List ℕ

namespace Heap

/-- No objects. -/
def empty : Heap := ⟨[], [], [], []⟩

variable (h : Heap)

/-- The spec at an address. -/
def spec (address : ℕ) : List (String × Json) := h.specs.getD address []

/-- The tool at an address. -/
def tool (address : ℕ) : ToolDict := h.tools.getD address Dict.empty

/-- The registry at an address. -/
def registry (address : ℕ) : Dict String ℕ := h.registries.getD address Dict.empty

end Heap

/-- A new spec. -/
def newSpec (entries : List (String × Json)) : Py Heap ℕ := do
  let h ← Py.state
  Py.update fun h => { h with specs := h.specs ++ [entries] }
  pure h.specs.length

/-- The spec at an address is changed. -/
def modifySpec (address : ℕ) (f : List (String × Json) → List (String × Json)) : Py Heap Unit :=
  Py.update fun h => { h with specs := h.specs.modify address f }

/-! ## Annotations -/

/-- What `dict.update` makes of an item of a list. -/
def updatePair : Json → Except PyErr (Json.Key × Json)
  | .list [k, v] => do return (← k.key, v)
  | .dict [(k, _), (v, _)] => .ok (.str k, .str v)
  | .str s => match s.toList with
    | [k, v] => .ok (.str (String.singleton k), .str (String.singleton v))
    | _ => .error .valueError
  | .list _ | .dict _ => .error .valueError
  | .null | .bool _ | .int _ | .float _ => .error .typeError

/-- The entries of the argument of `dict.update`. -/
def updateItems : Json → Except PyErr (List (Json.Key × Json))
  | .dict kvs => .ok (kvs.map fun e => (.str e.1, e.2))
  | .list xs => xs.mapM updatePair
  -- the items of a text are texts of one character, which are no pairs
  | .str s => if s = "" then .ok [] else .error .valueError
  | .null | .bool _ | .int _ | .float _ => .error .typeError

/-- `declared.update(v or {})`. -/
def declare (declared : List (Json.Key × Json)) (v : Json) :
    Except PyErr (List (Json.Key × Json)) := do
  return Assoc.update declared (← updateItems (v.or (.dict [])))

/-- The entries under texts. -/
def textEntries (declared : List (Json.Key × Json)) : List (String × Json) :=
  declared.filterMap fun e => match e.1 with
    | .str k => some (k, e.2)
    | _ => none

/-- The annotations of a tool, as its field `annotations` has them. -/
def Annotations.toJson (a : Annotations) : Json :=
  .dict [("read_only", .bool a.read_only), ("destructive", .bool a.destructive),
    ("idempotent", .bool a.idempotent), ("external_network", .bool a.external_network),
    ("approval_required", .bool a.approval_required),
    ("output_budget_bytes", .int a.output_budget_bytes),
    ("concurrency_class", .str a.concurrency_class),
    ("concurrency_limit", .int a.concurrency_limit), ("retry_eligible", .bool a.retry_eligible),
    ("max_retries", .int a.max_retries), ("quota_per_request", .int a.quota_per_request)]

namespace Heap

variable (h : Heap)

/-- A value as one of JSON. A function is of no type that is looked for. -/
def toJson : Value → Json
  | .json v => v
  | .spec address => .dict (h.spec address)
  | .callable _ => .str ""

/-- A value counts as true. -/
def truthy : Value → Bool
  | .json v => v.truthy
  | .spec address => h.spec address ≠ []
  | .callable _ => true

/-- `getattr(function, '__openlaunch_tool_annotations__', {})`. -/
def functionAnnotations : Value → Json
  | .callable annotations => annotations
  | .json _ | .spec _ => .dict []

/-- `registered.get('source_callable') or registered.get('callable')`. -/
def function (tool_dict : ToolDict) : Option Value :=
  match tool_dict.get? "source_callable" with
  | some v => if h.truthy v then some v else tool_dict.get? "callable"
  | none => tool_dict.get? "callable"

/-- `_tool_annotations`. A function cannot be an argument of `dict.update`. -/
def _tool_annotations (env : Env) (conv : Conversions) (tool_dict : ToolDict)
    (spec : Option (List (String × Json))) : Except PyErr Annotations := do
  let declared ← match spec with
    | some spec => declare [] ((Assoc.get? spec "x-openlaunch-annotations").getD .null)
    | none => .ok []
  let declared ← match h.function tool_dict with
    | some (.json .null) | none => .ok declared
    | some function => declare declared (functionAnnotations function)
  let declared ← match tool_dict.get? "annotations" with
    | some (.callable _) => .error .typeError
    | some v => declare declared (h.toJson v)
    | none => .ok declared
  normalize_tool_annotations env conv (.dict (textEntries declared))
    (h.toJson ((tool_dict.get? "type").getD (.json (.str ""))))

end Heap

/-! ## Names -/

/-- The loop of `register_tool` that looks for a free name, as far as `fuel` goes. -/
def rename (names : List String) (base_name name_space : String) : ℕ → String → ℕ → Option String
  | 0, _, _ => none
  | fuel + 1, final_name, suffix =>
    if final_name ∈ names then
      let candidate := name_space ++ "_" ++ base_name
      rename names base_name name_space fuel
        (if candidate ∉ names then candidate else candidate ++ "_" ++ toString suffix) (suffix + 1)
    else some final_name

/-! ## Registration -/

/-- `registered.get('spec') or {}`, if it is a dictionary. -/
def Heap.dictionary (h : Heap) : Option Value → Option (List (String × Json))
  | none => some []
  | some v =>
    if h.truthy v then
      match v with
      | .spec address => some (h.spec address)
      | .json (.dict kvs) => some kvs
      | .json _ | .callable _ => none
    else some []

/-- `copy.deepcopy(registered.get('spec') or {})`: the address of a dictionary, or no dictionary. -/
def copySpec (spec : Option Value) : Py Heap (Option ℕ) := do
  let h ← Py.state
  match h.dictionary spec with
  | some entries => some <$> newSpec entries
  | none => pure none

/-- What `spec.pop('x-openlaunch-annotations', None)` raises where `spec` is no dictionary. -/
def popError : Option Value → PyErr
  | some (.json (.list _)) => .typeError
  | _ => .attributeError

/-- The fields that `register_tool` sets in its copy of a tool. -/
def registeredTool (registered : ToolDict) (spec : ℕ) (requested_name final_name : String)
    (annotations : Annotations) : ToolDict :=
  let registered := registered.set "spec" (.spec spec)
  let registered := registered.set "name" (.json (.str final_name))
  let registered := registered.set "routing_name" (.json (.str final_name))
  let registered := registered.set "original_name" (.json (.str requested_name))
  registered.set "annotations" (.json annotations.toJson)

/-- `register_tool`. -/
def register_tool (env : Env) (conv : Conversions) (registry : ℕ) (requested_name : String)
    (tool_dict : ℕ) (name_space : String) : Py Heap String := do
  let h ← Py.state
  let names := (h.registry registry).keys
  match rename names requested_name name_space (names.length + 2) requested_name 2 with
  | none => Py.lift (.error .runtimeError)
  | some final_name =>
    let registered := h.tool tool_dict
    let spec ← copySpec (registered.get? "spec")
    let h ← Py.state
    let annotations ← Py.lift (h._tool_annotations env conv registered (spec.map h.spec))
    match spec with
    | none => Py.lift (.error (popError (registered.get? "spec")))
    | some spec =>
      modifySpec spec fun entries => Assoc.erase entries "x-openlaunch-annotations"
      modifySpec spec fun entries => Assoc.set entries "name" (.str final_name)
      Py.update fun h => { h with
        tools := h.tools ++ [registeredTool registered spec requested_name final_name annotations]
        registries := h.registries.modify registry fun d => d.set final_name h.tools.length
        registrations := h.registrations ++ [registry] }
      pure final_name

/-- A dictionary whose size has changed is not iterated any more. -/
def checkSize (registry size : ℕ) : Py Heap Unit := do
  let h ← Py.state
  if (h.registry registry).entries.length = size then pure () else Py.lift (.error .runtimeError)

/-- The loop of `merge_tool_registries`, over the items that are left. -/
def mergeLoop (env : Env) (conv : Conversions) (target incoming : ℕ) (name_space : String)
    (size : ℕ) : List (String × ℕ) → Py Heap Unit
  | [] => checkSize incoming size
  | (name, tool) :: items => do
    checkSize incoming size
    let _ ← register_tool env conv target name tool name_space
    mergeLoop env conv target incoming name_space size items

/-- `merge_tool_registries`. -/
def merge_tool_registries (env : Env) (conv : Conversions) (target incoming : ℕ)
    (name_space : String) : Py Heap Unit := do
  let h ← Py.state
  let items := (h.registry incoming).entries
  mergeLoop env conv target incoming name_space items.length items

/-! ## Runs -/

/-- The address that a value names. -/
def Value.address? : Value → Option ℕ
  | .spec address => some address
  | .json _ | .callable _ => none

/-- What happens: a registry, a spec or a tool is made, and tools are registered or merged. -/
inductive RegistryEvent
  | makeRegistry
  | makeSpec (entries : List (String × Json))
  | makeTool (tool_dict : ToolDict)
  | register (registry : ℕ) (requested_name : String) (tool_dict : ℕ) (name_space : String)
  | merge (target incoming : ℕ) (name_space : String)

/-- The objects that an event names exist. -/
def RegistryEvent.Known (h : Heap) : RegistryEvent → Prop
  | .makeRegistry | .makeSpec _ => True
  | .makeTool tool_dict => ∀ v ∈ tool_dict.values, ∀ address ∈ v.address?, address < h.specs.length
  | .register registry _ tool_dict _ => registry < h.registries.length ∧ tool_dict < h.tools.length
  | .merge target incoming _ => target < h.registries.length ∧ incoming < h.registries.length

instance (h : Heap) (e : RegistryEvent) : Decidable (e.Known h) := by
  cases e <;> dsimp only [RegistryEvent.Known] <;> infer_instance

/-- The objects after an event, also after one that raises. -/
def RegistryEvent.apply (env : Env) (conv : Conversions) (h : Heap) : RegistryEvent → Heap
  | .makeRegistry => { h with registries := h.registries ++ [Dict.empty] }
  | .makeSpec entries => { h with specs := h.specs ++ [entries] }
  | .makeTool tool_dict => { h with tools := h.tools ++ [tool_dict] }
  | .register registry requested_name tool_dict name_space =>
    (register_tool env conv registry requested_name tool_dict name_space h).2
  | .merge target incoming name_space =>
    (merge_tool_registries env conv target incoming name_space h).2

/-- An event happens. One that names objects that do not exist cannot happen. -/
def registryStep (env : Env) (conv : Conversions) (h : Heap) (e : RegistryEvent) : Option Heap :=
  if e.Known h then some (e.apply env conv h) else none

end OpenLaunch.Tools
