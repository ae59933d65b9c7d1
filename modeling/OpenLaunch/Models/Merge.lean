import OpenLaunch.Python.Json
import Mathlib.Data.Int.Notation

/-! # Merging the lists of models

`get_all_models` starts from the models of the providers, adds the arena models, and goes through
the rows of the table `model`. A row without a base model *overrides* a model of the list, which it
finds in a lookup by identifier or, for Ollama, by the name before the tag; a row with a base model
is a *preset*, a model of its own. Last, the default metadata goes into what every model carries.

The models are Python dicts that the list, the lookup and the cached lists share. Here a dict that
the call makes is a place in a list of objects, the list of models and the lookup hold places, and
an `Origin` says which cached object an `info` is shared with. The actions and filters that are
resolved from the ids the merge collects are not modelled. -/

namespace OpenLaunch.Models

open Python Python.Json

/-! ## The rows -/

/-- An optional text, as JSON. -/
def textOrNull (s : Option String) : Json := (s.map Json.str).getD .null

/-- `ModelMeta`. -/
structure ModelMeta where
  /-- The picture. -/
  profile_image_url : Option String
  /-- The description shown to users. -/
  description : Option String
  /-- What the model can do. -/
  capabilities : Option (List (String × Json))
  /-- Fields the class does not declare. -/
  extra : List (String × Json)
  deriving DecidableEq

/-- `ModelMeta.model_dump`. -/
def ModelMeta.model_dump (meta_ : ModelMeta) : List (String × Json) :=
  [("profile_image_url", textOrNull meta_.profile_image_url),
    ("description", textOrNull meta_.description),
    ("capabilities", (meta_.capabilities.map Json.dict).getD .null)] ++ meta_.extra

/-- A row of `model`, as `ModelModel`. -/
structure ModelModel where
  /-- The primary key. -/
  id : String
  /-- The owner. -/
  user_id : String
  /-- The model a preset runs on; an override has none. -/
  base_model_id : Option String
  /-- The name shown to users. -/
  name : String
  /-- `params`, dumped. -/
  params : Json
  /-- `meta`. -/
  meta_ : ModelMeta
  /-- `access_grants`, dumped. -/
  access_grants : List Json
  /-- Whether the row is in use. -/
  is_active : Bool
  /-- When the row last changed. -/
  updated_at : ℤ
  /-- When the row was made. -/
  created_at : ℤ
  deriving DecidableEq

/-- `ModelModel.model_dump`. -/
def ModelModel.model_dump (c : ModelModel) : List (String × Json) :=
  [("id", .str c.id), ("user_id", .str c.user_id), ("base_model_id", textOrNull c.base_model_id),
    ("name", .str c.name), ("params", c.params), ("meta", .dict c.meta_.model_dump),
    ("access_grants", .list c.access_grants), ("is_active", .bool c.is_active),
    ("updated_at", .int c.updated_at), ("created_at", .int c.created_at)]

/-- The dump without `params`, which the merge puts under `info`. -/
def ModelModel.info (c : ModelModel) : Json := .dict (Assoc.erase c.model_dump "params")

/-- A row with an empty description and nothing else. -/
def plainRow (id : String) (base_model_id : Option String) (is_active : Bool) : ModelModel where
  id := id
  user_id := "u"
  base_model_id := base_model_id
  name := id
  params := .dict []
  meta_ := ⟨none, none, none, []⟩
  access_grants := []
  is_active := is_active
  updated_at := 0
  created_at := 0

/-! ## The models -/

/-- The dict of a model. -/
structure Model where
  /-- `model['id']`. -/
  id : String
  /-- `model.get('info')`. -/
  info : Option Json
  /-- The other entries. -/
  fields : List (String × Json)
  deriving DecidableEq

/-- `model.get(key)` for a key other than `id` and `info`. -/
def Model.get? (m : Model) (key : String) : Option Json := Assoc.get? m.fields key

/-- `model[key] = value` for such a key. -/
def Model.set (m : Model) (key : String) (value : Json) : Model :=
  { m with fields := Assoc.set m.fields key value }

/-- An entry of `evaluation.arena.models`. -/
structure ArenaModel where
  /-- `model['id']`. -/
  id : String
  /-- `model['name']`. -/
  name : Json
  /-- `model['meta']`. -/
  meta_ : Json
  deriving DecidableEq

/-- The objects that outlive a call. -/
structure AppState where
  /-- `request.app.state.BASE_MODELS`. -/
  BASE_MODELS : List Model
  /-- `Config.DEFAULTS['evaluation.arena.models']`. -/
  arena_models : List ArenaModel
  /-- `DEFAULT_ARENA_MODEL`. -/
  DEFAULT_ARENA_MODEL : ArenaModel
  deriving DecidableEq

/-- The configuration a call reads. -/
structure ModelsConfig where
  /-- `evaluation.arena.enable`. -/
  arena_enable : Bool
  /-- `evaluation.arena.models` when the table `config` has a row for it, decoded for the call. -/
  arena_stored : Option (List ArenaModel)
  /-- `models.default_metadata`. -/
  default_metadata : List (String × Json)

/-- The object whose nested dicts the `info` of a model of the call shares. -/
inductive Origin
  /-- None: the `info` was made for the call. -/
  | own
  /-- The entry of `BASE_MODELS` at a place: `model.copy()` copies one level. -/
  | base (i : ℕ)
  /-- The entry of the arena configuration at a place, whose `meta` goes into the new `info`. -/
  | arena (i : ℕ)
  /-- `DEFAULT_ARENA_MODEL`, in the same way. -/
  | defaultArena
  deriving DecidableEq

/-- A dict that the call made. -/
structure Obj where
  /-- What it holds. -/
  model : Model
  /-- What it shares. -/
  origin : Origin
  deriving DecidableEq

/-! ## The merge -/

/-- The dict made for an arena model. -/
def arenaModel (a : ArenaModel) : Model where
  id := a.id
  info := some (.dict [("meta", a.meta_)])
  fields := [("name", a.name), ("object", .str "model"), ("created", .int 0),
    ("owned_by", .str "arena"), ("arena", .bool true)]

/-- The arena models; a configuration without any stands for the default one. -/
def arenaObjs (config : ModelsConfig) (s : AppState) : List Obj :=
  if config.arena_enable then
    match config.arena_stored with
    | some (a :: as) => (a :: as).map fun a => ⟨arenaModel a, .own⟩
    | some [] => [⟨arenaModel s.DEFAULT_ARENA_MODEL, .defaultArena⟩]
    | none =>
      if s.arena_models = [] then [⟨arenaModel s.DEFAULT_ARENA_MODEL, .defaultArena⟩]
      else s.arena_models.mapIdx fun i a => ⟨arenaModel a, .arena i⟩
  else []

/-- The models before the rows are merged in. -/
def initialObjs (config : ModelsConfig) (s : AppState) : List Obj :=
  (s.BASE_MODELS.mapIdx fun i m => ⟨m, .base i⟩) ++ arenaObjs config s

/-- `id.split(':')[0]`. -/
def untagged (id : String) : String := String.ofList (id.toList.takeWhile (· ≠ ':'))

/-- `model.get('owned_by') == 'ollama'`. -/
def Model.isOllama (m : Model) : Bool := m.get? "owned_by" = some (.str "ollama")

/-- The body of the loop that fills `base_model_lookup`, for the model at place `r`. -/
def addToLookup (lookup : Dict String ℕ) (m : Model) (r : ℕ) : Dict String ℕ :=
  let lookup :=
    if m.isOllama ∧ untagged m.id ∉ lookup then lookup.set (untagged m.id) r else lookup
  lookup.set m.id r

/-- The loop that fills `base_model_lookup`; `r` is the place of the first model. -/
def base_model_lookup : List Model → ℕ → Dict String ℕ → Dict String ℕ
  | [], _, lookup => lookup
  | m :: models, r, lookup => base_model_lookup models (r + 1) (addToLookup lookup m r)

/-- `ids.extend(meta.get(key, []))`, onto an empty list. -/
def idsIn (meta_ : ModelMeta) (key : String) : Except PyErr (List Json) :=
  match Assoc.get? meta_.model_dump key with
  | some j => j.iter
  | none => .ok []

/-- The dicts made so far and the list `models`. -/
structure Merge where
  /-- The dicts, in the order in which they were made. -/
  objects : List Obj
  /-- The list, as places in `objects`. -/
  models : List ℕ

/-- The dict at a place. -/
def Merge.model? (t : Merge) (r : ℕ) : Option Model := (t.objects[r]?).map Obj.model

/-- `models.remove(model)`: the first entry equal to the dict at place `r`. -/
def Merge.remove (t : Merge) (r : ℕ) : Except PyErr Merge :=
  if t.models.any fun r' => t.model? r' = t.model? r then
    .ok { t with models := t.models.eraseP fun r' => t.model? r' = t.model? r }
  else .error .valueError

/-- What an active override makes of the dict it finds. -/
def overridden (c : ModelModel) (action_ids filter_ids : List Json) (m : Model) : Model :=
  { (((m.set "name" (.str c.name)).set "action_ids" (.list action_ids)).set
      "filter_ids" (.list filter_ids)) with info := some c.info }

/-- An entry that is left out when there is no value for it. -/
def entry (key : String) (value : Option Json) : List (String × Json) :=
  (value.map (Prod.mk key)).toList

/-- The dict made for a preset, from its row and the dict of its base model. -/
def presetModel (c : ModelModel) (base_model : Option Model) (action_ids filter_ids : List Json) :
    Model where
  id := c.id
  info := some c.info
  fields :=
    let owned_by := (base_model.map fun m => (m.get? "owned_by").getD (.str "unknown")).getD
      (.str "openai")
    let connection_type := ((base_model.bind (·.get? "connection_type"))).getD .null
    let pipe := (base_model.bind (·.get? "pipe")).filter (· ≠ .null)
    let provider := (base_model.bind (·.get? "provider")).filter (·.truthy)
    let loaded := (base_model.bind (·.get? "loaded")).filter (· ≠ .null)
    [("name", .str c.name), ("object", .str "model"), ("created", .int c.created_at),
      ("owned_by", owned_by), ("connection_type", connection_type), ("preset", .bool true)] ++
    entry "pipe" pipe ++ entry "provider" provider ++ entry "loaded" loaded ++
    [("action_ids", .list action_ids), ("filter_ids", .list filter_ids)]

/-- The body of the loop over the rows. -/
def mergeCustom (lookup : Dict String ℕ) (existing_ids : List String) (t : Merge)
    (c : ModelModel) : Except PyErr Merge :=
  match c.base_model_id with
  | none =>
    match lookup.get? c.id with
    | none => .ok t
    | some r =>
      if c.is_active then do
        let action_ids ← idsIn c.meta_ "actionIds"
        let filter_ids ← idsIn c.meta_ "filterIds"
        .ok { t with objects := t.objects.modify r fun o =>
                ⟨overridden c action_ids filter_ids o.model, .own⟩ }
      else t.remove r
  | some base_model_id =>
    if ¬ c.is_active ∨ c.id ∈ existing_ids then .ok t
    else do
      let base_model :=
        ((lookup.get? base_model_id).or (lookup.get? (untagged base_model_id))).bind t.model?
      let action_ids ← idsIn c.meta_ "actionIds"
      let filter_ids ← idsIn c.meta_ "filterIds"
      .ok ⟨t.objects ++ [⟨presetModel c base_model action_ids filter_ids, .own⟩],
        t.models ++ [t.objects.length]⟩

/-- The loop over the rows. -/
def mergeCustoms (lookup : Dict String ℕ) (existing_ids : List String) :
    List ModelModel → Merge → Except PyErr Merge
  | [], t => .ok t
  | c :: custom_models, t => do
    let t ← mergeCustom lookup existing_ids t c
    mergeCustoms lookup existing_ids custom_models t

/-! ## The default metadata -/

/-- The body of the loop over `default_metadata.items()`, for the metadata of one model. -/
def fillDefault (key : String) (value : Json) (meta_ : List (String × Json)) :
    Except PyErr (List (String × Json)) :=
  let existing := (Assoc.get? meta_ key).getD .null
  if key = "capabilities" then
    -- `{**value, **existing}`, with `{}` for an `existing` that is falsy
    match value, existing.or (.dict []) with
    | .dict value, .dict existing =>
      .ok (Assoc.set meta_ key (.dict (Assoc.update value existing)))
    | _, _ => .error .typeError
  else if existing = .null then .ok (Assoc.set meta_ key value)
  else .ok meta_

/-- The loop over `default_metadata.items()`. -/
def fillDefaults : List (String × Json) → List (String × Json) →
    Except PyErr (List (String × Json))
  | [], meta_ => .ok meta_
  | (key, value) :: default_metadata, meta_ => do
    let meta_ ← fillDefault key value meta_
    fillDefaults default_metadata meta_

/-- The defaults in an `info` that is there: `info.setdefault('meta', {})`, then the loop. -/
def fillInfo (default_metadata : List (String × Json)) : Json → Except PyErr Json
  | .dict info =>
    match (Assoc.get? info "meta").getD (.dict []) with
    | .dict meta_ => do
      let meta_ ← fillDefaults default_metadata meta_
      .ok (.dict (Assoc.set info "meta" (.dict meta_)))
    | _ => .error .attributeError
  | _ => .error .attributeError

/-- `model.get('info')`, when it is not `None`. -/
def Model.info? (m : Model) : Option Json := m.info.filter (· ≠ .null)

/-- The `info` as the defaults leave it. -/
def Model.withDefaults (default_metadata : List (String × Json)) (m : Model) :
    Except PyErr Model :=
  match m.info? with
  | none => .ok { m with info := some (.dict [("meta", .dict default_metadata)]) }
  | some info => do
    let info ← fillInfo default_metadata info
    .ok { m with info := some info }

/-- A write to the nested dicts of an `info`, seen in the object that shares them. -/
def AppState.share (s : AppState) (origin : Origin) (info : Json) : AppState :=
  let meta_ := ((info.get "meta").toOption).getD .null
  match origin with
  | .own => s
  | .base i => { s with BASE_MODELS := s.BASE_MODELS.modify i ({ · with info := some info }) }
  | .arena i => { s with arena_models := s.arena_models.modify i ({ · with meta_ := meta_ }) }
  | .defaultArena =>
    { s with DEFAULT_ARENA_MODEL := { s.DEFAULT_ARENA_MODEL with meta_ := meta_ } }

/-- The loop that writes the default metadata. An `info` that was `None` is set on the dict of the
call only. -/
def applyDefaults (default_metadata : List (String × Json)) :
    List Obj → AppState → Except PyErr (AppState × List Model)
  | [], s => .ok (s, [])
  | o :: models, s => do
    let m ← o.model.withDefaults default_metadata
    let s := match o.model.info?, m.info with
      | some _, some info => s.share o.origin info
      | _, _ => s
    let (s, ms) ← applyDefaults default_metadata models s
    .ok (s, m :: ms)

/-- `get_all_models` from the copy of the base models on, which are then those of
`app.state.BASE_MODELS`. Without any it returns early. -/
def get_all_models (config : ModelsConfig) (custom_models : List ModelModel) (s : AppState) :
    Except PyErr (AppState × List Model) :=
  if s.BASE_MODELS = [] then .ok (s, [])
  else do
    let models := initialObjs config s
    let t ← mergeCustoms (base_model_lookup (models.map Obj.model) 0 .empty)
      (models.map (·.model.id)) custom_models ⟨models, List.range models.length⟩
    let models := t.models.filterMap (t.objects[·]?)
    if config.default_metadata = [] then .ok (s, models.map Obj.model)
    else applyDefaults config.default_metadata models s

end OpenLaunch.Models
