import OpenLaunch.Memories.Batches
import OpenLaunch.Transition

/-! # Memories and their vectors

The requests that write memories of a user, and the collection of the vector store that has an item
for each. Calls of the store and of the embedding function are taken to succeed. A request that
raises leaves what it has written by then. -/

namespace OpenLaunch.Memories

open Python

/-! ## Items -/

/-- `memory_vector_text`, which cleans the path once more. -/
def memory_vector_text (content : List Char) (path : Option (List Char)) :
    Except HTTPException (List Char) := do
  let path ← clean_memory_path path
  pure (match path with
    | some path => path ++ '\n' :: content
    | none => content)

/-- What `_memory_metadata` returns. -/
structure Metadata where
  created_at : ℤ
  updated_at : ℤ
  type : MemoryType
  path : Option (List Char)
  deriving DecidableEq

/-- `_memory_metadata`. -/
def memory_metadata (memory : Memory) : Metadata where
  created_at := memory.created_at
  updated_at := memory.updated_at
  type := memory.type
  path := memory.path

/-- An item of a collection, under its id. -/
structure Item (V : Type) where
  text : List Char
  vector : V
  metadata : Metadata
  deriving DecidableEq

/-- The items of a collection. -/
abbrev Collection (V : Type) := Dict String (Item V)

variable {V : Type}

/-- `upsert`. -/
def Collection.upsert (items : Collection V) (new : List (String × Item V)) : Collection V :=
  new.foldl (fun items item => items.set item.1 item.2) items

/-- `delete` of ids. -/
def Collection.delete (items : Collection V) (ids : List String) : Collection V :=
  ids.foldl Dict.erase items

/-! ## Requests -/

/-- The table, and the collection `user-memory-{user_id}`. -/
structure Store (V : Type) where
  table : Table
  items : Collection V

/-- `MemoryUpdateModel`. -/
structure MemoryUpdateModel where
  content : Option (List Char)
  type : Option MemoryType
  path : Option (List Char)
  deriving DecidableEq

/-- The operations of a request, each with the id that `uuid4` gives if it adds a memory. Such an id
is none that the request names. -/
structure Batch where
  entries : List (MemoryOperationModel × String)
  metadata : Dict String Json
  fresh : ∀ e ∈ entries, ∀ e' ∈ entries, e.1.id ≠ some e'.2

/-- The requests of a user that write memories or vectors. -/
inductive Request
  | add_memory (content : List Char) (type : MemoryType) (path : Option (List Char))
      (uuid4 : String)
  | update_memories (batch : Batch)
  | update_memory_by_id (memory_id : String) (form_data : MemoryUpdateModel)
  | delete_memory_by_id (memory_id : String)
  | delete_memory_by_user_id
  | reset_memory_from_vector_db

/-- What a request returns. -/
inductive Response
  | memory (memory : Memory)
  | results (results : List Result)
  | done (result : Bool)
  deriving DecidableEq

/-- The exception of a batch, as `update_memories` passes it on. -/
def Error.toHTTP : Error → HTTPException
  | .valueError message => ⟨404, message⟩
  | .attributeError | .integrityError => serverError

/-- `{'created_by': 'manual'}`. -/
def manual : Dict String Json := Dict.empty.set "created_by" (.str "manual")

section

variable (embed : List Char → V) (user_id : String) (now : ℤ)

/-- The item of a memory. -/
def memoryItem (memory : Memory) : Except HTTPException (String × Item V) := do
  let text ← memory_vector_text memory.content memory.path
  pure (memory.id, ⟨text, embed text, memory_metadata memory⟩)

/-- `add_memory`. -/
def add_memory (content : List Char) (type : MemoryType) (path : Option (List Char))
    (uuid4 : String) (s : Store V) : Except HTTPException Response × Store V :=
  match clean_memory_content (some content), clean_memory_path path with
  | .error e, _ => (.error e, s)
  | .ok _, .error e => (.error e, s)
  | .ok content, .ok path =>
    let memory : Memory :=
      { id := uuid4, user_id := user_id, type := normalize_memory_type (some type), path := path,
        content := content, metadata := some manual, updated_at := now, created_at := now }
    match s.table.insert memory with
    | none => (.error serverError, s)
    | some table =>
      match memoryItem embed memory with
      | .error e => (.error e, ⟨table, s.items⟩)
      | .ok item => (.ok (.memory memory), ⟨table, s.items.upsert [item]⟩)

/-- The loop of `update_memories` over the results: the items to upsert and the ids to delete. -/
def indexResults : List Result → Except HTTPException (List (String × Item V) × List String)
  | [] => .ok ([], [])
  | .skipped _ :: results => indexResults results
  | .created memory :: results | .updated _ memory :: results => do
    let item ← memoryItem embed memory
    let (upsert_items, delete_ids) ← indexResults results
    pure (item :: upsert_items, delete_ids)
  | .deleted id :: results => do
    let (upsert_items, delete_ids) ← indexResults results
    pure (upsert_items, if lacksId id then delete_ids else id.getD "" :: delete_ids)

/-- `update_memories`. -/
def update_memories (batch : Batch) (s : Store V) : Except HTTPException Response × Store V :=
  match validate_memory_operations (batch.entries.map Prod.fst) with
  | .error e => (.error e, s)
  | .ok operations =>
    let operations := operations.map (Operation.stamp batch.metadata)
    match apply_memory_operations user_id now (operations.zip (batch.entries.map Prod.snd))
        s.table with
    | (.error e, table) => (.error e.toHTTP, ⟨table, s.items⟩)
    | (.ok results, table) =>
      match indexResults embed results with
      | .error e => (.error e, ⟨table, s.items⟩)
      | .ok (upsert_items, delete_ids) =>
        (.ok (.results results), ⟨table, (s.items.upsert upsert_items).delete delete_ids⟩)

/-- What `update_memory_by_id_and_user_id` makes of a memory. -/
def Memory.updated (memory : Memory) (content : Option (List Char)) (type : Option MemoryType)
    (path : Option (List Char)) (update_path : Bool) : Memory :=
  { memory with
    content := content.getD memory.content
    type := type.elim memory.type fun type => normalize_memory_type (some type)
    path := if update_path then path else memory.path
    metadata := merge_metadata memory.metadata (some manual)
    updated_at := now }

/-- `update_memory_by_id`. Vectors are made where the request gives a content or a path. -/
def update_memory_by_id (memory_id : String) (form_data : MemoryUpdateModel) (s : Store V) :
    Except HTTPException Response × Store V :=
  match form_data.content.mapM fun content => clean_memory_content (some content),
      clean_memory_path form_data.path with
  | .error e, _ => (.error e, s)
  | .ok _, .error e => (.error e, s)
  | .ok content, .ok path =>
    if content = none ∧ form_data.type = none ∧ form_data.path = none then
      (.error ⟨400, "No memory update provided"⟩, s)
    else
      match s.table.own user_id (some memory_id) with
      | none => (.error ⟨404, notFoundMessage⟩, s)
      | some memory =>
        let memory := memory.updated now content form_data.type path form_data.path.isSome
        let table := s.table.update memory
        if form_data.content.isSome ∨ form_data.path.isSome then
          match memoryItem embed memory with
          | .error e => (.error e, ⟨table, s.items⟩)
          | .ok item => (.ok (.memory memory), ⟨table, s.items.upsert [item]⟩)
        else (.ok (.memory memory), ⟨table, s.items⟩)

/-- `delete_memory_by_id`. -/
def delete_memory_by_id (memory_id : String) (s : Store V) :
    Except HTTPException Response × Store V :=
  match s.table.own user_id (some memory_id) with
  | none => (.ok (.done false), s)
  | some _ => (.ok (.done true), ⟨s.table.remove [memory_id], s.items.delete [memory_id]⟩)

/-- `delete_memory_by_user_id`. -/
def delete_memory_by_user_id (s : Store V) : Except HTTPException Response × Store V :=
  (.ok (.done true), ⟨s.table.remove ((s.table.memoriesOf user_id).map Memory.id), Dict.empty⟩)

/-- `reset_memory_from_vector_db`. -/
def reset_memory_from_vector_db (s : Store V) : Except HTTPException Response × Store V :=
  match (s.table.memoriesOf user_id).mapM (memoryItem embed) with
  | .error e => (.error e, ⟨s.table, Dict.empty⟩)
  | .ok upsert_items =>
    (.ok (.done true), ⟨s.table, Collection.upsert Dict.empty upsert_items⟩)

/-- A request of the user at some time. -/
def handle (request : Request) (s : Store V) : Except HTTPException Response × Store V :=
  match request with
  | .add_memory content type path uuid4 => add_memory embed user_id now content type path uuid4 s
  | .update_memories batch => update_memories embed user_id now batch s
  | .update_memory_by_id memory_id form_data =>
    update_memory_by_id embed user_id now memory_id form_data s
  | .delete_memory_by_id memory_id => delete_memory_by_id user_id memory_id s
  | .delete_memory_by_user_id => delete_memory_by_user_id user_id s
  | .reset_memory_from_vector_db => reset_memory_from_vector_db embed user_id s

end

/-- A request with its time, as a step of the store. -/
def Store.step (embed : List Char → V) (user_id : String) (s : Store V) (e : ℤ × Request) :
    Option (Store V) :=
  some (handle embed user_id e.1 e.2 s).2

end OpenLaunch.Memories
