import OpenLaunch.Python.Blank
import OpenLaunch.Python.Json
import OpenLaunch.Http

/-! # Operations on memories

A request names operations on the memories of a user. `validate_memory_operations` cleans their
fields, and rejects the request where a field that the action needs is missing. -/

namespace OpenLaunch.Memories

open Python

/-! ## Requests -/

/-- `Literal['user', 'context']`. -/
inductive MemoryType
  | user
  | context
  deriving DecidableEq

/-- `normalize_memory_type`. -/
def normalize_memory_type : Option MemoryType → MemoryType
  | some .user => .user
  | _ => .context

/-- `Literal['add', 'replace', 'remove', 'move']`. -/
inductive Action
  | add
  | replace
  | remove
  | move
  deriving DecidableEq

/-- `MemoryOperationModel`. -/
structure MemoryOperationModel where
  action : Action
  id : Option String
  content : Option (List Char)
  type : Option MemoryType
  path : Option (List Char)
  deriving DecidableEq

/-- A validated operation: `path` is `some` where the dictionary has the key, and `metadata` is the
value of `meta`, which validation leaves out. -/
structure Operation where
  action : Action
  id : Option String
  content : Option (List Char)
  type : Option MemoryType
  path : Option (Option (List Char))
  metadata : Option (Dict String Json)
  deriving DecidableEq

/-- `model_dump()`, which has a value for each field. -/
def MemoryOperationModel.model_dump (operation : MemoryOperationModel) : Operation where
  action := operation.action
  id := operation.id
  content := operation.content
  type := operation.type
  path := some operation.path
  metadata := none

/-! ## Validation -/

/-- `clean_memory_content`. -/
def clean_memory_content (content : Option (List Char)) : Except HTTPException (List Char) :=
  let value := strip (content.getD [])
  if value = [] then .error ⟨400, "Memory content cannot be empty"⟩ else .ok value

/-- `re.sub(r'/+', '/', value)`. -/
def squeeze : List Char → List Char
  | '/' :: '/' :: cs => squeeze ('/' :: cs)
  | c :: cs => c :: squeeze cs
  | [] => []

/-- `value.strip('/')`. -/
def strip_slashes (value : List Char) : List Char :=
  (value.dropWhile fun c => c = '/').rdropWhile fun c => c = '/'

/-- `clean_memory_path`. -/
def clean_memory_path (path : Option (List Char)) : Except HTTPException (Option (List Char)) :=
  let value := squeeze (strip_slashes (strip (path.getD [])))
  if value = [] then .ok none
  else
    let parts := value.splitOn '/'
    if (parts.any fun part => part = [] ∨ part = ['.'] ∨ part = ['.', '.']) ∨
        value.any fun char => char.toNat < 32 then
      .error ⟨400, "Invalid memory path"⟩
    else .ok (some value)

/-- `not op.get('id')`. -/
def lacksId (id : Option String) : Bool := id = none ∨ id = some ""

/-- The body of the loop of `validate_memory_operations`. -/
def validate_memory_operation (operation : MemoryOperationModel) :
    Except HTTPException Operation := do
  let op := operation.model_dump
  match op.action with
  | .add =>
    let content ← clean_memory_content operation.content
    let path ← clean_memory_path operation.path
    pure { op with
      content := some content, type := some (normalize_memory_type op.type), path := some path }
  | .replace =>
    if lacksId op.id then throw ⟨400, "Memory id is required for replace"⟩
    let content ← clean_memory_content operation.content
    let type := op.type.map fun type => normalize_memory_type (some type)
    let path ← clean_memory_path operation.path
    pure { op with content := some content, type := type, path := some path }
  | .move =>
    if lacksId op.id then throw ⟨400, "Memory id is required for move"⟩
    let path ← clean_memory_path operation.path
    pure { op with path := some path }
  | .remove =>
    if lacksId op.id then throw ⟨400, "Memory id is required for remove"⟩
    pure op

/-- `validate_memory_operations`. -/
def validate_memory_operations (operations : List MemoryOperationModel) :
    Except HTTPException (List Operation) :=
  if operations = [] then .error ⟨400, "No memory operations provided"⟩
  else operations.mapM validate_memory_operation

/-- `update_memories` gives `meta` to the operations that write a memory. -/
def Operation.stamp (metadata : Dict String Json) (operation : Operation) : Operation :=
  match operation.action with
  | .add | .replace | .move => { operation with metadata := some metadata }
  | .remove => operation

/-! ## What validation leaves -/

/-- A validated operation has what its action reads. -/
structure Operation.Validated (operation : Operation) : Prop where
  path : operation.path.isSome
  content : operation.action = .add ∨ operation.action = .replace →
    ∃ content, operation.content = some content ∧ strip content = content ∧ content ≠ []
  id : operation.action ≠ .add → ∃ id, operation.id = some id ∧ id ≠ ""

theorem clean_memory_content_eq_ok {content : Option (List Char)} {value : List Char}
    (h : clean_memory_content content = .ok value) : strip value = value ∧ value ≠ [] := by
  simp only [clean_memory_content] at h
  split_ifs at h with hempty
  cases h
  exact ⟨strip_strip _, hempty⟩

theorem exists_id_of_not_lacksId {id : Option String} (h : ¬ lacksId id = true) :
    ∃ name, id = some name ∧ name ≠ "" := by
  cases id with
  | none => exact absurd rfl h
  | some name =>
    refine ⟨name, rfl, ?_⟩
    rintro rfl
    exact h rfl

/-- **Validation leaves valid operations**, under the ids that the request gives. -/
theorem validated_of_validate {operation : MemoryOperationModel} {op : Operation}
    (h : validate_memory_operation operation = .ok op) :
    op.Validated ∧ op.id = operation.id := by
  obtain ⟨action, id, content, type, path⟩ := operation
  cases action with
  | add =>
    obtain ⟨value, hvalue, h⟩ := bind_eq_ok.mp h
    obtain ⟨cleaned, -, h⟩ := bind_eq_ok.mp h
    cases h
    exact ⟨⟨rfl, fun _ => ⟨value, rfl, clean_memory_content_eq_ok hvalue⟩,
      fun hne => absurd rfl hne⟩, rfl⟩
  | replace =>
    by_cases hid : lacksId id = true
    · simp only [validate_memory_operation, MemoryOperationModel.model_dump, hid] at h
      cases h
    · simp only [validate_memory_operation, MemoryOperationModel.model_dump, hid] at h
      obtain ⟨value, hvalue, h⟩ := bind_eq_ok.mp h
      obtain ⟨cleaned, -, h⟩ := bind_eq_ok.mp h
      cases h
      exact ⟨⟨rfl, fun _ => ⟨value, rfl, clean_memory_content_eq_ok hvalue⟩,
        fun _ => exists_id_of_not_lacksId hid⟩, rfl⟩
  | move =>
    by_cases hid : lacksId id = true
    · simp only [validate_memory_operation, MemoryOperationModel.model_dump, hid] at h
      cases h
    · simp only [validate_memory_operation, MemoryOperationModel.model_dump, hid] at h
      obtain ⟨cleaned, -, h⟩ := bind_eq_ok.mp h
      cases h
      exact ⟨⟨rfl, fun haction => by simp at haction, fun _ => exists_id_of_not_lacksId hid⟩, rfl⟩
  | remove =>
    by_cases hid : lacksId id = true
    · simp only [validate_memory_operation, MemoryOperationModel.model_dump, hid] at h
      cases h
    · simp only [validate_memory_operation, MemoryOperationModel.model_dump, hid] at h
      cases h
      exact ⟨⟨rfl, fun haction => by simp at haction, fun _ => exists_id_of_not_lacksId hid⟩, rfl⟩

theorem validated_of_mapM {operations : List MemoryOperationModel} {ops : List Operation}
    (h : operations.mapM validate_memory_operation = .ok ops) :
    ∀ op ∈ ops, op.Validated ∧ ∃ operation ∈ operations, op.id = operation.id := by
  induction operations generalizing ops with
  | nil =>
    cases h
    exact List.forall_mem_nil _
  | cons operation operations ih =>
    rw [List.mapM_cons] at h
    obtain ⟨op, hop, h⟩ := bind_eq_ok.mp h
    obtain ⟨rest, hrest, h⟩ := bind_eq_ok.mp h
    cases h
    obtain ⟨hvalid, hid⟩ := validated_of_validate hop
    rw [List.forall_mem_cons]
    refine ⟨⟨hvalid, operation, List.mem_cons_self .., hid⟩, fun op' hop' => ?_⟩
    obtain ⟨hvalid', operation', hmem, hid'⟩ := ih hrest op' hop'
    exact ⟨hvalid', operation', List.mem_cons_of_mem _ hmem, hid'⟩

theorem validated_of_validate_memory_operations {operations : List MemoryOperationModel}
    {ops : List Operation} (h : validate_memory_operations operations = .ok ops) :
    ∀ op ∈ ops, op.Validated ∧ ∃ operation ∈ operations, op.id = operation.id := by
  rw [validate_memory_operations] at h
  split_ifs at h
  exact validated_of_mapM h

@[simp] theorem Operation.id_stamp (op : Operation) (metadata : Dict String Json) :
    (op.stamp metadata).id = op.id := by
  unfold Operation.stamp
  split <;> rfl

theorem Operation.Validated.stamp {op : Operation} (h : op.Validated)
    (metadata : Dict String Json) : (op.stamp metadata).Validated := by
  obtain ⟨action, id, content, type, path, previous⟩ := op
  cases action <;> exact ⟨h.path, h.content, h.id⟩

end OpenLaunch.Memories
