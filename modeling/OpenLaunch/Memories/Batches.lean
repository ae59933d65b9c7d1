import OpenLaunch.Memories.Operations
import OpenLaunch.Keyed

/-! # Batches of operations on memories

`apply_memory_operations` carries out the operations of a request in one session of the database,
which does not flush by itself. A deletion waits in the session for the next flush, and queries see
the row until then. -/

namespace OpenLaunch.Memories

open Python

/-! ## Rows -/

/-- A row of `memory`. `metadata` is the column `meta`. -/
structure Memory where
  id : String
  user_id : String
  type : MemoryType
  path : Option (List Char)
  content : List Char
  metadata : Option (Dict String Json)
  updated_at : ℤ
  created_at : ℤ
  deriving DecidableEq

/-- The table, with its primary key. -/
structure Table where
  rows : List Memory
  ids : (rows.map Memory.id).Nodup

namespace Table

@[ext] theorem ext {t t' : Table} (h : t.rows = t'.rows) : t = t' := by
  cases t
  cases t'
  congr

instance : DecidableEq Table := fun t t' => decidable_of_iff (t.rows = t'.rows) Table.ext_iff.symm

variable (t : Table)

/-- `db.get(Memory, id)`. -/
def get (id : String) : Option Memory := t.rows.find? fun m => m.id = id

/-- `db.get(Memory, id)`, where the memory found is one of the user's. -/
def own (user_id : String) (id : Option String) : Option Memory :=
  (id.bind t.get).filter fun m => m.user_id = user_id

/-- The memories of a user. -/
def memoriesOf (user_id : String) : List Memory := t.rows.filter fun m => m.user_id = user_id

/-- `INSERT`, which fails where the id is taken. -/
def insert (m : Memory) : Option Table :=
  if h : m.id ∈ t.rows.map Memory.id then none
  else some ⟨t.rows ++ [m], by
    rw [List.map_append, List.map_singleton]
    exact List.nodup_append.mpr ⟨t.ids, List.nodup_singleton _, fun x hx y hy hxy =>
      h (List.mem_singleton.mp hy ▸ hxy ▸ hx)⟩⟩

theorem map_id_update (m : Memory) (rows : List Memory) :
    (rows.map fun r => if r.id = m.id then m else r).map Memory.id = rows.map Memory.id := by
  rw [List.map_map]
  refine List.map_congr_left fun r _ => ?_
  show (if r.id = m.id then m else r).id = r.id
  split_ifs with h
  · exact h.symm
  · rfl

/-- `UPDATE` of the row of a memory. -/
def update (m : Memory) : Table where
  rows := t.rows.map fun r => if r.id = m.id then m else r
  ids := by
    rw [map_id_update]
    exact t.ids

/-- `DELETE` of the rows with some ids. -/
def remove (ids : List String) : Table where
  rows := t.rows.filter fun m => m.id ∉ ids
  ids := t.ids.sublist (List.filter_sublist.map Memory.id)

variable {t} {m : Memory} {id user_id : String}

theorem own_eq_some {id : Option String} :
    t.own user_id id = some m ↔ m ∈ t.rows ∧ id = some m.id ∧ m.user_id = user_id := by
  rw [own, Option.filter_eq_some_iff, Option.bind_eq_some_iff, decide_eq_true_eq]
  constructor
  · rintro ⟨⟨x, rfl, hget⟩, huser⟩
    obtain ⟨hmem, rfl⟩ := (Keyed.find?_eq_some_iff t.ids).mp hget
    exact ⟨hmem, rfl, huser⟩
  · rintro ⟨hmem, rfl, huser⟩
    exact ⟨⟨m.id, rfl, (Keyed.find?_eq_some_iff t.ids).mpr ⟨hmem, rfl⟩⟩, huser⟩

theorem insert_eq_some {t' : Table} :
    t.insert m = some t' ↔ m.id ∉ t.rows.map Memory.id ∧ t'.rows = t.rows ++ [m] := by
  rw [insert]
  split_ifs with h
  · simp [h]
  · rw [Option.some.injEq, Table.ext_iff]
    exact ⟨fun heq => ⟨h, heq.symm⟩, fun heq => heq.2.symm⟩

theorem remove_nil : t.remove [] = t := Table.ext (List.filter_eq_self.mpr fun _ _ => rfl)

theorem own_remove (ids : List String) (id : Option String) :
    (t.remove ids).own user_id id = (t.own user_id id).filter fun m => m.id ∉ ids := by
  ext m
  rw [own_eq_some, Option.filter_eq_some_iff, own_eq_some, remove, List.mem_filter]
  constructor
  · rintro ⟨⟨hmem, hids⟩, hid, huser⟩
    exact ⟨⟨hmem, hid, huser⟩, hids⟩
  · rintro ⟨⟨hmem, hid, huser⟩, hids⟩
    exact ⟨⟨hmem, hids⟩, hid, huser⟩

theorem update_remove (ids : List String) :
    (t.update m).remove ids = (t.remove ids).update m := by
  refine Table.ext ?_
  show (t.rows.map _).filter _ = (t.rows.filter _).map _
  rw [List.filter_map]
  refine congrArg _ (List.filter_congr fun r _ => ?_)
  show decide ((if r.id = m.id then m else r).id ∉ ids) = decide (r.id ∉ ids)
  split_ifs with h
  · rw [h]
  · rfl

theorem remove_remove (id : String) (ids : List String) :
    (t.remove ids).remove [id] = t.remove (id :: ids) := by
  refine Table.ext ?_
  show (t.rows.filter _).filter _ = t.rows.filter _
  rw [List.filter_filter]
  refine List.filter_congr fun r _ => ?_
  simp only [List.mem_cons, List.not_mem_nil, or_false, not_or, Bool.decide_and]

/-- An update touches one row only. -/
theorem mem_update {r : Memory} (hm : m.id ∈ t.rows.map Memory.id) :
    r ∈ (t.update m).rows ↔ r = m ∨ r ∈ t.rows ∧ r.id ≠ m.id := by
  rw [update, List.mem_map]
  constructor
  · rintro ⟨x, hx, rfl⟩
    split_ifs with h
    · exact .inl rfl
    · exact .inr ⟨hx, h⟩
  · rintro (rfl | ⟨hr, hne⟩)
    · obtain ⟨x, hx, hid⟩ := List.mem_map.mp hm
      exact ⟨x, hx, if_pos hid⟩
    · exact ⟨r, hr, if_neg hne⟩

end Table

/-! ## Sessions -/

/-- A session: the rows its queries see, and the ids of the objects passed to `db.delete` since the
last flush. -/
structure Session where
  table : Table
  deleted : List String
  deriving DecidableEq

/-- `db.flush()`. -/
def Session.flush (s : Session) : Session := ⟨s.table.remove s.deleted, []⟩

/-- What a batch raises. -/
inductive Error
  | valueError (message : String)
  | attributeError
  | integrityError
  deriving DecidableEq

/-- The result of an operation, by its `status`. -/
inductive Result
  | skipped (memory : Memory)
  | created (memory : Memory)
  | updated (action : Action) (memory : Memory)
  | deleted (id : Option String)
  deriving DecidableEq

/-! ## The operations -/

section

variable (user_id : String) (now : ℤ)

/-- The memory is one that an operation would add again. -/
def Memory.Duplicates (m : Memory) (content : List Char) (type : MemoryType)
    (path : Option (List Char)) : Prop :=
  m.user_id = user_id ∧ m.content = content ∧ m.type = type ∧ m.path = path

instance (m : Memory) (content : List Char) (type : MemoryType) (path : Option (List Char)) :
    Decidable (m.Duplicates user_id content type path) := inferInstanceAs (Decidable (_ ∧ _))

/-- `{**(memory.meta or {}), **operation['meta']}`, where the operation has one. -/
def merge_metadata (metadata : Option (Dict String Json)) : Option (Dict String Json) →
    Option (Dict String Json)
  | none => metadata
  | some new => some ((metadata.getD Dict.empty).update new)

/-- `raise ValueError(f'Memory not found: {memory_id}')`. -/
def notFound (id : Option String) : Error := .valueError ("Memory not found: " ++ id.getD "None")

/-- The branch for `add`. `uuid4` is the id that a new memory gets. -/
def Session.add (operation : Operation) (uuid4 : String) (s : Session) :
    Except Error (Result × Session) :=
  match operation.content.map strip with
  | none => .error .attributeError
  | some content =>
    let memory_type := normalize_memory_type operation.type
    let path := operation.path.join
    match s.table.rows.find? fun m => m.Duplicates user_id content memory_type path with
    | some existing => .ok (.skipped existing, s)
    | none =>
      let memory : Memory :=
        { id := uuid4, user_id := user_id, type := memory_type, path := path, content := content,
          metadata := operation.metadata, updated_at := now, created_at := now }
      -- the flush that writes the new row also deletes the rows that wait for it
      match s.flush.table.insert memory with
      | none => .error .integrityError
      | some table => .ok (.created memory, ⟨table, []⟩)

/-- The branch for `replace`. -/
def Session.replace (operation : Operation) (s : Session) : Except Error (Result × Session) :=
  match operation.content.map strip with
  | none => .error .attributeError
  | some content =>
    match s.table.own user_id operation.id with
    | none => .error (notFound operation.id)
    | some memory =>
      let memory := { memory with
        content := content
        type := operation.type.elim memory.type fun type => normalize_memory_type (some type)
        path := operation.path.getD memory.path
        metadata := merge_metadata memory.metadata operation.metadata
        updated_at := now }
      .ok (.updated .replace memory, Session.flush ⟨s.table.update memory, s.deleted⟩)

/-- The branch for `move`. -/
def Session.move (operation : Operation) (s : Session) : Except Error (Result × Session) :=
  match s.table.own user_id operation.id with
  | none => .error (notFound operation.id)
  | some memory =>
    let memory := { memory with
      path := operation.path.join
      metadata := merge_metadata memory.metadata operation.metadata
      updated_at := now }
    .ok (.updated .move memory, Session.flush ⟨s.table.update memory, s.deleted⟩)

/-- The branch for `remove`, which does not flush. -/
def Session.remove (operation : Operation) (s : Session) : Except Error (Result × Session) :=
  match s.table.own user_id operation.id with
  | none => .error (notFound operation.id)
  | some memory => .ok (.deleted operation.id, ⟨s.table, memory.id :: s.deleted⟩)

/-- One round of the loop. -/
def apply_memory_operation (operation : Operation) (uuid4 : String) (s : Session) :
    Except Error (Result × Session) :=
  match operation.action with
  | .add => s.add user_id now operation uuid4
  | .replace => s.replace user_id now operation
  | .move => s.move user_id now operation
  | .remove => s.remove user_id operation

/-- The loop of `apply_memory_operations`. Each operation comes with the id that `uuid4` gives if it
adds a memory. -/
def applyAll : List (Operation × String) → Session → Except Error (List Result × Session)
  | [], s => .ok ([], s)
  | (operation, uuid4) :: batch, s => do
    let (result, s) ← apply_memory_operation user_id now operation uuid4 s
    let (results, s) ← applyAll batch s
    pure (result :: results, s)

/-- `apply_memory_operations`: what it returns or raises, and the table afterwards. A session that is
closed without a commit leaves the table as it was. -/
def apply_memory_operations (batch : List (Operation × String)) (table : Table) :
    Except Error (List Result) × Table :=
  match applyAll user_id now batch ⟨table, []⟩ with
  | .ok (results, s) => (.ok results, s.flush.table)
  | .error e => (.error e, table)

end

/-! ## What an operation does -/

section

variable {user_id : String} {now : ℤ} {operation : Operation} {uuid4 : String} {s s' : Session}
  {result : Result}

theorem add_cases (h : s.add user_id now operation uuid4 = .ok (result, s')) :
    (∃ m, result = .skipped m ∧ s' = s) ∨
    ∃ m t, result = .created m ∧ m.id = uuid4 ∧ m.user_id = user_id ∧
      m.path = operation.path.join ∧ s.flush.table.insert m = some t ∧ s' = ⟨t, []⟩ := by
  unfold Session.add at h
  split at h
  · cases h
  · dsimp only at h
    split at h
    · cases h
      exact .inl ⟨_, rfl, rfl⟩
    · split at h
      · cases h
      case h_2 t hinsert =>
        cases h
        exact .inr ⟨_, t, rfl, rfl, rfl, rfl, hinsert, rfl⟩

/-- A memory that is changed keeps its id and its user. -/
theorem replace_cases (h : s.replace user_id now operation = .ok (result, s')) :
    ∃ r m, result = .updated .replace m ∧ s.table.own user_id operation.id = some r ∧
      m.id = r.id ∧ m.user_id = r.user_id ∧ m.path = operation.path.getD r.path ∧
      s' = Session.flush ⟨s.table.update m, s.deleted⟩ := by
  unfold Session.replace at h
  split at h
  · cases h
  · split at h
    · cases h
    case h_2 r hown =>
      cases h
      refine ⟨r, _, rfl, hown, ?id, ?user, ?path, rfl⟩
      case id => rfl
      case user => rfl
      case path => rfl

theorem move_cases (h : s.move user_id now operation = .ok (result, s')) :
    ∃ r m, result = .updated .move m ∧ s.table.own user_id operation.id = some r ∧
      m.id = r.id ∧ m.user_id = r.user_id ∧ m.path = operation.path.join ∧
      s' = Session.flush ⟨s.table.update m, s.deleted⟩ := by
  unfold Session.move at h
  split at h
  · cases h
  case h_2 r hown =>
    cases h
    refine ⟨r, _, rfl, hown, ?id, ?user, ?path, rfl⟩
    case id => rfl
    case user => rfl
    case path => rfl

theorem remove_cases (h : s.remove user_id operation = .ok (result, s')) :
    ∃ r, result = .deleted operation.id ∧ s.table.own user_id operation.id = some r ∧
      s' = ⟨s.table, r.id :: s.deleted⟩ := by
  unfold Session.remove at h
  split at h
  · cases h
  case h_2 r hown =>
    cases h
    exact ⟨r, rfl, hown, rfl⟩

/-- **What an operation can do to a session**: nothing, add a memory of the user, change one, or
mark one for its deletion. -/
theorem apply_memory_operation_cases
    (h : apply_memory_operation user_id now operation uuid4 s = .ok (result, s')) :
    (∃ m, result = .skipped m ∧ s' = s) ∨
    (∃ m t, operation.action ≠ .remove ∧ result = .created m ∧ m.id = uuid4 ∧
      m.user_id = user_id ∧ m.path = operation.path.join ∧ s.flush.table.insert m = some t ∧
      s' = ⟨t, []⟩) ∨
    (∃ action r m, operation.action ≠ .remove ∧ result = .updated action m ∧
      s.table.own user_id operation.id = some r ∧ m.id = r.id ∧ m.user_id = r.user_id ∧
      (operation.path.isSome → m.path = operation.path.join) ∧
      s' = Session.flush ⟨s.table.update m, s.deleted⟩) ∨
    ∃ r, operation.action = .remove ∧ result = .deleted operation.id ∧
      s.table.own user_id operation.id = some r ∧ s' = ⟨s.table, r.id :: s.deleted⟩ := by
  unfold apply_memory_operation at h
  cases haction : operation.action with
  | add =>
    rw [haction] at h
    rcases add_cases h with hskipped | ⟨m, t, hcreated⟩
    · exact .inl hskipped
    · exact .inr (.inl ⟨m, t, nofun, hcreated⟩)
  | replace =>
    rw [haction] at h
    obtain ⟨r, m, hresult, hown, hid, huser, hpath, hs⟩ := replace_cases h
    refine .inr (.inr (.inl
      ⟨.replace, r, m, nofun, hresult, hown, hid, huser, fun hsome => ?_, hs⟩))
    obtain ⟨path, heq⟩ := Option.isSome_iff_exists.mp hsome
    rw [hpath, heq, Option.getD_some, Option.join_some]
  | move =>
    rw [haction] at h
    obtain ⟨r, m, hresult, hown, hid, huser, hpath, hs⟩ := move_cases h
    exact .inr (.inr (.inl
      ⟨.move, r, m, nofun, hresult, hown, hid, huser, fun _ => hpath, hs⟩))
  | remove =>
    rw [haction] at h
    obtain ⟨r, hdeleted⟩ := remove_cases h
    exact .inr (.inr (.inr ⟨r, rfl, hdeleted⟩))

end

end OpenLaunch.Memories
