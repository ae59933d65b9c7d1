import OpenLaunch.Forest
import OpenLaunch.Keyed
import OpenLaunch.Transition

/-! # Folders

A folder has an owner and the id of its parent, which may be missing. Access to a folder is inherited
from its ancestors; a folder is deleted together with what is below it and belongs to the same owner.
The functions that go up or down are given the number of the nested calls that they may make. -/

namespace OpenLaunch.Access

open Forest Transition

/-! ## The table -/

/-- A row of the table of folders, without what the files and the interface need. -/
structure Folder where
  id : String
  parent_id : Option String
  user_id : String
  name : String
  deriving DecidableEq

/-- The table. The ids are its primary key. -/
structure FolderTable where
  rows : List Folder
  nodup : (rows.map Folder.id).Nodup
  deriving DecidableEq

namespace FolderTable

/-- No folders. -/
def empty : FolderTable := ⟨[], List.nodup_nil⟩

variable (t : FolderTable)

/-- `get_folder_by_id`. -/
def get_folder_by_id (id : String) : Option Folder := t.rows.find? fun f => f.id = id

/-- `get_folder_by_id_and_user_id`. -/
def get_folder_by_id_and_user_id (id user_id : String) : Option Folder :=
  (t.get_folder_by_id id).filter fun f => f.user_id = user_id

/-- `get_folders_by_parent_id_and_user_id`. -/
def get_folders_by_parent_id_and_user_id (parent_id user_id : String) : List Folder :=
  t.rows.filter fun f => f.parent_id = some parent_id ∧ f.user_id = user_id

/-- `get_folder_by_parent_id_and_user_id_and_name`, for the meaning of `ILIKE`. -/
def get_folder_by_parent_id_and_user_id_and_name (ilike : String → String → Bool)
    (parent_id : Option String) (user_id name : String) : Option Folder :=
  t.rows.find? fun f => f.parent_id = parent_id ∧ f.user_id = user_id ∧ ilike f.name name

/-- The parent of a folder. It need not be in the table. -/
def parent (id : String) : Option String := (t.get_folder_by_id id).bind Folder.parent_id

/-- A new row. -/
def insert (f : Folder) (h : f.id ∉ t.rows.map Folder.id) : FolderTable where
  rows := t.rows ++ [f]
  nodup := by
    rw [List.map_append, List.nodup_append]
    refine ⟨t.nodup, List.nodup_singleton _, ?_⟩
    rintro a ha b hb rfl
    rw [List.map_singleton, List.mem_singleton] at hb
    exact h (hb ▸ ha)

/-- A change of the rows that keeps the ids. -/
def mapRows (f : Folder → Folder) (h : ∀ row, (f row).id = row.id) : FolderTable where
  rows := t.rows.map f
  nodup := by
    rw [List.map_map]
    convert t.nodup using 2
    exact funext h

/-- The rows that are not deleted. -/
def remove (p : String → Bool) : FolderTable where
  rows := t.rows.filter fun f => ¬ p f.id
  nodup := t.nodup.sublist (List.filter_sublist.map Folder.id)

/-! ## Going up and down -/

/-- `has_folder_access`. `granted` says on which folders the user has grants. -/
def has_folder_access (granted : String → Bool) (user_id : String) : ℕ → Folder → Option Bool
  | 0, _ => none
  | n + 1, f =>
    if f.user_id = user_id then some true
    else if granted f.id then some true
    else match f.parent_id with
      | some parent_id =>
        if parent_id = "" then some false
        else match t.get_folder_by_id parent_id with
          | some parent => has_folder_access granted user_id n parent
          | none => some false
      | none => some false

/-- The children with what is below them, children last. -/
def get_children (user_id : String) : ℕ → String → Option (List Folder)
  | 0, _ => none
  | n + 1, id =>
    ((t.get_folders_by_parent_id_and_user_id id user_id).mapM fun child =>
      (get_children user_id n child.id).map fun folders => folders ++ [child]).map List.flatten

/-- `get_children_folders_by_id_and_user_id`. -/
def get_children_folders_by_id_and_user_id (n : ℕ) (id user_id : String) :
    Option (Option (List Folder)) :=
  match t.get_folder_by_id_and_user_id id user_id with
  | some f => (t.get_children user_id n f.id).map some
  | none => some none

/-- The loop of the ids of a subtree, for a stack of folders, the last of which is popped. -/
def subtreeLoop (user_id : String) : ℕ → List Folder → List String → Option (List String)
  | 0, stack, ids => if stack = [] then some ids else none
  | n + 1, stack, ids =>
    match stack.getLast? with
    | some current =>
      let children := t.get_folders_by_parent_id_and_user_id current.id user_id
      subtreeLoop user_id n (stack.dropLast ++ children) (ids ++ children.map Folder.id)
    | none => some ids

/-- `get_folder_ids_by_id_and_user_id_in_subtree`. -/
def get_folder_ids_by_id_and_user_id_in_subtree (n : ℕ) (id user_id : String) :
    Option (List String) :=
  match t.get_folder_by_id_and_user_id id user_id with
  | some f => t.subtreeLoop user_id n [f] [f.id]
  | none => some []

end FolderTable

/-- The loop of `delete_children`: each child goes after what is below it. The ids are missing if a
child has gone already, which raises. -/
def deleteEach (deleteBelow : FolderTable → String → Option (FolderTable × Option (List String))) :
    List Folder → FolderTable → Option (FolderTable × Option (List String))
  | [], t => some (t, some [])
  | child :: children, t =>
    (deleteBelow t child.id).bind fun below =>
      match below with
      | (t, none) => some (t, none)
      | (t, some ids) =>
        match t.get_folder_by_id child.id with
        | none => some (t, none)
        | some _ =>
          (deleteEach deleteBelow children (t.remove fun id => id = child.id)).map fun rest =>
            (rest.1, rest.2.map fun ids' => ids ++ child.id :: ids')

/-- `delete_children`. -/
def deleteChildren (user_id : String) :
    ℕ → FolderTable → String → Option (FolderTable × Option (List String))
  | 0, _, _ => none
  | n + 1, t, id =>
    deleteEach (deleteChildren user_id n) (t.get_folders_by_parent_id_and_user_id id user_id) t

/-- `delete_folder_by_id_and_user_id`. What was deleted before it raises stays deleted. -/
def FolderTable.delete_folder_by_id_and_user_id (t : FolderTable) (n : ℕ) (id user_id : String) :
    Option (FolderTable × List String) :=
  match t.get_folder_by_id_and_user_id id user_id with
  | none => some (t, [])
  | some f =>
    (deleteChildren user_id n t f.id).map fun below =>
      match below with
      | (t, none) => (t, [])
      | (t, some ids) =>
        if (t.get_folder_by_id f.id).isSome then (t.remove fun id => id = f.id, f.id :: ids)
        else (t, [])

/-! ## Requests -/

/-- The requests of a user that is allowed to use folders. -/
inductive FolderRequest
  /-- A new folder, for a fresh UUID. -/
  | create_folder (id : String) (name : String) (parent_id : Option String)
  /-- A new name, if the request has one. -/
  | update_folder_name_by_id (id : String) (name : Option String)
  | update_folder_parent_id_by_id (id : String) (parent_id : Option String)
  /-- `chats_deletable`: the folders have no chats, or the user may delete chats. -/
  | delete_folder_by_id (id : String) (chats_deletable : Bool)
  /-- The folders of the user, which resets the parents that are missing. -/
  | get_folders

/-- A request with the user, the grants for writing that the user has, and the number of nested calls
that are made for it at most. -/
structure FolderCall where
  user_id : String
  admin : Bool
  granted : String → Bool
  fuel : ℕ
  request : FolderRequest

variable (ilike : String → String → Bool) (t : FolderTable) (call : FolderCall)

/-- `user.role == 'admin' or await _has_folder_access(user.id, folder, 'write', db)`. -/
def FolderCall.mayWrite (folder : Folder) : Option Bool :=
  if call.admin then some true
  else t.has_folder_access call.granted call.user_id call.fuel folder

/-- `create_folder`. A request that is refused changes nothing. -/
def create_folder (id name : String) (parent_id : Option String) : Option FolderTable :=
  if h : id ∉ t.rows.map Folder.id ∧ (∀ f ∈ t.rows, f.parent_id ≠ some id) ∧
      parent_id ≠ some id then
    if (t.get_folder_by_parent_id_and_user_id_and_name ilike parent_id call.user_id name).isSome then
      some t
    else
      let own := t.insert ⟨id, parent_id, call.user_id, name⟩ h.1
      match (parent_id.filter (· ≠ "")).bind t.get_folder_by_id with
      | some parent =>
        if parent.user_id ≠ call.user_id then
          (call.mayWrite t parent).map fun allowed =>
            if allowed then t.insert ⟨id, parent_id, parent.user_id, name⟩ h.1 else t
        else some own
      | none => some own
  else none

/-- `update_folder_by_id_and_user_id`, as far as the name is concerned. -/
def FolderTable.rename (t : FolderTable) (folder : Folder) (name : String) : FolderTable :=
  let existing := t.rows.find? fun f =>
    f.name = name ∧ f.parent_id = folder.parent_id ∧ f.user_id = folder.user_id
  if existing.any fun f => f.id ≠ folder.id then t
  else t.mapRows (fun f => if f.id = folder.id then { f with name := name } else f) (by
    intro f
    split <;> rfl)

/-- `update_folder_name_by_id`. -/
def update_folder_name_by_id (id : String) (name : Option String) : Option FolderTable :=
  let update (folder : Folder) : FolderTable :=
    match name with
    | none => t
    | some name =>
      if (t.get_folder_by_parent_id_and_user_id_and_name ilike folder.parent_id folder.user_id
          name).any fun f => f.id ≠ id then t
      else t.rename folder name
  match t.get_folder_by_id_and_user_id id call.user_id with
  | some folder => some (update folder)
  | none =>
    match t.get_folder_by_id id with
    | some folder => (call.mayWrite t folder).map fun allowed => if allowed then update folder else t
    | none => some t

/-- `update_folder_parent_id_by_id_and_user_id`, for a folder of the user. -/
def FolderTable.setParent (t : FolderTable) (id : String) (parent_id : Option String) :
    FolderTable :=
  t.mapRows (fun f => if f.id = id then { f with parent_id := parent_id } else f) (by
    intro f
    split <;> rfl)

/-- `update_folder_parent_id_by_id`. -/
def update_folder_parent_id_by_id (id : String) (parent_id : Option String) : FolderTable :=
  match t.get_folder_by_id_and_user_id id call.user_id with
  | some folder =>
    if (t.get_folder_by_parent_id_and_user_id_and_name ilike parent_id call.user_id
        folder.name).isSome then t
    else t.setParent id parent_id
  | none => t

/-- The folder that `delete_folder_by_id` deletes, unless it is refused. -/
def deletable (id : String) : Option (Option Folder) :=
  match t.get_folder_by_id_and_user_id id call.user_id with
  | some folder => some (some folder)
  | none =>
    match t.get_folder_by_id id with
    | some folder =>
      if (folder.parent_id.filter (· ≠ "")).isSome then
        (call.mayWrite t folder).map fun allowed => if allowed then some folder else none
      else some (if call.admin then some folder else none)
    | none => some none

/-- `delete_folder_by_id`. -/
def delete_folder_by_id (id : String) (chats_deletable : Bool) : Option FolderTable :=
  (deletable t call id).bind fun folder =>
    match folder with
    | none => some t
    | some folder =>
      (t.get_folder_ids_by_id_and_user_id_in_subtree call.fuel id folder.user_id).bind fun _ =>
        if chats_deletable ∨ call.admin then
          (t.delete_folder_by_id_and_user_id call.fuel folder.id folder.user_id).map Prod.fst
        else some t

/-- `get_folders`: the parents that are no folders of the user are reset. -/
def get_folders : FolderTable :=
  t.mapRows (fun f =>
    if f.user_id = call.user_id ∧ (f.parent_id.filter (· ≠ "")).any (fun parent_id =>
        (t.get_folder_by_id_and_user_id parent_id call.user_id).isNone) then
      { f with parent_id := none }
    else f) (by
    intro f
    split <;> rfl)

/-- One request. It is missing from the runs if it does not return. -/
def folderStep (t : FolderTable) (call : FolderCall) : Option FolderTable :=
  match call.request with
  | .create_folder id name parent_id => create_folder ilike t call id name parent_id
  | .update_folder_name_by_id id name => update_folder_name_by_id ilike t call id name
  | .update_folder_parent_id_by_id id parent_id =>
    some (update_folder_parent_id_by_id ilike t call id parent_id)
  | .delete_folder_by_id id chats_deletable => delete_folder_by_id t call id chats_deletable
  | .get_folders => some (get_folders t call)

end OpenLaunch.Access
