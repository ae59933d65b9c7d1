import OpenLaunch.Http
import OpenLaunch.Python.Effect
import OpenLaunch.Python.Items
import OpenLaunch.Python.Sorted
import Mathlib.Data.List.SplitOn

/-! # Patching groups over SCIM

The route that applies a list of operations to a group. Every operation on the members is committed
on its own, the name is written after the last one, and the ids of members that have been added and
removed are gathered for the events. -/

namespace OpenLaunch.Groups

open Python

/-- How the database stores a value in a column. `none` is a value that the driver or a constraint
rejects. -/
structure Columns where
  /-- A group's name. -/
  text : Json → Option String
  /-- The user of a member. -/
  user_id : Json → Option String
  text_str : ∀ s, text (.str s) = some s
  user_id_str : ∀ s t, user_id (.str s) = some t → t = s

/-- A row of `group`, with the users of its rows of `group_member`. A user has one at most. -/
@[ext] structure Group where
  name : String
  description : String
  user_ids : List String
  nodup : user_ids.Nodup
  deriving DecidableEq

/-- `GroupUpdateForm`, without what it has by default. -/
structure GroupUpdateForm where
  name : Json
  description : String

/-- `SCIMPatchOperation`. -/
structure SCIMPatchOperation where
  op : String
  path : Option String
  value : Json

/-- An event of the route, with its data. -/
inductive Event
  | updated (operation_count : ℕ)
  | member_added (member_ids : List Json) (count : ℕ)
  | member_removed (member_ids : List Json) (count : ℕ)
  deriving DecidableEq

/-- The group, if there is one with the id, and the events that have been published. -/
structure Store where
  group : Option Group
  events : List Event
  deriving DecidableEq

section

variable (c : Columns) (numbers : List Json → List Json)

/-! ## The table of groups -/

namespace Group

/-- A row is added to `group_member`. -/
def insert (user_id : Json) (g : Group) : Option Group :=
  match c.user_id user_id with
  | none => none
  | some u =>
    if h : u ∈ g.user_ids then none
    else some
      { g with
        user_ids := g.user_ids ++ [u]
        nodup := List.nodup_append.mpr
          ⟨g.nodup, List.nodup_singleton u, fun _ hx _ hy hxy =>
            h (List.mem_singleton.mp hy ▸ hxy ▸ hx)⟩ }

/-- `set_group_user_ids_by_id`. -/
def set_group_user_ids_by_id (user_ids : List Json) (g : Group) : Except PyErr Group :=
  match user_ids.mapM c.user_id with
  | none => .error .upstream
  | some ids =>
    if h : ids.Nodup then .ok { g with user_ids := ids, nodup := h } else .error .upstream

/-- `add_users_to_group`. A row that is rejected takes back those that have been added before. -/
def add_users_to_group (user_ids : List Json) (g : Group) : Group :=
  user_ids.foldl (fun session user_id => (session.insert c user_id).getD g) g

/-- `remove_users_from_group`. -/
def remove_users_from_group (user_ids : List String) (g : Group) : Group :=
  { g with
    user_ids := g.user_ids.filter (· ∉ user_ids)
    nodup := g.nodup.filter _ }

/-- `update_group_by_id`, which leaves out what is `None`. -/
def update_group_by_id (form_data : GroupUpdateForm) (g : Group) : Option Group :=
  if form_data.name = .null then some { g with description := form_data.description }
  else (c.text form_data.name).map fun name =>
    { g with name := name, description := form_data.description }

end Group

/-! ## The route -/

/-- What the route keeps between two operations. -/
structure Locals where
  /-- `update_form.name`. -/
  name : Json
  added_member_ids : List Json
  removed_member_ids : List Json

/-- The ids of the members that are dictionaries with one. -/
def memberIds : Json → List Json
  | .list members => members.filterMap fun
    | .dict kvs => Assoc.get? kvs "value"
    | _ => none
  | _ => []

/-- The id in the path of an operation that removes a member: `path.split('"')[1]`. -/
def quoted (path : String) : Except PyErr String :=
  match (path.toList.splitOn '"')[1]? with
  | some member_id => .ok (String.ofList member_id)
  | none => .error .indexError

/-- Replace all members. -/
def replaceMembers (value : Json) (l : Locals) : Py Group Locals := do
  let group ← Py.state
  let members ← Py.lift value.iter
  let new_member_ids ← Py.lift (members.mapM fun member => member.item "value")
  let group' ← Py.lift (group.set_group_user_ids_by_id c new_member_ids)
  Py.update fun _ => group'
  let added ← Py.lift
    (Json.sortedSet numbers (new_member_ids.filter fun id => ∀ u ∈ id.str?, u ∉ group.user_ids))
  let removed := (sortTexts (group.user_ids.filter fun u => .str u ∉ new_member_ids)).map Json.str
  pure { l with
    added_member_ids := l.added_member_ids ++ added
    removed_member_ids := l.removed_member_ids ++ removed }

/-- Add members. -/
def addMembers (value : Json) (l : Locals) : Py Group Locals := do
  Py.update fun group => (memberIds value).foldl (fun g id => g.add_users_to_group c [id]) group
  pure { l with added_member_ids := l.added_member_ids ++ memberIds value }

/-- Remove specific member. -/
def removeMember (path : String) (l : Locals) : Py Group Locals := do
  let member_id ← Py.lift (quoted path)
  Py.update fun group => group.remove_users_from_group [member_id]
  pure { l with removed_member_ids := l.removed_member_ids ++ [.str member_id] }

/-- The body of the loop over the operations. No letter but those of ASCII becomes one of the
letters of the three names in lower case. -/
def SCIMPatchOperation.apply (operation : SCIMPatchOperation) (l : Locals) : Py Group Locals :=
  if operation.op.toLower = "replace" then
    if operation.path = some "displayName" then pure { l with name := operation.value }
    else if operation.path = some "members" then replaceMembers c numbers operation.value l
    else pure l
  else if operation.op.toLower = "add" then
    if operation.path = some "members" then addMembers c operation.value l
    else pure l
  else if operation.op.toLower = "remove" then
    match operation.path with
    | some path =>
      if "members[value eq".toList <+: path.toList then removeMember path l else pure l
    | none => pure l
  else pure l

/-- An event with the ids of members, if there are any. -/
def publishMembers (event : List Json → ℕ → Event) (ids : List Json) : Py Store Unit :=
  if ids = [] then pure ()
  else do
    let member_ids ← Py.lift (Json.sortedSet numbers ids)
    Py.update fun st => { st with events := st.events ++ [event member_ids member_ids.length] }

/-- The events of the route. -/
def publish (operation_count : ℕ) (l : Locals) : Py Store Unit := do
  Py.update fun st => { st with events := st.events ++ [.updated operation_count] }
  publishMembers numbers .member_added l.added_member_ids
  publishMembers numbers .member_removed l.removed_member_ids

/-- `patch_group`, without the response. -/
def patch_group (group_id : String) (operations : List SCIMPatchOperation) (st : Store) :
    Except HTTPException Unit × Store :=
  match st.group with
  | none => (.error ⟨404, "Group " ++ group_id ++ " not found"⟩, st)
  | some group =>
    match operations.foldlM (fun l operation => operation.apply c numbers l)
      ⟨.str group.name, [], []⟩ group with
    | (.error _, group') => (.error serverError, { st with group := some group' })
    | (.ok l, group') =>
      match group'.update_group_by_id c ⟨l.name, group.description⟩ with
      | none => (.error ⟨500, "Failed to update group"⟩, { st with group := some group' })
      | some updated_group =>
        match publish numbers operations.length l { st with group := some updated_group } with
        | (.error _, st') => (.error serverError, st')
        | (.ok _, st') => (.ok (), st')

end

end OpenLaunch.Groups
