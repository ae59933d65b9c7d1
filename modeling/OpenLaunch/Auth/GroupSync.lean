import OpenLaunch.Auth.GroupClaims
import OpenLaunch.Python.Effect
import Mathlib.Data.List.Sort

/-! # Synchronising groups with an identity provider

At each login, `update_user_groups` makes the user a member of the groups that a claim of the
provider's data names, and of no other groups, apart from blocked ones. Groups that are missing may
be created. The three loops, which create, remove and add, run over lists that are read at different
times. -/

namespace OpenLaunch.Auth

open Python

/-! ## The tables -/

/-- A row of `group`, without its id. -/
structure GroupModel where
  user_id : String
  name : String
  description : String
  data : Option Json
  permissions : Option Json
  created_at : ℕ
  updated_at : ℕ
  deriving DecidableEq

/-- `group.updated_at = now`. -/
def GroupModel.touch (now : ℕ) (g : GroupModel) : GroupModel := { g with updated_at := now }

/-- The values of a form and the time are set; permissions that are `None` are left out. -/
def GroupModel.fill (now : ℕ) (name description : String) (permissions : Option Json)
    (g : GroupModel) : GroupModel :=
  { g with
    name := name
    description := description
    permissions := permissions.or g.permissions
    updated_at := now }

/-- The tables `group` and `group_member`, with the constraints on members: a row for a group and a
user is there once, and only for a group that is there. -/
structure Tables where
  group : Dict String GroupModel
  group_member : List (String × String)
  unique : group_member.Nodup
  foreign : ∀ m ∈ group_member, m.1 ∈ group

/-- `uuid.uuid4()`: an id that is not used yet. -/
structure IdSource where
  uuid4 : Tables → String
  fresh : ∀ t, uuid4 t ∉ t.group

namespace Tables

/-- `order_by(Group.updated_at.desc())`. -/
def ordered (es : List (String × GroupModel)) : List (String × GroupModel) :=
  es.insertionSort fun a b => b.2.updated_at ≤ a.2.updated_at

/-- `get_all_groups`. -/
def get_all_groups (t : Tables) : List (String × GroupModel) := ordered t.group.entries

/-- `get_groups_by_member_id`. -/
def get_groups_by_member_id (user_id : String) (t : Tables) : List (String × GroupModel) :=
  ordered (t.group.entries.filter fun e => (e.1, user_id) ∈ t.group_member)

/-- The row of a group is changed. -/
def modifyGroup (id : String) (f : GroupModel → GroupModel) (t : Tables) : Tables :=
  { t with
    group := t.group.modify id f
    foreign := fun m hm => by
      have hkeys : (t.group.modify id f).keys = t.group.keys := by
        simp [Dict.keys, Dict.modify, Assoc.keys]
      show m.1 ∈ (t.group.modify id f).keys
      rw [hkeys]
      exact t.foreign m hm }

/-- A row is added to `group_member`, unless a constraint is violated. -/
def insertMember (id user_id : String) (t : Tables) : Option Tables :=
  if h : id ∈ t.group ∧ (id, user_id) ∉ t.group_member then some
    { t with
      group_member := t.group_member ++ [(id, user_id)]
      unique := List.nodup_append.mpr ⟨t.unique, List.nodup_singleton _, fun _ hx _ hy hxy =>
        h.2 (List.mem_singleton.mp hy ▸ hxy ▸ hx)⟩
      foreign := fun m hm => by
        rcases List.mem_append.mp hm with hm | hm
        · exact t.foreign m hm
        · rw [List.mem_singleton.mp hm]
          exact h.1 }
  else none

/-- `add_users_to_group`. A row that is rejected takes back those that have been added before. -/
def add_users_to_group (now : ℕ) (id : String) (user_ids : List String) (t : Tables) : Tables :=
  match t.group.get? id with
  | none => t
  | some _ =>
    (user_ids.foldl (fun session user_id => (session.insertMember id user_id).getD t) t).modifyGroup
      id (GroupModel.touch now)

/-- `remove_users_from_group`. -/
def remove_users_from_group (now : ℕ) (id : String) (user_ids : List String) (t : Tables) :
    Tables :=
  match t.group.get? id with
  | none => t
  | some _ =>
    if user_ids = [] then t
    else
      ({ t with
        group_member := t.group_member.filter fun m => ¬ (m.1 = id ∧ m.2 ∈ user_ids)
        unique := t.unique.filter _
        foreign := fun m hm => t.foreign m (List.mem_of_mem_filter hm) } : Tables).modifyGroup
        id (GroupModel.touch now)

/-- `update_group_by_id`, with a form that has no `data`. -/
def update_group_by_id (now : ℕ) (id name description : String) (permissions : Option Json)
    (t : Tables) : Tables :=
  t.modifyGroup id (GroupModel.fill now name description permissions)

/-- `insert_new_group`. -/
def insert_new_group (now : ℕ) (ids : IdSource) (user_id name description : String)
    (permissions : Option Json) (data : Json) (t : Tables) : Tables :=
  { t with
    group := t.group.set (ids.uuid4 t)
      ⟨user_id, name, description, some data, permissions, now, now⟩
    foreign := fun m hm => Dict.mem_set.mpr (.inr (t.foreign m hm)) }

end Tables

/-! ## The code -/

/-- What `update_user_groups` takes from its configuration, its arguments and its surroundings. -/
structure Sync where
  OAUTH_GROUPS_CLAIM : Option String
  OAUTH_GROUPS_SEPARATOR : String
  blocked_groups : List String
  ENABLE_OAUTH_GROUP_CREATION : Bool
  OAUTH_GROUP_DEFAULT_SHARE : Json
  default_permissions : Option Json
  admin_user : Option String
  re_search : String → String → Search
  ids : IdSource
  now : ℕ

namespace Sync

variable (c : Sync) (user_id : String)

/-- `is_in_blocked_groups(group_model.name, blocked_groups)`. -/
def isBlocked (name : String) : Except PyErr Bool :=
  is_in_blocked_groups c.re_search name c.blocked_groups

/-- The permissions of a group, or the default ones if it has none. -/
def group_permissions (g : GroupModel) : Option Json :=
  match g.permissions with
  | none => c.default_permissions
  | some (.dict []) => c.default_permissions
  | some p => some p

/-- The description of a group that is created. -/
def createdDescription (name : String) : String :=
  "Group '" ++ name ++ "' created automatically via OAuth."

/-- A missing group is created, for an admin if there is one. -/
def create (group_name : String) (t : Tables) : Tables :=
  t.insert_new_group c.now c.ids (c.admin_user.getD user_id) group_name
    (createdDescription group_name) c.default_permissions
    (.dict [("config", .dict [("share", c.OAUTH_GROUP_DEFAULT_SHARE)])])

/-- The loop that creates groups, with `all_group_names` and `groups_created`. -/
def createMissing (all_group_names : List String) (groups_created : Bool) :
    List Json → Py Tables Bool
  | [] => pure groups_created
  | .list _ :: _ => Py.lift (.error .typeError)
  | .dict _ :: _ => Py.lift (.error .typeError)
  | .str group_name :: names =>
    if group_name ∈ all_group_names then createMissing all_group_names groups_created names
    else do
      Py.update (c.create user_id group_name)
      createMissing (all_group_names ++ [group_name]) true names
  -- the form of the group does not take another value, which is logged
  | _ :: names => createMissing all_group_names groups_created names

/-- Something is done to a group that is not blocked. -/
def unlessBlocked (act : String × GroupModel → Tables → Tables) (e : String × GroupModel) :
    Py Tables Unit := do
  let blocked ← Py.lift (c.isBlocked e.2.name)
  if blocked then pure () else Py.update (act e)

/-- The user leaves a group. -/
def remove (e : String × GroupModel) (t : Tables) : Tables :=
  (t.remove_users_from_group c.now e.1 [user_id]).update_group_by_id c.now e.1 e.2.name
    e.2.description (c.group_permissions e.2)

/-- The user joins a group. -/
def add (e : String × GroupModel) (t : Tables) : Tables :=
  (t.add_users_to_group c.now e.1 [user_id]).update_group_by_id c.now e.1 e.2.name
    e.2.description (c.group_permissions e.2)

/-- All groups that there are once the missing ones have been created. -/
def availableGroups (user_oauth_groups : List Json) : Py Tables (List (String × GroupModel)) := do
  let t ← Py.state
  if c.ENABLE_OAUTH_GROUP_CREATION then do
    let groups_created ← c.createMissing user_id (t.get_all_groups.map fun e => e.2.name) false
      user_oauth_groups
    let t' ← Py.state
    pure (if groups_created then t'.get_all_groups else t.get_all_groups)
  else pure t.get_all_groups

/-- The loops that remove the user from groups and add it to groups. -/
def leaveAndJoin (user_oauth_groups : List Json)
    (user_current_groups all_available_groups : List (String × GroupModel)) : Py Tables Unit := do
  Py.forEach (fun e =>
    if user_oauth_groups ≠ [] ∧ .str e.2.name ∉ user_oauth_groups then
      c.unlessBlocked (c.remove user_id) e
    else pure ()) user_current_groups
  Py.forEach (fun e =>
    if user_oauth_groups ≠ [] ∧ .str e.2.name ∈ user_oauth_groups ∧
        ¬ ∃ gm ∈ user_current_groups, gm.2.name = e.2.name then
      c.unlessBlocked (c.add user_id) e
    else pure ()) all_available_groups

/-- `update_user_groups`. -/
def update_user_groups (user_data : Json) : Py Tables Unit := do
  let user_oauth_groups ←
    Py.lift (userOauthGroups c.OAUTH_GROUPS_CLAIM c.OAUTH_GROUPS_SEPARATOR user_data)
  let t ← Py.state
  let all_available_groups ← c.availableGroups user_id user_oauth_groups
  c.leaveAndJoin user_id user_oauth_groups (t.get_groups_by_member_id user_id) all_available_groups

end Sync

/-! ## What the tables keep -/

namespace Tables

variable {t t' t'' : Tables} {id name user_id : String} {m : String × String}
  {e : String × GroupModel}

/-- The name of a group. -/
def nameOf (t : Tables) (id : String) : Option String := (t.group.get? id).map GroupModel.name

/-- The same groups with the same names. -/
def SameNames (t t' : Tables) : Prop := ∀ id, t'.nameOf id = t.nameOf id

theorem SameNames.refl (t : Tables) : SameNames t t := fun _ => rfl

theorem SameNames.trans (h : SameNames t t') (h' : SameNames t' t'') : SameNames t t'' :=
  fun id => (h' id).trans (h id)

theorem mem_group_iff : id ∈ t.group ↔ ∃ name, t.nameOf id = some name := by
  rw [Dict.mem_iff_exists]
  constructor
  · rintro ⟨g, hg⟩
    exact ⟨g.name, by rw [nameOf, hg]; rfl⟩
  · rintro ⟨name, hname⟩
    obtain ⟨g, hg, -⟩ := Option.map_eq_some_iff.mp hname
    exact ⟨g, hg⟩

theorem mem_get_all_groups : e ∈ t.get_all_groups ↔ t.group.get? e.1 = some e.2 := by
  rw [get_all_groups, ordered, List.mem_insertionSort]
  exact Dict.mem_entries_iff

theorem mem_get_groups_by_member_id : e ∈ t.get_groups_by_member_id user_id ↔
    t.group.get? e.1 = some e.2 ∧ (e.1, user_id) ∈ t.group_member := by
  rw [get_groups_by_member_id, ordered, List.mem_insertionSort, List.mem_filter, decide_eq_true_eq]
  exact and_congr_left' Dict.mem_entries_iff

/-- A change of a row that keeps the name keeps all names. -/
theorem sameNames_of_modify (id : String) (f : GroupModel → GroupModel)
    (h : t'.group = t.group.modify id f)
    (hf : ∀ g, t.group.get? id = some g → (f g).name = g.name) : SameNames t t' := by
  intro id'
  rw [nameOf, nameOf, h, Dict.get?_modify]
  cases hg : t.group.get? id' with
  | none => rfl
  | some g =>
    by_cases hid : id' = id
    · subst hid
      simp [hf g hg]
    · simp [hid]

theorem sameNames_update_group_by_id {now : ℕ} {description : String} {permissions : Option Json}
    (h : t.nameOf id = some name) :
    SameNames t (t.update_group_by_id now id name description permissions) := by
  refine sameNames_of_modify id (GroupModel.fill now name description permissions) rfl
    fun g hg => ?_
  rw [nameOf, hg, Option.map_some, Option.some.injEq] at h
  exact h.symm

/-- **Who is left** when a user leaves a group. -/
theorem remove_users_from_group_spec {now : ℕ} (h : t.nameOf id = some name) :
    SameNames t (t.remove_users_from_group now id [user_id]) ∧
      ∀ m, m ∈ (t.remove_users_from_group now id [user_id]).group_member ↔
        m ∈ t.group_member ∧ m ≠ (id, user_id) := by
  obtain ⟨g, hg, -⟩ := Option.map_eq_some_iff.mp h
  rw [remove_users_from_group, hg]
  simp only [List.cons_ne_nil, if_false]
  refine ⟨sameNames_of_modify id (GroupModel.touch now) rfl fun _ _ => rfl, fun m => ?_⟩
  show m ∈ t.group_member.filter _ ↔ _
  rw [List.mem_filter, decide_eq_true_eq, List.mem_singleton, Ne, Prod.ext_iff]

/-- **Who is there** when a user joins a group. -/
theorem add_users_to_group_spec {now : ℕ} (h : t.nameOf id = some name) :
    SameNames t (t.add_users_to_group now id [user_id]) ∧
      ∀ m, m ∈ (t.add_users_to_group now id [user_id]).group_member ↔
        m ∈ t.group_member ∨ m = (id, user_id) := by
  have hid : id ∈ t.group := mem_group_iff.mpr ⟨name, h⟩
  obtain ⟨g, hg, -⟩ := Option.map_eq_some_iff.mp h
  rw [add_users_to_group, hg]
  simp only [List.foldl_cons, List.foldl_nil]
  by_cases hmem : (id, user_id) ∈ t.group_member
  · have hnone : t.insertMember id user_id = none := dif_neg fun hboth => hboth.2 hmem
    rw [hnone]
    refine ⟨sameNames_of_modify id (GroupModel.touch now) rfl fun _ _ => rfl,
      fun m => ⟨.inl, ?_⟩⟩
    rintro (hm | rfl)
    · exact hm
    · exact hmem
  · have hsome : t.insertMember id user_id = some _ := dif_pos ⟨hid, hmem⟩
    rw [hsome]
    refine ⟨sameNames_of_modify id (GroupModel.touch now) rfl fun _ _ => rfl, fun m => ?_⟩
    show m ∈ t.group_member ++ [(id, user_id)] ↔ _
    rw [List.mem_append, List.mem_singleton]

end Tables

end OpenLaunch.Auth
