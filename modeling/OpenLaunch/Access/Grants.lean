import OpenLaunch.Access.Permissions
import OpenLaunch.Principals
import Mathlib.Data.List.Dedup

/-! # Access grants

A row of the table `access_grant` gives one principal one permission on one resource. Whether a user
has access is decided in five places: a query for one resource, a query for many, a filter on the
query that lists them, an evaluator over grants kept in a configuration, and the list of all users
with access. `evaluators_agree` says that they decide alike. -/

namespace OpenLaunch.Access

open Python Python.Json

/-! ## The tables -/

/-- A row of `access_grant`. -/
structure AccessGrant where
  /-- The primary key. -/
  id : String
  /-- The kind of the resource. -/
  resource_type : String
  /-- Its identifier. -/
  resource_id : String
  /-- `"user"` or `"group"`. -/
  principal_type : String
  /-- A user, a group, or `"*"` for everyone. -/
  principal_id : String
  /-- `"read"` or `"write"`. -/
  permission : String
  /-- When the row was made. -/
  created_at : ℤ
  deriving DecidableEq, Repr

/-- A row of `group_member`. -/
structure GroupMember where
  /-- The group. -/
  group_id : String
  /-- The member. -/
  user_id : String
  deriving DecidableEq, Repr

/-- An account, as far as access goes. -/
structure User where
  /-- The identifier. -/
  id : String
  /-- `"pending"`, `"user"` or `"admin"`. -/
  role : String
  deriving DecidableEq, Repr

/-- A row of a table of resources, as far as access goes. -/
structure Document where
  /-- The identifier. -/
  id : String
  /-- The owner. -/
  user_id : Option String
  deriving DecidableEq, Repr

/-- The tables that decide on access. -/
structure Database where
  /-- `access_grant`. -/
  grants : List AccessGrant
  /-- `group`. -/
  groups : List Group
  /-- `group_member`. -/
  members : List GroupMember
  /-- `user`. -/
  users : List User
  /-- The foreign key of `group_member`. -/
  group_exists : ∀ m ∈ members, ∃ g ∈ groups, g.id = m.group_id

theorem group_exists_nil :
    ∀ m ∈ ([] : List GroupMember), ∃ g ∈ ([] : List Group), g.id = m.group_id :=
  List.forall_mem_nil _

/-- `Groups.get_groups_by_member_id`: the join of the groups with the memberships of the user. -/
def get_groups_by_member_id (db : Database) (user_id : String) : List Group :=
  db.groups.flatMap fun g =>
    (db.members.filter fun m => m.group_id = g.id ∧ m.user_id = user_id).map fun _ => g

/-- `Groups.get_group_user_ids_by_id`. -/
def get_group_user_ids_by_id (db : Database) (id : String) : List String :=
  (db.members.filter fun m => m.group_id = id).map GroupMember.user_id

/-- `Users.get_users(filter={'roles': ['!pending']})`. -/
def get_users_not_pending (db : Database) : List User := db.users.filter fun u => u.role ≠ "pending"

/-- `Users.get_users_by_user_ids`. -/
def get_users_by_user_ids (db : Database) (user_ids : List String) : List User :=
  db.users.filter fun u => u.id ∈ user_ids

/-- The group ids a caller passes, or else those of the groups of the user. -/
def groupIds (db : Database) (user_id : String) (user_group_ids : Option (List String)) :
    List String :=
  user_group_ids.getD ((get_groups_by_member_id db user_id).map Group.id)

/-! ## The evaluators -/

/-- `and_(principal_type == 'user', principal_id == '*')`. -/
def isPublic (g : AccessGrant) : Bool := g.principal_type = "user" ∧ g.principal_id = "*"

/-- `and_(principal_type == 'user', principal_id == user_id)`. -/
def isUser (user_id : String) (g : AccessGrant) : Bool :=
  g.principal_type = "user" ∧ g.principal_id = user_id

/-- `and_(principal_type == 'group', principal_id.in_(group_ids))`. -/
def isGroup (group_ids : List String) (g : AccessGrant) : Bool :=
  g.principal_type = "group" ∧ g.principal_id ∈ group_ids

/-- The row is a grant of the permission on the resource. -/
def isFor (resource_type resource_id permission : String) (g : AccessGrant) : Bool :=
  g.resource_type = resource_type ∧ g.resource_id = resource_id ∧ g.permission = permission

/-- `or_(*conditions)`; the condition on groups is left out when there are none. -/
def grantConditions (user_id : String) (user_group_ids : List String) : List (AccessGrant → Bool) :=
  [isPublic, isUser user_id] ++ if user_group_ids ≠ [] then [isGroup user_group_ids] else []

/-- `AccessGrantsTable.has_access`: whether the query finds a row. -/
def AccessGrantsTable.has_access (db : Database)
    (user_id resource_type resource_id permission : String)
    (user_group_ids : Option (List String)) : Bool :=
  (db.grants.find? fun g => isFor resource_type resource_id permission g &&
    (grantConditions user_id (groupIds db user_id user_group_ids)).any (· g)).isSome

/-- `AccessGrantsTable.get_accessible_resource_ids`: the distinct resources of the rows that the
query finds. -/
def AccessGrantsTable.get_accessible_resource_ids (db : Database) (user_id resource_type : String)
    (resource_ids : List String) (permission : String) (user_group_ids : Option (List String)) :
    List String :=
  if resource_ids = [] then []
  else ((db.grants.filter fun g => g.resource_type = resource_type ∧ g.resource_id ∈ resource_ids ∧
    g.permission = permission ∧
    (grantConditions user_id (groupIds db user_id user_group_ids)).any (· g)).map
      AccessGrant.resource_id).dedup

/-- The argument `filter` of `has_permission_filter`. -/
structure Filter where
  /-- `filter.get('group_ids', [])`. -/
  group_ids : List String
  /-- `filter.get('user_id')`. -/
  user_id : Option String

/-- `if user_id`: the user, when there is one with an identifier. -/
def Filter.user? (f : Filter) : Option String := f.user_id.filter (· ≠ "")

/-- The conditions on users and groups, each left out when there is nothing to compare with. -/
def Filter.principals (f : Filter) : List (AccessGrant → Bool) :=
  (f.user?.toList.map isUser) ++ if f.group_ids ≠ [] then [isGroup f.group_ids] else []

/-- `exists()` over the grants of the permission on the row that satisfy one of the conditions. -/
def grantExists (db : Database) (resource_type permission : String) (doc : Document)
    (conditions : List (AccessGrant → Bool)) : Bool :=
  db.grants.any fun g => isFor resource_type doc.id permission g && conditions.any (· g)

/-- `_has_read_only_permission_filter`: whether it keeps a row. An `or_` of nothing restricts
nothing. -/
def AccessGrantsTable._has_read_only_permission_filter (db : Database) (f : Filter)
    (resource_type : String) (doc : Document) : Bool :=
  let principals := if f.principals = [] then [fun _ => true] else f.principals
  grantExists db resource_type "read" doc principals &&
    !grantExists db resource_type "write" doc principals &&
    !grantExists db resource_type "read" doc [isPublic] &&
    f.user?.all fun user_id => doc.user_id.any (· ≠ user_id)

/-- `AccessGrantsTable.has_permission_filter`: whether it keeps a row. Without a user and without
groups the query stays as it is. -/
def AccessGrantsTable.has_permission_filter (db : Database) (f : Filter)
    (resource_type permission : String) (doc : Document) : Bool :=
  if permission = "read_only" then _has_read_only_permission_filter db f resource_type doc
  else if f.group_ids = [] ∧ f.user? = none then true
  else grantExists db resource_type permission doc (isPublic :: f.principals) ||
    f.user?.any fun user_id => doc.user_id = some user_id

/-- The loop of `get_users_with_access` that collects the users and the members of the groups. -/
def collectUserIds (db : Database) : List AccessGrant → List String
  | [] => []
  | g :: grants =>
    (if g.principal_type = "user" then [g.principal_id]
      else if g.principal_type = "group" then get_group_user_ids_by_id db g.principal_id
      else []) ++ collectUserIds db grants

/-- `AccessGrantsTable.get_users_with_access`. -/
def AccessGrantsTable.get_users_with_access (db : Database)
    (resource_type resource_id permission : String) : List User :=
  let grants := db.grants.filter (isFor resource_type resource_id permission)
  if grants.any isPublic then get_users_not_pending db
  else if collectUserIds db grants = [] then []
  else get_users_by_user_ids db (collectUserIds db grants)

/-- Whether an entry of a list of grants gives the permission, in `access_control.has_access`. A
group is looked up in a set, so its identifier has to be hashable. -/
def grantMatches (user_id permission : String) (user_group_ids : List String) :
    Json → Except PyErr Bool
  | .dict grant => do
    let field := fun k => (Assoc.get? grant k).getD .null
    if field "permission" ≠ .str permission then .ok false
    else if field "principal_type" = .str "user" ∧
        (field "principal_id" = .str "*" ∨ field "principal_id" = .str user_id) then .ok true
    else if field "principal_type" = .str "group" ∧ user_group_ids ≠ [] then
      (fun _ => decide (field "principal_id" ∈ user_group_ids.map Json.str)) <$>
        (field "principal_id").key
    else .ok false
  | _ => .ok false

/-- The loop of `access_control.has_access`. -/
def anyGrantMatches (user_id permission : String) (user_group_ids : List String) :
    List Json → Except PyErr Bool
  | [] => .ok false
  | grant :: access_grants => do
    if ← grantMatches user_id permission user_group_ids grant then .ok true
    else anyGrantMatches user_id permission user_group_ids access_grants

/-- `access_control.has_access`, over a list of grants in a configuration. -/
def AccessControl.has_access (db : Database) (user_id permission : String)
    (access_grants : List Json) (user_group_ids : Option (List String)) : Except PyErr Bool :=
  if access_grants = [] then .ok false
  else anyGrantMatches user_id permission (groupIds db user_id user_group_ids) access_grants

/-! ## The rule they implement -/

/-- Whom a row is for; rows of other types are for nobody. -/
def AccessGrant.principal (g : AccessGrant) : Option (Principal String String) :=
  if g.principal_type = "user" then
    some (if g.principal_id = "*" then .everyone else .user g.principal_id)
  else if g.principal_type = "group" then some (.group g.principal_id)
  else none

/-- What the rows say about a resource. -/
def grantsOn (grants : List AccessGrant) (resource_type resource_id : String) :
    Set (Principal String String × String) :=
  {r | ∃ g ∈ grants, isFor resource_type resource_id r.2 g = true ∧ g.principal = some r.1}

/-- The groups a user is a member of. -/
def groupsOf (db : Database) (user_id : String) : Set String :=
  {x | ∃ m ∈ db.members, m.group_id = x ∧ m.user_id = user_id}

/-- A list of the groups of the user, in any order. -/
def ListsGroupsOf (db : Database) (user_id : String) (ids : List String) : Prop :=
  ∀ x, x ∈ ids ↔ x ∈ groupsOf db user_id

/-- A row covers a user when one of the three conditions of the queries holds. -/
theorem covers_iff {db : Database} {user_id : String} {ids : List String}
    (hids : ListsGroupsOf db user_id ids) (g : AccessGrant) :
    (∃ q, g.principal = some q ∧ q.Covers user_id (groupsOf db user_id)) ↔
      isPublic g = true ∨ isUser user_id g = true ∨ isGroup ids g = true := by
  simp only [AccessGrant.principal, isPublic, isUser, isGroup, decide_eq_true_eq,
    hids g.principal_id]
  by_cases huser : g.principal_type = "user"
  · by_cases hpublic : g.principal_id = "*"
    · simp [huser, hpublic, Principal.Covers]
    · simp [huser, hpublic, Principal.Covers]
  · by_cases hgroup : g.principal_type = "group"
    · simp [hgroup, Principal.Covers]
    · simp [huser, hgroup]

/-- **Access by the rows**, as the rule of grants. -/
theorem allows_grantsOn_iff {db : Database} {user_id : String} {ids : List String}
    (hids : ListsGroupsOf db user_id ids) (grants : List AccessGrant)
    (resource_type resource_id permission : String) :
    Allows (grantsOn grants resource_type resource_id) user_id (groupsOf db user_id) permission ↔
      ∃ g ∈ grants, isFor resource_type resource_id permission g = true ∧
        (isPublic g = true ∨ isUser user_id g = true ∨ isGroup ids g = true) := by
  constructor
  · rintro ⟨q, ⟨g, hg, hfor, hq⟩, hcovers⟩
    exact ⟨g, hg, hfor, (covers_iff hids g).mp ⟨q, hq, hcovers⟩⟩
  · rintro ⟨g, hg, hfor, h⟩
    obtain ⟨q, hq, hcovers⟩ := (covers_iff hids g).mpr h
    exact ⟨q, ⟨g, hg, hfor, hq⟩, hcovers⟩

/-- The join finds the groups of the user: a membership is in a group that exists. -/
theorem listsGroupsOf_groupIds {db : Database} {user_id : String}
    {user_group_ids : Option (List String)}
    (h : ∀ ids, user_group_ids = some ids → ListsGroupsOf db user_id ids) :
    ListsGroupsOf db user_id (groupIds db user_id user_group_ids) := by
  cases user_group_ids with
  | some ids => exact h ids rfl
  | none =>
    intro x
    simp only [groupIds, Option.getD_none, get_groups_by_member_id, List.mem_map, List.mem_flatMap,
      List.mem_filter, decide_eq_true_eq, groupsOf, Set.mem_ofPred_eq]
    constructor
    · rintro ⟨g, ⟨g', hg', m, ⟨hm, hgroup, huser⟩, rfl⟩, rfl⟩
      exact ⟨m, hm, hgroup, huser⟩
    · rintro ⟨m, hm, rfl, huser⟩
      obtain ⟨g, hg, hid⟩ := db.group_exists m hm
      exact ⟨g, ⟨g, hg, m, ⟨hm, hid.symm, huser⟩, rfl⟩, hid⟩

theorem any_grantConditions (user_id : String) (ids : List String) (g : AccessGrant) :
    (grantConditions user_id ids).any (· g) = true ↔
      isPublic g = true ∨ isUser user_id g = true ∨ isGroup ids g = true := by
  by_cases hids : ids = []
  · simp [grantConditions, hids, isGroup]
  · simp [grantConditions, hids]

/-- Who is collected from a list of rows. -/
theorem mem_collectUserIds {db : Database} {x : String} {grants : List AccessGrant} :
    x ∈ collectUserIds db grants ↔ ∃ g ∈ grants,
      g.principal_type = "user" ∧ g.principal_id = x ∨
        g.principal_type = "group" ∧ x ∈ get_group_user_ids_by_id db g.principal_id := by
  induction grants with
  | nil => simp [collectUserIds]
  | cons g grants ih =>
    rw [collectUserIds, List.mem_append, ih, List.exists_mem_cons_iff]
    refine or_congr ?_ Iff.rfl
    by_cases huser : g.principal_type = "user"
    · simp [huser, eq_comm]
    · by_cases hgroup : g.principal_type = "group" <;> simp [huser, hgroup]

section Evaluators

variable {db : Database} {user_id resource_type permission : String} {doc : Document}
  {ids resource_ids : List String} {user_group_ids : Option (List String)}

/-- The query for one resource. -/
theorem has_access_iff
    (hgiven : ∀ ids, user_group_ids = some ids → ListsGroupsOf db user_id ids)
    {resource_id : String} :
    AccessGrantsTable.has_access db user_id resource_type resource_id permission user_group_ids =
        true ↔
      Allows (grantsOn db.grants resource_type resource_id) user_id (groupsOf db user_id)
        permission := by
  rw [allows_grantsOn_iff (listsGroupsOf_groupIds hgiven), AccessGrantsTable.has_access,
    List.find?_isSome]
  simp only [Bool.and_eq_true, any_grantConditions]

/-- The query for many resources. -/
theorem mem_get_accessible_resource_ids
    (hgiven : ∀ ids, user_group_ids = some ids → ListsGroupsOf db user_id ids)
    {resource_id : String} (hmem : resource_id ∈ resource_ids) :
    resource_id ∈ AccessGrantsTable.get_accessible_resource_ids db user_id resource_type
        resource_ids permission user_group_ids ↔
      Allows (grantsOn db.grants resource_type resource_id) user_id (groupsOf db user_id)
        permission := by
  rw [allows_grantsOn_iff (listsGroupsOf_groupIds hgiven),
    AccessGrantsTable.get_accessible_resource_ids, if_neg (List.ne_nil_of_mem hmem)]
  simp only [List.mem_dedup, List.mem_map, List.mem_filter, decide_eq_true_eq, any_grantConditions,
    isFor]
  constructor
  · rintro ⟨g, ⟨hg, htype, -, hpermission, h⟩, rfl⟩
    exact ⟨g, hg, ⟨htype, rfl, hpermission⟩, h⟩
  · rintro ⟨g, hg, ⟨htype, rfl, hpermission⟩, h⟩
    exact ⟨g, ⟨hg, htype, hmem, hpermission, h⟩, rfl⟩

/-- The filter, for a user that does not own the row. -/
theorem has_permission_filter_iff (hpermission : permission ≠ "read_only") (huser : user_id ≠ "")
    (howner : doc.user_id ≠ some user_id) (hids : ListsGroupsOf db user_id ids) :
    AccessGrantsTable.has_permission_filter db ⟨ids, some user_id⟩ resource_type permission doc =
        true ↔
      Allows (grantsOn db.grants resource_type doc.id) user_id (groupsOf db user_id)
        permission := by
  rw [allows_grantsOn_iff hids, AccessGrantsTable.has_permission_filter, if_neg hpermission]
  by_cases hnil : ids = [] <;>
    simp [Filter.user?, Filter.principals, huser, howner, hnil, grantExists, isGroup]

/-- The list of users, for a user with an account that is not pending. -/
theorem mem_get_users_with_access {u : User} (hu : u ∈ db.users) (hrole : u.role ≠ "pending")
    {resource_id : String} :
    u ∈ AccessGrantsTable.get_users_with_access db resource_type resource_id permission ↔
      Allows (grantsOn db.grants resource_type resource_id) u.id (groupsOf db u.id) permission := by
  have hids : ListsGroupsOf db u.id (groupIds db u.id none) :=
    listsGroupsOf_groupIds fun _ h => nomatch h
  rw [allows_grantsOn_iff hids]
  simp only [AccessGrantsTable.get_users_with_access]
  by_cases hpublic : ∃ g ∈ db.grants, isFor resource_type resource_id permission g = true ∧
      isPublic g = true
  · have hany : (db.grants.filter (isFor resource_type resource_id permission)).any isPublic =
        true := by
      simpa [and_assoc] using hpublic
    rw [if_pos hany]
    obtain ⟨g, hg, hfor, h⟩ := hpublic
    have hin : u ∈ get_users_not_pending db := by simp [get_users_not_pending, hu, hrole]
    exact ⟨fun _ => ⟨g, hg, hfor, .inl h⟩, fun _ => hin⟩
  · have hany : (db.grants.filter (isFor resource_type resource_id permission)).any isPublic ≠
        true := by
      simpa [and_assoc] using hpublic
    rw [if_neg hany]
    -- Without a public grant the users are those of the user grants and of the groups.
    have hcollect : u.id ∈ collectUserIds db
          (db.grants.filter (isFor resource_type resource_id permission)) ↔
        ∃ g ∈ db.grants, isFor resource_type resource_id permission g = true ∧
          (isPublic g = true ∨ isUser u.id g = true ∨
            isGroup (groupIds db u.id none) g = true) := by
      rw [mem_collectUserIds]
      simp only [List.mem_filter, and_assoc]
      refine exists_congr fun g => and_congr_right fun hg => and_congr_right fun hfor => ?_
      rw [or_iff_right fun h => hpublic ⟨g, hg, hfor, h⟩]
      simp only [isUser, isGroup, decide_eq_true_eq, hids g.principal_id]
      refine or_congr Iff.rfl (and_congr_right fun _ => ?_)
      simp [get_group_user_ids_by_id, groupsOf, and_assoc]
    rw [← hcollect]
    by_cases hnil : collectUserIds db
        (db.grants.filter (isFor resource_type resource_id permission)) = []
    · simp [hnil]
    · simp [hnil, get_users_by_user_ids, hu]

/-- What the evaluator over a configuration sees of an entry. -/
theorem grantMatches_dict {grant : List (String × Json)} {principal_type principal_id p : String}
    (htype : Assoc.get? grant "principal_type" = some (.str principal_type))
    (hid : Assoc.get? grant "principal_id" = some (.str principal_id))
    (hp : Assoc.get? grant "permission" = some (.str p)) :
    grantMatches user_id permission ids (.dict grant) =
      .ok (decide (p = permission ∧
        (principal_type = "user" ∧ (principal_id = "*" ∨ principal_id = user_id) ∨
          principal_type = "group" ∧ principal_id ∈ ids))) := by
  simp only [grantMatches, hid, htype, hp, Option.getD_some, Json.str.injEq, key_str]
  by_cases hpermission : p = permission
  · by_cases huser : principal_type = "user"
    · by_cases h : principal_id = "*" ∨ principal_id = user_id <;> simp [hpermission, huser, h]
    · by_cases hids : ids = []
      · simp [hpermission, huser, hids]
      · by_cases hgroup : principal_type = "group" <;>
          simp [hpermission, hgroup, huser, hids, Functor.map, Except.map]
  · simp [hpermission]

/-- The evaluator over a configuration whose entries are the values of a list. -/
theorem has_access_map {α : Type} {json : α → Json} {covers : α → Bool} {grants : List α}
    (h : ∀ g ∈ grants,
      grantMatches user_id permission (groupIds db user_id user_group_ids) (json g) =
        .ok (covers g)) :
    AccessControl.has_access db user_id permission (grants.map json) user_group_ids =
      .ok (grants.any covers) := by
  have hloop : AccessControl.has_access db user_id permission (grants.map json) user_group_ids =
      anyGrantMatches user_id permission (groupIds db user_id user_group_ids)
        (grants.map json) := by
    rw [AccessControl.has_access]
    split
    · rename_i hnil
      rw [hnil, anyGrantMatches]
    · rfl
  rw [hloop]
  clear hloop
  induction grants with
  | nil => rfl
  | cons g grants ih =>
    rw [List.forall_mem_cons] at h
    rw [List.map_cons, anyGrantMatches, h.1, ih h.2, List.any_cons]
    cases covers g <;> rfl

/-- A row as an entry of a list of grants in a configuration. -/
def AccessGrant.entry (g : AccessGrant) : Json :=
  .dict [("id", .str g.id), ("principal_type", .str g.principal_type),
    ("principal_id", .str g.principal_id), ("permission", .str g.permission)]

/-- The grants on a resource, as a configuration has them. -/
def configuredGrants (db : Database) (resource_type resource_id : String) : List Json :=
  (db.grants.filter fun g => g.resource_type = resource_type ∧ g.resource_id = resource_id).map
    AccessGrant.entry

/-- The evaluator over a configuration. -/
theorem has_access_configured
    (hgiven : ∀ ids, user_group_ids = some ids → ListsGroupsOf db user_id ids)
    {resource_id : String} :
    AccessControl.has_access db user_id permission (configuredGrants db resource_type resource_id)
        user_group_ids =
      .ok (AccessGrantsTable.has_access db user_id resource_type resource_id permission
        user_group_ids) := by
  have hentry : ∀ g : AccessGrant,
      grantMatches user_id permission (groupIds db user_id user_group_ids) g.entry =
        .ok (decide (g.permission = permission ∧
          (g.principal_type = "user" ∧ (g.principal_id = "*" ∨ g.principal_id = user_id) ∨
            g.principal_type = "group" ∧ g.principal_id ∈ groupIds db user_id user_group_ids))) :=
    fun g => grantMatches_dict rfl rfl rfl
  rw [configuredGrants, has_access_map fun g _ => hentry g]
  refine congrArg Except.ok ?_
  rw [Bool.eq_iff_iff, has_access_iff hgiven, allows_grantsOn_iff (listsGroupsOf_groupIds hgiven)]
  simp only [List.any_filter, List.any_eq_true, Bool.and_eq_true, decide_eq_true_eq, isFor,
    isPublic, isUser, isGroup, and_assoc, ← or_assoc, ← and_or_left]

end Evaluators

/-- **The evaluators agree** about a user with an identifier that does not own the resource, for
every permission but `"read_only"`, which the filter takes for something else. -/
theorem evaluators_agree (db : Database) (user_id resource_type permission : String)
    (doc : Document) (ids resource_ids : List String) (user_group_ids : Option (List String))
    (hpermission : permission ≠ "read_only") (huser : user_id ≠ "")
    (howner : doc.user_id ≠ some user_id) (hids : ListsGroupsOf db user_id ids)
    (hgiven : ∀ ids, user_group_ids = some ids → ListsGroupsOf db user_id ids)
    (hmem : doc.id ∈ resource_ids) :
    (doc.id ∈ AccessGrantsTable.get_accessible_resource_ids db user_id resource_type resource_ids
        permission user_group_ids ↔
      AccessGrantsTable.has_access db user_id resource_type doc.id permission user_group_ids =
        true) ∧
    AccessGrantsTable.has_permission_filter db ⟨ids, some user_id⟩ resource_type permission doc =
      AccessGrantsTable.has_access db user_id resource_type doc.id permission user_group_ids ∧
    AccessControl.has_access db user_id permission (configuredGrants db resource_type doc.id)
        user_group_ids =
      .ok (AccessGrantsTable.has_access db user_id resource_type doc.id permission
        user_group_ids) ∧
    ∀ u ∈ db.users, u.id = user_id → u.role ≠ "pending" →
      (u ∈ AccessGrantsTable.get_users_with_access db resource_type doc.id permission ↔
        AccessGrantsTable.has_access db user_id resource_type doc.id permission user_group_ids =
          true) := by
  refine ⟨?_, ?_, has_access_configured hgiven, ?_⟩
  · rw [mem_get_accessible_resource_ids hgiven hmem, has_access_iff hgiven]
  · rw [Bool.eq_iff_iff, has_permission_filter_iff hpermission huser howner hids,
      has_access_iff hgiven]
  · rintro u hu rfl hrole
    rw [mem_get_users_with_access hu hrole, has_access_iff hgiven]

/-- Two notes: a group may write the first one, and a user may read the second one. -/
def noteDatabase : Database where
  grants := [⟨"1", "note", "n", "group", "g", "write", 0⟩,
    ⟨"2", "note", "m", "user", "u", "read", 0⟩]
  groups := [⟨"g", none⟩]
  members := [⟨"g", "u"⟩]
  users := [⟨"u", "user"⟩]
  group_exists := by simp

/-- **Where the filter differs**: `"read_only"` is no permission for it, and a user without an
identifier and without groups is no user for it. -/
theorem filter_differs :
    (AccessGrantsTable.has_access noteDatabase "u" "note" "m" "read_only" none = false ∧
      AccessGrantsTable.has_permission_filter noteDatabase ⟨["g"], some "u"⟩ "note" "read_only"
        ⟨"m", some "o"⟩ = true) ∧
    AccessGrantsTable.has_access noteDatabase "" "note" "m" "read" none = false ∧
      AccessGrantsTable.has_permission_filter noteDatabase ⟨[], some ""⟩ "note" "read"
        ⟨"m", some "o"⟩ = true := by
  decide

/-- A member of a group with a grant. -/
theorem evaluators_agree_note :
    "n" ∈ AccessGrantsTable.get_accessible_resource_ids noteDatabase "u" "note" ["n"] "write" none ↔
      AccessGrantsTable.has_access noteDatabase "u" "note" "n" "write" none = true :=
  (evaluators_agree noteDatabase "u" "note" "write" ⟨"n", some "o"⟩ ["g"] ["n"] none (by decide)
    (by decide) (by decide) (by
      intro x
      simp [groupsOf, noteDatabase, eq_comm]) (fun _ h => nomatch h) (by decide)).1

end OpenLaunch.Access

/-! ## The view of what one may only read

The filter `read_only` keeps what a user may read and not write. It is built from conditions on
rows of its own: a grant to the user or to a group, no such grant to write, and no grant to
everyone, for public items do not count as read-only. -/

namespace OpenLaunch.Access

open Python Python.Json

section ReadOnly

variable {db : Database} {user_id resource_type permission : String} {doc : Document}
  {ids : List String}

/-- There is a grant of the permission to everyone. -/
def PublicGrant (db : Database) (resource_type resource_id permission : String) : Prop :=
  ∃ g ∈ db.grants, isFor resource_type resource_id permission g = true ∧ isPublic g = true

/-- A user with an identifier is one of the principals of the filter. -/
theorem any_principals (huser : user_id ≠ "") (g : AccessGrant) :
    (Filter.principals ⟨ids, some user_id⟩).any (· g) = true ↔
      isUser user_id g = true ∨ isGroup ids g = true := by
  by_cases hnil : ids = []
  · simp [Filter.principals, Filter.user?, huser, hnil, isGroup]
  · simp [Filter.principals, Filter.user?, huser, hnil]

/-- The grants that the filter looks at: all but those to everyone. -/
theorem grantExists_principals_iff (huser : user_id ≠ "") (hids : ListsGroupsOf db user_id ids)
    (hpublic : ¬ PublicGrant db resource_type doc.id permission) :
    grantExists db resource_type permission doc (Filter.principals ⟨ids, some user_id⟩) = true ↔
      Allows (grantsOn db.grants resource_type doc.id) user_id (groupsOf db user_id)
        permission := by
  rw [allows_grantsOn_iff hids, grantExists, List.any_eq_true]
  simp only [Bool.and_eq_true, any_principals huser]
  refine exists_congr fun g => and_congr_right fun hg => and_congr_right fun hfor => ?_
  rw [or_iff_right fun h : isPublic g = true => hpublic ⟨g, hg, hfor, h⟩]

theorem grantExists_public_iff :
    grantExists db resource_type permission doc [isPublic] = true ↔
      PublicGrant db resource_type doc.id permission := by
  simp [grantExists, PublicGrant]

end ReadOnly

/-- **The read-only view**, for a user with an identifier and a document with an owner that is not
writable for everyone: what is not public, not the user's own, and may be read but not written. -/
theorem read_only_iff (db : Database) (user_id resource_type : String) (doc : Document)
    (owner : String) (ids : List String) (user_group_ids : Option (List String))
    (huser : user_id ≠ "") (howner : doc.user_id = some owner)
    (hids : ListsGroupsOf db user_id ids)
    (hgiven : ∀ ids, user_group_ids = some ids → ListsGroupsOf db user_id ids)
    (hwrite : ¬ PublicGrant db resource_type doc.id "write") :
    AccessGrantsTable._has_read_only_permission_filter db ⟨ids, some user_id⟩ resource_type doc =
        true ↔
      ¬ PublicGrant db resource_type doc.id "read" ∧ owner ≠ user_id ∧
        AccessGrantsTable.has_access db user_id resource_type doc.id "read" user_group_ids = true ∧
        AccessGrantsTable.has_access db user_id resource_type doc.id "write" user_group_ids =
          false := by
  have hne : Filter.principals ⟨ids, some user_id⟩ ≠ [] := by
    simp [Filter.principals, Filter.user?, huser]
  have huser? : (Filter.mk ids (some user_id)).user? = some user_id := by
    simp [Filter.user?, huser]
  rw [AccessGrantsTable._has_read_only_permission_filter, if_neg hne, huser?, howner]
  simp only [Bool.and_eq_true, Bool.not_eq_true', Option.all_some, Option.any_some,
    decide_eq_true_eq]
  by_cases hpublic : PublicGrant db resource_type doc.id "read"
  · have hexists := grantExists_public_iff.mpr hpublic
    constructor
    · rintro ⟨⟨-, hno⟩, -⟩
      rw [hexists] at hno
      cases hno
    · rintro ⟨hno, -⟩
      exact absurd hpublic hno
  · have hexists : grantExists db resource_type "read" doc [isPublic] = false :=
      Bool.eq_false_iff.mpr fun h => hpublic (grantExists_public_iff.mp h)
    rw [grantExists_principals_iff huser hids hpublic, ← has_access_iff hgiven,
      ← Bool.not_eq_true, grantExists_principals_iff huser hids hwrite, ← has_access_iff hgiven]
    simp only [hexists, hpublic, not_false_eq_true, and_true, true_and, Bool.not_eq_true]
    tauto

/-- One note that everyone may read, one that everyone may write and a user may read. -/
def publicNotes : Database where
  grants := [⟨"1", "note", "n", "user", "*", "read", 0⟩,
    ⟨"2", "note", "m", "user", "*", "write", 0⟩, ⟨"3", "note", "m", "user", "u", "read", 0⟩,
    ⟨"4", "note", "k", "user", "u", "read", 0⟩]
  groups := []
  members := []
  users := []
  group_exists := by simp

/-- **Public items**: what everyone may read is left out; a grant to everyone to write is not
seen. -/
theorem read_only_public :
    (AccessGrantsTable.has_access publicNotes "u" "note" "n" "read" none = true ∧
      AccessGrantsTable.has_access publicNotes "u" "note" "n" "write" none = false ∧
      AccessGrantsTable._has_read_only_permission_filter publicNotes ⟨[], some "u"⟩ "note"
        ⟨"n", some "o"⟩ = false) ∧
    AccessGrantsTable.has_access publicNotes "u" "note" "m" "write" none = true ∧
      AccessGrantsTable._has_read_only_permission_filter publicNotes ⟨[], some "u"⟩ "note"
        ⟨"m", some "o"⟩ = true := by
  decide

/-- A note that a user may read and not write. -/
theorem read_only_note :
    AccessGrantsTable._has_read_only_permission_filter publicNotes ⟨[], some "u"⟩ "note"
      ⟨"k", some "o"⟩ = true := by
  have hids : ListsGroupsOf publicNotes "u" [] := by
    intro x
    simp [groupsOf, publicNotes]
  refine (read_only_iff publicNotes "u" "note" ⟨"k", some "o"⟩ "o" [] none (by decide) rfl hids
    (fun _ h => nomatch h) (by simp [PublicGrant, publicNotes, isFor, isPublic])).mpr ?_
  exact ⟨by simp [PublicGrant, publicNotes, isFor, isPublic], by decide, by decide, by decide⟩

end OpenLaunch.Access
