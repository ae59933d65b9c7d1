import OpenLaunch.Access.Grants

/-! # Legacy access control

Before there were grants a resource carried `access_control`: `None`, or an object with the users
and groups that may read and write. Three functions read the old form or write it:
`access_control_to_grants` and `migrate_access_control` turn it into grants, and
`grants_to_access_control` turns grants back. -/

namespace OpenLaunch.Access

open Python Python.Json

/-- One of the two sections of the old form; `none` for a key that is not there. -/
structure PermData where
  /-- `group_ids`. -/
  group_ids : Option (List String)
  /-- `user_ids`. -/
  user_ids : Option (List String)
  deriving DecidableEq, Repr

/-- The old form as an object; `none` for a key that is not there. -/
structure AccessControlDict where
  /-- `read`. -/
  read : Option PermData
  /-- `write`. -/
  write : Option PermData
  deriving DecidableEq, Repr

/-- `access_control.get(permission, {})`. -/
def AccessControlDict.get (ac : AccessControlDict) (permission : String) : PermData :=
  (if permission = "read" then ac.read else if permission = "write" then ac.write else none).getD
    ⟨none, none⟩

/-- `perm_data.get('group_ids', [])`. -/
def PermData.groups (d : PermData) : List String := d.group_ids.getD []

/-- `perm_data.get('user_ids', [])`. -/
def PermData.users (d : PermData) : List String := d.user_ids.getD []

/-- A **legacy value that is an object**: the users it lists are users, not the wildcard. -/
structure LegacyAccess extends AccessControlDict where
  /-- `"*"` is no user. -/
  users_ne : ∀ permission, "*" ∉ (toAccessControlDict.get permission).users

/-- A grant, as far as the principal and the permission go. -/
structure Grant where
  /-- `"user"` or `"group"`. -/
  principal_type : String
  /-- A user, a group, or `"*"`. -/
  principal_id : String
  /-- `"read"` or `"write"`. -/
  permission : String
  deriving DecidableEq, Repr

/-- A grant on a resource. -/
structure ResourceGrant extends Grant where
  /-- The kind of the resource. -/
  resource_type : String
  /-- Its identifier. -/
  resource_id : String
  deriving DecidableEq, Repr

/-- The dictionary of a grant. -/
def Grant.json (g : Grant) : Json :=
  .dict [("principal_type", .str g.principal_type), ("principal_id", .str g.principal_id),
    ("permission", .str g.permission)]

/-- The dictionary of a grant on a resource. -/
def ResourceGrant.json (g : ResourceGrant) : Json :=
  .dict [("resource_type", .str g.resource_type), ("resource_id", .str g.resource_id),
    ("principal_type", .str g.principal_type), ("principal_id", .str g.principal_id),
    ("permission", .str g.permission)]

/-! ## The three functions -/

/-- The grants of one section: first the groups, then the users. An empty section has none. -/
def sectionGrants (ac : AccessControlDict) (permission : String) : List Grant :=
  (ac.get permission).groups.map (fun group_id => ⟨"group", group_id, permission⟩) ++
    (ac.get permission).users.map fun user_id => ⟨"user", user_id, permission⟩

/-- `for permission in ['read', 'write']`. -/
def dictGrants (ac : AccessControlDict) : List Grant :=
  sectionGrants ac "read" ++ sectionGrants ac "write"

/-- `access_control_to_grants`. -/
def access_control_to_grants (resource_type resource_id : String) :
    Option AccessControlDict → List ResourceGrant
  | none =>
    -- Exception: files with NULL are private.
    if resource_type ≠ "file" then [⟨⟨"user", "*", "read"⟩, resource_type, resource_id⟩] else []
  | some ac => (dictGrants ac).map fun g => ⟨g, resource_type, resource_id⟩

/-- `if x not in xs: xs.append(x)`. -/
def appendNew (xs : List String) (x : String) : List String := if x ∈ xs then xs else xs ++ [x]

/-- The lists that `grants_to_access_control` fills. -/
structure Lists where
  /-- `result['read']['group_ids']`. -/
  read_groups : List String
  /-- `result['read']['user_ids']`. -/
  read_users : List String
  /-- `result['write']['group_ids']`. -/
  write_groups : List String
  /-- `result['write']['user_ids']`. -/
  write_users : List String
  deriving DecidableEq, Repr

/-- `result`. -/
def Lists.result (l : Lists) : AccessControlDict :=
  ⟨some ⟨some l.read_groups, some l.read_users⟩, some ⟨some l.write_groups, some l.write_users⟩⟩

/-- The part of a round of the loop that adds a grant to the lists. -/
def Lists.add (l : Lists) (g : Grant) : Lists :=
  if g.permission = "read" then
    if g.principal_type = "group" then
      { l with read_groups := appendNew l.read_groups g.principal_id }
    else if g.principal_type = "user" then
      { l with read_users := appendNew l.read_users g.principal_id }
    else l
  else if g.permission = "write" then
    if g.principal_type = "group" then
      { l with write_groups := appendNew l.write_groups g.principal_id }
    else if g.principal_type = "user" then
      { l with write_users := appendNew l.write_users g.principal_id }
    else l
  else l

/-- The wildcard that makes a resource public. -/
def Grant.isPublicRead (g : Grant) : Bool :=
  g.principal_type = "user" ∧ g.principal_id = "*" ∧ g.permission = "read"

/-- The loop of `grants_to_access_control`: the lists, and whether the wildcard was there. -/
def collectLists (is_public : Bool) (l : Lists) : List Grant → Bool × Lists
  | [] => (is_public, l)
  | g :: grants =>
    if g.isPublicRead then collectLists true l grants else collectLists is_public (l.add g) grants

/-- `grants_to_access_control`. -/
def grants_to_access_control (grants : List Grant) : Option AccessControlDict :=
  if grants = [] then some ⟨none, none⟩
  else if (collectLists false ⟨[], [], [], []⟩ grants).1 then none
  else some (collectLists false ⟨[], [], [], []⟩ grants).2.result

/-- The two keys of a configuration that `migrate_access_control` looks at. -/
structure ConfigData where
  /-- `data[ac_key]`, which may be there as `None`. -/
  access_control : Option (Option AccessControlDict)
  /-- `data[grants_key]`. -/
  access_grants : Option (List Grant)
  deriving DecidableEq, Repr

/-- `migrate_access_control`, which changes `data` in place. -/
def migrate_access_control (data : ConfigData) : ConfigData :=
  if data.access_grants.isSome then data
  else
    match data.access_control with
    | none => data
    | some access_control => ⟨none, some ((access_control.map dictGrants).getD [])⟩

/-! ## The legacy rule -/

/-- **What a legacy value allows**: `None` lets everyone read, but not a file, and an object lets
the users and the members of the groups it lists. -/
def legacyAllows (resource_type : String) (access_control : Option AccessControlDict)
    (user_id : String) (groups : Set String) (permission : String) : Prop :=
  match access_control with
  | none => resource_type ≠ "file" ∧ permission = "read"
  | some ac => user_id ∈ (ac.get permission).users ∨ ∃ g ∈ groups, g ∈ (ac.get permission).groups

/-- Whom a grant is for. -/
def Grant.Covers (user_id : String) (groups : Set String) (g : Grant) : Prop :=
  g.principal_type = "user" ∧ (g.principal_id = "*" ∨ g.principal_id = user_id) ∨
    g.principal_type = "group" ∧ g.principal_id ∈ groups

/-- The identifiers a section lists for one type of principal. -/
def PermData.ids (d : PermData) (principal_type : String) : List String :=
  if principal_type = "user" then d.users
  else if principal_type = "group" then d.groups
  else []

/-- **The grants of an object** are the entries of its lists. -/
theorem mem_dictGrants {ac : AccessControlDict} {g : Grant} :
    g ∈ dictGrants ac ↔ g.principal_id ∈ (ac.get g.permission).ids g.principal_type := by
  obtain ⟨t, x, p⟩ := g
  have hsection : ∀ q, (⟨t, x, p⟩ : Grant) ∈ sectionGrants ac q ↔
      p = q ∧ x ∈ (ac.get q).ids t := by
    intro q
    by_cases huser : t = "user"
    · simp [sectionGrants, PermData.ids, huser, eq_comm, and_comm]
    · by_cases hgroup : t = "group"
      · simp [sectionGrants, PermData.ids, hgroup, eq_comm, and_comm]
      · simp [sectionGrants, PermData.ids, huser, hgroup, Ne.symm huser, Ne.symm hgroup]
  simp only [dictGrants, List.mem_append, hsection]
  constructor
  · rintro (⟨rfl, h⟩ | ⟨rfl, h⟩) <;> exact h
  · intro h
    by_cases hread : p = "read"
    · exact .inl ⟨hread, hread ▸ h⟩
    · by_cases hwrite : p = "write"
      · exact .inr ⟨hwrite, hwrite ▸ h⟩
      · simp [AccessControlDict.get, hread, hwrite, PermData.ids, PermData.users,
          PermData.groups] at h

/-- Two objects that list the same allow the same. -/
theorem legacyAllows_congr {ac ac' : AccessControlDict} {permission : String}
    (h : ∀ t x, x ∈ (ac.get permission).ids t ↔ x ∈ (ac'.get permission).ids t)
    (resource_type user_id : String) (groups : Set String) :
    legacyAllows resource_type (some ac) user_id groups permission ↔
      legacyAllows resource_type (some ac') user_id groups permission := by
  have husers : ∀ x, x ∈ (ac.get permission).users ↔ x ∈ (ac'.get permission).users := h "user"
  have hgroups : ∀ x, x ∈ (ac.get permission).groups ↔ x ∈ (ac'.get permission).groups := h "group"
  simp only [legacyAllows, husers, hgroups]

/-- The grants of the lists cover whom the lists name. -/
theorem exists_dictGrants_iff {ac : LegacyAccess} {resource_type user_id : String}
    {groups : Set String} {permission : String} :
    (∃ g ∈ dictGrants ac.toAccessControlDict, g.permission = permission ∧
        g.Covers user_id groups) ↔
      legacyAllows resource_type (some ac.toAccessControlDict) user_id groups permission := by
  constructor
  · rintro ⟨g, hg, rfl, ⟨htype, hid⟩ | ⟨htype, hid⟩⟩
    · have hmem := mem_dictGrants.mp hg
      rw [htype] at hmem
      obtain hid | hid := hid
      · exact absurd (hid ▸ hmem) (ac.users_ne g.permission)
      · exact .inl (hid ▸ hmem)
    · have hmem := mem_dictGrants.mp hg
      rw [htype] at hmem
      exact .inr ⟨_, hid, hmem⟩
  · rintro (h | ⟨x, hx, h⟩)
    · exact ⟨⟨"user", user_id, permission⟩, mem_dictGrants.mpr h, rfl, .inl ⟨rfl, .inr rfl⟩⟩
    · exact ⟨⟨"group", x, permission⟩, mem_dictGrants.mpr h, rfl, .inr ⟨rfl, hx⟩⟩

/-! ## Back to the old form -/

theorem mem_appendNew (xs : List String) (x y : String) : y ∈ appendNew xs x ↔ y ∈ xs ∨ y = x := by
  rw [appendNew]
  split
  · exact ⟨.inl, fun h => h.elim id (· ▸ ‹_›)⟩
  · simp

/-- The permissions and the types of principals that the old form has a list for. -/
def Grant.HasList (g : Grant) : Prop :=
  (g.permission = "read" ∨ g.permission = "write") ∧
    (g.principal_type = "user" ∨ g.principal_type = "group")

/-- What a round of the loop adds. -/
theorem mem_add (l : Lists) (g : Grant) (t x p : String) :
    x ∈ ((l.add g).result.get p).ids t ↔
      x ∈ (l.result.get p).ids t ∨ g = ⟨t, x, p⟩ ∧ g.HasList := by
  obtain ⟨t', x', p'⟩ := g
  simp only [Lists.add, Lists.result, AccessControlDict.get, PermData.ids, PermData.users,
    PermData.groups, Grant.HasList, Grant.mk.injEq]
  grind [mem_appendNew]

/-- **What the loop collects**: every grant but the public one, in the list for it. -/
theorem mem_collectLists (is_public : Bool) (l : Lists) (grants : List Grant) (t x p : String) :
    x ∈ ((collectLists is_public l grants).2.result.get p).ids t ↔
      x ∈ (l.result.get p).ids t ∨
        ∃ g ∈ grants, g.isPublicRead = false ∧ g = ⟨t, x, p⟩ ∧ g.HasList := by
  induction grants generalizing is_public l with
  | nil => simp [collectLists]
  | cons g grants ih =>
    rw [collectLists, List.exists_mem_cons_iff]
    cases hpublic : g.isPublicRead with
    | true => simp [ih]
    | false => simp [ih, mem_add, or_assoc]

theorem fst_collectLists (is_public : Bool) (l : Lists) (grants : List Grant) :
    (collectLists is_public l grants).1 = (is_public || grants.any Grant.isPublicRead) := by
  induction grants generalizing is_public l with
  | nil => simp [collectLists]
  | cons g grants ih =>
    rw [collectLists]
    cases hpublic : g.isPublicRead <;> simp [ih, hpublic]

/-- **There and back**: the lists of an object come back with the same entries. -/
theorem legacyAllows_back (ac : LegacyAccess) (resource_type user_id : String) (groups : Set String)
    (permission : String) :
    legacyAllows resource_type (grants_to_access_control (dictGrants ac.toAccessControlDict))
        user_id groups permission ↔
      legacyAllows resource_type (some ac.toAccessControlDict) user_id groups permission := by
  have hpublic : ∀ g ∈ dictGrants ac.toAccessControlDict, g.isPublicRead = false := by
    intro g hg
    by_contra h
    simp only [Grant.isPublicRead, Bool.not_eq_false, decide_eq_true_eq] at h
    have hmem := mem_dictGrants.mp hg
    rw [h.1, h.2.1] at hmem
    exact ac.users_ne g.permission hmem
  rw [grants_to_access_control]
  split
  · rename_i hnil
    apply legacyAllows_congr
    intro t x
    have hempty : x ∉ ((⟨none, none⟩ : AccessControlDict).get permission).ids t := by
      simp [AccessControlDict.get, PermData.ids, PermData.users, PermData.groups]
    have hmem : (⟨t, x, permission⟩ : Grant) ∈ dictGrants ac.toAccessControlDict ↔
        x ∈ (ac.get permission).ids t := mem_dictGrants
    rw [hnil] at hmem
    simpa [hempty] using hmem
  · rw [if_neg (by simpa [fst_collectLists] using hpublic)]
    apply legacyAllows_congr
    intro t x
    have hmem : (⟨t, x, permission⟩ : Grant) ∈ dictGrants ac.toAccessControlDict ↔
        x ∈ (ac.get permission).ids t := mem_dictGrants
    have hnone : x ∉ ((Lists.result ⟨[], [], [], []⟩).get permission).ids t := by
      simp only [Lists.result, AccessControlDict.get, PermData.ids, PermData.users, PermData.groups]
      grind
    rw [mem_collectLists, ← hmem, or_iff_right hnone]
    constructor
    · rintro ⟨g, hg, -, rfl, -⟩
      exact hg
    · intro hg
      refine ⟨_, hg, hpublic _ hg, rfl, ?_⟩
      rw [hmem] at hg
      simp only [AccessControlDict.get, PermData.ids, PermData.users, PermData.groups] at hg
      simp only [Grant.HasList]
      grind

/-! ## The three together -/

/-- The evaluator over a configuration returns, and says whether `p`. -/
def Answers (r : Except PyErr Bool) (p : Prop) : Prop := ∃ b, r = .ok b ∧ (b = true ↔ p)

/-- The groups a caller passes are those of the user, in any order. -/
def Passes (db : Database) (user_id : String) (user_group_ids : Option (List String)) : Prop :=
  ∀ ids, user_group_ids = some ids → ListsGroupsOf db user_id ids

section Evaluation

variable {db : Database} {user_id : String} {user_group_ids : Option (List String)}

/-- What the evaluator says of grants whose dictionaries have the three fields. -/
theorem answers_of_fields {α : Type} (json : α → Json) (grant : α → Grant)
    (hgiven : Passes db user_id user_group_ids) (permission : String) (grants : List α)
    (hjson : ∀ a ids, grantMatches user_id permission ids (json a) =
      .ok (decide ((grant a).permission = permission ∧
        ((grant a).principal_type = "user" ∧
            ((grant a).principal_id = "*" ∨ (grant a).principal_id = user_id) ∨
          (grant a).principal_type = "group" ∧ (grant a).principal_id ∈ ids)))) :
    Answers (AccessControl.has_access db user_id permission (grants.map json) user_group_ids)
      (∃ g ∈ grants.map grant, g.permission = permission ∧
        g.Covers user_id (groupsOf db user_id)) := by
  refine ⟨_, has_access_map fun a _ => hjson a _, ?_⟩
  simp only [List.any_eq_true, decide_eq_true_eq, List.mem_map, exists_exists_and_eq_and,
    Grant.Covers, listsGroupsOf_groupIds hgiven _]

theorem answers_resourceGrants (hgiven : Passes db user_id user_group_ids) (permission : String)
    (grants : List ResourceGrant) :
    Answers (AccessControl.has_access db user_id permission (grants.map ResourceGrant.json)
        user_group_ids)
      (∃ g ∈ grants.map ResourceGrant.toGrant, g.permission = permission ∧
        g.Covers user_id (groupsOf db user_id)) :=
  answers_of_fields _ _ hgiven permission grants fun _ _ => grantMatches_dict rfl rfl rfl

theorem answers_grants (hgiven : Passes db user_id user_group_ids) (permission : String)
    (grants : List Grant) :
    Answers (AccessControl.has_access db user_id permission (grants.map Grant.json) user_group_ids)
      (∃ g ∈ grants, g.permission = permission ∧ g.Covers user_id (groupsOf db user_id)) := by
  have h := answers_of_fields Grant.json id hgiven permission grants
    fun _ _ => grantMatches_dict rfl rfl rfl
  rwa [List.map_id] at h

end Evaluation

/-- A legacy value: `None`, or an object. -/
def legacyValue (access_control : Option LegacyAccess) : Option AccessControlDict :=
  access_control.map LegacyAccess.toAccessControlDict

/-- **The three functions keep the meaning of a legacy value**: the grants it becomes allow what it
allows, they go back to a value that allows the same, and the migration of a configuration with it
allows the same. -/
def KeepsMeaning (resource_type resource_id : String) (access_control : Option LegacyAccess) :
    Prop :=
  (∀ db user_id permission user_group_ids, Passes db user_id user_group_ids →
    Answers (AccessControl.has_access db user_id permission
        ((access_control_to_grants resource_type resource_id (legacyValue access_control)).map
          ResourceGrant.json) user_group_ids)
      (legacyAllows resource_type (legacyValue access_control) user_id (groupsOf db user_id)
        permission)) ∧
  (∀ user_id groups permission,
    legacyAllows resource_type (grants_to_access_control
        ((access_control_to_grants resource_type resource_id (legacyValue access_control)).map
          ResourceGrant.toGrant)) user_id groups permission ↔
      legacyAllows resource_type (legacyValue access_control) user_id groups permission) ∧
  ∀ db user_id permission user_group_ids, Passes db user_id user_group_ids →
    ∃ grants, (migrate_access_control ⟨some (legacyValue access_control), none⟩).access_grants =
        some grants ∧
      Answers
        (AccessControl.has_access db user_id permission (grants.map Grant.json) user_group_ids)
        (legacyAllows resource_type (legacyValue access_control) user_id (groupsOf db user_id)
          permission)

/-- A database without rows. -/
def emptyDatabase : Database := ⟨[], [], [], [], group_exists_nil⟩

/-- **When the meaning is kept**: for every object, and for the `None` of a file. The `None` of
anything else is public for `access_control_to_grants` and private for `migrate_access_control`. -/
theorem keepsMeaning_iff (resource_type resource_id : String)
    (access_control : Option LegacyAccess) :
    KeepsMeaning resource_type resource_id access_control ↔
      (access_control = none → resource_type = "file") := by
  constructor
  · rintro ⟨-, -, hmigrate⟩ rfl
    by_contra hfile
    -- Everyone may read, but the migrated configuration has no grants.
    obtain ⟨grants, hgrants, b, hb, hiff⟩ :=
      hmigrate emptyDatabase "u" "read" none fun _ h => nomatch h
    cases hgrants
    cases hb
    exact Bool.false_ne_true (hiff.mpr ⟨hfile, rfl⟩)
  · intro h
    cases access_control with
    | none =>
      obtain rfl := h rfl
      have hnone : ∀ user_id groups permission,
          ¬ legacyAllows "file" (legacyValue none) user_id groups permission :=
        fun _ _ _ hallows => hallows.1 rfl
      refine ⟨fun db user_id permission given _ => ⟨false, rfl, ?_⟩,
        fun user_id groups permission => ?_, fun db user_id permission given _ =>
        ⟨[], rfl, false, rfl, ?_⟩⟩
      · simp [hnone]
      · refine iff_of_false ?_ (hnone _ _ _)
        simp [access_control_to_grants, legacyValue, grants_to_access_control, legacyAllows,
          AccessControlDict.get, PermData.users, PermData.groups]
      · simp [hnone]
    | some ac =>
      have hgrants : (access_control_to_grants resource_type resource_id
          (legacyValue (some ac))).map ResourceGrant.toGrant =
            dictGrants ac.toAccessControlDict := by
        simp [access_control_to_grants, legacyValue, Function.comp_def]
      refine ⟨fun db user_id permission given hgiven => ?_, fun user_id groups permission => ?_,
        fun db user_id permission given hgiven => ⟨dictGrants ac.toAccessControlDict, rfl, ?_⟩⟩
      · have hanswers := answers_resourceGrants hgiven permission
          (access_control_to_grants resource_type resource_id (legacyValue (some ac)))
        rwa [hgrants, exists_dictGrants_iff] at hanswers
      · rw [hgrants]
        exact legacyAllows_back ac resource_type user_id groups permission
      · have hanswers := answers_grants hgiven permission
          (dictGrants ac.toAccessControlDict)
        rwa [exists_dictGrants_iff] at hanswers

/-- **A public tool server becomes private**: the two conversions of `None` differ. -/
theorem none_differs :
    access_control_to_grants "tool" "t" none = [⟨⟨"user", "*", "read"⟩, "tool", "t"⟩] ∧
    migrate_access_control ⟨some none, none⟩ = ⟨none, some []⟩ ∧
    AccessControl.has_access emptyDatabase "u" "read"
      ((access_control_to_grants "tool" "t" none).map ResourceGrant.json) none = .ok true ∧
    AccessControl.has_access emptyDatabase "u" "read" (([] : List Grant).map Grant.json) none =
      .ok false ∧
    ¬ KeepsMeaning "tool" "t" none := by
  refine ⟨rfl, rfl, rfl, rfl, ?_⟩
  rintro ⟨-, -, hmigrate⟩
  obtain ⟨grants, hgrants, b, hb, hiff⟩ :=
    hmigrate emptyDatabase "u" "read" none fun _ h => nomatch h
  cases hgrants
  cases hb
  exact Bool.false_ne_true (hiff.mpr ⟨by decide, rfl⟩)

end OpenLaunch.Access
