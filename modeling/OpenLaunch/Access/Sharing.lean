import OpenLaunch.Access.Legacy

/-! # Sharing a resource

A client sends the grants it wants on a resource as a raw list. `filter_allowed_access_grants` drops
what the user may not give, `normalize_access_grants` drops what is no grant and what is there
twice, and `set_access_grants` replaces the rows of the resource. The filter and the normalisation
look at the raw entries separately. -/

namespace OpenLaunch.Access

open Python Python.Json

/-- An entry of the list a client sends. -/
inductive RawGrant
  /-- A value that JSON text decodes to, an object or not. -/
  | value (j : Json)
  /-- A pydantic model, with its fields. -/
  | model (fields : List (String × Json))
  deriving DecidableEq

/-- `grant.get(name)` for an object, `getattr(grant, name, None)` for anything else. -/
def RawGrant.attribute (g : RawGrant) (name : String) : Json :=
  match g with
  | .value (.dict kvs) | .model kvs => (Assoc.get? kvs name).getD .null
  | .value _ => .null

/-- A grant after normalisation; the identifier is `none` where a new one is generated. -/
structure NormalGrant extends Grant where
  /-- `id`. -/
  id : Option String
  deriving DecidableEq, Repr

/-- `grant.get('id')`, if it is a text that is not empty. -/
def givenId (fields : List (String × Json)) : Option String :=
  match Assoc.get? fields "id" with
  | some (.str s) => if s ≠ "" then some s else none
  | _ => none

/-- The fields of a grant, if they are in order. -/
def normalFields (fields : List (String × Json)) : Option NormalGrant :=
  match (Assoc.get? fields "principal_type").getD .null,
    (Assoc.get? fields "principal_id").getD .null,
    (Assoc.get? fields "permission").getD .null with
  | .str principal_type, .str principal_id, .str permission =>
    if (principal_type = "user" ∨ principal_type = "group") ∧
        (permission = "read" ∨ permission = "write") ∧ principal_id ≠ "" then
      some ⟨⟨principal_type, principal_id, permission⟩, givenId fields⟩
    else none
  | _, _, _ => none

/-- The checks of a round of `normalize_access_grants`: a model is dumped, and what is no object is
skipped. -/
def RawGrant.normal? : RawGrant → Option NormalGrant
  | .value (.dict fields) | .model fields => normalFields fields
  | .value _ => none

/-- The loop of `normalize_access_grants`. A later entry takes the place of an earlier one with the
same principal and permission. -/
def dedupe (deduped : List (Grant × NormalGrant)) : List RawGrant → List (Grant × NormalGrant)
  | [] => deduped
  | grant :: access_grants =>
    match grant.normal? with
    | none => dedupe deduped access_grants
    | some n => dedupe (Assoc.set deduped n.toGrant n) access_grants

/-- `normalize_access_grants`. -/
def normalize_access_grants (access_grants : List RawGrant) : List NormalGrant :=
  (dedupe [] access_grants).map Prod.snd

/-- `has_public_read_access_grant` and `has_public_write_access_grant`. -/
def has_public_access_grant (permission : String) (access_grants : List RawGrant) : Bool :=
  (normalize_access_grants access_grants).any fun g =>
    g.principal_type = "user" ∧ g.principal_id = "*" ∧ g.permission = permission

/-- `has_public_read_access_grant`. -/
def has_public_read_access_grant (access_grants : List RawGrant) : Bool :=
  has_public_access_grant "read" access_grants

/-- `has_public_write_access_grant`. -/
def has_public_write_access_grant (access_grants : List RawGrant) : Bool :=
  has_public_access_grant "write" access_grants

/-- `has_user_access_grant`. -/
def has_user_access_grant (access_grants : List RawGrant) : Bool :=
  (normalize_access_grants access_grants).any fun g =>
    g.principal_type = "user" ∧ g.principal_id ≠ "*"

/-- The comprehension that drops the grants to everyone. -/
def strip_public_access_grants (access_grants : List RawGrant) : List RawGrant :=
  access_grants.filter fun g =>
    ¬(g.attribute "principal_type" = .str "user" ∧ g.attribute "principal_id" = .str "*")

/-- `strip_user_access_grants`. -/
def strip_user_access_grants (access_grants : List RawGrant) : List RawGrant :=
  access_grants.filter fun g =>
    ¬(g.attribute "principal_type" = .str "user" ∧ g.attribute "principal_id" ≠ .str "*")

/-- A list with grants of some kind keeps them only if the user has the permission. -/
def requirePermission (asked : Bool) (permission : Except PyErr Bool)
    (strip : List RawGrant → List RawGrant) (access_grants : List RawGrant) :
    Except PyErr (List RawGrant) := do
  if asked then
    if ← permission then .ok access_grants else .ok (strip access_grants)
  else .ok access_grants

/-- What the permissions of a user are read from. -/
structure PermissionContext where
  /-- `DEFAULT_USER_PERMISSIONS`. -/
  builtin : PermissionTable
  /-- The configured defaults. -/
  default_permissions : PermissionTable
  /-- The groups of the user. -/
  user_groups : List Group

/-- `has_permission` for the user. -/
def PermissionContext.has (c : PermissionContext) (permission_key : String) : Except PyErr Bool :=
  has_permission c.builtin c.user_groups permission_key c.default_permissions

/-- `filter_allowed_access_grants`. -/
def filter_allowed_access_grants (c : PermissionContext) (user_role : String)
    (access_grants : List RawGrant) (public_permission_key : String) :
    Except PyErr (List RawGrant) :=
  if user_role = "admin" ∨ access_grants.isEmpty then .ok access_grants
  else do
    let access_grants ← requirePermission
      (has_public_read_access_grant access_grants || has_public_write_access_grant access_grants)
      (c.has public_permission_key) strip_public_access_grants access_grants
    requirePermission (has_user_access_grant access_grants) (c.has "access_grants.allow_users")
      strip_user_access_grants access_grants

/-- What no two rows share: `uq_access_grant_grant`. -/
def AccessGrant.uniqueKey (g : AccessGrant) : String × String × Grant :=
  (g.resource_type, g.resource_id, ⟨g.principal_type, g.principal_id, g.permission⟩)

/-- The table `access_grant`, with its constraints. -/
structure GrantTable where
  /-- The rows. -/
  rows : List AccessGrant
  /-- The primary key. -/
  nodup_ids : (rows.map AccessGrant.id).Nodup
  /-- `uq_access_grant_grant`. -/
  nodup_keys : (rows.map AccessGrant.uniqueKey).Nodup

/-- `commit`: `none` when a constraint is violated. -/
def commit (rows : List AccessGrant) : Option GrantTable :=
  if h : (rows.map AccessGrant.id).Nodup ∧ (rows.map AccessGrant.uniqueKey).Nodup then
    some ⟨rows, h.1, h.2⟩
  else none

/-- The row is about the resource. -/
def AccessGrant.isOn (resource_type resource_id : String) (g : AccessGrant) : Bool :=
  g.resource_type = resource_type ∧ g.resource_id = resource_id

/-- The grants of a list as new rows; `uuid4` and `now` give the identifier and the time of each. -/
def newRows (uuid4 : ℕ → String) (now : ℕ → ℤ) (resource_type resource_id : String)
    (grants : List NormalGrant) : List AccessGrant :=
  grants.mapIdx fun i g =>
    ⟨uuid4 i, resource_type, resource_id, g.principal_type, g.principal_id, g.permission, now i⟩

/-- `AccessGrantsTable.set_access_grants`: the table afterwards, unless the commit fails. -/
def AccessGrantsTable.set_access_grants (uuid4 : ℕ → String) (now : ℕ → ℤ) (table : GrantTable)
    (resource_type resource_id : String) (access_grants : List RawGrant) : Option GrantTable :=
  commit (table.rows.filter (fun g => !g.isOn resource_type resource_id) ++
    newRows uuid4 now resource_type resource_id (normalize_access_grants access_grants))

/-! ## What is a grant -/

/-- An entry says a grant: its three fields are there, and in order. -/
structure RawGrant.Says (g : RawGrant) (k : Grant) : Prop where
  /-- `principal_type`. -/
  principal_type : g.attribute "principal_type" = .str k.principal_type
  /-- `principal_id`. -/
  principal_id : g.attribute "principal_id" = .str k.principal_id
  /-- `permission`. -/
  permission : g.attribute "permission" = .str k.permission
  /-- A user or a group. -/
  known_type : k.principal_type = "user" ∨ k.principal_type = "group"
  /-- Reading or writing. -/
  known_permission : k.permission = "read" ∨ k.permission = "write"
  /-- An identifier. -/
  has_id : k.principal_id ≠ ""

theorem normalFields_iff {fields : List (String × Json)} {k : Grant} :
    (∃ n, normalFields fields = some n ∧ n.toGrant = k) ↔ (RawGrant.model fields).Says k := by
  constructor
  · rintro ⟨n, hn, rfl⟩
    rw [normalFields] at hn
    split at hn
    · rename_i t x p ht hx hp
      split at hn
      · rename_i hok
        obtain rfl := Option.some.inj hn
        exact ⟨ht, hx, hp, hok.1, hok.2.1, hok.2.2⟩
      · cases hn
    · cases hn
  · rintro ⟨ht, hx, hp, htype, hpermission, hid⟩
    refine ⟨⟨k, givenId fields⟩, ?_, rfl⟩
    simp only [RawGrant.attribute] at ht hx hp
    simp [normalFields, ht, hx, hp, htype, hpermission, hid]

/-- **The normalisation keeps an entry** when it says a grant. -/
theorem normal?_iff {g : RawGrant} {k : Grant} :
    (∃ n, g.normal? = some n ∧ n.toGrant = k) ↔ g.Says k := by
  cases g with
  | model fields => exact normalFields_iff
  | value j =>
    cases j with
    | dict fields => exact normalFields_iff.trans ⟨fun h => ⟨h.1, h.2, h.3, h.4, h.5, h.6⟩,
        fun h => ⟨h.1, h.2, h.3, h.4, h.5, h.6⟩⟩
    | _ =>
      constructor
      · rintro ⟨n, hn, -⟩
        cases hn
      · intro h
        cases h.principal_type

/-- What the loop holds: every key is the grant of its value, and is said by an entry. -/
theorem keys_dedupe {deduped : List (Grant × NormalGrant)} {grants : List RawGrant}
    (hkeys : ∀ e ∈ deduped, e.2.toGrant = e.1) :
    (∀ e ∈ dedupe deduped grants, e.2.toGrant = e.1) ∧
      ∀ k, k ∈ Assoc.keys (dedupe deduped grants) ↔
        k ∈ Assoc.keys deduped ∨ ∃ g ∈ grants, g.Says k := by
  induction grants generalizing deduped with
  | nil => exact ⟨hkeys, fun k => by simp [dedupe]⟩
  | cons g grants ih =>
    rw [dedupe]
    cases hg : g.normal? with
    | none =>
      obtain ⟨hall, hmem⟩ := ih hkeys
      refine ⟨hall, fun k => ?_⟩
      have hnot : ¬ g.Says k := by
        rw [← normal?_iff, hg]
        simp
      simp [hmem, hnot]
    | some n =>
      have hset : ∀ e ∈ Assoc.set deduped n.toGrant n, e.2.toGrant = e.1 :=
        Assoc.forall_mem_set_entry hkeys rfl
      obtain ⟨hall, hmem⟩ := ih hset
      refine ⟨hall, fun k => ?_⟩
      have hsays : g.Says k ↔ k = n.toGrant := by
        rw [← normal?_iff, hg]
        simp [eq_comm]
      simp only [hmem, Assoc.mem_keys_set, hsays, List.exists_mem_cons_iff]
      tauto

theorem nodup_dedupe {deduped : List (Grant × NormalGrant)} (hd : (Assoc.keys deduped).Nodup)
    (grants : List RawGrant) : (Assoc.keys (dedupe deduped grants)).Nodup := by
  induction grants generalizing deduped with
  | nil => exact hd
  | cons g grants ih =>
    rw [dedupe]
    split
    · exact ih hd
    · exact ih (Assoc.nodup_keys_set hd _ _)

/-- **What the normalisation returns**: each grant that some entry says, once. -/
theorem normalize_access_grants_spec (grants : List RawGrant) :
    ((normalize_access_grants grants).map NormalGrant.toGrant).Nodup ∧
      ∀ k, k ∈ (normalize_access_grants grants).map NormalGrant.toGrant ↔
        ∃ g ∈ grants, g.Says k := by
  obtain ⟨hall, hmem⟩ := @keys_dedupe [] grants (by simp)
  have hkeys : (normalize_access_grants grants).map NormalGrant.toGrant =
      Assoc.keys (dedupe [] grants) := by
    rw [normalize_access_grants, Assoc.keys, List.map_map]
    exact List.map_congr_left hall
  rw [hkeys]
  exact ⟨nodup_dedupe (by simp) grants, fun k => by simp [hmem]⟩

/-- The test for a kind of grants finds one that some entry says. -/
theorem any_normalize_iff (grants : List RawGrant) (p : Grant → Prop) [DecidablePred p] :
    ((normalize_access_grants grants).any fun g => decide (p g.toGrant)) = true ↔
      ∃ g ∈ grants, ∃ k, g.Says k ∧ p k := by
  have hmem := (normalize_access_grants_spec grants).2
  simp only [List.any_eq_true, decide_eq_true_eq]
  constructor
  · rintro ⟨n, hn, hp⟩
    obtain ⟨g, hg, hsays⟩ := (hmem n.toGrant).mp (List.mem_map_of_mem hn)
    exact ⟨g, hg, _, hsays, hp⟩
  · rintro ⟨g, hg, k, hsays, hp⟩
    obtain ⟨n, hn, rfl⟩ := List.mem_map.mp ((hmem k).mpr ⟨g, hg, hsays⟩)
    exact ⟨n, hn, hp⟩

/-! ## What the filter lets through -/

section Filtering

variable {c : PermissionContext} {user_role public_permission_key : String}
  {submitted kept : List RawGrant}

/-- A list passes a check as it is, with the permission, or stripped. -/
theorem requirePermission_eq_ok {asked : Bool} {permission : Except PyErr Bool}
    {strip : List RawGrant → List RawGrant}
    (h : requirePermission asked permission strip submitted = .ok kept) :
    kept = submitted ∧ (asked = true → permission = .ok true) ∨ kept = strip submitted := by
  cases asked with
  | false =>
    obtain rfl := Except.ok.inj h
    exact .inl ⟨rfl, fun h => nomatch h⟩
  | true =>
    obtain ⟨b, hb, h⟩ := bind_eq_ok.mp h
    cases b with
    | true =>
      obtain rfl := Except.ok.inj h
      exact .inl ⟨rfl, fun _ => hb⟩
    | false => exact .inr (Except.ok.inj h).symm

/-- A list is asked about for grants to everyone exactly when an entry says one. -/
theorem has_public_iff (grants : List RawGrant) :
    (has_public_read_access_grant grants || has_public_write_access_grant grants) = true ↔
      ∃ g ∈ grants, ∃ k, g.Says k ∧ k.principal_type = "user" ∧ k.principal_id = "*" := by
  have hread := any_normalize_iff grants fun k =>
    k.principal_type = "user" ∧ k.principal_id = "*" ∧ k.permission = "read"
  have hwrite := any_normalize_iff grants fun k =>
    k.principal_type = "user" ∧ k.principal_id = "*" ∧ k.permission = "write"
  rw [Bool.or_eq_true, has_public_read_access_grant, has_public_write_access_grant,
    has_public_access_grant, has_public_access_grant, hread, hwrite]
  constructor
  · rintro (⟨g, hg, k, hk, htype, hid, -⟩ | ⟨g, hg, k, hk, htype, hid, -⟩) <;>
      exact ⟨g, hg, k, hk, htype, hid⟩
  · rintro ⟨g, hg, k, hk, htype, hid⟩
    obtain hp | hp := hk.known_permission
    · exact .inl ⟨g, hg, k, hk, htype, hid, hp⟩
    · exact .inr ⟨g, hg, k, hk, htype, hid, hp⟩

/-- Likewise for grants to single users. -/
theorem has_user_iff (grants : List RawGrant) :
    has_user_access_grant grants = true ↔
      ∃ g ∈ grants, ∃ k, g.Says k ∧ k.principal_type = "user" ∧ k.principal_id ≠ "*" :=
  any_normalize_iff grants fun k => k.principal_type = "user" ∧ k.principal_id ≠ "*"

/-- Which entries are left without the grants to everyone. -/
theorem mem_strip_public {g : RawGrant} {k : Grant} (hk : g.Says k) :
    g ∈ strip_public_access_grants submitted ↔
      g ∈ submitted ∧ ¬(k.principal_type = "user" ∧ k.principal_id = "*") := by
  simp only [strip_public_access_grants, List.mem_filter, hk.principal_type, hk.principal_id,
    Json.str.injEq, decide_eq_true_eq]

/-- Which entries are left without the grants to single users. -/
theorem mem_strip_user {g : RawGrant} {k : Grant} (hk : g.Says k) :
    g ∈ strip_user_access_grants submitted ↔
      g ∈ submitted ∧ ¬(k.principal_type = "user" ∧ k.principal_id ≠ "*") := by
  simp only [strip_user_access_grants, List.mem_filter, hk.principal_type, hk.principal_id, ne_eq,
    Json.str.injEq, decide_eq_true_eq]

/-- **What the filter returns**: entries that were submitted, all that say a grant to a group, and a
grant to everyone or to a user only with the permission for it. -/
theorem filter_allowed_access_grants_spec (hrole : user_role ≠ "admin")
    (h : filter_allowed_access_grants c user_role submitted public_permission_key = .ok kept) :
    kept ⊆ submitted ∧
      (∀ g ∈ submitted, ∀ k, g.Says k → k.principal_type = "group" → g ∈ kept) ∧
      (∀ g ∈ kept, ∀ k, g.Says k → k.principal_type = "user" → k.principal_id = "*" →
        c.has public_permission_key = .ok true) ∧
      ∀ g ∈ kept, ∀ k, g.Says k → k.principal_type = "user" → k.principal_id ≠ "*" →
        c.has "access_grants.allow_users" = .ok true := by
  rw [filter_allowed_access_grants] at h
  split at h
  · rename_i hempty
    obtain rfl := Except.ok.inj h
    have hnil : submitted = [] := by simpa [hrole] using hempty
    simp [hnil]
  · obtain ⟨shared, hshared, h⟩ := bind_eq_ok.mp h
    -- The first check leaves a grant to everyone only with the permission.
    have hfirst : shared ⊆ submitted ∧
        (∀ g ∈ submitted, ∀ k, g.Says k → k.principal_type = "group" → g ∈ shared) ∧
        ∀ g ∈ shared, ∀ k, g.Says k → k.principal_type = "user" → k.principal_id = "*" →
          c.has public_permission_key = .ok true := by
      obtain ⟨rfl, hasked⟩ | rfl := requirePermission_eq_ok hshared
      · refine ⟨List.Subset.refl _, fun g hg _ _ _ => hg, fun g hg k hk htype hid => ?_⟩
        exact hasked ((has_public_iff _).mpr ⟨g, hg, k, hk, htype, hid⟩)
      · refine ⟨List.filter_subset_self _, fun g hg k hk htype => ?_,
          fun g hg k hk htype hid => ?_⟩
        · exact (mem_strip_public hk).mpr ⟨hg, by simp [htype]⟩
        · exact absurd ⟨htype, hid⟩ ((mem_strip_public hk).mp hg).2
    obtain ⟨hsub, hgroup, hpublic⟩ := hfirst
    obtain ⟨rfl, hasked⟩ | rfl := requirePermission_eq_ok h
    · refine ⟨hsub, hgroup, hpublic, fun g hg k hk htype hid => ?_⟩
      exact hasked ((has_user_iff _).mpr ⟨g, hg, k, hk, htype, hid⟩)
    · refine ⟨List.Subset.trans (List.filter_subset_self _) hsub,
        fun g hg k hk htype => ?_, fun g hg k hk htype hid => ?_, fun g hg k hk htype hid => ?_⟩
      · exact (mem_strip_user hk).mpr ⟨hgroup g hg k hk htype, by simp [htype]⟩
      · exact hpublic g ((mem_strip_user hk).mp hg).1 k hk htype hid
      · exact absurd ⟨htype, hid⟩ ((mem_strip_user hk).mp hg).2

end Filtering

/-! ## What is stored -/

/-- The grant of a row. -/
def AccessGrant.grant (g : AccessGrant) : Grant := ⟨g.principal_type, g.principal_id, g.permission⟩

/-- New identifiers: no two are the same, and none is in the table. -/
structure FreshIds (uuid4 : ℕ → String) (table : GrantTable) : Prop where
  /-- They are distinct. -/
  injective : Function.Injective uuid4
  /-- They are new. -/
  new : ∀ i, uuid4 i ∉ table.rows.map AccessGrant.id

theorem ids_newRows (uuid4 : ℕ → String) (now : ℕ → ℤ) (resource_type resource_id : String)
    (grants : List NormalGrant) :
    (newRows uuid4 now resource_type resource_id grants).map AccessGrant.id =
      (List.range grants.length).map uuid4 := by
  apply List.ext_getElem
  · simp [newRows]
  · intro i h₁ h₂
    simp [newRows]

theorem uniqueKeys_newRows (uuid4 : ℕ → String) (now : ℕ → ℤ) (resource_type resource_id : String)
    (grants : List NormalGrant) :
    (newRows uuid4 now resource_type resource_id grants).map AccessGrant.uniqueKey =
      (grants.map NormalGrant.toGrant).map fun k => (resource_type, resource_id, k) := by
  apply List.ext_getElem
  · simp [newRows]
  · intro i h₁ h₂
    simp [newRows, AccessGrant.uniqueKey]

/-- **The commit goes through**: the new rows take new identifiers, and their grants are distinct.
-/
theorem set_access_grants_eq_some {uuid4 : ℕ → String} {table : GrantTable}
    (hfresh : FreshIds uuid4 table) (now : ℕ → ℤ) (resource_type resource_id : String)
    (grants : List RawGrant) :
    ∃ table', AccessGrantsTable.set_access_grants uuid4 now table resource_type resource_id grants =
        some table' ∧
      table'.rows = table.rows.filter (fun g => !g.isOn resource_type resource_id) ++
        newRows uuid4 now resource_type resource_id (normalize_access_grants grants) := by
  set kept := table.rows.filter (fun g => !g.isOn resource_type resource_id) with hkept
  have hsub : kept.Sublist table.rows := List.filter_sublist
  obtain ⟨hnodup, -⟩ := normalize_access_grants_spec grants
  have hids : ((kept ++ newRows uuid4 now resource_type resource_id
      (normalize_access_grants grants)).map AccessGrant.id).Nodup := by
    rw [List.map_append, ids_newRows, List.nodup_append]
    refine ⟨table.nodup_ids.sublist (hsub.map _), (List.nodup_range).map hfresh.injective, ?_⟩
    rintro x hx y hy rfl
    obtain ⟨i, -, rfl⟩ := List.mem_map.mp hy
    exact hfresh.new i ((hsub.map _).subset hx)
  have hkeys : ((kept ++ newRows uuid4 now resource_type resource_id
      (normalize_access_grants grants)).map AccessGrant.uniqueKey).Nodup := by
    rw [List.map_append, uniqueKeys_newRows, List.nodup_append]
    refine ⟨table.nodup_keys.sublist (hsub.map _), hnodup.map fun k k' h => ?_, ?_⟩
    · simpa using h
    · rintro x hx y hy rfl
      obtain ⟨k, -, rfl⟩ := List.mem_map.mp hy
      obtain ⟨g, hg, hkey⟩ := List.mem_map.mp hx
      have hoff := (List.mem_filter.mp hg).2
      simp only [AccessGrant.uniqueKey, Prod.mk.injEq] at hkey
      simp [AccessGrant.isOn, hkey] at hoff
  refine ⟨⟨_, hids, hkeys⟩, ?_, rfl⟩
  rw [AccessGrantsTable.set_access_grants, commit, dif_pos ⟨hids, hkeys⟩]

/-- The rows on the resource afterwards are the grants that entries of the list say. -/
theorem mem_newRows {uuid4 : ℕ → String} {now : ℕ → ℤ} {resource_type resource_id : String}
    {grants : List RawGrant} (k : Grant) :
    (∃ r ∈ newRows uuid4 now resource_type resource_id (normalize_access_grants grants),
      r.grant = k) ↔ ∃ g ∈ grants, g.Says k := by
  have hkeys := uniqueKeys_newRows uuid4 now resource_type resource_id
    (normalize_access_grants grants)
  rw [← (normalize_access_grants_spec grants).2 k]
  constructor
  · rintro ⟨r, hr, rfl⟩
    have hmem := List.mem_map_of_mem (f := AccessGrant.uniqueKey) hr
    rw [hkeys] at hmem
    obtain ⟨k, hk, heq⟩ := List.mem_map.mp hmem
    simp only [AccessGrant.uniqueKey, Prod.mk.injEq] at heq
    rw [AccessGrant.grant, ← heq.2.2]
    exact hk
  · intro hk
    have hmem := List.mem_map_of_mem (f := fun k => (resource_type, resource_id, k)) hk
    rw [← hkeys] at hmem
    obtain ⟨r, hr, heq⟩ := List.mem_map.mp hmem
    simp only [AccessGrant.uniqueKey, Prod.mk.injEq] at heq
    exact ⟨r, hr, heq.2.2⟩

theorem isOn_of_mem_newRows {uuid4 : ℕ → String} {now : ℕ → ℤ} {resource_type resource_id : String}
    {grants : List NormalGrant} {r : AccessGrant}
    (hr : r ∈ newRows uuid4 now resource_type resource_id grants) :
    r.isOn resource_type resource_id = true := by
  obtain ⟨i, hi, rfl⟩ := List.mem_mapIdx.mp hr
  simp [AccessGrant.isOn]

/-- **Sharing is safe and complete.** What is stored for the resource after the filter: a grant to
everyone or to a single user only with the permission for it, every grant to a group that was
submitted, and nothing that was not submitted; duplicates do not make the store fail, and the rows
of other resources stay. -/
theorem set_filtered_grants (c : PermissionContext)
    (user_role public_permission_key resource_type resource_id : String)
    (submitted kept : List RawGrant) (uuid4 : ℕ → String) (now : ℕ → ℤ) (table : GrantTable)
    (hrole : user_role ≠ "admin") (hfresh : FreshIds uuid4 table)
    (hfilter : filter_allowed_access_grants c user_role submitted public_permission_key =
      .ok kept) :
    ∃ table', AccessGrantsTable.set_access_grants uuid4 now table resource_type resource_id kept =
        some table' ∧
      (∀ r ∈ table'.rows, r.isOn resource_type resource_id = true →
        (r.principal_type = "user" → r.principal_id = "*" →
          c.has public_permission_key = .ok true) ∧
        (r.principal_type = "user" → r.principal_id ≠ "*" →
          c.has "access_grants.allow_users" = .ok true) ∧
        ∃ g ∈ submitted, g.Says r.grant) ∧
      (∀ g ∈ submitted, ∀ k, g.Says k → k.principal_type = "group" →
        ∃ r ∈ table'.rows, r.isOn resource_type resource_id = true ∧ r.grant = k) ∧
      table'.rows.filter (fun g => !g.isOn resource_type resource_id) =
        table.rows.filter fun g => !g.isOn resource_type resource_id := by
  obtain ⟨hsub, hgroup, hpublic, huser⟩ := filter_allowed_access_grants_spec hrole hfilter
  obtain ⟨table', hset, hrows⟩ :=
    set_access_grants_eq_some hfresh now resource_type resource_id kept
  have hnew : (newRows uuid4 now resource_type resource_id (normalize_access_grants kept)).filter
      (fun g => !g.isOn resource_type resource_id) = [] := by
    rw [List.filter_eq_nil_iff]
    intro r hr
    simp [isOn_of_mem_newRows hr]
  refine ⟨table', hset, fun r hr hon => ?_, fun g hg k hk htype => ?_, ?_⟩
  · rw [hrows, List.mem_append] at hr
    obtain hold | hr := hr
    · simp [hon] at hold
    · obtain ⟨g, hg, hsays⟩ := (mem_newRows r.grant).mp ⟨r, hr, rfl⟩
      exact ⟨fun htype hid => hpublic g hg _ hsays htype hid,
        fun htype hid => huser g hg _ hsays htype hid, g, hsub hg, hsays⟩
  · obtain ⟨r, hr, hgrant⟩ := (mem_newRows k).mpr ⟨g, hgroup g hg k hk htype, hk⟩
    refine ⟨r, ?_, isOn_of_mem_newRows hr, hgrant⟩
    rw [hrows]
    exact List.mem_append_right _ hr
  · rw [hrows, List.filter_append, hnew, List.append_nil, List.filter_filter]
    simp

/-- An entry with these three fields. -/
def rawGrant (k : Grant) : RawGrant :=
  .value (.dict [("principal_type", .str k.principal_type), ("principal_id", .str k.principal_id),
    ("permission", .str k.permission)])

/-- A grant to a group twice, a public one and something that is no grant, from a user without any
permission. -/
theorem set_filtered_grants_group :
    ∃ table', AccessGrantsTable.set_access_grants (fun i => String.ofList (List.replicate i 'a'))
        (fun _ => 0) ⟨[], by simp, by simp⟩ "note" "n"
        [rawGrant ⟨"group", "g", "read"⟩, rawGrant ⟨"group", "g", "read"⟩, .value .null] =
        some table' ∧
      ∃ r ∈ table'.rows, r.isOn "note" "n" = true ∧ r.grant = ⟨"group", "g", "read"⟩ := by
  obtain ⟨table', hset, -, hgroup, -⟩ :=
    set_filtered_grants ⟨.empty, .empty, []⟩ "user" "sharing.public_notes" "note" "n"
      [rawGrant ⟨"group", "g", "read"⟩, rawGrant ⟨"user", "*", "read"⟩,
        rawGrant ⟨"group", "g", "read"⟩, .value .null]
      [rawGrant ⟨"group", "g", "read"⟩, rawGrant ⟨"group", "g", "read"⟩, .value .null]
      (fun i => String.ofList (List.replicate i 'a')) (fun _ => 0) ⟨[], by simp, by simp⟩
      (by decide)
      ⟨fun i j h => by simpa using congrArg (List.length ∘ String.toList) h, by simp⟩
      (by decide)
  exact ⟨table', hset, hgroup (rawGrant ⟨"group", "g", "read"⟩) (by simp) ⟨"group", "g", "read"⟩
    ⟨rfl, rfl, rfl, .inr rfl, .inl rfl, by decide⟩ rfl⟩

end OpenLaunch.Access
