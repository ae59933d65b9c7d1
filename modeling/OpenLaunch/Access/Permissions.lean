import OpenLaunch.Python.Items

/-! # Permission tables

The permissions of a user: the configured defaults and one table for each group of the user, all of
them nested objects that JSON decodes to. `get_permissions` merges the tables into one, and
`has_permission` looks a single dotted key up in them. -/

namespace OpenLaunch.Access

open Python Python.Json

/-- A **permission table**: a nested object, no key twice. -/
structure PermissionTable where
  /-- The entries of the outermost object. -/
  entries : List (String × Json)
  /-- It is the value of some JSON text. -/
  wellFormed : (Json.dict entries).WellFormed

/-- The table as a value. -/
def PermissionTable.json (t : PermissionTable) : Json := .dict t.entries

/-- `{}`. -/
def PermissionTable.empty : PermissionTable := ⟨[], .dict List.nodup_nil (by simp)⟩

/-- A group, as far as permissions go. -/
structure Group where
  /-- The identifier. -/
  id : String
  /-- Its table, if it has one. -/
  permissions : Option PermissionTable

/-- `group.permissions or {}`. -/
def Group.table (g : Group) : PermissionTable := g.permissions.getD .empty

/-! ## The two functions -/

mutual

/-- `fill_missing_permissions`: the keys that `permissions` lacks, from the defaults. -/
def fill_missing_permissions (permissions : List (String × Json)) :
    List (String × Json) → List (String × Json)
  | [] => permissions
  | (key, value) :: default_permissions =>
    fill_missing_permissions (fill_entry permissions key value) default_permissions

/-- One round of the loop of `fill_missing_permissions`. -/
def fill_entry (permissions : List (String × Json)) (key : String) :
    Json → List (String × Json)
  | .dict value =>
    match Assoc.get? permissions key with
    | none => Assoc.set permissions key (.dict value)
    -- Both are nested dictionaries.
    | some (.dict inner) =>
      Assoc.set permissions key (.dict (fill_missing_permissions inner value))
    | some _ => permissions
  | value =>
    if Assoc.contains permissions key then permissions else Assoc.set permissions key value

end

/-- `if key not in permissions: permissions[key] = {}`. -/
def addObject (permissions : Json) (key : String) : Except PyErr Json := do
  if ← permissions.hasKey key then .ok permissions else permissions.setItem key (.dict [])

/-- `permissions[key] = value`, or `permissions[key] or value` where the key is there already. -/
def addValue (permissions : Json) (key : String) (value : Json) : Except PyErr Json := do
  if ← permissions.hasKey key then permissions.setItem key ((← permissions.item key).or value)
  else permissions.setItem key value

mutual

/-- `combine_permissions`: the most permissive of two tables. What is called `permissions` is an
object at the outermost call, but may be any value in the recursive ones. -/
def combine_permissions (permissions : Json) : List (String × Json) → Except PyErr Json
  | [] => .ok permissions
  | (key, value) :: group_permissions => do
    let permissions ← combine_entry permissions key value
    combine_permissions permissions group_permissions

/-- One round of the loop of `combine_permissions`. -/
def combine_entry (permissions : Json) (key : String) : Json → Except PyErr Json
  | .dict value => do
    let permissions ← addObject permissions key
    permissions.setItem key (← combine_permissions (← permissions.item key) value)
  | value => addValue permissions key value

end

/-- The loop of `get_permissions` over the groups of the user. -/
def combineGroups (permissions : Json) : List Group → Except PyErr Json
  | [] => .ok permissions
  | group :: user_groups => do
    let permissions ← combine_permissions permissions group.table.entries
    combineGroups permissions user_groups

/-- The last step of `get_permissions`. -/
def fillDefaults (default_permissions : PermissionTable) : Json → Json
  | .dict permissions => .dict (fill_missing_permissions permissions default_permissions.entries)
  | permissions => permissions

/-- `get_permissions`, for the groups the user is a member of. It works on a copy of the defaults,
which is the same table. -/
def get_permissions (user_groups : List Group) (default_permissions : PermissionTable) :
    Except PyErr Json := do
  let permissions ← combineGroups default_permissions.json user_groups
  .ok (fillDefaults default_permissions permissions)

/-- `get_permission`: the truth of what a list of keys leads to. -/
def get_permission : Json → List String → Except PyErr Bool
  | permissions, [] => .ok permissions.truthy
  | permissions, key :: keys => do
    if ← permissions.hasKey key then get_permission (← permissions.item key) keys
    else .ok false

/-- `permission_key.split('.')`. -/
def permissionHierarchy (permission_key : String) : List String :=
  (permission_key.toList.splitOn '.').map String.ofList

/-- The loop of `has_permission` over the groups of the user. -/
def anyGroupGrants (keys : List String) : List Group → Except PyErr Bool
  | [] => .ok false
  | group :: user_groups => do
    if ← get_permission group.table.json keys then .ok true else anyGroupGrants keys user_groups

/-- `has_permission`, for the groups the user is a member of. `DEFAULT_USER_PERMISSIONS` is the
table built into the program, which depends on its environment. -/
def has_permission (DEFAULT_USER_PERMISSIONS : PermissionTable) (user_groups : List Group)
    (permission_key : String) (default_permissions : PermissionTable) : Except PyErr Bool := do
  if ← anyGroupGrants (permissionHierarchy permission_key) user_groups then .ok true
  else
    get_permission
      (.dict (fill_missing_permissions default_permissions.entries
        DEFAULT_USER_PERMISSIONS.entries))
      (permissionHierarchy permission_key)

/-! ## Looking a key up -/

/-- Whether a list of keys can be followed: what is no object is reached at the end only, or is a
list or a text that does not have the next key. -/
def CanFollow : Json → List String → Prop
  | _, [] => True
  | .dict kvs, key :: keys => ∀ v, Assoc.get? kvs key = some v → CanFollow v keys
  | .list xs, key :: _ => .str key ∉ xs
  | .str s, key :: _ => ¬ key.toList <:+: s.toList
  | _, _ :: _ => False

/-- **What a lookup returns**: where the keys can be followed, the truth of what is found, and
`False` where nothing is. -/
theorem get_permission_eq_ok {j : Json} {keys : List String} {b : Bool} :
    get_permission j keys = .ok b ↔ CanFollow j keys ∧ (j.truthAt keys).getD false = b := by
  induction keys generalizing j with
  | nil => simp [get_permission, CanFollow]
  | cons key keys ih =>
    cases j with
    | dict kvs =>
      simp only [get_permission, CanFollow, hasKey_dict, truthAt_dict_cons]
      cases hget : Assoc.get? kvs key with
      | none => simp [bind, Except.bind]
      | some v => simpa [bind, Except.bind, item_dict hget] using ih
    | list xs =>
      by_cases hmem : Json.str key ∈ xs
      · simp [get_permission, CanFollow, hasKey, item, hmem, bind, Except.bind]
      · simp [get_permission, CanFollow, hasKey, hmem, bind, Except.bind, truthAt, valueAt]
    | str s =>
      by_cases hmem : key.toList <:+: s.toList
      · simp [get_permission, CanFollow, hasKey, item, hmem, bind, Except.bind]
      · simp [get_permission, CanFollow, hasKey, hmem, bind, Except.bind, truthAt, valueAt]
    | _ => simp [get_permission, CanFollow, hasKey, bind, Except.bind]

/-- Keys that lead somewhere can be followed. -/
theorem canFollow_of_valueAt {j : Json} {keys : List String} (h : (j.valueAt keys).isSome) :
    CanFollow j keys := by
  induction keys generalizing j with
  | nil => simp [CanFollow]
  | cons key keys ih =>
    cases j with
    | dict kvs =>
      intro v hv
      apply ih
      simpa [hv] using h
    | _ => simp [valueAt] at h

/-! ## Combining two tables -/

/-- The new value of a key whose old value is `old`, when `value` comes in. -/
def combined (old : Option Json) : Json → Except PyErr Json
  | .dict value => combine_permissions (old.getD (.dict [])) value
  | value => .ok (old.elim value (·.or value))

/-- A round of the loop writes one key of an object. -/
theorem combine_entry_dict (kvs : List (String × Json)) (key : String) (value : Json) :
    combine_entry (.dict kvs) key value =
      (fun w => .dict (Assoc.set kvs key w)) <$> combined (Assoc.get? kvs key) value := by
  cases value with
  | dict value =>
    cases hget : Assoc.get? kvs key with
    | none =>
      simp only [combine_entry, combined, addObject, hasKey_dict, hget, setItem_dict, bind,
        Except.bind, Option.isSome_none, Bool.false_eq_true, if_false, Option.getD_none,
        item_dict (Assoc.get?_set_self kvs key _)]
      cases combine_permissions (.dict []) value with
      | error e => rfl
      | ok w => simp [Functor.map, Except.map, Assoc.set_set]
    | some old =>
      simp only [combine_entry, combined, addObject, hasKey_dict, hget, bind, Except.bind,
        Option.isSome_some, if_true, Option.getD_some, item_dict hget]
      cases combine_permissions old value with
      | error e => rfl
      | ok w => simp [Functor.map, Except.map]
  | _ =>
    cases hget : Assoc.get? kvs key with
    | none =>
      simp [combine_entry, addValue, combined, hget, bind, Except.bind, Functor.map, Except.map]
    | some old =>
      simp [combine_entry, addValue, combined, hget, item_dict hget, bind, Except.bind, Functor.map,
        Except.map]

/-- What is no object takes up nothing, whether or not it has the key. -/
theorem combine_permissions_error {j : Json} (h : j.isDict = false) (e : String × Json)
    (group_permissions : List (String × Json)) :
    combine_permissions j (e :: group_permissions) = .error .typeError := by
  obtain ⟨key, value⟩ := e
  have hkey : (∃ b, j.hasKey key = .ok b) ∨ j.hasKey key = .error .typeError := by
    cases j <;> simp [hasKey]
  have hobject : addObject j key = .ok j ∨ addObject j key = .error .typeError := by
    obtain ⟨⟨⟩ | _, hb⟩ | hb := hkey <;> simp [addObject, hb, setItem_error h, bind, Except.bind]
  have hentry : combine_entry j key value = .error .typeError := by
    cases value with
    | dict value =>
      obtain hj | hj := hobject <;> simp [combine_entry, hj, item_error h, bind, Except.bind]
    | _ =>
      obtain ⟨⟨⟩ | _, hb⟩ | hb := hkey <;>
        simp [combine_entry, addValue, hb, item_error h, setItem_error h, bind, Except.bind]
  simp [combine_permissions, hentry, bind, Except.bind]

/-- **What the loop returns**: an object in which the keys of the incoming table have their new
values and the other keys their old ones. -/
theorem combine_permissions_dict {kvs es : List (String × Json)} (hd : (Assoc.keys es).Nodup)
    {r : Json} (h : combine_permissions (.dict kvs) es = .ok r) :
    ∃ kvs', r = .dict kvs' ∧
      (∀ k v, Assoc.get? es k = some v →
        ∃ w, combined (Assoc.get? kvs k) v = .ok w ∧ Assoc.get? kvs' k = some w) ∧
      ∀ k, Assoc.get? es k = none → Assoc.get? kvs' k = Assoc.get? kvs k := by
  induction es generalizing kvs with
  | nil =>
    simp only [combine_permissions, Except.ok.injEq] at h
    subst h
    exact ⟨kvs, rfl, by simp, by simp⟩
  | cons e es ih =>
    obtain ⟨key, value⟩ := e
    rw [Assoc.keys_cons, List.nodup_cons] at hd
    rw [combine_permissions, combine_entry_dict] at h
    obtain ⟨_, hentry, h⟩ := bind_eq_ok.mp h
    obtain ⟨w, hw, rfl⟩ := map_eq_ok.mp hentry
    obtain ⟨kvs', rfl, hsome, hnone⟩ := ih hd.2 h
    have hkey := (Assoc.get?_eq_none_iff es key).mpr hd.1
    refine ⟨kvs', rfl, fun k v hv => ?_, fun k hk => ?_⟩
    · by_cases hne : key = k
      · subst hne
        rw [Assoc.get?_cons_self, Option.some.injEq] at hv
        subst hv
        exact ⟨w, hw, by rw [hnone key hkey, Assoc.get?_set_self]⟩
      · rw [Assoc.get?_cons_ne hne] at hv
        have hold := hsome k v hv
        rwa [Assoc.get?_set_ne _ (Ne.symm hne)] at hold
    · by_cases hne : key = k
      · subst hne
        simp at hk
      · rw [Assoc.get?_cons_ne hne] at hk
        rw [hnone k hk, Assoc.get?_set_ne _ (Ne.symm hne)]

/-- It returns when every key has a new value. -/
theorem exists_combine_permissions {kvs es : List (String × Json)} (hd : (Assoc.keys es).Nodup)
    (h : ∀ k v, Assoc.get? es k = some v → ∃ w, combined (Assoc.get? kvs k) v = .ok w) :
    ∃ r, combine_permissions (.dict kvs) es = .ok r := by
  induction es generalizing kvs with
  | nil => exact ⟨_, rfl⟩
  | cons e es ih =>
    obtain ⟨key, value⟩ := e
    rw [Assoc.keys_cons, List.nodup_cons] at hd
    obtain ⟨w, hw⟩ := h key value (Assoc.get?_cons_self _ _ _)
    have hrest : ∀ k v, Assoc.get? es k = some v →
        ∃ w', combined (Assoc.get? (Assoc.set kvs key w) k) v = .ok w' := by
      intro k v hv
      have hne : key ≠ k := by
        rintro rfl
        rw [(Assoc.get?_eq_none_iff es key).mpr hd.1] at hv
        cases hv
      rw [Assoc.get?_set_ne _ (Ne.symm hne)]
      exact h k v (by rwa [Assoc.get?_cons_ne hne])
    obtain ⟨r, hr⟩ := ih hd.2 hrest
    refine ⟨r, ?_⟩
    rw [combine_permissions, combine_entry_dict, hw]
    exact hr

/-- `value` fits over `old`: no object with a key comes where something is that is no object. -/
def Fits (old : Option Json) (value : Json) : Prop :=
  ∀ path, value.shapeAt path = some true → old.bind (·.shapeAt path) ≠ some false

/-- Over an object or nothing, an object fits when the values of its keys do. -/
theorem fits_dict {old : Option Json} {kvs es : List (String × Json)}
    (hold : old.getD (.dict []) = .dict kvs) :
    Fits old (.dict es) ↔ ∀ k v, Assoc.get? es k = some v → Fits (Assoc.get? kvs k) v := by
  have hcons : ∀ k path, old.bind (·.shapeAt (k :: path)) =
      (Assoc.get? kvs k).bind (·.shapeAt path) := by
    intro k path
    cases old with
    | none =>
      obtain rfl : [] = kvs := by simpa using hold
      rfl
    | some j =>
      obtain rfl : j = .dict kvs := hold
      simp
  constructor
  · intro h k v hv path hpath
    rw [← hcons]
    exact h (k :: path) (by simpa [hv] using hpath)
  · intro h path hpath
    cases path with
    | nil =>
      cases old with
      | none => simp
      | some j =>
        obtain rfl : j = .dict kvs := hold
        simp [shape_eq_some_false, isDict]
    | cons k path =>
      rw [shapeAt_dict_cons] at hpath
      obtain ⟨v, hv, hpath⟩ := Option.bind_eq_some_iff.mp hpath
      rw [hcons]
      exact h k v hv path hpath

/-- What is no object fits over everything. -/
theorem fits_of_not_dict {v : Json} (hv : v.isDict = false) (old : Option Json) : Fits old v := by
  intro path hpath
  cases path with
  | nil => simp [shape_of_not_dict hv] at hpath
  | cons k path => simp [shapeAt_cons_of_not_dict hv] at hpath

/-- The old value is an object or nothing, or something that is no object. -/
theorem old_cases (old : Option Json) :
    (∃ kvs, old.getD (.dict []) = .dict kvs) ∨ ∃ j, old = some j ∧ j.isDict = false := by
  cases old with
  | none => exact .inl ⟨[], rfl⟩
  | some j =>
    cases hj : j.isDict with
    | true => exact .inl (isDict_eq_true.mp hj)
    | false => exact .inr ⟨j, rfl, hj⟩

/-- Into what is no object only `{}` goes, and changes nothing. -/
theorem combined_not_dict {j : Json} (hj : j.isDict = false) {es : List (String × Json)}
    {w : Json} :
    combined (some j) (.dict es) = .ok w ↔ es = [] ∧ w = j := by
  cases es with
  | nil => simp [combined, combine_permissions, eq_comm]
  | cons e es => simp [combined, combine_permissions_error hj]

/-- **When a key has a new value**: when the value that comes in fits over the old one. -/
theorem exists_combined_iff {v : Json} (hwf : v.WellFormed) (old : Option Json) :
    (∃ w, combined old v = .ok w) ↔ Fits old v := by
  induction v generalizing old with
  | dict es ih =>
    obtain ⟨kvs, hacc⟩ | ⟨j, rfl, hj⟩ := old_cases old
    · rw [fits_dict hacc]
      simp only [combined, hacc]
      constructor
      · rintro ⟨r, hr⟩ k v hv
        obtain ⟨kvs', -, hsome, -⟩ := combine_permissions_dict hwf.nodup_keys hr
        obtain ⟨w, hw, -⟩ := hsome k v hv
        exact (ih _ (Assoc.mem_of_get? hv) (hwf.of_get? hv) _).mp ⟨w, hw⟩
      · intro h
        apply exists_combine_permissions hwf.nodup_keys
        intro k v hv
        exact (ih _ (Assoc.mem_of_get? hv) (hwf.of_get? hv) _).mpr (h k v hv)
    · simp only [combined_not_dict hj, exists_and_left, exists_eq, and_true]
      constructor
      · rintro rfl path hpath
        cases path <;> simp [shape] at hpath
      · intro h
        by_contra hes
        obtain ⟨e, es, rfl⟩ := List.exists_cons_of_ne_nil hes
        exact h [] (by simp [shape]) (by simp [shape_of_not_dict hj])
  | _ => exact ⟨fun _ => fits_of_not_dict rfl old, fun _ => ⟨_, rfl⟩⟩

/-- An object that took up another one is empty when both were. -/
theorem combined_eq_nil_iff {kvs es kvs' : List (String × Json)}
    (hsome : ∀ k v, Assoc.get? es k = some v →
      ∃ w, combined (Assoc.get? kvs k) v = .ok w ∧ Assoc.get? kvs' k = some w)
    (hnone : ∀ k, Assoc.get? es k = none → Assoc.get? kvs' k = Assoc.get? kvs k) :
    kvs' = [] ↔ kvs = [] ∧ es = [] := by
  simp only [Assoc.eq_nil_iff]
  constructor
  · intro h
    have hes : ∀ k, Assoc.get? es k = none := by
      intro k
      by_contra hk
      obtain ⟨v, hv⟩ := Option.ne_none_iff_exists'.mp hk
      obtain ⟨w, -, hw⟩ := hsome k v hv
      rw [h k] at hw
      cases hw
    exact ⟨fun k => by rw [← hnone k (hes k), h k], hes⟩
  · rintro ⟨hkvs, hes⟩ k
    rw [hnone k (hes k), hkvs k]

/-- What is read along a path through an object is read of the value of its key. -/
def ThroughKeys {α : Type} (read : Json → List String → Option α) : Prop :=
  ∀ kvs k path, read (.dict kvs) (k :: path) = (Assoc.get? kvs k).bind (read · path)

/-- Where each new value reads as the combination `m` of the old and the incoming one, so does the
object below any of its keys. -/
theorem read_combined {α : Type} {read : Json → List String → Option α} (hread : ThroughKeys read)
    {m : Option α → Option α → Option α} (hm : ∀ x, m x none = x) {old : Option Json}
    {kvs es kvs' : List (String × Json)} (hacc : old.getD (.dict []) = .dict kvs)
    (hsome : ∀ k v, Assoc.get? es k = some v →
      ∃ w, combined (Assoc.get? kvs k) v = .ok w ∧ Assoc.get? kvs' k = some w)
    (hnone : ∀ k, Assoc.get? es k = none → Assoc.get? kvs' k = Assoc.get? kvs k) {k : String}
    {path : List String}
    (ih : ∀ v w, Assoc.get? es k = some v → combined (Assoc.get? kvs k) v = .ok w →
      read w path = m ((Assoc.get? kvs k).bind (read · path)) (read v path)) :
    read (.dict kvs') (k :: path) =
      m (old.bind (read · (k :: path))) (read (.dict es) (k :: path)) := by
  have hold : old.bind (read · (k :: path)) = (Assoc.get? kvs k).bind (read · path) := by
    cases old with
    | none =>
      obtain rfl : [] = kvs := by simpa using hacc
      rfl
    | some j =>
      obtain rfl : j = .dict kvs := hacc
      exact hread kvs k path
  rw [hold, hread, hread]
  cases hv : Assoc.get? es k with
  | none => rw [hnone k hv, Option.bind_none, hm]
  | some v =>
    obtain ⟨w, hw, hget⟩ := hsome k v hv
    rw [hget, Option.bind_some, Option.bind_some]
    exact ih v w hv hw

/-- **The truth along paths after a combination**: the disjunction of the two, where both have a
value. -/
theorem truthAt_combined {v : Json} (hwf : v.WellFormed) {old : Option Json} {w : Json}
    (h : combined old v = .ok w) (path : List String) :
    w.truthAt path = Option.merge (· || ·) (old.bind (·.truthAt path)) (v.truthAt path) := by
  induction v generalizing old w path with
  | dict es ih =>
    obtain ⟨kvs, hacc⟩ | ⟨j, rfl, hj⟩ := old_cases old
    · simp only [combined, hacc] at h
      obtain ⟨kvs', rfl, hsome, hnone⟩ := combine_permissions_dict hwf.nodup_keys h
      cases path with
      | nil =>
        have hnil := combined_eq_nil_iff hsome hnone
        cases old with
        | none =>
          obtain rfl : [] = kvs := by simpa using hacc
          simp [hnil]
        | some j =>
          obtain rfl : j = .dict kvs := hacc
          simp [hnil, not_and_or]
      | cons k path =>
        exact read_combined truthAt_dict_cons (by simp) hacc hsome hnone fun v w hv hw =>
          ih _ (Assoc.mem_of_get? hv) (hwf.of_get? hv) hw path
    · obtain ⟨rfl, rfl⟩ := (combined_not_dict hj).mp h
      cases path <;> simp
  | _ =>
    obtain rfl := Except.ok.inj h
    cases old with
    | none => simp
    | some j =>
      cases path with
      | nil => cases hj : j.truthy <;> simp [Json.or, hj]
      | cons k path =>
        cases hj : j.truthy with
        | true => simp [Json.or, hj, truthAt, valueAt]
        | false => simp [Json.or, hj, truthAt, valueAt_cons_of_falsy hj, valueAt]

/-- `j or v` is `j` where `j` is true, and where `j` is false it is no object or `{}`. -/
theorem shape_or {v : Json} (hv : v.isDict = false) (j : Json) :
    (j.or v).shape = j.shape.or v.shape := by
  cases hj : j.isDict with
  | true =>
    obtain ⟨kvs, rfl⟩ := isDict_eq_true.mp hj
    cases kvs <;> simp [Json.or, shape, shape_of_not_dict hv]
  | false =>
    rw [Json.or, shape_of_not_dict hj, Option.some_or]
    split
    · exact shape_of_not_dict hj
    · exact shape_of_not_dict hv

/-- **The shape along paths after a combination**: that of the old value, or else that of the
incoming one. -/
theorem shapeAt_combined {v : Json} (hwf : v.WellFormed) {old : Option Json} {w : Json}
    (h : combined old v = .ok w) (path : List String) :
    w.shapeAt path = (old.bind (·.shapeAt path)).or (v.shapeAt path) := by
  induction v generalizing old w path with
  | dict es ih =>
    obtain ⟨kvs, hacc⟩ | ⟨j, rfl, hj⟩ := old_cases old
    · simp only [combined, hacc] at h
      obtain ⟨kvs', rfl, hsome, hnone⟩ := combine_permissions_dict hwf.nodup_keys h
      cases path with
      | nil =>
        have hnil := combined_eq_nil_iff hsome hnone
        have hshape : ∀ d : List (String × Json),
            (Json.dict d).shape = if d = [] then none else some true := by
          intro d
          cases d <;> simp [shape]
        cases old with
        | none =>
          obtain rfl : [] = kvs := by simpa using hacc
          simp [hshape, hnil]
        | some j =>
          obtain rfl : j = .dict kvs := hacc
          by_cases hkvs : kvs = [] <;> simp [hshape, hnil, hkvs]
      | cons k path =>
        exact read_combined shapeAt_dict_cons (by simp) hacc hsome hnone fun v w hv hw =>
          ih _ (Assoc.mem_of_get? hv) (hwf.of_get? hv) hw path
    · obtain ⟨rfl, rfl⟩ := (combined_not_dict hj).mp h
      cases path <;> simp [shape_of_not_dict hj, shape]
  | _ =>
    obtain rfl := Except.ok.inj h
    cases old with
    | none => simp
    | some j =>
      cases path with
      | nil => simpa using shape_or rfl j
      | cons k path =>
        cases hj : j.truthy with
        | true => simp [Json.or, hj, shapeAt, valueAt]
        | false => simp [Json.or, hj, shapeAt, valueAt_cons_of_falsy hj, valueAt]

/-! ## Combining the tables of all groups -/

/-- **No table clashes with the ones before it**: nowhere does a table have an object with keys
where the first of the earlier tables to have anything but `{}` has a value that is no object. -/
def NoClash (tables : List Json) : Prop :=
  ∀ earlier t later, tables = earlier ++ t :: later →
    ∀ path, t.shapeAt path = some true → earlier.findSome? (·.shapeAt path) ≠ some false

theorem findSome?_cons_or {α β : Type} (f : α → Option β) (a : α) (as : List α) :
    (a :: as).findSome? f = (f a).or (as.findSome? f) := by
  rw [List.findSome?_cons]
  cases f a <;> rfl

/-- Two tables in front stand for their combination. -/
theorem noClash_cons_cons {acc t w : Json} {ts : List Json}
    (hw : ∀ path, w.shapeAt path = (acc.shapeAt path).or (t.shapeAt path)) :
    NoClash (acc :: t :: ts) ↔ Fits (some acc) t ∧ NoClash (w :: ts) := by
  have hfind : ∀ (es : List Json) (path : List String),
      (w :: es).findSome? (·.shapeAt path) = (acc :: t :: es).findSome? (·.shapeAt path) := by
    intro es path
    simp only [findSome?_cons_or, hw, Option.or_assoc]
  constructor
  · refine fun h => ⟨fun path hpath => ?_, fun earlier u later hsplit path hpath => ?_⟩
    · simpa [findSome?_cons_or] using h [acc] t ts rfl path hpath
    · cases earlier with
      | nil => simp
      | cons e earlier =>
        obtain ⟨rfl, rfl⟩ := List.cons.inj hsplit
        rw [hfind]
        exact h (acc :: t :: earlier) u later rfl path hpath
  · rintro ⟨hfits, h⟩ earlier u later hsplit path hpath
    match earlier with
    | [] => simp
    | [e] =>
      simp only [List.cons_append, List.nil_append, List.cons.injEq] at hsplit
      obtain ⟨rfl, rfl, rfl⟩ := hsplit
      simpa [findSome?_cons_or] using hfits path hpath
    | e :: e' :: earlier =>
      simp only [List.cons_append, List.cons.injEq] at hsplit
      obtain ⟨rfl, rfl, rfl⟩ := hsplit
      rw [← hfind]
      exact h (w :: earlier) u later rfl path hpath

/-- The tables of a user: the defaults, then those of the groups. -/
def tables (default_permissions : PermissionTable) (user_groups : List Group) : List Json :=
  default_permissions.json :: user_groups.map fun g => g.table.json

/-- Combining goes through when no table clashes with the ones before it. -/
theorem exists_combineGroups_iff (acc : Json) (user_groups : List Group) :
    (∃ r, combineGroups acc user_groups = .ok r) ↔
      NoClash (acc :: user_groups.map fun g => g.table.json) := by
  induction user_groups generalizing acc with
  | nil =>
    refine ⟨fun _ earlier t later hsplit path _ => ?_, fun _ => ⟨_, rfl⟩⟩
    cases earlier with
    | nil => simp
    | cons e earlier => simp at hsplit
  | cons g gs ih =>
    have hstep : (∃ w, combined (some acc) g.table.json = .ok w) ↔ Fits (some acc) g.table.json :=
      exists_combined_iff g.table.wellFormed (some acc)
    have hshape : ∀ w, combined (some acc) g.table.json = .ok w →
        ∀ path, w.shapeAt path = (acc.shapeAt path).or (g.table.json.shapeAt path) :=
      fun w hw => shapeAt_combined g.table.wellFormed hw
    rw [List.map_cons]
    constructor
    · rintro ⟨r, hr⟩
      obtain ⟨w, hw, hr⟩ := bind_eq_ok.mp hr
      rw [noClash_cons_cons (hshape w hw)]
      exact ⟨hstep.mp ⟨w, hw⟩, (ih w).mp ⟨r, hr⟩⟩
    · intro h
      have hfits : Fits (some acc) g.table.json := fun path hpath => by
        simpa [findSome?_cons_or] using h [acc] _ _ rfl path hpath
      obtain ⟨w, hw⟩ := hstep.mpr hfits
      rw [noClash_cons_cons (hshape w hw)] at h
      obtain ⟨r, hr⟩ := (ih w).mpr h.2
      exact ⟨r, bind_eq_ok.mpr ⟨w, hw, hr⟩⟩

/-- The combined tables have the keys that some table has, and grant what some table grants. -/
theorem truthAt_combineGroups {acc r : Json} {user_groups : List Group}
    (h : combineGroups acc user_groups = .ok r) (path : List String) :
    ((r.truthAt path).isSome ↔
      ∃ t ∈ acc :: user_groups.map fun g => g.table.json, (t.truthAt path).isSome) ∧
    (r.truthAt path = some true ↔
      ∃ t ∈ acc :: user_groups.map fun g => g.table.json, t.truthAt path = some true) := by
  induction user_groups generalizing acc with
  | nil =>
    obtain rfl := Except.ok.inj h
    simp
  | cons g gs ih =>
    obtain ⟨w, hw, h⟩ := bind_eq_ok.mp h
    have hcombined : combined (some acc) g.table.json = .ok w := hw
    have hmerge := truthAt_combined g.table.wellFormed hcombined path
    obtain ⟨hsome, htrue⟩ := ih h
    rw [hsome, htrue]
    simp only [List.exists_mem_cons_iff, List.map_cons, hmerge, Option.bind_some]
    rw [← or_assoc, ← or_assoc]
    refine ⟨or_congr ?_ Iff.rfl, or_congr ?_ Iff.rfl⟩ <;>
      simp only [PermissionTable.json] <;>
      cases acc.truthAt path <;> cases (Json.dict g.table.entries).truthAt path <;> simp

/-! ## The defaults -/

/-- The value of a key after `fill_missing_permissions`, when its defaults are `value`. -/
def filled (old : Option Json) : Json → Json
  | .dict value =>
    match old with
    | none => .dict value
    | some (.dict inner) => .dict (fill_missing_permissions inner value)
    | some j => j
  | value => old.getD value

/-- A round of the loop writes one key. -/
theorem get?_fill_entry (permissions : List (String × Json)) (key : String) (value : Json)
    (k : String) :
    Assoc.get? (fill_entry permissions key value) k =
      if k = key then some (filled (Assoc.get? permissions key) value)
      else Assoc.get? permissions k := by
  have hkeep : ∀ j, Assoc.get? permissions key = some j →
      Assoc.get? permissions k = if k = key then some j else Assoc.get? permissions k := by
    intro j hj
    split
    · subst k
      exact hj
    · rfl
  cases value with
  | dict value =>
    cases hget : Assoc.get? permissions key with
    | none => simp [fill_entry, filled, hget, Assoc.get?_set]
    | some j =>
      cases j with
      | dict inner => simp [fill_entry, filled, hget, Assoc.get?_set]
      | _ => simpa [fill_entry, filled, hget] using hkeep _ hget
  | _ =>
    cases hget : Assoc.get? permissions key with
    | none => simp [fill_entry, filled, Assoc.contains, hget, Assoc.get?_set]
    | some j => simpa [fill_entry, filled, Assoc.contains, hget] using hkeep _ hget

/-- **The value of every key after `fill_missing_permissions`.** -/
theorem get?_fill_missing_permissions {defaults : List (String × Json)}
    (hd : (Assoc.keys defaults).Nodup) (permissions : List (String × Json)) (k : String) :
    Assoc.get? (fill_missing_permissions permissions defaults) k =
      match Assoc.get? defaults k with
      | none => Assoc.get? permissions k
      | some v => some (filled (Assoc.get? permissions k) v) := by
  induction defaults generalizing permissions with
  | nil => rfl
  | cons e defaults ih =>
    obtain ⟨key, value⟩ := e
    rw [Assoc.keys_cons, List.nodup_cons] at hd
    rw [fill_missing_permissions, ih hd.2, Assoc.get?_cons, get?_fill_entry]
    by_cases hk : key = k
    · subst hk
      simp [(Assoc.get?_eq_none_iff defaults key).mpr hd.1]
    · simp [hk, Ne.symm hk]

/-- A value with everything that its defaults have is not changed by them. -/
theorem fill_entry_self {value : Json} (hwf : value.WellFormed) {permissions : List (String × Json)}
    {key : String} {w : Json} (hw : Assoc.get? permissions key = some w)
    (hall : ∀ path, (value.valueAt path).isSome → (w.valueAt path).isSome) :
    fill_entry permissions key value = permissions := by
  induction value generalizing permissions key w with
  | dict es ih =>
    cases w with
    | dict inner =>
      have hinner : ∀ es', es' ⊆ es → fill_missing_permissions inner es' = inner := by
        intro es'
        induction es' with
        | nil => exact fun _ => rfl
        | cons e es' ih' =>
          intro hsub
          rw [List.cons_subset] at hsub
          have hget := Assoc.get?_of_mem hwf.nodup_keys hsub.1
          obtain ⟨u, hu⟩ : ∃ u, Assoc.get? inner e.1 = some u := by
            simpa [Option.isSome_iff_exists, hget] using hall [e.1] (by simp [hget])
          have hentry := ih e hsub.1 (hwf.of_get? hget) hu fun path hpath => by
            simpa [hu] using hall (e.1 :: path) (by simpa [hget] using hpath)
          rw [fill_missing_permissions, hentry, ih' hsub.2]
      rw [fill_entry, hw]
      simp only [hinner es (List.Subset.refl es), Assoc.set_of_get? hw]
    | _ => simp [fill_entry, hw]
  | _ => simp [fill_entry, Assoc.contains, hw]

/-- **Filling in the defaults does nothing** to a table that has all their keys. -/
theorem fillDefaults_self {default_permissions : PermissionTable} {r : Json} (hr : r.isDict = true)
    (hall : ∀ path, (default_permissions.json.valueAt path).isSome → (r.valueAt path).isSome) :
    fillDefaults default_permissions r = r := by
  obtain ⟨kvs, rfl⟩ := isDict_eq_true.mp hr
  -- The table is the value of some key of an object around it.
  have hself := fill_entry_self default_permissions.wellFormed
    (Assoc.get?_cons_self "" (Json.dict kvs) []) hall
  simp only [fill_entry, Assoc.get?_cons_self, Assoc.set, if_true, List.cons.injEq, Prod.mk.injEq,
    true_and, and_true] at hself
  exact hself

/-- Combining tables gives an object. -/
theorem isDict_combineGroups {acc r : Json} {user_groups : List Group} (hacc : acc.isDict = true)
    (h : combineGroups acc user_groups = .ok r) : r.isDict = true := by
  induction user_groups generalizing acc with
  | nil =>
    obtain rfl := Except.ok.inj h
    exact hacc
  | cons g gs ih =>
    obtain ⟨w, hw, h⟩ := bind_eq_ok.mp h
    obtain ⟨kvs, rfl⟩ := isDict_eq_true.mp hacc
    obtain ⟨kvs', rfl, -⟩ := combine_permissions_dict g.table.wellFormed.nodup_keys hw
    exact ih rfl h

/-- **What `get_permissions` returns** is the combination of the tables: its last step does
nothing. -/
theorem get_permissions_eq (user_groups : List Group) (default_permissions : PermissionTable) :
    get_permissions user_groups default_permissions =
      combineGroups default_permissions.json user_groups := by
  rw [get_permissions]
  cases h : combineGroups default_permissions.json user_groups with
  | error e => rfl
  | ok r =>
    have hself : fillDefaults default_permissions r = r := by
      refine fillDefaults_self (isDict_combineGroups rfl h) fun path hpath => ?_
      have hsome := (truthAt_combineGroups h path).1
      simp only [truthAt, Option.isSome_map] at hsome
      exact hsome.mpr ⟨_, List.mem_cons_self, hpath⟩
    exact congrArg Except.ok hself

/-! ## The two readings of a key -/

/-- The list of keys names a leaf of the table: a value that is no object. -/
def NamesLeaf (t : PermissionTable) (keys : List String) : Prop :=
  ∃ v, t.json.valueAt keys = some v ∧ v.isDict = false

/-- The table has the key. -/
def Has (t : PermissionTable) (keys : List String) : Prop := (t.json.valueAt keys).isSome

/-- The table grants the key: its value is true. -/
def Grants (t : PermissionTable) (keys : List String) : Prop := t.json.truthAt keys = some true

/-- A key that the configured table has keeps its value when the built-in table fills it up, unless
both have an object there. -/
theorem valueAt_filled_of_has {permissions defaults : List (String × Json)}
    (hwf : (Json.dict defaults).WellFormed) {keys : List String} {v : Json}
    (hv : (Json.dict permissions).valueAt keys = some v)
    (hleaf : v.isDict = false ∨
      ∃ u, (Json.dict defaults).valueAt keys = some u ∧ u.isDict = false) :
    (Json.dict (fill_missing_permissions permissions defaults)).valueAt keys = some v := by
  induction keys generalizing permissions defaults with
  | nil =>
    obtain rfl := Option.some.inj hv
    obtain h | ⟨u, hu, h⟩ := hleaf
    · cases h
    · obtain rfl := Option.some.inj hu
      cases h
  | cons k keys ih =>
    rw [valueAt_dict_cons] at hv ⊢
    obtain ⟨d, hd, hv⟩ := Option.bind_eq_some_iff.mp hv
    rw [get?_fill_missing_permissions hwf.nodup_keys, hd]
    cases ht : Assoc.get? defaults k with
    | none => exact hv
    | some t =>
      rw [valueAt_dict_cons, ht, Option.bind_some] at hleaf
      cases t with
      | dict value =>
        cases d with
        | dict inner => exact ih (hwf.of_get? ht) hv hleaf
        | _ => exact hv
      | _ => exact hv

/-- A leaf of the built-in table that the configured one lacks comes from the built-in one, unless a
value that is no object is in the way. -/
theorem valueAt_filled_of_lacks {permissions defaults : List (String × Json)}
    (hwf : (Json.dict defaults).WellFormed) {keys : List String} {u : Json}
    (hv : (Json.dict permissions).valueAt keys = none)
    (hu : (Json.dict defaults).valueAt keys = some u)
    (hopen : ∀ path rest, keys = path ++ rest →
      (Json.dict permissions).shapeAt path ≠ some false) :
    (Json.dict (fill_missing_permissions permissions defaults)).valueAt keys = some u := by
  induction keys generalizing permissions defaults with
  | nil => cases hv
  | cons k keys ih =>
    rw [valueAt_dict_cons] at hu ⊢
    obtain ⟨t, ht, hu⟩ := Option.bind_eq_some_iff.mp hu
    rw [get?_fill_missing_permissions hwf.nodup_keys, ht]
    cases hd : Assoc.get? permissions k with
    | none => cases t <;> exact hu
    | some d =>
      rw [valueAt_dict_cons, hd, Option.bind_some] at hv
      have hnot : d.isDict = true := by
        by_contra hd'
        rw [Bool.not_eq_true] at hd'
        exact hopen [k] keys rfl (by simp [hd, shape_of_not_dict hd'])
      obtain ⟨inner, rfl⟩ := isDict_eq_true.mp hnot
      cases t with
      | dict value =>
        refine ih (hwf.of_get? ht) hv hu fun path rest hpath => ?_
        have hold := hopen (k :: path) rest (by rw [hpath]; rfl)
        simpa [hd] using hold
      | _ =>
        cases keys with
        | nil => cases hv
        | cons k' keys => cases hu

/-- The groups can be asked for the keys, up to the first one that grants them. -/
def GroupsLookUp (user_groups : List Group) (keys : List String) : Prop :=
  ∀ earlier g later, user_groups = earlier ++ g :: later →
    (∀ e ∈ earlier, ¬ Grants e.table keys) → CanFollow g.table.json keys

theorem groupsLookUp_cons {g : Group} {gs : List Group} {keys : List String} :
    GroupsLookUp (g :: gs) keys ↔
      CanFollow g.table.json keys ∧ (¬ Grants g.table keys → GroupsLookUp gs keys) := by
  constructor
  · refine fun h => ⟨h [] g gs rfl (by simp), fun hg earlier u later hsplit hall => ?_⟩
    refine h (g :: earlier) u later (by rw [hsplit]; rfl) ?_
    exact List.forall_mem_cons.mpr ⟨hg, hall⟩
  · rintro ⟨hg, h⟩ earlier u later hsplit hall
    cases earlier with
    | nil =>
      obtain ⟨rfl, -⟩ := List.cons.inj hsplit
      exact hg
    | cons e earlier =>
      obtain ⟨rfl, hrest⟩ := List.cons.inj hsplit
      rw [List.forall_mem_cons] at hall
      exact h hall.1 earlier u later hrest hall.2

/-- **What the loop of `has_permission` returns**: whether some group grants the keys. -/
theorem anyGroupGrants_eq_ok {keys : List String} {user_groups : List Group} {b : Bool} :
    anyGroupGrants keys user_groups = .ok b ↔
      GroupsLookUp user_groups keys ∧ (b = true ↔ ∃ g ∈ user_groups, Grants g.table keys) := by
  induction user_groups with
  | nil =>
    have hnil : GroupsLookUp [] keys := fun earlier g later hsplit => by simp at hsplit
    cases b <;> simp [anyGroupGrants, hnil]
  | cons g gs ih =>
    rw [anyGroupGrants, groupsLookUp_cons]
    simp only [List.exists_mem_cons_iff]
    by_cases hg : Grants g.table keys
    · have hget : get_permission g.table.json keys = .ok true ↔ CanFollow g.table.json keys := by
        rw [get_permission_eq_ok, hg]
        simp
      constructor
      · intro h
        obtain ⟨c, hc, h⟩ := bind_eq_ok.mp h
        obtain ⟨hfollow, rfl⟩ := get_permission_eq_ok.mp hc
        rw [hg] at h
        obtain rfl := Except.ok.inj h
        exact ⟨⟨hfollow, fun hn => absurd hg hn⟩, by simp [hg]⟩
      · rintro ⟨⟨hfollow, -⟩, hb⟩
        obtain rfl : b = true := hb.mpr (.inl hg)
        exact bind_eq_ok.mpr ⟨true, hget.mpr hfollow, rfl⟩
    · have hfalse : (g.table.json.truthAt keys).getD false = false := by
        rw [Grants] at hg
        cases h : g.table.json.truthAt keys with
        | none => rfl
        | some c => cases c <;> simp_all
      simp only [hg, false_or, not_false_eq_true, forall_const]
      constructor
      · intro h
        obtain ⟨c, hc, h⟩ := bind_eq_ok.mp h
        obtain ⟨hfollow, rfl⟩ := get_permission_eq_ok.mp hc
        rw [hfalse] at h
        obtain ⟨hlook, hb⟩ := ih.mp h
        exact ⟨⟨hfollow, hlook⟩, hb⟩
      · rintro ⟨⟨hfollow, hlook⟩, hb⟩
        refine bind_eq_ok.mpr ⟨false, get_permission_eq_ok.mpr ⟨hfollow, hfalse⟩, ?_⟩
        exact ih.mpr ⟨hlook, hb⟩

/-- A value below an object of the table shows that the object has a key. -/
theorem shapeAt_of_valueAt_append {j : Json} {path : List String} {k : String} {rest : List String}
    (h : (j.valueAt (path ++ k :: rest)).isSome) : j.shapeAt path = some true := by
  induction path generalizing j with
  | nil =>
    cases j with
    | dict kvs =>
      cases kvs with
      | nil => simp at h
      | cons e kvs => simp [shape]
    | _ => simp [valueAt] at h
  | cons k' path ih =>
    cases j with
    | dict kvs =>
      rw [List.cons_append, valueAt_dict_cons] at h
      rw [shapeAt_dict_cons]
      cases hget : Assoc.get? kvs k' with
      | none => simp [hget] at h
      | some v => exact ih (by simpa [hget] using h)
    | _ => simp [valueAt] at h

section Agreement

variable {DEFAULT_USER_PERMISSIONS default_permissions : PermissionTable}
  {user_groups : List Group} {keys : List String}

/-- Without a clash nothing in the configured table is in the way of a key that some group has. -/
theorem shapeAt_ne_some_false (hclash : NoClash (tables default_permissions user_groups))
    (hdefault : ¬ Has default_permissions keys) (hgroup : ∃ g ∈ user_groups, Has g.table keys)
    (path rest : List String) (hkeys : keys = path ++ rest) :
    default_permissions.json.shapeAt path ≠ some false := by
  intro hshape
  obtain ⟨v, hv, hshape'⟩ := Option.bind_eq_some_iff.mp hshape
  obtain ⟨g, hg, hhas⟩ := hgroup
  cases rest with
  | nil =>
    rw [List.append_nil] at hkeys
    exact hdefault (by rw [Has, hkeys, hv]; rfl)
  | cons k rest =>
    rw [Has, hkeys] at hhas
    obtain ⟨before, after, hsplit⟩ := List.append_of_mem hg
    refine hclash (default_permissions.json :: before.map fun g => g.table.json) g.table.json
      (after.map fun g => g.table.json) ?_ path (shapeAt_of_valueAt_append hhas) ?_
    · simp [tables, hsplit]
    · rw [findSome?_cons_or, hshape, Option.some_or]

/-- **What the filled-up defaults say** about a key that names a leaf: the value in the configured
table, or else the one in the built-in table. -/
theorem exists_valueAt_filled (hclash : NoClash (tables default_permissions user_groups))
    (hkey : NamesLeaf default_permissions keys ∨ NamesLeaf DEFAULT_USER_PERMISSIONS keys)
    (hhas : Has default_permissions keys ∨ ∃ g ∈ user_groups, Has g.table keys) :
    ∃ v, (Json.dict (fill_missing_permissions default_permissions.entries
        DEFAULT_USER_PERMISSIONS.entries)).valueAt keys = some v ∧
      (Has default_permissions keys → default_permissions.json.valueAt keys = some v) ∧
      (¬ Has default_permissions keys → DEFAULT_USER_PERMISSIONS.json.valueAt keys = some v) := by
  by_cases hdefault : Has default_permissions keys
  · obtain ⟨v, hv⟩ := Option.isSome_iff_exists.mp hdefault
    refine ⟨v, valueAt_filled_of_has DEFAULT_USER_PERMISSIONS.wellFormed hv ?_, fun _ => hv,
      fun h => absurd hdefault h⟩
    obtain ⟨v', hv', hleaf⟩ | hleaf := hkey
    · rw [hv, Option.some.injEq] at hv'
      exact .inl (hv' ▸ hleaf)
    · exact .inr hleaf
  · obtain ⟨u, hu, -⟩ : NamesLeaf DEFAULT_USER_PERMISSIONS keys := by
      obtain ⟨v, hv, -⟩ | h := hkey
      · exact absurd (by rw [Has, hv]; rfl) hdefault
      · exact h
    have hgroup := hhas.resolve_left hdefault
    refine ⟨u, ?_, fun h => absurd h hdefault, fun _ => hu⟩
    exact valueAt_filled_of_lacks DEFAULT_USER_PERMISSIONS.wellFormed
      (Option.not_isSome_iff_eq_none.mp hdefault) hu
      (shapeAt_ne_some_false hclash hdefault hgroup)

/-- What `has_permission` returns, from the groups and the filled-up defaults. -/
theorem has_permission_eq_ok {key : String} {b : Bool} :
    has_permission DEFAULT_USER_PERMISSIONS user_groups key default_permissions = .ok b ↔
      GroupsLookUp user_groups (permissionHierarchy key) ∧
        ((∃ g ∈ user_groups, Grants g.table (permissionHierarchy key)) ∧ b = true ∨
          (¬ ∃ g ∈ user_groups, Grants g.table (permissionHierarchy key)) ∧
          get_permission (.dict (fill_missing_permissions default_permissions.entries
            DEFAULT_USER_PERMISSIONS.entries)) (permissionHierarchy key) = .ok b) := by
  constructor
  · intro h
    obtain ⟨c, hc, h⟩ := bind_eq_ok.mp h
    obtain ⟨hlook, hb⟩ := anyGroupGrants_eq_ok.mp hc
    refine ⟨hlook, ?_⟩
    cases c with
    | true => exact .inl ⟨hb.mp rfl, (Except.ok.inj h).symm⟩
    | false => exact .inr ⟨fun hgrants => Bool.false_ne_true (hb.mpr hgrants), h⟩
  · rintro ⟨hlook, ⟨hgrants, rfl⟩ | ⟨hgrants, h⟩⟩
    · exact bind_eq_ok.mpr ⟨true, anyGroupGrants_eq_ok.mpr ⟨hlook, by simpa using hgrants⟩, rfl⟩
    · exact bind_eq_ok.mpr ⟨false, anyGroupGrants_eq_ok.mpr ⟨hlook, by simpa using hgrants⟩, h⟩

end Agreement

/-- **The point query and the merged table agree about a key**: both return, the merged table has
the key, and its value there is as true as the answer of the query. -/
def PermissionsAgree (DEFAULT_USER_PERMISSIONS : PermissionTable) (user_groups : List Group)
    (key : String) (default_permissions : PermissionTable) : Prop :=
  ∃ permissions v, get_permissions user_groups default_permissions = .ok permissions ∧
    permissions.valueAt (permissionHierarchy key) = some v ∧
    has_permission DEFAULT_USER_PERMISSIONS user_groups key default_permissions = .ok v.truthy

/-- The table with one key of the section `workspace`. -/
def modelsTable (b : Bool) : PermissionTable where
  entries := [("workspace", .dict [("models", .bool b)])]
  wellFormed := by
    refine .dict (by simp) ?_
    simp only [List.mem_singleton, forall_eq]
    exact .dict (by simp) (by simpa using .bool b)

/-- A table whose section `workspace` is a flag. -/
def workspaceFlag : PermissionTable where
  entries := [("workspace", .bool true)]
  wellFormed := .dict (by simp) (by simpa using .bool true)

/-- **Two disagreements.** A group with a flag for the whole section makes the point query raise,
while the merged table is fine; and a key that the configured table lacks has the built-in value in
the point query and none in the merged table. -/
theorem workspaceFlag_disagrees :
    NamesLeaf (modelsTable false) (permissionHierarchy "workspace.models") ∧
    get_permissions [⟨"g", some workspaceFlag⟩] (modelsTable false) =
      .ok (modelsTable false).json ∧
    has_permission (modelsTable false) [⟨"g", some workspaceFlag⟩] "workspace.models"
      (modelsTable false) = .error .typeError ∧
    ¬ PermissionsAgree (modelsTable false) [⟨"g", some workspaceFlag⟩] "workspace.models"
      (modelsTable false) ∧
    NamesLeaf (modelsTable true) (permissionHierarchy "workspace.models") ∧
    get_permissions [] .empty = .ok PermissionTable.empty.json ∧
    has_permission (modelsTable true) [] "workspace.models" .empty = .ok true ∧
    ¬ PermissionsAgree (modelsTable true) [] "workspace.models" .empty := by
  have hraises : has_permission (modelsTable false) [⟨"g", some workspaceFlag⟩] "workspace.models"
      (modelsTable false) = .error .typeError := by decide
  have hempty : get_permissions [] .empty = .ok PermissionTable.empty.json := rfl
  refine ⟨⟨.bool false, by decide, rfl⟩, by decide, hraises, ?_,
    ⟨.bool true, by decide, rfl⟩, hempty, by decide, ?_⟩
  · rintro ⟨permissions, v, -, -, h⟩
    rw [hraises] at h
    cases h
  · rintro ⟨permissions, v, h, hv, -⟩
    rw [hempty, Except.ok.injEq] at h
    subst h
    cases hkeys : permissionHierarchy "workspace.models" with
    | nil => exact absurd hkeys (by decide)
    | cons k keys => simp [hkeys, PermissionTable.json, PermissionTable.empty] at hv

/-- **When `has_permission` agrees with `get_permissions`** about a key that names a leaf of the
defaults, configured or built in: when no table clashes with the ones before it, the groups can be
asked for the key, and a key that the configured table lacks is in the table of some group, with a
grant unless the built-in table has none. -/
theorem permissionsAgree_iff (DEFAULT_USER_PERMISSIONS : PermissionTable)
    (user_groups : List Group) (key : String) (default_permissions : PermissionTable)
    (hkey : NamesLeaf default_permissions (permissionHierarchy key) ∨
      NamesLeaf DEFAULT_USER_PERMISSIONS (permissionHierarchy key)) :
    PermissionsAgree DEFAULT_USER_PERMISSIONS user_groups key default_permissions ↔
      NoClash (tables default_permissions user_groups) ∧
      GroupsLookUp user_groups (permissionHierarchy key) ∧
      (Has default_permissions (permissionHierarchy key) ∨
        (∃ g ∈ user_groups, Has g.table (permissionHierarchy key)) ∧
        ((∃ g ∈ user_groups, Grants g.table (permissionHierarchy key)) ∨
          ¬ Grants DEFAULT_USER_PERMISSIONS (permissionHierarchy key))) := by
  set keys := permissionHierarchy key with hkeys
  simp only [PermissionsAgree, get_permissions_eq, has_permission_eq_ok, ← hkeys]
  -- The merged table, read at the key.
  have hmerged : ∀ r, combineGroups default_permissions.json user_groups = .ok r →
      ((r.valueAt keys).isSome ↔
        Has default_permissions keys ∨ ∃ g ∈ user_groups, Has g.table keys) ∧
      (r.truthAt keys = some true ↔
        Grants default_permissions keys ∨ ∃ g ∈ user_groups, Grants g.table keys) := by
    intro r hr
    have h := truthAt_combineGroups hr keys
    simpa [truthAt, Has, Grants] using h
  constructor
  · rintro ⟨r, v, hr, hv, hlook, hcase⟩
    have hclash := (exists_combineGroups_iff _ _).mp ⟨r, hr⟩
    have hhas := (hmerged r hr).1.mp (by rw [hv]; rfl)
    refine ⟨hclash, hlook, ?_⟩
    by_cases hdefault : Has default_permissions keys
    · exact .inl hdefault
    refine .inr ⟨hhas.resolve_left hdefault, ?_⟩
    obtain ⟨hgrants, -⟩ | ⟨hnone, hget⟩ := hcase
    · exact .inl hgrants
    -- The answer is the built-in value, which the merged table does not show.
    refine .inr fun hbuiltin => ?_
    obtain ⟨u, hu, -, hu'⟩ := exists_valueAt_filled hclash hkey hhas
    have hutrue : u.truthy = true := by simpa [Grants, truthAt, hu' hdefault] using hbuiltin
    have hvtrue : v.truthy = true := by
      rw [← (get_permission_eq_ok.mp hget).2, truthAt, hu]
      exact hutrue
    obtain hgrants | hgrants := (hmerged r hr).2.mp (by simp [truthAt, hv, hvtrue])
    · refine hdefault ?_
      obtain ⟨w, hw, -⟩ := Option.map_eq_some_iff.mp hgrants
      rw [Has, hw]
      rfl
    · exact hnone hgrants
  · rintro ⟨hclash, hlook, hcond⟩
    obtain ⟨r, hr⟩ := (exists_combineGroups_iff _ _).mpr hclash
    have hhas : Has default_permissions keys ∨ ∃ g ∈ user_groups, Has g.table keys :=
      hcond.imp_right And.left
    obtain ⟨v, hv⟩ := Option.isSome_iff_exists.mp ((hmerged r hr).1.mpr hhas)
    have htruth : v.truthy = true ↔
        Grants default_permissions keys ∨ ∃ g ∈ user_groups, Grants g.table keys := by
      rw [← (hmerged r hr).2]
      simp [truthAt, hv]
    refine ⟨r, v, hr, hv, hlook, ?_⟩
    by_cases hgrants : ∃ g ∈ user_groups, Grants g.table keys
    · exact .inl ⟨hgrants, htruth.mpr (.inr hgrants)⟩
    obtain ⟨u, hu, huhas, hulacks⟩ := exists_valueAt_filled hclash hkey hhas
    refine .inr ⟨hgrants, get_permission_eq_ok.mpr ⟨canFollow_of_valueAt (by rw [hu]; rfl), ?_⟩⟩
    have hsame : u.truthy = v.truthy := by
      rw [Bool.eq_iff_iff, htruth]
      by_cases hdefault : Has default_permissions keys
      · have hleaf : Grants default_permissions keys ↔ u.truthy = true := by
          simp [Grants, truthAt, huhas hdefault]
        rw [hleaf, or_iff_left hgrants]
      · have hbuiltin := (hcond.resolve_left hdefault).2.resolve_left hgrants
        have hno : ¬ Grants default_permissions keys := by
          rw [Has, Option.not_isSome_iff_eq_none] at hdefault
          simp [Grants, truthAt, hdefault]
        rw [Grants, truthAt, hulacks hdefault] at hbuiltin
        simpa [hno, hgrants] using hbuiltin
    rw [truthAt, hu]
    exact hsame

/-- A group that grants the key in front of one without a table. -/
theorem permissionsAgree_iff_models :
    PermissionsAgree (modelsTable false) [⟨"g", some (modelsTable true)⟩, ⟨"h", none⟩]
      "workspace.models" (modelsTable false) := by
  have hfalse : ((modelsTable false).json.valueAt (permissionHierarchy "workspace.models")) =
      some (.bool false) := by decide
  have htrue : ((modelsTable true).json.valueAt (permissionHierarchy "workspace.models")) =
      some (.bool true) := by decide
  refine (permissionsAgree_iff (modelsTable false)
    [⟨"g", some (modelsTable true)⟩, ⟨"h", none⟩] "workspace.models" (modelsTable false)
    (.inl ⟨.bool false, hfalse, rfl⟩)).mpr ⟨?_, ?_, .inl ?_⟩
  · exact (exists_combineGroups_iff _ _).mp ⟨(modelsTable true).json, rfl⟩
  · have hgrants : Grants (modelsTable true) (permissionHierarchy "workspace.models") := by
      rw [Grants, truthAt, htrue]
      rfl
    refine groupsLookUp_cons.mpr ⟨canFollow_of_valueAt ?_, fun h => absurd hgrants h⟩
    show ((modelsTable true).json.valueAt _).isSome = true
    rw [htrue]
    rfl
  · rw [Has, hfalse]
    rfl

end OpenLaunch.Access
