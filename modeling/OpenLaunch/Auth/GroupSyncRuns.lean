import OpenLaunch.Auth.GroupSync
import Mathlib.Algebra.Order.BigOperators.Group.List
import Mathlib.Algebra.Order.Ring.Nat

/-! # What a synchronisation leaves

The user is in the groups that are named, exactly if the claim can be read, all checks of names
return, and there are no two groups of one name in one of which the user is. -/

namespace OpenLaunch.Auth

open Python

namespace Sync

variable {c : Sync} {user_id : String} {t t' : Tables} {es : List (String × GroupModel)}
  {e : String × GroupModel} {cond : String × GroupModel → Prop} [DecidablePred cond]
  {act : String × GroupModel → Tables → Tables} {names : List Json} {user_data : Json}

/-! ## The loops over groups -/

/-- A group that the loop acts on. -/
def chosen (c : Sync) (cond : String × GroupModel → Prop) [DecidablePred cond]
    (e : String × GroupModel) : Bool :=
  cond e && match c.isBlocked e.2.name with
    | .ok false => true
    | _ => false

omit [DecidablePred cond] in
theorem chosen_iff [DecidablePred cond] :
    c.chosen cond e = true ↔ cond e ∧ c.isBlocked e.2.name = .ok false := by
  unfold chosen
  rw [Bool.and_eq_true, decide_eq_true_eq]
  refine and_congr_right fun _ => ?_
  split
  · next h => simp [h]
  · next h => exact ⟨nofun, fun hok => absurd hok h⟩

theorem unlessBlocked_apply {b : Bool} (h : c.isBlocked e.2.name = .ok b) :
    c.unlessBlocked act e t = (.ok (), if b then t else act e t) := by
  rw [unlessBlocked, Py.lift_bind h]
  cases b <;> rfl

/-- **A loop whose checks return** acts on the groups that are not blocked. -/
theorem forEach_eq (h : ∀ e ∈ es, cond e → ∃ b, c.isBlocked e.2.name = .ok b) :
    Py.forEach (fun e => if cond e then c.unlessBlocked act e else pure ()) es t =
      (.ok (), (es.filter (c.chosen cond)).foldl (fun t e => act e t) t) := by
  induction es generalizing t with
  | nil => rfl
  | cons e es ih =>
    obtain ⟨he, hes⟩ := List.forall_mem_cons.mp h
    rw [Py.forEach]
    by_cases hcond : cond e
    · obtain ⟨b, hb⟩ := he hcond
      have hstep : (if cond e then c.unlessBlocked act e else pure ()) t =
          (.ok (), if b then t else act e t) := by
        rw [if_pos hcond, unlessBlocked_apply hb]
      rw [Py.bind_ok hstep, ih hes]
      cases b with
      | true =>
        rw [List.filter_cons_of_neg fun hchosen => by
          rw [(chosen_iff.mp hchosen).2] at hb; cases hb]
        rfl
      | false =>
        rw [List.filter_cons_of_pos (chosen_iff.mpr ⟨hcond, hb⟩)]
        rfl
    · have hstep : (if cond e then c.unlessBlocked act e else pure ()) t = (.ok (), t) := by
        rw [if_neg hcond]
        rfl
      rw [Py.bind_ok hstep, ih hes,
        List.filter_cons_of_neg fun hchosen => hcond (chosen_iff.mp hchosen).1]

theorem forEach_of_not (h : ∀ e ∈ es, ¬ cond e) :
    Py.forEach (fun e => if cond e then c.unlessBlocked act e else pure ()) es t = (.ok (), t) := by
  have hnone : es.filter (c.chosen cond) = [] :=
    List.filter_eq_nil_iff.mpr fun e he hchosen => h e he (chosen_iff.mp hchosen).1
  rw [forEach_eq fun e he hcond => absurd hcond (h e he), hnone]
  rfl

/-- The groups that the loop acts on. -/
theorem exists_chosen (act : String × GroupModel → Tables → Tables)
    (h : ∀ e ∈ es, cond e → ∃ b, c.isBlocked e.2.name = .ok b) (t : Tables) :
    ∃ es' : List (String × GroupModel),
      (∀ e, e ∈ es' ↔ e ∈ es ∧ cond e ∧ c.isBlocked e.2.name = .ok false) ∧
      Py.forEach (fun e => if cond e then c.unlessBlocked act e else pure ()) es t =
        (.ok (), es'.foldl (fun t e => act e t) t) :=
  ⟨_, fun e => by rw [List.mem_filter, chosen_iff], forEach_eq h⟩

/-- All checks of a loop that returns have returned. -/
theorem checked_of_forEach
    (h : Py.forEach (fun e => if cond e then c.unlessBlocked act e else pure ()) es t =
      (.ok (), t')) : ∀ e ∈ es, cond e → ∃ b, c.isBlocked e.2.name = .ok b := by
  induction es generalizing t with
  | nil => nofun
  | cons e es ih =>
    rw [Py.forEach] at h
    by_cases hcond : cond e
    · cases hb : c.isBlocked e.2.name with
      | error err =>
        have hstep : (if cond e then c.unlessBlocked act e else pure ()) t = (.error err, t) := by
          rw [if_pos hcond]
          exact Py.lift_bind_error hb _ t
        rw [Py.bind_error hstep] at h
        cases h
      | ok b =>
        have hstep : (if cond e then c.unlessBlocked act e else pure ()) t =
            (.ok (), if b then t else act e t) := by
          rw [if_pos hcond, unlessBlocked_apply hb]
        rw [Py.bind_ok hstep] at h
        exact List.forall_mem_cons.mpr ⟨fun _ => ⟨b, hb⟩, ih h⟩
    · have hstep : (if cond e then c.unlessBlocked act e else pure ()) t = (.ok (), t) := by
        rw [if_neg hcond]
        rfl
      rw [Py.bind_ok hstep] at h
      exact List.forall_mem_cons.mpr ⟨fun h => absurd h hcond, ih h⟩

/-! ## Leaving and joining -/

theorem remove_spec (h : t.nameOf e.1 = some e.2.name) :
    t.SameNames (c.remove user_id e t) ∧
      ∀ m, m ∈ (c.remove user_id e t).group_member ↔ m ∈ t.group_member ∧ m ≠ (e.1, user_id) := by
  obtain ⟨hnames, hmembers⟩ := Tables.remove_users_from_group_spec h
  refine ⟨hnames.trans (Tables.sameNames_update_group_by_id ?_), hmembers⟩
  rw [hnames, h]

theorem add_spec (h : t.nameOf e.1 = some e.2.name) :
    t.SameNames (c.add user_id e t) ∧
      ∀ m, m ∈ (c.add user_id e t).group_member ↔ m ∈ t.group_member ∨ m = (e.1, user_id) := by
  obtain ⟨hnames, hmembers⟩ := Tables.add_users_to_group_spec h
  refine ⟨hnames.trans (Tables.sameNames_update_group_by_id ?_), hmembers⟩
  rw [hnames, h]

/-- Leaving groups one after the other. -/
theorem foldl_remove (h : ∀ e ∈ es, t.nameOf e.1 = some e.2.name) :
    t.SameNames (es.foldl (fun t e => c.remove user_id e t) t) ∧
      ∀ m, m ∈ (es.foldl (fun t e => c.remove user_id e t) t).group_member ↔
        m ∈ t.group_member ∧ ∀ e ∈ es, m ≠ (e.1, user_id) := by
  induction es generalizing t with
  | nil => exact ⟨.refl t, fun m => by simp⟩
  | cons e es ih =>
    obtain ⟨he, hes⟩ := List.forall_mem_cons.mp h
    obtain ⟨hnames, hmembers⟩ := remove_spec (c := c) he
    obtain ⟨hnames', hmembers'⟩ := ih (t := c.remove user_id e t) fun e' he' => by
      rw [hnames, hes e' he']
    refine ⟨hnames.trans hnames', fun m => ?_⟩
    rw [List.foldl_cons, hmembers', hmembers, List.forall_mem_cons, and_assoc]

/-- Joining groups one after the other. -/
theorem foldl_add (h : ∀ e ∈ es, t.nameOf e.1 = some e.2.name) :
    t.SameNames (es.foldl (fun t e => c.add user_id e t) t) ∧
      ∀ m, m ∈ (es.foldl (fun t e => c.add user_id e t) t).group_member ↔
        m ∈ t.group_member ∨ ∃ e ∈ es, m = (e.1, user_id) := by
  induction es generalizing t with
  | nil => exact ⟨.refl t, fun m => by simp⟩
  | cons e es ih =>
    obtain ⟨he, hes⟩ := List.forall_mem_cons.mp h
    obtain ⟨hnames, hmembers⟩ := add_spec (c := c) he
    obtain ⟨hnames', hmembers'⟩ := ih (t := c.add user_id e t) fun e' he' => by
      rw [hnames, hes e' he']
    refine ⟨hnames.trans hnames', fun m => ?_⟩
    rw [List.foldl_cons, hmembers', hmembers, List.exists_mem_cons_iff, or_assoc]

/-! ## Creating -/

/-- A value that a set can be asked for. -/
def isHashable : Json → Bool
  | .list _ => false
  | .dict _ => false
  | _ => true

/-- What the loop that creates groups does to the tables. -/
structure Created (all_group_names : List String) (names : List Json) (t t' : Tables) : Prop where
  members : t'.group_member = t.group_member
  kept : ∀ id n, t.nameOf id = some n → t'.nameOf id = some n
  new : ∀ id n, t'.nameOf id = some n → t.nameOf id = some n ∨
    t.nameOf id = none ∧ n ∉ all_group_names ∧ .str n ∈ names
  found : ∀ n, .str n ∈ names → n ∈ all_group_names ∨ ∃ id, t'.nameOf id = some n

/-- A group is created. -/
theorem create_spec (n : String) : (c.create user_id n t).group_member = t.group_member ∧
    ∀ id, (c.create user_id n t).nameOf id =
      if id = c.ids.uuid4 t then some n else t.nameOf id := by
  refine ⟨rfl, fun id => ?_⟩
  rw [Tables.nameOf, create, Tables.insert_new_group]
  simp only [Dict.get?_set]
  split_ifs
  · rfl
  · rfl

theorem nameOf_uuid4 (t : Tables) : t.nameOf (c.ids.uuid4 t) = none := by
  rw [Option.eq_none_iff_forall_ne_some]
  intro n hn
  exact c.ids.fresh t (Tables.mem_group_iff.mpr ⟨n, hn⟩)

/-- **Groups are created** where names are missing. -/
theorem createMissing_ok (h : ∀ x ∈ names, isHashable x = true) (all : List String) (b : Bool)
    (t : Tables) : ∃ b' t', c.createMissing user_id all b names t = (.ok b', t') ∧
      Created all names t t' ∧ (b' = false → b = false ∧ t' = t) := by
  induction names generalizing all b t with
  | nil => exact ⟨b, t, rfl, ⟨rfl, fun _ _ h => h, fun _ _ h => .inl h, nofun⟩, fun h => ⟨h, rfl⟩⟩
  | cons x names ih =>
    obtain ⟨hx, hnames⟩ := List.forall_mem_cons.mp h
    -- a value for which nothing is created
    have hskip : ∀ t', Created all names t t' → (∀ n, x = .str n → n ∈ all) →
        Created all (x :: names) t t' := by
      rintro t' ⟨hmembers, hkept, hnew, hfound⟩ hknown
      refine ⟨hmembers, hkept, fun id n hn => ?_, fun n hn => ?_⟩
      · rcases hnew id n hn with hold | ⟨hnone, hall, hmem⟩
        · exact .inl hold
        · exact .inr ⟨hnone, hall, List.mem_cons_of_mem _ hmem⟩
      · rcases List.mem_cons.mp hn with hn | hn
        · exact .inl (hknown n hn.symm)
        · exact hfound n hn
    obtain ⟨b', t', hrun, hcreated, hsame⟩ := ih hnames all b t
    match x, hx, hskip with
    | .null, _, hskip => exact ⟨b', t', hrun, hskip t' hcreated nofun, hsame⟩
    | .bool _, _, hskip => exact ⟨b', t', hrun, hskip t' hcreated nofun, hsame⟩
    | .int _, _, hskip => exact ⟨b', t', hrun, hskip t' hcreated nofun, hsame⟩
    | .float _, _, hskip => exact ⟨b', t', hrun, hskip t' hcreated nofun, hsame⟩
    | .str n, _, hskip =>
      rw [createMissing]
      by_cases hknown : n ∈ all
      · rw [if_pos hknown]
        refine ⟨b', t', hrun, hskip t' hcreated ?_, hsame⟩
        rintro _ ⟨⟩
        exact hknown
      · rw [if_neg hknown]
        obtain ⟨hmembers, hnameOf⟩ := create_spec (c := c) (t := t) n
        have hid := nameOf_uuid4 (c := c) t
        obtain ⟨b₁, t₁, hrun₁, hcreated₁, htrue⟩ := ih hnames (all ++ [n]) true (c.create _ n t)
        refine ⟨b₁, t₁, hrun₁, ⟨hcreated₁.members.trans hmembers, fun id n' hn' => ?_,
          fun id n' hn' => ?_, fun n' hn' => ?_⟩, ?_⟩
        · refine hcreated₁.kept id n' ?_
          rw [hnameOf, if_neg, hn']
          rintro rfl
          rw [hid] at hn'
          cases hn'
        · rcases hcreated₁.new id n' hn' with hold | ⟨hnone, hall, hmem⟩
          · rw [hnameOf] at hold
            split_ifs at hold with heq
            · obtain rfl := Option.some.inj hold
              exact .inr ⟨heq ▸ hid, hknown, List.mem_cons_self⟩
            · exact .inl hold
          · rw [hnameOf] at hnone
            split_ifs at hnone
            rw [List.mem_append, not_or] at hall
            exact .inr ⟨hnone, hall.1, List.mem_cons_of_mem _ hmem⟩
        · have hnew : ∃ id, t₁.nameOf id = some n :=
            ⟨_, hcreated₁.kept (c.ids.uuid4 t) n (by rw [hnameOf, if_pos rfl])⟩
          rcases List.mem_cons.mp hn' with hn' | hn'
          · obtain rfl : n' = n := by simpa using hn'
            exact .inr hnew
          · rcases hcreated₁.found n' hn' with hall | hfound
            · rcases List.mem_append.mp hall with hall | hall
              · exact .inl hall
              · rw [List.mem_singleton.mp hall]
                exact .inr hnew
            · exact .inr hfound
        · exact fun hfalse => absurd (htrue hfalse).1 Bool.noConfusion

/-- Nothing is created where no name is missing. -/
theorem createMissing_of_known {all : List String} {b : Bool}
    (h : ∀ x ∈ names, isHashable x = true) (hknown : ∀ n, .str n ∈ names → n ∈ all) :
    c.createMissing user_id all b names t = (.ok b, t) := by
  induction names with
  | nil => rfl
  | cons x names ih =>
    obtain ⟨hx, hnames⟩ := List.forall_mem_cons.mp h
    have hrest := ih hnames fun n hn => hknown n (List.mem_cons_of_mem x hn)
    match x, hx, hknown with
    | .null, _, _ => exact hrest
    | .bool _, _, _ => exact hrest
    | .int _, _, _ => exact hrest
    | .float _, _, _ => exact hrest
    | .str n, _, hknown =>
      rw [createMissing, if_pos (hknown n List.mem_cons_self)]
      exact hrest

/-- The loop raises at a value that a set cannot be asked for. -/
theorem isHashable_of_ok {all : List String} {b b' : Bool}
    (h : c.createMissing user_id all b names t = (.ok b', t')) :
    ∀ x ∈ names, isHashable x = true := by
  induction names generalizing all b t with
  | nil => nofun
  | cons x names ih =>
    match x with
    | .null => exact List.forall_mem_cons.mpr ⟨rfl, ih h⟩
    | .bool _ => exact List.forall_mem_cons.mpr ⟨rfl, ih h⟩
    | .int _ => exact List.forall_mem_cons.mpr ⟨rfl, ih h⟩
    | .float _ => exact List.forall_mem_cons.mpr ⟨rfl, ih h⟩
    | .list _ => cases h
    | .dict _ => cases h
    | .str n =>
      rw [createMissing] at h
      split_ifs at h
      · exact List.forall_mem_cons.mpr ⟨rfl, ih h⟩
      · exact List.forall_mem_cons.mpr ⟨rfl, ih h⟩

/-- What is there once missing groups have been created. -/
structure Prepared (c : Sync) (names : List Json) (t t' : Tables) : Prop where
  members : t'.group_member = t.group_member
  kept : ∀ id n, t.nameOf id = some n → t'.nameOf id = some n
  new : ∀ id n, t'.nameOf id = some n → t.nameOf id = some n ∨
    (∀ id', t.nameOf id' ≠ some n) ∧ .str n ∈ names ∧ c.ENABLE_OAUTH_GROUP_CREATION = true
  found : c.ENABLE_OAUTH_GROUP_CREATION = true → ∀ n, .str n ∈ names → ∃ id, t'.nameOf id = some n

theorem mem_names_get_all_groups {n : String} :
    n ∈ t.get_all_groups.map (fun e => e.2.name) ↔ ∃ id, t.nameOf id = some n := by
  rw [List.mem_map]
  constructor
  · rintro ⟨e, he, rfl⟩
    exact ⟨e.1, by rw [Tables.nameOf, Tables.mem_get_all_groups.mp he]; rfl⟩
  · rintro ⟨id, hid⟩
    obtain ⟨g, hg, rfl⟩ := Option.map_eq_some_iff.mp hid
    exact ⟨(id, g), Tables.mem_get_all_groups.mpr hg, rfl⟩

theorem availableGroups_ok
    (h : c.ENABLE_OAUTH_GROUP_CREATION = true → ∀ x ∈ names, isHashable x = true) (t : Tables) :
    ∃ t', c.availableGroups user_id names t = (.ok t'.get_all_groups, t') ∧
      Prepared c names t t' := by
  unfold availableGroups
  rw [Py.state_bind]
  by_cases hcreate : c.ENABLE_OAUTH_GROUP_CREATION = true
  · obtain ⟨b, t', hrun, hcreated, hsame⟩ := createMissing_ok (c := c) (h hcreate)
      (t.get_all_groups.map fun e => e.2.name) false t
    rw [if_pos hcreate, Py.bind_ok hrun, Py.state_bind]
    refine ⟨t', ?_, hcreated.members, hcreated.kept, fun id n hn => ?_, fun _ n hn => ?_⟩
    · cases b with
      | true => rfl
      | false =>
        rw [(hsame rfl).2]
        rfl
    · rcases hcreated.new id n hn with hold | ⟨-, hall, hmem⟩
      · exact .inl hold
      · exact .inr ⟨fun id' hid' => hall (mem_names_get_all_groups.mpr ⟨id', hid'⟩), hmem, hcreate⟩
    · rcases hcreated.found n hn with hall | hfound
      · obtain ⟨id, hid⟩ := mem_names_get_all_groups.mp hall
        exact ⟨id, hcreated.kept id n hid⟩
      · exact hfound
  · rw [if_neg hcreate]
    exact ⟨t, rfl, rfl, fun _ _ h => h, fun _ _ h => .inl h, fun h => absurd h hcreate⟩

/-- Nothing is created where there is a group of each name. -/
theorem availableGroups_of_found
    (h : c.ENABLE_OAUTH_GROUP_CREATION = true → (∀ x ∈ names, isHashable x = true) ∧
      ∀ n, .str n ∈ names → ∃ id, t.nameOf id = some n) :
    c.availableGroups user_id names t = (.ok t.get_all_groups, t) := by
  unfold availableGroups
  rw [Py.state_bind]
  by_cases hcreate : c.ENABLE_OAUTH_GROUP_CREATION = true
  · obtain ⟨hhashable, hfound⟩ := h hcreate
    have hrun : c.createMissing user_id (t.get_all_groups.map fun e => e.2.name) false names t =
        (.ok false, t) :=
      createMissing_of_known hhashable fun n hn => mem_names_get_all_groups.mpr (hfound n hn)
    rw [if_pos hcreate, Py.bind_ok hrun]
    rfl
  · rw [if_neg hcreate]
    rfl

theorem isHashable_of_availableGroups {available : List (String × GroupModel)}
    (h : c.availableGroups user_id names t = (.ok available, t'))
    (hcreate : c.ENABLE_OAUTH_GROUP_CREATION = true) : ∀ x ∈ names, isHashable x = true := by
  unfold availableGroups at h
  rw [Py.state_bind, if_pos hcreate] at h
  obtain ⟨b, t₁, hrun, -⟩ := Py.bind_eq_ok_iff.mp h
  exact isHashable_of_ok hrun

/-! ## What a run leaves -/

/-- A group that is in the way of a user: it is blocked. -/
def Blocked (c : Sync) (n : String) : Prop := c.isBlocked n = .ok true

/-- **The groups are synchronised**: of the groups that are not blocked the user is in those that
are named, created ones included, in blocked groups nothing changes, and nothing changes for
others. -/
structure Synced (c : Sync) (user_id : String) (names : List Json) (t t' : Tables) : Prop where
  member_iff : ∀ id n, t'.nameOf id = some n → ¬ c.Blocked n →
    ((id, user_id) ∈ t'.group_member ↔ .str n ∈ names)
  blocked : ∀ id n, t'.nameOf id = some n → c.Blocked n →
    ((id, user_id) ∈ t'.group_member ↔ (id, user_id) ∈ t.group_member)
  others : ∀ id v, v ≠ user_id → ((id, v) ∈ t'.group_member ↔ (id, v) ∈ t.group_member)
  kept : ∀ id n, t.nameOf id = some n → t'.nameOf id = some n
  created : c.ENABLE_OAUTH_GROUP_CREATION = true → ∀ n, .str n ∈ names → ∃ id, t'.nameOf id = some n

/-- **What the claim wants**: there is no exception, and where there are names, the groups are
synchronised and another run changes nothing. -/
def Syncs (c : Sync) (user_id : String) (user_data : Json) (t : Tables) : Prop :=
  ∃ t', c.update_user_groups user_id user_data t = (.ok (), t') ∧
    ∀ names, userOauthGroups c.OAUTH_GROUPS_CLAIM c.OAUTH_GROUPS_SEPARATOR user_data = .ok names →
      names ≠ [] → c.Synced user_id names t t' ∧
        c.update_user_groups user_id user_data t' = (.ok (), t')

/-- A name that is compared with the blocked patterns: one of a group that the user is to leave, or
of one that it is to join. -/
def Checked (c : Sync) (user_id : String) (names : List Json) (t : Tables) (n : String) : Prop :=
  (.str n ∉ names ∧ ∃ id, t.nameOf id = some n ∧ (id, user_id) ∈ t.group_member) ∨
    (.str n ∈ names ∧ (∀ id, t.nameOf id = some n → (id, user_id) ∉ t.group_member) ∧
      (c.ENABLE_OAUTH_GROUP_CREATION = true ∨ ∃ id, t.nameOf id = some n))

/-- The user is in all groups or in none of a name that is listed and not blocked. -/
def NoTwins (c : Sync) (user_id : String) (names : List Json) (t : Tables) : Prop :=
  ∀ n, .str n ∈ names → ¬ c.Blocked n → ∀ id₁ id₂, t.nameOf id₁ = some n → t.nameOf id₂ = some n →
    (id₁, user_id) ∈ t.group_member → (id₂, user_id) ∈ t.group_member

/-- **The condition**: the claim can be read, the names can be looked up, no check of a name raises,
and the user is in no group that has the name of one it is not in. -/
def Syncable (c : Sync) (user_id : String) (user_data : Json) (t : Tables) : Prop :=
  Readable c.OAUTH_GROUPS_CLAIM c.OAUTH_GROUPS_SEPARATOR user_data ∧
    ∀ names, userOauthGroups c.OAUTH_GROUPS_CLAIM c.OAUTH_GROUPS_SEPARATOR user_data = .ok names →
      (c.ENABLE_OAUTH_GROUP_CREATION = true → ∀ x ∈ names, isHashable x = true) ∧
      (names ≠ [] → (∀ n, c.Checked user_id names t n → ∃ b, c.isBlocked n = .ok b) ∧
        c.NoTwins user_id names t)

/-- The run, once the names are there. -/
theorem update_user_groups_apply
    (h : userOauthGroups c.OAUTH_GROUPS_CLAIM c.OAUTH_GROUPS_SEPARATOR user_data = .ok names) :
    c.update_user_groups user_id user_data t = (c.availableGroups user_id names >>= fun available =>
      c.leaveAndJoin user_id names (t.get_groups_by_member_id user_id) available) t := by
  unfold update_user_groups
  rw [Py.lift_bind h, Py.state_bind]

/-- A group with its name is among those of the user. -/
theorem exists_current_iff {n : String} :
    (∃ e ∈ t.get_groups_by_member_id user_id, e.2.name = n) ↔
      ∃ id, t.nameOf id = some n ∧ (id, user_id) ∈ t.group_member := by
  constructor
  · rintro ⟨e, he, rfl⟩
    obtain ⟨hg, hmem⟩ := Tables.mem_get_groups_by_member_id.mp he
    exact ⟨e.1, by rw [Tables.nameOf, hg]; rfl, hmem⟩
  · rintro ⟨id, hid, hmem⟩
    obtain ⟨g, hg, rfl⟩ := Option.map_eq_some_iff.mp hid
    exact ⟨(id, g), Tables.mem_get_groups_by_member_id.mpr ⟨hg, hmem⟩, rfl⟩

theorem nameOf_of_get {id : String} {g : GroupModel} (h : t.group.get? id = some g) :
    t.nameOf id = some g.name := by
  rw [Tables.nameOf, h]
  rfl

/-- A group that the user leaves. -/
def Leaves (c : Sync) (user_id : String) (names : List Json) (t : Tables) (id : String) : Prop :=
  ∃ n, t.nameOf id = some n ∧ .str n ∉ names ∧ c.isBlocked n = .ok false ∧
    (id, user_id) ∈ t.group_member

/-- A group that the user joins. -/
def Joins (c : Sync) (user_id : String) (names : List Json) (t t₁ : Tables) (id : String) : Prop :=
  ∃ n, t₁.nameOf id = some n ∧ .str n ∈ names ∧ c.isBlocked n = .ok false ∧
    ∀ id', t.nameOf id' = some n → (id', user_id) ∉ t.group_member

theorem not_exists_current_iff {n : String} :
    (¬ ∃ gm ∈ t.get_groups_by_member_id user_id, gm.2.name = n) ↔
      ∀ id, t.nameOf id = some n → (id, user_id) ∉ t.group_member := by
  rw [exists_current_iff]
  exact ⟨fun h id hid hmem => h ⟨id, hid, hmem⟩, fun h ⟨id, hid, hmem⟩ => h id hid hmem⟩

/-- The loops, where all checks return. -/
theorem leaveAndJoin_eq {t₁ : Tables} (hne : names ≠ []) (hprepared : Prepared c names t t₁)
    (hchecks : ∀ n, c.Checked user_id names t n → ∃ b, c.isBlocked n = .ok b) :
    ∃ left joined : List (String × GroupModel),
      (∀ e, e ∈ left ↔ t.group.get? e.1 = some e.2 ∧ (e.1, user_id) ∈ t.group_member ∧
        .str e.2.name ∉ names ∧ c.isBlocked e.2.name = .ok false) ∧
      (∀ e, e ∈ joined ↔ t₁.group.get? e.1 = some e.2 ∧ .str e.2.name ∈ names ∧
        (∀ id, t.nameOf id = some e.2.name → (id, user_id) ∉ t.group_member) ∧
        c.isBlocked e.2.name = .ok false) ∧
      c.leaveAndJoin user_id names (t.get_groups_by_member_id user_id) t₁.get_all_groups t₁ =
        (.ok (), joined.foldl (fun t e => c.add user_id e t)
          (left.foldl (fun t e => c.remove user_id e t) t₁)) := by
  -- the checks of both loops
  have hchecks₁ : ∀ e ∈ t.get_groups_by_member_id user_id, (names ≠ [] ∧ .str e.2.name ∉ names) →
      ∃ b, c.isBlocked e.2.name = .ok b := by
    rintro e he ⟨-, hnot⟩
    obtain ⟨hg, hmem⟩ := Tables.mem_get_groups_by_member_id.mp he
    exact hchecks e.2.name (.inl ⟨hnot, e.1, nameOf_of_get hg, hmem⟩)
  have hchecks₂ : ∀ e ∈ t₁.get_all_groups, (names ≠ [] ∧ .str e.2.name ∈ names ∧
      ¬ ∃ gm ∈ t.get_groups_by_member_id user_id, gm.2.name = e.2.name) →
      ∃ b, c.isBlocked e.2.name = .ok b := by
    rintro e he ⟨-, hmem, hcurrent⟩
    refine hchecks e.2.name (.inr ⟨hmem, not_exists_current_iff.mp hcurrent, ?_⟩)
    rcases hprepared.new e.1 _ (nameOf_of_get (Tables.mem_get_all_groups.mp he)) with
      hold | ⟨-, -, hcreate⟩
    · exact .inr ⟨e.1, hold⟩
    · exact .inl hcreate
  obtain ⟨left, hleft, hrun₁⟩ := exists_chosen (c.remove user_id) hchecks₁ t₁
  obtain ⟨joined, hjoined, hrun₂⟩ := exists_chosen (c.add user_id) hchecks₂
    (left.foldl (fun t e => c.remove user_id e t) t₁)
  refine ⟨left, joined, fun e => ?_, fun e => ?_, (Py.bind_ok hrun₁).trans hrun₂⟩
  · rw [hleft, Tables.mem_get_groups_by_member_id]
    tauto
  · rw [hjoined, Tables.mem_get_all_groups, not_exists_current_iff]
    tauto

/-- **What the loops do**: the user leaves some groups and joins others. -/
theorem leaveAndJoin_ok {t₁ : Tables} (hne : names ≠ []) (hprepared : Prepared c names t t₁)
    (hchecks : ∀ n, c.Checked user_id names t n → ∃ b, c.isBlocked n = .ok b) :
    ∃ t', c.leaveAndJoin user_id names (t.get_groups_by_member_id user_id) t₁.get_all_groups t₁ =
        (.ok (), t') ∧ t₁.SameNames t' ∧
      ∀ id v, (id, v) ∈ t'.group_member ↔
        ((id, v) ∈ t.group_member ∧ ¬ (v = user_id ∧ c.Leaves user_id names t id)) ∨
          (v = user_id ∧ c.Joins user_id names t t₁ id) := by
  obtain ⟨left, joined, hleft, hjoined, hrun⟩ := leaveAndJoin_eq hne hprepared hchecks
  obtain ⟨hnames₁, hmembers₁⟩ := foldl_remove (c := c) (t := t₁) fun e (he : e ∈ left) =>
    hprepared.kept _ _ (nameOf_of_get ((hleft e).mp he).1)
  generalize left.foldl (fun t e => c.remove user_id e t) t₁ = t₂ at hrun hnames₁ hmembers₁
  obtain ⟨hnames₂, hmembers₂⟩ := foldl_add (c := c) (t := t₂) fun e (he : e ∈ joined) => by
    rw [hnames₁]
    exact nameOf_of_get ((hjoined e).mp he).1
  refine ⟨_, hrun, hnames₁.trans hnames₂, fun id v => ?_⟩
  rw [hmembers₂, hmembers₁, hprepared.members]
  refine or_congr (and_congr_right fun hmem => ?_) ?_
  · constructor
    · rintro hall ⟨rfl, n, hid, hnot, hblocked, -⟩
      obtain ⟨g, hg, rfl⟩ := Option.map_eq_some_iff.mp hid
      exact hall (id, g) ((hleft (id, g)).mpr ⟨hg, hmem, hnot, hblocked⟩) rfl
    · rintro hstays e he heq
      obtain ⟨rfl, rfl⟩ := Prod.mk.inj heq
      obtain ⟨hg, -, hnot, hblocked⟩ := (hleft e).mp he
      exact hstays ⟨rfl, e.2.name, nameOf_of_get hg, hnot, hblocked, hmem⟩
  · constructor
    · rintro ⟨e, he, heq⟩
      obtain ⟨rfl, rfl⟩ := Prod.mk.inj heq
      obtain ⟨hg, hmem, hnone, hblocked⟩ := (hjoined e).mp he
      exact ⟨rfl, e.2.name, nameOf_of_get hg, hmem, hblocked, hnone⟩
    · rintro ⟨rfl, n, hid, hmem, hblocked, hnone⟩
      obtain ⟨g, hg, rfl⟩ := Option.map_eq_some_iff.mp hid
      exact ⟨(id, g), (hjoined (id, g)).mpr ⟨hg, hmem, hnone, hblocked⟩, rfl⟩

/-- A group with members has had its name before. -/
theorem nameOf_of_member {t₁ : Tables} {id n v : String} (hprepared : Prepared c names t t₁)
    (hnames : t₁.SameNames t') (hid : t'.nameOf id = some n) (hmem : (id, v) ∈ t.group_member) :
    t.nameOf id = some n := by
  obtain ⟨n', hn'⟩ := Tables.mem_group_iff.mp (t.foreign _ hmem)
  have hkept := hprepared.kept id n' hn'
  rw [hnames id] at hid
  rw [hid] at hkept
  rw [hn', ← hkept]

/-- **The user ends up where it is named.** -/
theorem synced_of_members {t₁ : Tables} (hprepared : Prepared c names t t₁)
    (hnames : t₁.SameNames t')
    (hmembers : ∀ id v, (id, v) ∈ t'.group_member ↔
      ((id, v) ∈ t.group_member ∧ ¬ (v = user_id ∧ c.Leaves user_id names t id)) ∨
        (v = user_id ∧ c.Joins user_id names t t₁ id))
    (hchecks : ∀ n, c.Checked user_id names t n → ∃ b, c.isBlocked n = .ok b)
    (htwins : c.NoTwins user_id names t) : c.Synced user_id names t t' := by
  have hold : ∀ id n, t'.nameOf id = some n → (id, user_id) ∈ t.group_member →
      t.nameOf id = some n := fun id n => nameOf_of_member hprepared hnames
  have hfree : ∀ n b, ¬ c.Blocked n → c.isBlocked n = .ok b → c.isBlocked n = .ok false := by
    intro n b hblocked hb
    cases b with
    | true => exact absurd hb hblocked
    | false => exact hb
  refine ⟨fun id n hid hblocked => ?_, fun id n hid hblocked => ?_, fun id v hv => ?_,
    fun id n hid => ?_, fun hcreate n hn => ?_⟩
  · rw [hmembers]
    constructor
    · rintro (⟨hmem, hstays⟩ | ⟨-, n', hn', hlisted, -⟩)
      · by_contra hnot
        have hn := hold id n hid hmem
        obtain ⟨b, hb⟩ := hchecks n (.inl ⟨hnot, id, hn, hmem⟩)
        exact hstays ⟨rfl, n, hn, hnot, hfree n b hblocked hb, hmem⟩
      · rw [hnames id, hn', Option.some.injEq] at hid
        exact hid ▸ hlisted
    · intro hlisted
      by_cases hmem : (id, user_id) ∈ t.group_member
      · refine .inl ⟨hmem, ?_⟩
        rintro ⟨-, n', hn', hnot, -⟩
        rw [hold id n hid hmem, Option.some.injEq] at hn'
        exact hnot (hn' ▸ hlisted)
      · -- no group of this name has the user, or this one would have it
        rw [hnames id] at hid
        have hnone : ∀ id', t.nameOf id' = some n → (id', user_id) ∉ t.group_member := by
          intro id' hid' hmem'
          rcases hprepared.new id n hid with hn | ⟨hnew, -⟩
          · exact hmem (htwins n hlisted hblocked id' id hid' hn hmem')
          · exact hnew id' hid'
        have hthere : c.ENABLE_OAUTH_GROUP_CREATION = true ∨ ∃ id, t.nameOf id = some n := by
          rcases hprepared.new id n hid with hn | ⟨-, -, hcreate⟩
          · exact .inr ⟨id, hn⟩
          · exact .inl hcreate
        obtain ⟨b, hb⟩ := hchecks n (.inr ⟨hlisted, hnone, hthere⟩)
        exact .inr ⟨rfl, n, hid, hlisted, hfree n b hblocked hb, hnone⟩
  · rw [hmembers]
    constructor
    · rintro (⟨hmem, -⟩ | ⟨-, n', hn', -, hfalse, -⟩)
      · exact hmem
      · rw [hnames id, hn', Option.some.injEq] at hid
        rw [hid, show c.isBlocked n = .ok true from hblocked] at hfalse
        cases hfalse
    · intro hmem
      refine .inl ⟨hmem, ?_⟩
      rintro ⟨-, n', hn', -, hfalse, -⟩
      rw [hold id n hid hmem, Option.some.injEq] at hn'
      rw [← hn', show c.isBlocked n = .ok true from hblocked] at hfalse
      cases hfalse
  · rw [hmembers]
    constructor
    · rintro (⟨hmem, -⟩ | ⟨rfl, -⟩)
      · exact hmem
      · exact absurd rfl hv
    · exact fun hmem => .inl ⟨hmem, fun h => hv h.1⟩
  · rw [hnames id]
    exact hprepared.kept id n hid
  · obtain ⟨id, hid⟩ := hprepared.found hcreate n hn
    exact ⟨id, by rw [hnames id, hid]⟩

/-- What is checked in another run has been checked before. -/
theorem checked_of_synced {t₁ : Tables} {n : String} (hprepared : Prepared c names t t₁)
    (hnames : t₁.SameNames t')
    (hmembers : ∀ id v, (id, v) ∈ t'.group_member ↔
      ((id, v) ∈ t.group_member ∧ ¬ (v = user_id ∧ c.Leaves user_id names t id)) ∨
        (v = user_id ∧ c.Joins user_id names t t₁ id))
    (h : c.Checked user_id names t' n) : c.Checked user_id names t n := by
  rcases h with ⟨hnot, id, hid, hmem⟩ | ⟨hlisted, hnone, hthere⟩
  · rcases (hmembers id user_id).mp hmem with ⟨hmem, -⟩ | ⟨-, n', hn', hlisted, -⟩
    · exact .inl ⟨hnot, id, nameOf_of_member hprepared hnames hid hmem, hmem⟩
    · rw [hnames id, hn', Option.some.injEq] at hid
      exact absurd (hid ▸ hlisted) hnot
  · refine .inr ⟨hlisted, fun id hid hmem => ?_, ?_⟩
    · refine hnone id (by rw [hnames id, hprepared.kept id n hid]) ((hmembers id user_id).mpr ?_)
      refine .inl ⟨hmem, ?_⟩
      rintro ⟨-, n', hn', hnot, -⟩
      rw [hid, Option.some.injEq] at hn'
      exact hnot (hn' ▸ hlisted)
    · rcases hthere with hcreate | ⟨id, hid⟩
      · exact .inl hcreate
      · rw [hnames id] at hid
        rcases hprepared.new id n hid with hn | ⟨-, -, hcreate⟩
        · exact .inr ⟨id, hn⟩
        · exact .inl hcreate

/-- **Another run changes nothing.** -/
theorem update_user_groups_again
    (hread : userOauthGroups c.OAUTH_GROUPS_CLAIM c.OAUTH_GROUPS_SEPARATOR user_data = .ok names)
    (hne : names ≠ [])
    (hhashable : c.ENABLE_OAUTH_GROUP_CREATION = true → ∀ x ∈ names, isHashable x = true)
    (hchecks : ∀ n, c.Checked user_id names t' n → ∃ b, c.isBlocked n = .ok b)
    (hsynced : c.Synced user_id names t t') :
    c.update_user_groups user_id user_data t' = (.ok (), t') := by
  have havailable : c.availableGroups user_id names t' = (.ok t'.get_all_groups, t') :=
    availableGroups_of_found fun hcreate => ⟨hhashable hcreate, hsynced.created hcreate⟩
  have hprepared : Prepared c names t' t' :=
    ⟨rfl, fun _ _ h => h, fun _ _ h => .inl h, hsynced.created⟩
  have hfree : ∀ n, c.isBlocked n = .ok false → ¬ c.Blocked n := by
    intro n hn hblocked
    rw [show c.isBlocked n = .ok true from hblocked] at hn
    cases hn
  obtain ⟨left, joined, hleft, hjoined, hrun⟩ := leaveAndJoin_eq hne hprepared hchecks
  have hnobody : left = [] := by
    refine List.eq_nil_iff_forall_not_mem.mpr fun e he => ?_
    obtain ⟨hg, hmem, hnot, hblocked⟩ := (hleft e).mp he
    exact hnot ((hsynced.member_iff e.1 _ (nameOf_of_get hg) (hfree _ hblocked)).mp hmem)
  have hnothing : joined = [] := by
    refine List.eq_nil_iff_forall_not_mem.mpr fun e he => ?_
    obtain ⟨hg, hlisted, hnone, hblocked⟩ := (hjoined e).mp he
    exact hnone e.1 (nameOf_of_get hg)
      ((hsynced.member_iff e.1 _ (nameOf_of_get hg) (hfree _ hblocked)).mpr hlisted)
  subst hnobody hnothing
  rw [update_user_groups_apply hread, Py.bind_ok havailable]
  exact hrun

/-- Without names the loops do nothing. -/
theorem leaveAndJoin_nil (current available : List (String × GroupModel)) :
    c.leaveAndJoin user_id [] current available t = (.ok (), t) :=
  (Py.bind_ok (forEach_of_not fun _ _ h => h.1 rfl)).trans (forEach_of_not fun _ _ h => h.1 rfl)

/-- **The groups are synchronised** exactly under the condition. -/
theorem syncs_iff (c : Sync) (user_id : String) (user_data : Json) (t : Tables) :
    c.Syncs user_id user_data t ↔ c.Syncable user_id user_data t := by
  constructor
  · rintro ⟨t', hrun, hsynced⟩
    have hread : ∃ names,
        userOauthGroups c.OAUTH_GROUPS_CLAIM c.OAUTH_GROUPS_SEPARATOR user_data = .ok names := by
      unfold update_user_groups at hrun
      obtain ⟨names, t₀, hnames, -⟩ := Py.bind_eq_ok_iff.mp hrun
      exact ⟨names, congrArg Prod.fst hnames⟩
    refine ⟨userOauthGroups_ok_iff.mp hread, fun names hnames => ?_⟩
    rw [update_user_groups_apply hnames] at hrun
    obtain ⟨available, t₁, havailable, hloops⟩ := Py.bind_eq_ok_iff.mp hrun
    have hhashable := isHashable_of_availableGroups havailable
    refine ⟨hhashable, fun hne => ?_⟩
    obtain ⟨t₁', hsame, hprepared⟩ := availableGroups_ok hhashable t
    rw [havailable] at hsame
    obtain ⟨hsame, rfl⟩ := Prod.mk.inj hsame
    obtain rfl := Except.ok.inj hsame
    have hchecks : ∀ n, c.Checked user_id names t n → ∃ b, c.isBlocked n = .ok b := by
      obtain ⟨_, t₂, hloop₁, hloop₂⟩ := Py.bind_eq_ok_iff.mp hloops
      rintro n (⟨hnot, id, hid, hmem⟩ | ⟨hlisted, hnone, hthere⟩)
      · obtain ⟨g, hg, rfl⟩ := Option.map_eq_some_iff.mp hid
        exact checked_of_forEach hloop₁ (id, g)
          (Tables.mem_get_groups_by_member_id.mpr ⟨hg, hmem⟩) ⟨hne, hnot⟩
      · obtain ⟨id, hid⟩ : ∃ id, t₁.nameOf id = some n := by
          rcases hthere with hcreate | ⟨id, hid⟩
          · exact hprepared.found hcreate n hlisted
          · exact ⟨id, hprepared.kept id n hid⟩
        obtain ⟨g, hg, rfl⟩ := Option.map_eq_some_iff.mp hid
        exact checked_of_forEach hloop₂ (id, g) (Tables.mem_get_all_groups.mpr hg)
          ⟨hne, hlisted, not_exists_current_iff.mpr hnone⟩
    refine ⟨hchecks, fun n hlisted hblocked id₁ id₂ hid₁ hid₂ hmem => ?_⟩
    -- the user joins the second group only if it is in no group of the name
    obtain ⟨t'', hloops', hnames', hmembers⟩ := leaveAndJoin_ok hne hprepared hchecks
    rw [hloops'] at hloops
    obtain rfl := (Prod.mk.inj hloops).2
    obtain ⟨hdone, -⟩ := hsynced names hnames hne
    have hjoined := (hdone.member_iff id₂ n (hdone.kept id₂ n hid₂) hblocked).mpr hlisted
    rcases (hmembers id₂ user_id).mp hjoined with ⟨hmem₂, -⟩ | ⟨-, n', hn', -, -, hnone⟩
    · exact hmem₂
    · rw [hprepared.kept id₂ n hid₂, Option.some.injEq] at hn'
      exact absurd hmem (hnone id₁ (hn' ▸ hid₁))
  · rintro ⟨hreadable, h⟩
    obtain ⟨names, hnames⟩ := userOauthGroups_ok_iff.mpr hreadable
    obtain ⟨hhashable, hrest⟩ := h names hnames
    obtain ⟨t₁, havailable, hprepared⟩ := availableGroups_ok hhashable t
    have hrun : c.update_user_groups user_id user_data t = c.leaveAndJoin user_id names
        (t.get_groups_by_member_id user_id) t₁.get_all_groups t₁ := by
      rw [update_user_groups_apply hnames, Py.bind_ok havailable]
    by_cases hne : names = []
    · subst hne
      rw [leaveAndJoin_nil] at hrun
      refine ⟨t₁, hrun, fun names' hnames' hne' => ?_⟩
      rw [hnames] at hnames'
      exact absurd (Except.ok.inj hnames').symm hne'
    · obtain ⟨hchecks, htwins⟩ := hrest hne
      obtain ⟨t', hloops, hsame, hmembers⟩ := leaveAndJoin_ok hne hprepared hchecks
      have hsynced := synced_of_members hprepared hsame hmembers hchecks htwins
      refine ⟨t', hrun.trans hloops, fun names' hnames' _ => ?_⟩
      rw [hnames] at hnames'
      obtain rfl := Except.ok.inj hnames'
      refine ⟨hsynced, update_user_groups_again hnames hne hhashable (fun n hn => hchecks n ?_)
        hsynced⟩
      exact checked_of_synced hprepared hsame hmembers hn

/-! ## A claim on the way to which is a text -/

/-- An id that is longer than those that are used. -/
def longId (t : Tables) : String :=
  String.ofList (List.replicate ((t.group.keys.map String.length).sum + 1) 'x')

theorem longId_fresh (t : Tables) : longId t ∉ t.group := by
  intro h
  have hlength : (longId t).length ∈ t.group.keys.map String.length := List.mem_map_of_mem h
  have hle := List.single_le_sum (fun _ _ => Nat.zero_le _) _ hlength
  have hlong : (longId t).length = (t.group.keys.map String.length).sum + 1 := by
    simp [longId]
  omega

/-- A configuration for the claim `realm.groups`. -/
def realmGroups : Sync where
  OAUTH_GROUPS_CLAIM := some "realm.groups"
  OAUTH_GROUPS_SEPARATOR := ";"
  blocked_groups := []
  ENABLE_OAUTH_GROUP_CREATION := false
  OAUTH_GROUP_DEFAULT_SHARE := .bool false
  default_permissions := none
  admin_user := none
  re_search := fun _ _ => .found false
  ids := ⟨longId, longId_fresh⟩
  now := 0

/-- Without groups. -/
def noGroups : Tables := ⟨.empty, [], List.nodup_nil, nofun⟩

/-- A provider whose `realm` is a text makes the synchronisation raise. -/
theorem realm_text_raises :
    ¬ realmGroups.Syncs "ann" (.dict [("realm", .str "main")]) noGroups := by
  rintro ⟨t', hrun, -⟩
  have hread : userOauthGroups realmGroups.OAUTH_GROUPS_CLAIM realmGroups.OAUTH_GROUPS_SEPARATOR
      (.dict [("realm", .str "main")]) = .error .attributeError := by decide
  unfold update_user_groups at hrun
  rw [Py.lift_bind_error hread] at hrun
  cases hrun

end Sync

end OpenLaunch.Auth
