import OpenLaunch.Models.MergeTwice
import OpenLaunch.Models.BaseAccess

/-! # The models listed and the models usable

`get_filtered_models` decides from the `info` that a list carries, with one query for all grants;
`check_model_access` decides from the row of the table, and also wants access to the models below.
They agree where the `info` is that of the row, and whoever may read the row may read what it is
based on. -/

namespace OpenLaunch.Models

open Python Python.Json OpenLaunch.Access

/-! ## Arena models -/

/-- `model.get('arena')`, as a condition. -/
def Model.isArena (m : Model) : Bool := ((m.get? "arena").map Json.truthy).getD false

/-- `model.get('info', {}).get('meta', {}).get('access_grants', [])`, as the loop over it sees
it. -/
def arenaGrants (m : Model) : Except PyErr (List Json) := do
  let meta_ ← (m.info.getD (.dict [])).getD "meta" (.dict [])
  let access_grants ← meta_.getD "access_grants" (.list [])
  if access_grants.truthy then access_grants.iter else .ok []

/-- The access check on an arena model, the same in both functions. -/
def arenaAccess (db : Database) (user_id : String) (user_group_ids : Option (List String))
    (m : Model) : Except PyErr Bool := do
  let access_grants ← arenaGrants m
  AccessControl.has_access db user_id "read" access_grants user_group_ids

/-! ## The two functions -/

/-- What `check_model_access` raises. -/
inductive AccessError
  /-- `Exception('Model not found')`. -/
  | notFound
  /-- Another exception. -/
  | raised (e : PyErr)
  deriving DecidableEq

/-- `check_model_access`. -/
def check_model_access (db : Database) (rows : List ModelModel) (user_id : String) (m : Model) :
    Except AccessError Unit :=
  if m.isArena then
    match arenaAccess db user_id none m with
    | .ok true => .ok ()
    | .ok false => .error .notFound
    | .error e => .error (.raised e)
  else
    match get_model_by_id rows m.id with
    | none => .error .notFound
    | some model_info =>
      if ¬ mayRead db user_id none model_info then .error .notFound
      -- Enforce access on chained base models
      else if has_base_model_access db rows user_id model_info none ≠ some true then
        .error .notFound
      else .ok ()

/-- `BYPASS_ADMIN_ACCESS_CONTROL` and `BYPASS_MODEL_ACCESS_CONTROL`. -/
structure Bypass where
  /-- Admins see everything. -/
  admin : Bool
  /-- Everyone does. -/
  model : Bool

/-- The loop that fills `model_infos`. -/
def modelInfos : List Model → Dict String Json → Dict String Json
  | [], infos => infos
  | m :: models, infos =>
    modelInfos models <|
      match m.info with
      | some info => if m.isArena ∨ info.truthy = false then infos else infos.set m.id info
      | none => infos

/-- The condition under which the loop of `get_filtered_models` keeps a model. -/
def keeps (bypass : Bypass) (db : Database) (user : User) (user_group_ids : List String)
    (model_infos : Dict String Json) (accessible_model_ids : List String) (m : Model) :
    Except PyErr Bool :=
  if m.isArena then arenaAccess db user.id (some user_group_ids) m
  else
    match model_infos.get? m.id with
    | some model_info =>
      if user.role = "admin" ∧ bypass.admin then .ok true
      else do
        let owner ← model_info.get "user_id"
        .ok (owner = .str user.id ∨ m.id ∈ accessible_model_ids)
    -- Only admins see models without an entry.
    | none => .ok (user.role = "admin")

/-- The loop of `get_filtered_models`. -/
def filterModels (keep : Model → Except PyErr Bool) : List Model → Except PyErr (List Model)
  | [] => .ok []
  | m :: models => do
    let kept ← keep m
    let rest ← filterModels keep models
    .ok (if kept then m :: rest else rest)

/-- `get_filtered_models`. -/
def get_filtered_models (bypass : Bypass) (db : Database) (models : List Model) (user : User) :
    Except PyErr (List Model) :=
  if (user.role = "user" ∨ user.role = "admin" ∧ ¬ bypass.admin) ∧ ¬ bypass.model then
    let model_infos := modelInfos models .empty
    let user_group_ids := (get_groups_by_member_id db user.id).map Group.id
    let accessible_model_ids := AccessGrantsTable.get_accessible_resource_ids db user.id "model"
      model_infos.keys "read" (some user_group_ids)
    filterModels (keeps bypass db user user_group_ids model_infos accessible_model_ids) models
  else .ok models

/-! ## When they agree -/

/-- The user has a grant to read the model with an identifier. -/
def Granted (db : Database) (user_id id : String) : Prop :=
  Allows (grantsOn db.grants "model" id) user_id (groupsOf db user_id) "read"

/-- The user may read every other registered model that the model is based on. -/
def ReadsBases (db : Database) (rows : List ModelModel) (user_id : String)
    (model_info : ModelModel) : Prop :=
  ∀ id base_model_info, Below rows model_info id → get_model_by_id rows id = some base_model_info →
    id = model_info.id ∨ user_id = base_model_info.user_id ∨ Granted db user_id id

/-- What an `info` says about the owner fits the row of the table.

* With both, whoever has a grant may read what the model is based on, and someone without one is
  the owner in the `info` when they own the row and may read what it is based on.
* With an `info` only, the user does not own it and has no grant.
* With a row only, the user cannot use the model. -/
def InfoFits (db : Database) (rows : List ModelModel) (user_id id : String) :
    Option Json → Option ModelModel → Prop
  | none, none => True
  | some info, none => info.get "user_id" ≠ .ok (.str user_id) ∧ ¬ Granted db user_id id
  | none, some row =>
    (user_id = row.user_id ∨ Granted db user_id id) → ¬ ReadsBases db rows user_id row
  | some info, some row =>
    (Granted db user_id id → ReadsBases db rows user_id row) ∧
    (¬ Granted db user_id id → (info.get "user_id" = .ok (.str user_id) ↔
      user_id = row.user_id ∧ ReadsBases db rows user_id row))

/-- The list fits the table: nothing that is read of it raises, and every `info` fits its row. -/
structure ListFits (db : Database) (rows : List ModelModel) (user_id : String)
    (models : List Model) : Prop where
  /-- The grants of arena models can be evaluated. -/
  arena : ∀ m ∈ models, m.isArena = true → ∃ b, arenaAccess db user_id none m = .ok b
  /-- An `info` that is looked at is a dict. -/
  dict : ∀ m ∈ models, m.isArena = false → ∀ info, (modelInfos models .empty).get? m.id = some info →
    ∃ owner, info.get "user_id" = .ok owner
  /-- An `info` fits its row. -/
  info : ∀ m ∈ models, m.isArena = false → InfoFits db rows user_id m.id
    ((modelInfos models .empty).get? m.id) (get_model_by_id rows m.id)

/-! ## The decisions, one by one -/

section Decisions

variable {bypass : Bypass} {db : Database} {rows : List ModelModel} {user : User}
  {user_id : String} {m : Model} {models : List Model}

theorem mayRead_iff (row : ModelModel) :
    mayRead db user_id none row = true ↔ user_id = row.user_id ∨ Granted db user_id row.id := by
  have hgiven : ∀ ids, none = some ids → ListsGroupsOf db user_id ids := fun _ h => nomatch h
  rw [mayRead, decide_eq_true_eq, has_access_iff hgiven]
  rfl

/-- The walk over the base models of a row of the table. -/
theorem has_base_model_access_eq_true_iff {row : ModelModel}
    (hrow : get_model_by_id rows row.id = some row) :
    has_base_model_access db rows user_id row none = some true ↔
      ReadsBases db rows user_id row := by
  obtain ⟨b, hb⟩ := Option.isSome_iff_exists.mp
    (has_base_model_access_isSome db rows user_id row none)
  have hcheck := hb
  rw [has_base_model_access, followBaseModels_eq] at hcheck
  rw [hb, Option.some.injEq, GuardedWalk.check_eq_true_iff hcheck]
  change (∀ r, GuardedWalk.Meets _ _ _ row.base? r → _) ↔ _
  constructor
  · rintro hall id base_model_info ⟨base, hbase, hpath⟩ hget
    by_cases hid : id = row.id
    · exact .inl hid
    · right
      rw [hbase] at hall
      have hread := hall _ (GuardedWalk.meets_of_reached_ne hrow hbase hpath hget hid)
      rw [mayRead_iff, (id_of_get_model_by_id hget).1] at hread
      exact hread
  · intro hall r hmeets
    cases hbase : row.base? with
    | none =>
      rw [hbase] at hmeets
      cases hmeets
    | some base =>
      rw [hbase] at hmeets
      obtain ⟨id, hpath, hne, hget⟩ := hmeets.reached
      rw [mayRead_iff, (id_of_get_model_by_id hget).1]
      exact (hall id r ⟨base, hbase, hpath⟩ hget).resolve_left (by simpa using hne)

/-- What `check_model_access` wants of a model that is not an arena model. -/
theorem check_model_access_iff (harena : m.isArena = false) :
    check_model_access db rows user_id m = .ok () ↔ ∃ row, get_model_by_id rows m.id = some row ∧
      (user_id = row.user_id ∨ Granted db user_id m.id) ∧ ReadsBases db rows user_id row := by
  rw [check_model_access, harena, if_neg Bool.false_ne_true]
  cases hget : get_model_by_id rows m.id with
  | none => simp
  | some row =>
    obtain ⟨hid, -⟩ := id_of_get_model_by_id hget
    have hrow : get_model_by_id rows row.id = some row := by rw [hid, hget]
    have hread : mayRead db user_id none row = true ↔ _ := mayRead_iff row
    have hbases : has_base_model_access db rows user_id row none = some true ↔ _ :=
      has_base_model_access_eq_true_iff hrow
    rw [hid] at hread
    simp only [Option.some.injEq, exists_eq_left', ← hread, ← hbases]
    by_cases h₁ : mayRead db user_id none row = true
    · by_cases h₂ : has_base_model_access db rows user_id row none = some true
      · simp [h₁, h₂]
      · simp [h₁, h₂]
    · simp [h₁]

/-- What `get_filtered_models` wants of such a model, for an account with the role of a user. -/
theorem keeps_iff (hrole : user.role = "user") (harena : m.isArena = false) {b : Bool}
    (hb : keeps bypass db user ((get_groups_by_member_id db user.id).map Group.id)
      (modelInfos models .empty) (AccessGrantsTable.get_accessible_resource_ids db user.id "model"
        (modelInfos models .empty).keys "read"
        (some ((get_groups_by_member_id db user.id).map Group.id))) m = .ok b) :
    b = true ↔ ∃ info, (modelInfos models .empty).get? m.id = some info ∧
      (info.get "user_id" = .ok (.str user.id) ∨ Granted db user.id m.id) := by
  have hadmin : ¬ user.role = "admin" := by
    rw [hrole]
    decide
  have hgiven : ∀ ids, some ((get_groups_by_member_id db user.id).map Group.id) = some ids →
      ListsGroupsOf db user.id ids := by
    rintro ids hids
    cases hids
    have hnone : ListsGroupsOf db user.id (groupIds db user.id none) :=
      listsGroupsOf_groupIds fun _ h => nomatch h
    exact hnone
  rw [keeps, harena, if_neg Bool.false_ne_true] at hb
  cases hinfo : (modelInfos models .empty).get? m.id with
  | none =>
    rw [hinfo] at hb
    dsimp only at hb
    cases hb
    simp [hadmin]
  | some info =>
    have hmem : m.id ∈ (modelInfos models .empty).keys :=
      Dict.mem_iff_exists.mpr ⟨info, hinfo⟩
    rw [hinfo] at hb
    dsimp only at hb
    rw [if_neg fun h => hadmin h.1] at hb
    obtain ⟨owner, howner, hb⟩ := bind_eq_ok.mp hb
    cases hb
    rw [decide_eq_true_eq, mem_get_accessible_resource_ids hgiven hmem]
    simp [Granted, howner]

/-- An arena model is judged alike. -/
theorem keeps_arena (harena : m.isArena = true) (infos : Dict String Json) (ids : List String) :
    keeps bypass db user ((get_groups_by_member_id db user.id).map Group.id) infos ids m =
      arenaAccess db user.id none m := by
  rw [keeps, harena, if_pos rfl]
  rfl

theorem check_arena_iff (harena : m.isArena = true) :
    check_model_access db rows user_id m = .ok () ↔ arenaAccess db user_id none m = .ok true := by
  rw [check_model_access, harena, if_pos rfl]
  split
  · next h => simp [h]
  · next h => simp [h]
  · next h => simp [h]

/-- The loop returns when its condition does, with the models it holds of. -/
theorem filterModels_eq_ok {keep : Model → Except PyErr Bool} :
    (∃ kept, filterModels keep models = .ok kept) ↔ ∀ m ∈ models, ∃ b, keep m = .ok b := by
  induction models with
  | nil => simp [filterModels]
  | cons m models ih =>
    rw [List.forall_mem_cons, ← ih]
    constructor
    · rintro ⟨kept, h⟩
      obtain ⟨b, hb, h⟩ := bind_eq_ok.mp h
      obtain ⟨rest, hrest, -⟩ := bind_eq_ok.mp h
      exact ⟨⟨b, hb⟩, rest, hrest⟩
    · rintro ⟨⟨b, hb⟩, rest, hrest⟩
      exact ⟨_, by rw [filterModels, hb, hrest]; rfl⟩

theorem mem_filterModels {keep : Model → Except PyErr Bool} {kept : List Model}
    (h : filterModels keep models = .ok kept) : m ∈ kept ↔ m ∈ models ∧ keep m = .ok true := by
  induction models generalizing kept with
  | nil =>
    cases h
    simp
  | cons m' models ih =>
    obtain ⟨b, hb, h⟩ := bind_eq_ok.mp h
    obtain ⟨rest, hrest, h⟩ := bind_eq_ok.mp h
    cases h
    cases b with
    | true =>
      rw [if_pos rfl, List.mem_cons, List.mem_cons, ih hrest]
      constructor
      · rintro (rfl | ⟨hmem, hm⟩)
        · exact ⟨.inl rfl, hb⟩
        · exact ⟨.inr hmem, hm⟩
      · rintro ⟨rfl | hmem, hm⟩
        · exact .inl rfl
        · exact .inr ⟨hmem, hm⟩
    | false =>
      rw [if_neg Bool.false_ne_true, List.mem_cons, ih hrest]
      constructor
      · rintro ⟨hmem, hm⟩
        exact ⟨.inr hmem, hm⟩
      · rintro ⟨rfl | hmem, hm⟩
        · rw [hb] at hm
          cases hm
        · exact ⟨hmem, hm⟩

end Decisions

/-! ## Both together -/

/-- An `info` fits its row when the two decisions are the same. -/
theorem infoFits_iff (db : Database) (rows : List ModelModel) (user_id id : String)
    (info : Option Json) (row : Option ModelModel) :
    InfoFits db rows user_id id info row ↔
      ((∃ i, info = some i ∧ (i.get "user_id" = .ok (.str user_id) ∨ Granted db user_id id)) ↔
        ∃ r, row = some r ∧ (user_id = r.user_id ∨ Granted db user_id id) ∧
          ReadsBases db rows user_id r) := by
  cases info with
  | none =>
    cases row with
    | none => simp [InfoFits]
    | some row => simp [InfoFits]
  | some info =>
    cases row with
    | none => simp [InfoFits, not_or]
    | some row =>
      by_cases hgranted : Granted db user_id id
      · simp [InfoFits, hgranted]
      · simp [InfoFits, hgranted]

/-- **Listed and usable.** For an account with the role of a user and without bypasses, the models
listed are those that can be used exactly when the list fits the table. -/
theorem listed_iff_usable (db : Database) (rows : List ModelModel) (models : List Model)
    (user : User) (hrole : user.role = "user") :
    (∃ listed, get_filtered_models ⟨false, false⟩ db models user = .ok listed ∧
      ∀ m ∈ models, m ∈ listed ↔ check_model_access db rows user.id m = .ok ()) ↔
    ListFits db rows user.id models := by
  have hcall : get_filtered_models ⟨false, false⟩ db models user =
      filterModels (keeps ⟨false, false⟩ db user ((get_groups_by_member_id db user.id).map Group.id)
        (modelInfos models .empty) (AccessGrantsTable.get_accessible_resource_ids db user.id "model"
          (modelInfos models .empty).keys "read"
          (some ((get_groups_by_member_id db user.id).map Group.id)))) models := by
    rw [get_filtered_models, if_pos ⟨.inl hrole, by simp⟩]
  have hadmin : ¬ (user.role = "admin" ∧ (Bypass.mk false false).admin = true) := by simp
  rw [hcall]
  constructor
  · rintro ⟨listed, hlisted, hagree⟩
    have hkeep := filterModels_eq_ok.mp ⟨listed, hlisted⟩
    refine ⟨fun m hm harena => ?_, fun m hm harena info hinfo => ?_, fun m hm harena => ?_⟩
    · obtain ⟨b, hb⟩ := hkeep m hm
      rw [keeps_arena harena] at hb
      exact ⟨b, hb⟩
    · obtain ⟨b, hb⟩ := hkeep m hm
      rw [keeps, harena, if_neg Bool.false_ne_true, hinfo] at hb
      dsimp only at hb
      rw [if_neg hadmin] at hb
      obtain ⟨owner, howner, -⟩ := bind_eq_ok.mp hb
      exact ⟨owner, howner⟩
    · obtain ⟨b, hb⟩ := hkeep m hm
      rw [infoFits_iff, ← keeps_iff hrole harena hb, ← check_model_access_iff harena,
        ← hagree m hm, mem_filterModels hlisted, hb, Except.ok.injEq]
      exact ⟨fun h => ⟨hm, h⟩, fun h => h.2⟩
  · intro hfits
    have hkeep : ∀ m ∈ models, ∃ b, keeps ⟨false, false⟩ db user
        ((get_groups_by_member_id db user.id).map Group.id) (modelInfos models .empty)
        (AccessGrantsTable.get_accessible_resource_ids db user.id "model"
          (modelInfos models .empty).keys "read"
          (some ((get_groups_by_member_id db user.id).map Group.id))) m = .ok b := by
      intro m hm
      cases harena : m.isArena with
      | true =>
        rw [keeps_arena harena]
        exact hfits.arena m hm harena
      | false =>
        rw [keeps, harena, if_neg Bool.false_ne_true]
        cases hinfo : (modelInfos models .empty).get? m.id with
        | none => exact ⟨_, rfl⟩
        | some info =>
          dsimp only
          rw [if_neg hadmin]
          obtain ⟨owner, howner⟩ := hfits.dict m hm harena info hinfo
          rw [howner]
          exact ⟨_, rfl⟩
    obtain ⟨listed, hlisted⟩ := filterModels_eq_ok.mpr hkeep
    refine ⟨listed, hlisted, fun m hm => ?_⟩
    obtain ⟨b, hb⟩ := hkeep m hm
    rw [mem_filterModels hlisted, and_iff_right hm]
    cases harena : m.isArena with
    | true => rw [check_arena_iff harena, keeps_arena harena]
    | false =>
      rw [hb, Except.ok.injEq, keeps_iff hrole harena hb, check_model_access_iff harena]
      exact (infoFits_iff ..).mp (hfits.info m hm harena)

/-- A preset of the user on a preset of someone else. -/
def wrapperRows : List ModelModel :=
  [{ plainRow "private" (some "gpt") true with user_id := "v" },
    plainRow "wrapper" (some "private") true]

/-- A preset of the user on a model of a provider. -/
theorem listed_iff_usable_own :
    ListFits noGrants [plainRow "mine" (some "gpt") true] "u"
      [presetModel (plainRow "mine" (some "gpt") true) none [] [], ⟨"gpt", none, []⟩] :=
  (listed_iff_usable noGrants [plainRow "mine" (some "gpt") true]
    [presetModel (plainRow "mine" (some "gpt") true) none [] [], ⟨"gpt", none, []⟩] ⟨"u", "user"⟩
    rfl).mp ⟨[presetModel (plainRow "mine" (some "gpt") true) none [] []],
      by decide, by decide⟩

/-- **Listed but not usable**: the list looks at the preset only, the check at its base model
too. -/
theorem wrapper_listed_not_usable :
    (do
      let (_, models) ← get_all_models ⟨false, none, []⟩ wrapperRows (cachesWith [⟨"gpt", none, []⟩])
      let listed ← get_filtered_models ⟨false, false⟩ noGrants models ⟨"u", "user"⟩
      .ok (listed.map fun m => (m.id, check_model_access noGrants wrapperRows "u" m))) =
    Except.ok [("wrapper", Except.error AccessError.notFound)] := by
  decide

end OpenLaunch.Models
