import OpenLaunch.Access.Grants
import OpenLaunch.Models.Merge
import OpenLaunch.GuardedWalk

/-! # Access to the models a model is based on

A preset runs on its base model, which may be a preset again. `has_base_model_access` follows the
links in the table and wants read access at each of them. Users set the links, so they may lead
nowhere or in a circle. -/

namespace OpenLaunch.Models

open Python Python.Json OpenLaunch.Access

/-! ## The walk -/

/-- `Models.get_model_by_id`. -/
def get_model_by_id (rows : List ModelModel) (id : String) : Option ModelModel :=
  rows.find? (·.id = id)

/-- The access check on one model, of an owner or by a grant. -/
def mayRead (db : Database) (user_id : String) (user_group_ids : Option (List String))
    (model_info : ModelModel) : Bool :=
  user_id = model_info.user_id ∨ AccessGrantsTable.has_access db user_id "model" model_info.id
    "read" user_group_ids

/-- The loop of `has_base_model_access`, with the number of rounds it is given. -/
def followBaseModels (rows : List ModelModel) (may_read : ModelModel → Bool) :
    ℕ → Option String → List String → Option Bool
  | 0, _, _ => none
  | fuel + 1, base_model_id, seen =>
    match base_model_id with
    | none => some true
    | some base_model_id =>
      if base_model_id = "" ∨ base_model_id ∈ seen then some true
      else
        match get_model_by_id rows base_model_id with
        -- A raw provider model has no access control of its own.
        | none => some true
        | some base_model_info =>
          if may_read base_model_info then
            followBaseModels rows may_read fuel base_model_info.base_model_id
              (base_model_id :: seen)
          else some false

/-- `has_base_model_access`; one round more than there are rows is enough. -/
def has_base_model_access (db : Database) (rows : List ModelModel) (user_id : String)
    (model_info : ModelModel) (user_group_ids : Option (List String)) : Option Bool :=
  followBaseModels rows (mayRead db user_id user_group_ids) (rows.length + 1)
    model_info.base_model_id [model_info.id]

/-! ## The chain -/

/-- The base model of a model, where it names one. -/
def ModelModel.base? (model_info : ModelModel) : Option String :=
  model_info.base_model_id.filter (· ≠ "")

/-- The base model of the model with an identifier. -/
def baseOf (rows : List ModelModel) (id : String) : Option String :=
  (get_model_by_id rows id).bind ModelModel.base?

/-- The identifiers on the chain below a model. -/
def Below (rows : List ModelModel) (model_info : ModelModel) (id : String) : Prop :=
  ∃ base, model_info.base? = some base ∧
    Relation.ReflTransGen (Forest.Edge (baseOf rows)) base id

/-- The chain of a model does not come back to where it was. -/
def AcyclicChain (rows : List ModelModel) (model_info : ModelModel) : Prop :=
  ¬ Below rows model_info model_info.id ∧
    ∀ id, Below rows model_info id → ¬ Relation.TransGen (Forest.Edge (baseOf rows)) id id

/-- The loop is the guarded walk along the links that are not empty. -/
theorem followBaseModels_eq (rows : List ModelModel) (may_read : ModelModel → Bool) (fuel : ℕ)
    (base_model_id : Option String) (seen : List String) :
    followBaseModels rows may_read fuel base_model_id seen =
      GuardedWalk.check (get_model_by_id rows) ModelModel.base? may_read fuel
        (base_model_id.filter (· ≠ "")) seen := by
  induction fuel generalizing base_model_id seen with
  | zero => rfl
  | succ fuel ih =>
    cases base_model_id with
    | none => rfl
    | some base_model_id =>
      rw [followBaseModels]
      by_cases hempty : base_model_id = ""
      · subst hempty
        rfl
      · have hbase : (some base_model_id).filter (· ≠ "") = some base_model_id := by
          simp [hempty]
        rw [hbase, GuardedWalk.check]
        simp only [hempty, false_or]
        split
        · rfl
        · split
          · next hnone => rw [hnone]
          · next base_model_info hsome =>
            rw [hsome]
            dsimp only
            rw [ih]
            rfl

theorem id_of_get_model_by_id {rows : List ModelModel} {id : String} {model_info : ModelModel}
    (h : get_model_by_id rows id = some model_info) : model_info.id = id ∧ model_info ∈ rows := by
  have hid := List.find?_some h
  exact ⟨of_decide_eq_true hid, List.mem_of_find?_eq_some h⟩

/-- **The loop returns** on every table. -/
theorem has_base_model_access_isSome (db : Database) (rows : List ModelModel) (user_id : String)
    (model_info : ModelModel) (user_group_ids : Option (List String)) :
    (has_base_model_access db rows user_id model_info user_group_ids).isSome := by
  have hkeys : ∀ id model_info, get_model_by_id rows id = some model_info →
      id ∈ rows.map ModelModel.id := by
    intro id model_info h
    obtain ⟨hid, hmem⟩ := id_of_get_model_by_id h
    exact hid ▸ List.mem_map_of_mem hmem
  rw [has_base_model_access, followBaseModels_eq]
  refine GuardedWalk.check_isSome hkeys (Nat.lt_succ_of_le ?_)
  calc ((rows.map ModelModel.id).filter (· ∉ [model_info.id])).length
      ≤ (rows.map ModelModel.id).length := List.length_filter_le _ _
    _ = rows.length := List.length_map _

/-- **Access to the base models.** The check returns for every table. Where the chain does not come
back to where it was, it accepts exactly when the user may read every registered model below. -/
theorem has_base_model_access_iff (db : Database) (rows : List ModelModel) (user_id : String)
    (model_info : ModelModel) (user_group_ids : Option (List String)) :
    ∃ b, has_base_model_access db rows user_id model_info user_group_ids = some b ∧
      (AcyclicChain rows model_info → (b = true ↔ ∀ id base_model_info,
        Below rows model_info id → get_model_by_id rows id = some base_model_info →
        mayRead db user_id user_group_ids base_model_info = true)) := by
  obtain ⟨b, hb⟩ := Option.isSome_iff_exists.mp
    (has_base_model_access_isSome db rows user_id model_info user_group_ids)
  refine ⟨b, hb, fun hacyclic => ?_⟩
  rw [has_base_model_access, followBaseModels_eq] at hb
  rw [GuardedWalk.check_eq_true_iff hb]
  change (∀ r, GuardedWalk.Meets _ _ _ model_info.base? r → _) ↔ _
  cases hbase : model_info.base? with
  | none =>
    constructor
    · rintro - id base_model_info ⟨base, hbase', -⟩
      rw [hbase] at hbase'
      cases hbase'
    · rintro - r hmeets
      cases hmeets
  | some base =>
    have hbelow : ∀ id, Below rows model_info id ↔
        Relation.ReflTransGen (Forest.Edge (baseOf rows)) base id := by
      intro id
      constructor
      · rintro ⟨base', hbase', hpath⟩
        rw [hbase, Option.some.injEq] at hbase'
        exact hbase' ▸ hpath
      · exact fun hpath => ⟨base, hbase, hpath⟩
    constructor
    · intro hall id base_model_info hid hrow
      refine hall _ (GuardedWalk.meets_of_reached ((hbelow id).mp hid) hrow fun k hk => ?_)
      -- The model itself, the only one seen, is not on its chain.
      rw [List.mem_singleton]
      rintro rfl
      exact hacyclic.1 ((hbelow _).mpr hk)
    · intro hall r hmeets
      obtain ⟨id, hpath, -, hrow⟩ := hmeets.reached
      exact hall id r ((hbelow id).mpr hpath) hrow

/-- No grants at all. -/
def noGrants : Database := ⟨[], [], [], [], group_exists_nil⟩

/-- The owner of a wrapper and of the model it is based on. -/
theorem has_base_model_access_wrapper :
    has_base_model_access noGrants [plainRow "mine" (some "base") true, plainRow "base" none true]
      "u" (plainRow "mine" (some "base") true) none = some true := by
  obtain ⟨b, hb, hiff⟩ := has_base_model_access_iff noGrants
    [plainRow "mine" (some "base") true, plainRow "base" none true] "u"
    (plainRow "mine" (some "base") true) none
  -- The chain is the base model and nothing else.
  have hedge : ∀ id, ¬ Forest.Edge
      (baseOf [plainRow "mine" (some "base") true, plainRow "base" none true]) "base" id :=
    fun id h => nomatch h
  have hbelow : ∀ id, Below [plainRow "mine" (some "base") true, plainRow "base" none true]
      (plainRow "mine" (some "base") true) id → id = "base" := by
    rintro id ⟨base, hbase, hpath⟩
    cases hbase
    rcases hpath.cases_head with rfl | ⟨k, hk, -⟩
    · rfl
    · exact absurd hk (hedge k)
  have hacyclic : AcyclicChain [plainRow "mine" (some "base") true, plainRow "base" none true]
      (plainRow "mine" (some "base") true) := by
    refine ⟨fun h => ?_, fun id h hloop => ?_⟩
    · exact absurd (hbelow _ h) (by decide)
    · rw [hbelow id h] at hloop
      obtain ⟨k, hk, -⟩ := Relation.TransGen.head'_iff.mp hloop
      exact hedge k hk
  rw [hb, (hiff hacyclic).mpr]
  intro id base_model_info hid hrow
  rw [hbelow id hid] at hrow
  cases hrow
  decide

end OpenLaunch.Models
