import OpenLaunch.Models.MergeDefaults

/-! # Calling twice

The second call starts from what the first one left in the cached lists. Its dicts differ from
those of the first call only in metadata that has the defaults in it already, so every row does
to them what it did before, and the result is the same. -/

namespace OpenLaunch.Models

open Python Python.Json

/-! ## The dicts of the two calls -/

/-- A dict of the second call: that of the first, or that with the defaults filled in. -/
def Same (default_metadata : List (String × Json)) (o o' : Obj) : Prop :=
  o' = o ∨ ∃ info info', o.origin ≠ .own ∧ o.model.info? = some info ∧
    fillInfo default_metadata info = .ok info' ∧
    o' = ⟨{ o.model with info := some info' }, o.origin⟩

section Same

variable {default_metadata : List (String × Json)} {o o' : Obj} {os os' : List Obj}

theorem Same.id_eq (h : Same default_metadata o o') : o'.model.id = o.model.id := by
  rcases h with rfl | ⟨-, -, -, -, -, rfl⟩
  · rfl
  · rfl

theorem Same.fields_eq (h : Same default_metadata o o') : o'.model.fields = o.model.fields := by
  rcases h with rfl | ⟨-, -, -, -, -, rfl⟩
  · rfl
  · rfl

theorem ids_of_same (h : List.Forall₂ (Same default_metadata) os os') :
    os'.map (·.model.id) = os.map (·.model.id) := by
  induction h with
  | nil => rfl
  | cons hsame _ ih => rw [List.map_cons, List.map_cons, hsame.id_eq, ih]

/-- Whether a model is found does not depend on its `info`. -/
theorem findIdx?_of_same (h : List.Forall₂ (Same default_metadata) os os') {p : Model → Bool}
    (hp : ∀ o o', Same default_metadata o o' → p o'.model = p o.model) :
    (os'.map Obj.model).findIdx? p = (os.map Obj.model).findIdx? p := by
  induction h with
  | nil => rfl
  | cons hsame _ ih =>
    rw [List.map_cons, List.map_cons, List.findIdx?_cons, List.findIdx?_cons, hp _ _ hsame, ih]

theorem isOllama_of_same (h : Same default_metadata o o') :
    o'.model.isOllama = o.model.isOllama := by
  rw [Model.isOllama, Model.get?, h.fields_eq]
  rfl

theorem found_of_same (h : List.Forall₂ (Same default_metadata) os os') (name : String) :
    found (os'.map Obj.model) name = found (os.map Obj.model) name := by
  rw [found, found, findIdx?_of_same h, findIdx?_of_same h]
  · intro o o' hsame
    rw [isOllama_of_same hsame, hsame.id_eq]
  · intro o o' hsame
    rw [hsame.id_eq]

theorem base_model_lookup_of_same (h : List.Forall₂ (Same default_metadata) os os') (r : ℕ)
    (lookup : Dict String ℕ) :
    base_model_lookup (os'.map Obj.model) r lookup =
      base_model_lookup (os.map Obj.model) r lookup := by
  induction h generalizing r lookup with
  | nil => rfl
  | cons hsame _ ih =>
    rw [List.map_cons, List.map_cons, base_model_lookup, base_model_lookup, addToLookup,
      addToLookup, isOllama_of_same hsame, hsame.id_eq]
    exact ih _ _

/-- A preset takes nothing from the `info` of its base model. -/
theorem presetModel_of_same (h : List.Forall₂ (Same default_metadata) os os') (c : ModelModel)
    (place : Option ℕ) (action_ids filter_ids : List Json) :
    presetModel c (place.bind fun r => (os'[r]?).map Obj.model) action_ids filter_ids =
      presetModel c (place.bind fun r => (os[r]?).map Obj.model) action_ids filter_ids := by
  cases place with
  | none => rfl
  | some r =>
    rw [Option.bind_some, Option.bind_some]
    by_cases hr : r < os.length
    · have hr' : r < os'.length := h.length_eq ▸ hr
      have hfields := (List.forall₂_iff_get.mp h).2 r hr hr'
      simp only [List.get_eq_getElem] at hfields
      rw [List.getElem?_eq_getElem hr, List.getElem?_eq_getElem hr', Option.map_some,
        Option.map_some]
      simp only [presetModel, Option.bind_some, Option.map_some, Model.get?, hfields.fields_eq]
    · have hr' : ¬ r < os'.length := h.length_eq ▸ hr
      rw [List.getElem?_eq_none (Nat.le_of_not_lt hr), List.getElem?_eq_none (Nat.le_of_not_lt hr')]

theorem forall₂_modify_both {α β : Type} {R : α → β → Prop} {as : List α} {bs : List β}
    (h : List.Forall₂ R as bs) (i : ℕ) {f : α → α} {g : β → β}
    (hfg : ∀ a b, R a b → R (f a) (g b)) : List.Forall₂ R (as.modify i f) (bs.modify i g) := by
  induction h generalizing i with
  | nil => simp
  | cons hab htail ih =>
    cases i with
    | zero => exact .cons (hfg _ _ hab) htail
    | succ i => exact .cons hab (ih i)

/-- A row does the same to the dicts of both calls. -/
theorem nextObjects_same (h : List.Forall₂ (Same default_metadata) os os')
    (lookup : Dict String ℕ) (existing_ids : List String) (c : ModelModel) :
    List.Forall₂ (Same default_metadata) (nextObjects lookup existing_ids os c)
      (nextObjects lookup existing_ids os' c) := by
  unfold nextObjects
  cases c.base_model_id with
  | none =>
    dsimp only
    split
    · exact h
    · split
      · refine forall₂_modify_both h _ fun o o' hsame => .inl ?_
        simp only [overridden, Model.set, hsame.id_eq, hsame.fields_eq]
      · exact h
  | some base_model_id =>
    dsimp only
    split
    · exact h
    · rw [presetModel_of_same h]
      exact List.rel_append h (.cons (.inl rfl) .nil)

theorem foldl_nextObjects_same (h : List.Forall₂ (Same default_metadata) os os')
    (lookup : Dict String ℕ) (existing_ids : List String) (rows : List ModelModel) :
    List.Forall₂ (Same default_metadata) (rows.foldl (nextObjects lookup existing_ids) os)
      (rows.foldl (nextObjects lookup existing_ids) os') := by
  induction rows generalizing os os' with
  | nil => exact h
  | cons c rows ih => exact ih (nextObjects_same h lookup existing_ids c)

/-- The same places list the same dicts. -/
theorem filterMap_getElem?_same {α β : Type} {R : α → β → Prop} {as : List α} {bs : List β}
    (h : List.Forall₂ R as bs) (places : List ℕ) :
    List.Forall₂ R (places.filterMap (as[·]?)) (places.filterMap (bs[·]?)) := by
  induction places with
  | nil => exact .nil
  | cons r places ih =>
    rw [List.filterMap_cons, List.filterMap_cons]
    by_cases hr : r < as.length
    · have hr' : r < bs.length := h.length_eq ▸ hr
      rw [List.getElem?_eq_getElem hr, List.getElem?_eq_getElem hr']
      exact .cons ((List.forall₂_iff_get.mp h).2 r hr hr') ih
    · have hr' : ¬ r < bs.length := h.length_eq ▸ hr
      rw [List.getElem?_eq_none (Nat.le_of_not_lt hr), List.getElem?_eq_none (Nat.le_of_not_lt hr')]
      exact ih

end Same

/-! ## What the second call starts from -/

section Start

variable {default_metadata : List (String × Json)} {config : ModelsConfig} {s s' : AppState}

theorem forall₂_mapIdx {α β γ δ : Type} {R : α → β → Prop} {S : γ → δ → Prop} {as : List α}
    {bs : List β} (h : List.Forall₂ R as bs) {f : ℕ → α → γ} {g : ℕ → β → δ}
    (hfg : ∀ i a b, R a b → S (f i a) (g i b)) : List.Forall₂ S (as.mapIdx f) (bs.mapIdx g) := by
  induction h generalizing f g with
  | nil => exact .nil
  | cons hab _ ih =>
    rw [List.mapIdx_cons, List.mapIdx_cons]
    exact .cons (hfg 0 _ _ hab) (ih fun i a b => hfg (i + 1) a b)

theorem same_arenaModel {a a' : ArenaModel} (h : RefilledArena default_metadata a a')
    {origin : Origin} (hown : origin ≠ .own) :
    Same default_metadata ⟨arenaModel a, origin⟩ ⟨arenaModel a', origin⟩ := by
  rcases h with rfl | ⟨meta', hfill, rfl⟩
  · exact .inl rfl
  · exact .inr ⟨_, _, hown, rfl, hfill, rfl⟩

theorem initialObjs_same (h : Refilled default_metadata s s') :
    List.Forall₂ (Same default_metadata) (initialObjs config s) (initialObjs config s') := by
  refine List.rel_append (forall₂_mapIdx h.base fun i m m' hm => ?_) ?_
  · rcases hm with rfl | ⟨info, info', hinfo, hfill, rfl⟩
    · exact .inl rfl
    · exact .inr ⟨info, info', (fun hown => nomatch hown), hinfo, hfill, rfl⟩
  · unfold arenaObjs
    have hdefault : Same default_metadata ⟨arenaModel s.DEFAULT_ARENA_MODEL, .defaultArena⟩
        ⟨arenaModel s'.DEFAULT_ARENA_MODEL, .defaultArena⟩ :=
      same_arenaModel h.default fun hown => nomatch hown
    split
    · split
      · exact List.forall₂_same.mpr fun _ _ => .inl rfl
      · exact .cons hdefault .nil
      · have hnil : s.arena_models = [] ↔ s'.arena_models = [] := by
          rw [← List.length_eq_zero_iff, ← List.length_eq_zero_iff, h.arena.length_eq]
        by_cases hempty : s.arena_models = []
        · rw [if_pos hempty, if_pos (hnil.mp hempty)]
          exact .cons hdefault .nil
        · rw [if_neg hempty, if_neg fun h => hempty (hnil.mpr h)]
          exact forall₂_mapIdx h.arena fun i a a' ha => same_arenaModel ha fun hown => nomatch hown
    · exact .nil

/-- Every dict at the start shares what its origin holds. -/
theorem linked_initialObjs : ∀ o ∈ initialObjs config s, Linked s o := by
  intro o ho
  rcases List.mem_append.mp ho with ho | ho
  · obtain ⟨i, hi, rfl⟩ := List.mem_mapIdx.mp ho
    exact .inr (by simp [AppState.infoAt, List.getElem?_eq_getElem hi])
  · unfold arenaObjs at ho
    split at ho
    · split at ho
      · obtain ⟨a, -, rfl⟩ := List.mem_map.mp ho
        exact .inl rfl
      · rw [List.mem_singleton.mp ho]
        exact .inr rfl
      · split at ho
        · rw [List.mem_singleton.mp ho]
          exact .inr rfl
        · obtain ⟨i, hi, rfl⟩ := List.mem_mapIdx.mp ho
          exact .inr (by simp [AppState.infoAt, List.getElem?_eq_getElem hi]; rfl)
    · cases ho

/-- What holds of the dicts and of every dict that carries the dump of a row holds after a row. -/
theorem forall_nextObjects {P : Obj → Prop} {lookup : Dict String ℕ} {existing_ids : List String}
    {objects : List Obj} {c : ModelModel} (hrow : ∀ m : Model, m.info = some c.info → P ⟨m, .own⟩)
    (h : ∀ o ∈ objects, P o) : ∀ o ∈ nextObjects lookup existing_ids objects c, P o := by
  unfold nextObjects
  cases c.base_model_id with
  | none =>
    dsimp only
    split
    · exact h
    · split
      · intro o ho
        obtain ⟨i, hi⟩ := List.mem_iff_getElem?.mp ho
        rw [List.getElem?_modify] at hi
        obtain ⟨o', ho', rfl⟩ := Option.map_eq_some_iff.mp hi
        split
        · exact hrow _ rfl
        · exact h o' (List.mem_of_getElem? ho')
      · exact h
  | some base_model_id =>
    dsimp only
    split
    · exact h
    · intro o ho
      rcases List.mem_append.mp ho with ho | ho
      · exact h o ho
      · rw [List.mem_singleton.mp ho]
        exact hrow _ rfl

/-- The dump of a row is metadata that the defaults fit into. -/
theorem infoOk_info (c : ModelModel) : InfoOk c.info := by
  refine ⟨_, rfl, c.meta_.model_dump, rfl, ?_⟩
  have hget : Assoc.get? c.meta_.model_dump "capabilities" =
      some ((c.meta_.capabilities.map Json.dict).getD .null) := rfl
  rw [MetaOk, hget, Option.getD_some]
  cases c.meta_.capabilities with
  | none => exact .inl rfl
  | some kvs => exact .inr ⟨kvs, rfl⟩

/-- Every dict shares what its origin holds, and takes the defaults, whatever rows come. -/
theorem forall_foldl_nextObjects {lookup : Dict String ℕ} {existing_ids : List String}
    {objects : List Obj} (hlinked : ∀ o ∈ objects, Linked s o)
    (hok : ∀ o ∈ objects, ModelOk o.model) (rows : List ModelModel) :
    ∀ o ∈ rows.foldl (nextObjects lookup existing_ids) objects, Linked s o ∧ ModelOk o.model := by
  have h : ∀ o ∈ objects, Linked s o ∧ ModelOk o.model := fun o ho => ⟨hlinked o ho, hok o ho⟩
  clear hlinked hok
  induction rows generalizing objects with
  | nil => exact h
  | cons c rows ih =>
    refine ih (forall_nextObjects (fun m hm => ⟨.inl rfl, fun info hinfo => ?_⟩) h)
    rw [Model.info?, hm] at hinfo
    cases hinfo
    exact infoOk_info c

end Start

/-- The loop over the models of the second call writes what is there. -/
theorem applyDefaults_again {default_metadata : List (String × Json)} {s : AppState}
    {os os' : List Obj} (hdefaults : DefaultsOk default_metadata)
    (hsame : List.Forall₂ (Same default_metadata) os os')
    (hholds : ∀ o ∈ os, Holds default_metadata s o) {ms : List Model}
    (hms : List.Forall₂ (fun o m => o.model.withDefaults default_metadata = .ok m) os ms) :
    applyDefaults default_metadata os' s = .ok (s, ms) := by
  induction hsame generalizing ms with
  | nil =>
    cases hms
    rfl
  | @cons o o' os os' ho _ ih =>
    rw [List.forall_mem_cons] at hholds
    cases hms with
    | @cons _ m _ ms hm hms =>
      have hagain : o'.model.withDefaults default_metadata = .ok m ∧ sharedAfter s o' m = s := by
        rcases (withDefaults_eq_ok hm).2 with hnone | ⟨info, info', hinfo, hfill, rfl⟩
        · -- Nothing was shared, and the dict is the same.
          rcases ho with rfl | ⟨info, -, -, hinfo, -, -⟩
          · exact ⟨hm, by rw [sharedAfter, hnone]⟩
          · rw [hnone] at hinfo
            cases hinfo
        · have hat : s.share o.origin info' = s := by
            rcases hholds.1 with hown | hnone | ⟨info₂, info₂', hinfo₂, hfill₂, hat⟩
            · rw [hown]
              rfl
            · rw [hnone] at hinfo
              cases hinfo
            · rw [hinfo, Option.some.injEq] at hinfo₂
              subst hinfo₂
              rw [hfill] at hfill₂
              cases hfill₂
              exact share_self hat
          rcases ho with rfl | ⟨info₂, info₂', -, hinfo₂, hfill₂, rfl⟩
          · exact ⟨hm, by rw [sharedAfter, hinfo]; exact hat⟩
          · rw [hinfo, Option.some.injEq] at hinfo₂
            subst hinfo₂
            rw [hfill] at hfill₂
            cases hfill₂
            have hinfo' : ({ o.model with info := some info' } : Model).info? = some info' := by
              obtain ⟨-, -, -, -, -, -, rfl⟩ := fillInfo_eq_ok hfill
              rfl
            refine ⟨?_, ?_⟩
            · rw [Model.withDefaults, hinfo']
              dsimp only
              rw [fillInfo_again hdefaults hfill]
              rfl
            · rw [sharedAfter, hinfo']
              exact hat
      rw [applyDefaults_cons hagain.1, hagain.2, ih hholds.2 hms]
      rfl

/-! ## The call -/

/-- The models before the rows are merged in: the base models, then the arena models. -/
def startModels (config : ModelsConfig) (s : AppState) : List Model :=
  (initialObjs config s).map Obj.model

/-- The default metadata goes into every model at the start. -/
structure TakesDefaults (config : ModelsConfig) (s : AppState) : Prop where
  /-- The defaults can be merged. -/
  defaults : DefaultsOk config.default_metadata
  /-- They fit the models. -/
  models : ∀ m ∈ startModels config s, ModelOk m

section Call

variable {config : ModelsConfig} {rows : List ModelModel} {s s' : AppState}

/-- The rows leave the dicts of one call as those of the other, at the same places. -/
theorem mergeCustoms_same (hids : ((startModels config s).map Model.id).Nodup)
    (hrows : (rows.map ModelModel.id).Nodup) (hreads : ∀ c ∈ rows, ReadsIds c)
    (honce : DeactivateOnce (startModels config s) rows)
    (h : Refilled config.default_metadata s s') :
    ∃ t t', mergeCustoms (base_model_lookup (startModels config s) 0 .empty)
        ((initialObjs config s).map (·.model.id)) rows
        ⟨initialObjs config s, List.range (initialObjs config s).length⟩ = .ok t ∧
      mergeCustoms (base_model_lookup (startModels config s') 0 .empty)
        ((initialObjs config s').map (·.model.id)) rows
        ⟨initialObjs config s', List.range (initialObjs config s').length⟩ = .ok t' ∧
      MergeInv (initialObjs config s) rows t ∧
      t.objects = rows.foldl (nextObjects (base_model_lookup (startModels config s) 0 .empty)
        ((initialObjs config s).map (·.model.id))) (initialObjs config s) ∧
      List.Forall₂ (Same config.default_metadata) t.listed t'.listed := by
  have hsame : List.Forall₂ (Same config.default_metadata) (initialObjs config s)
      (initialObjs config s') := initialObjs_same h
  have hids' : ((initialObjs config s').map (·.model.id)) =
      (initialObjs config s).map (·.model.id) := ids_of_same hsame
  have hlookup : base_model_lookup (startModels config s') 0 .empty =
      base_model_lookup (startModels config s) 0 .empty := base_model_lookup_of_same hsame 0 .empty
  have hfound : ∀ name, found (startModels config s') name = found (startModels config s) name :=
    found_of_same hsame
  have hdeact : ∀ c r, Deactivates (startModels config s') c r ↔
      Deactivates (startModels config s) c r := fun c r => by
    simp only [Deactivates, hfound]
  rw [startModels, map_id_eq] at hids
  have honce' : DeactivateOnce (startModels config s') rows := by
    refine honce.imp fun h r => ?_
    rw [hdeact, hdeact]
    exact h r
  obtain ⟨t, hrun, hobjects, hinv⟩ :=
    @mergeCustoms_ok _ hids rows [] _ hrows (mergeInv_nil (initialObjs config s)) hreads honce
  obtain ⟨t', hrun', hobjects', hinv'⟩ :=
    @mergeCustoms_ok _ (hids' ▸ hids) rows [] _ hrows (mergeInv_nil (initialObjs config s')) hreads
      honce'
  refine ⟨t, t', hrun, hrun', hinv, hobjects, ?_⟩
  have hobj : List.Forall₂ (Same config.default_metadata) t.objects t'.objects := by
    rw [hobjects, hobjects', hids']
    change List.Forall₂ _ _ (rows.foldl (nextObjects (base_model_lookup (startModels config s') 0
      .empty) _) _)
    rw [hlookup]
    exact foldl_nextObjects_same hsame _ _ rows
  have hmodels : t'.models = t.models := by
    rw [hinv.models, hinv'.models, hobj.length_eq]
    refine List.filter_congr fun r _ => decide_eq_decide.mpr ?_
    exact forall₂_congr fun c _ => not_congr (hdeact c r)
  rw [Merge.listed, Merge.listed, hmodels]
  exact filterMap_getElem?_same hobj t.models

/-- **Merging the lists of models.** With base models, distinct identifiers, readable ids of
actions and filters, no model that two inactive overrides find, and defaults that fit, the merge
returns. The models have distinct identifiers: those of the start that no inactive override finds,
and the active presets with a free one. The cached lists change at most by defaults filled into
metadata they carry, and a second call returns the same. -/
theorem get_all_models_ok (hbase : s.BASE_MODELS ≠ [])
    (hids : ((startModels config s).map Model.id).Nodup)
    (hrows : (rows.map ModelModel.id).Nodup) (hreads : ∀ c ∈ rows, ReadsIds c)
    (honce : DeactivateOnce (startModels config s) rows)
    (hdefaults : config.default_metadata ≠ [] → TakesDefaults config s) :
    ∃ s' ms, get_all_models config rows s = .ok (s', ms) ∧
      (ms.map Model.id).Nodup ∧
      (∀ id, id ∈ ms.map Model.id ↔
        (∃ r : ℕ, ((startModels config s)[r]?).map Model.id = some id ∧
          ∀ c ∈ rows, ¬ Deactivates (startModels config s) c r) ∨
        ∃ c ∈ rows, Adds (startModels config s) c ∧ c.id = id) ∧
      (∀ c ∈ rows, ∀ r m, Deactivates (startModels config s) c r →
        (startModels config s)[r]? = some m → m.id ∉ ms.map Model.id) ∧
      Refilled config.default_metadata s s' ∧
      (config.default_metadata = [] → s' = s) ∧
      get_all_models config rows s' = .ok (s', ms) := by
  -- What the list of dicts says about identifiers, for any models that keep them.
  have hlist : ∀ {t : Merge} {ms : List Model}, MergeInv (initialObjs config s) rows t →
      ms.map Model.id = t.listed.map (·.model.id) →
      (ms.map Model.id).Nodup ∧
      (∀ id, id ∈ ms.map Model.id ↔
        (∃ r : ℕ, ((startModels config s)[r]?).map Model.id = some id ∧
          ∀ c ∈ rows, ¬ Deactivates (startModels config s) c r) ∨
        ∃ c ∈ rows, Adds (startModels config s) c ∧ c.id = id) ∧
      (∀ c ∈ rows, ∀ r m, Deactivates (startModels config s) c r →
        (startModels config s)[r]? = some m → m.id ∉ ms.map Model.id) := by
    intro t ms hinv hms
    rw [hms]
    refine ⟨?_, fun id => hinv.mem_ids, ?_⟩
    · have hnodup : (t.objects.map (·.model.id)).Nodup :=
        hinv.nodup (by rwa [startModels, map_id_eq] at hids) hrows
      exact hnodup.sublist (hinv.listed_sublist.map _)
    · intro c hc r m hdeact hm hmem
      rcases hinv.mem_ids.mp hmem with ⟨r', hr', hfree⟩ | ⟨c', -, hadds, hid⟩
      · -- The identifier is at one place only, and a row deactivates that one.
        have hr : ((startModels config s).map Model.id)[r]? = some m.id := by
          rw [List.getElem?_map, hm]
          rfl
        rw [← List.getElem?_map] at hr'
        have hlt := (List.getElem?_eq_some_iff.mp hr).1
        have hsame : r = r' := (List.getElem?_inj hlt hids).mp (hr.trans hr'.symm)
        subst hsame
        exact hfree c hc hdeact
      · exact hadds.2.2 (hid ▸ List.mem_map_of_mem (List.mem_of_getElem? hm))
  have hbase' : ∀ {s' : AppState}, Refilled config.default_metadata s s' → s'.BASE_MODELS ≠ [] := by
    intro s' h hnil
    have hlen := h.base.length_eq
    rw [hnil] at hlen
    exact hbase (List.length_eq_zero_iff.mp hlen)
  by_cases hnone : config.default_metadata = []
  · obtain ⟨t, -, hrun, -, hinv, -, -⟩ :=
      mergeCustoms_same hids hrows hreads honce (Refilled.refl config.default_metadata s)
    have hcall : get_all_models config rows s = .ok (s, t.listed.map Obj.model) := by
      unfold get_all_models
      rw [if_neg hbase]
      dsimp only
      change (mergeCustoms (base_model_lookup (startModels config s) 0 .empty) _ _ _ >>= _) = _
      rw [hrun]
      exact if_pos hnone
    have hms : (t.listed.map Obj.model).map Model.id = t.listed.map (·.model.id) := by
      rw [map_id_eq]
    obtain ⟨hnodup, hmem, hdeact⟩ := hlist hinv hms
    exact ⟨s, _, hcall, hnodup, hmem, hdeact, .refl _ s, fun _ => rfl, hcall⟩
  · obtain ⟨hok, hmodels⟩ := hdefaults hnone
    have hcall : ∀ {s₁ : AppState} {t : Merge}, s₁.BASE_MODELS ≠ [] →
        mergeCustoms (base_model_lookup (startModels config s₁) 0 .empty)
          ((initialObjs config s₁).map (·.model.id)) rows
          ⟨initialObjs config s₁, List.range (initialObjs config s₁).length⟩ = .ok t →
        get_all_models config rows s₁ =
          applyDefaults config.default_metadata t.listed s₁ := by
      intro s₁ t hbase₁ hrun
      unfold get_all_models
      rw [if_neg hbase₁]
      dsimp only
      change (mergeCustoms (base_model_lookup (startModels config s₁) 0 .empty) _ _ _ >>= _) = _
      rw [hrun]
      exact if_neg hnone
    obtain ⟨t, -, hrun, -, hinv, hobjects, -⟩ :=
      mergeCustoms_same hids hrows hreads honce (Refilled.refl config.default_metadata s)
    have hall : ∀ o ∈ t.listed, Linked s o ∧ ModelOk o.model := by
      intro o ho
      have hmem : o ∈ t.objects := hinv.listed_sublist.subset ho
      rw [hobjects] at hmem
      exact forall_foldl_nextObjects linked_initialObjs
        (fun o ho => hmodels o.model (List.mem_map_of_mem ho)) rows o hmem
    obtain ⟨s', ms, hdone, hms, hrefilled, hwith, hholds⟩ :=
      @applyDefaults_ok _ s s hok t.listed (Refilled.refl config.default_metadata s)
        (fun o ho => (hall o ho).2) (fun o ho => (hall o ho).1) [] (by simp) (by simp)
    obtain ⟨t₂, t', hrun₂, hrun', -, -, hsame⟩ :=
      mergeCustoms_same hids hrows hreads honce hrefilled
    rw [hrun] at hrun₂
    cases hrun₂
    obtain ⟨hnodup, hmem, hdeact⟩ := hlist hinv hms
    refine ⟨s', ms, by rw [hcall hbase hrun, hdone], hnodup, hmem, hdeact, hrefilled,
      fun h => absurd h hnone, ?_⟩
    rw [hcall (hbase' hrefilled) hrun']
    exact applyDefaults_again hok hsame hholds hwith

end Call

/-- An Ollama model without metadata. -/
def ollamaModel (id : String) : Model := ⟨id, none, [("owned_by", .str "ollama")]⟩

/-- No arena, and one default. -/
def oneDefault : ModelsConfig := ⟨false, none, [("hidden", .bool true)]⟩

/-- The caches with some base models. -/
def cachesWith (models : List Model) : AppState :=
  ⟨models, [], ⟨"arena-model", .str "Arena", .dict []⟩⟩

/-- A preset, an override by a name without its tag and an inactive override, with a default. -/
theorem get_all_models_mixed :
    ∃ s' ms, get_all_models oneDefault
        [plainRow "mine" (some "llama3") true, plainRow "llama3" none true,
          plainRow "phi3" none false]
        (cachesWith [ollamaModel "llama3:8b", ollamaModel "phi3"]) = .ok (s', ms) ∧
      (ms.map Model.id).Nodup ∧
      get_all_models oneDefault
        [plainRow "mine" (some "llama3") true, plainRow "llama3" none true,
          plainRow "phi3" none false] s' = .ok (s', ms) := by
  have hreads : ∀ c ∈ [plainRow "mine" (some "llama3") true, plainRow "llama3" none true,
      plainRow "phi3" none false], ReadsIds c := by
    simp only [List.forall_mem_cons]
    exact ⟨fun _ => ⟨⟨[], rfl⟩, [], rfl⟩, fun _ => ⟨⟨[], rfl⟩, [], rfl⟩,
      fun _ => ⟨⟨[], rfl⟩, [], rfl⟩, by simp⟩
  have honce : DeactivateOnce
      (startModels oneDefault (cachesWith [ollamaModel "llama3:8b", ollamaModel "phi3"]))
      [plainRow "mine" (some "llama3") true, plainRow "llama3" none true,
        plainRow "phi3" none false] := by
    simp [DeactivateOnce, Deactivates, plainRow]
  have hdefaults : TakesDefaults oneDefault
      (cachesWith [ollamaModel "llama3:8b", ollamaModel "phi3"]) := by
    refine ⟨⟨by decide, fun value hvalue => ?_⟩, ?_⟩
    · cases hvalue
    · simp [startModels, initialObjs, arenaObjs, oneDefault, cachesWith, ModelOk, Model.info?,
        ollamaModel]
  obtain ⟨s', ms, hcall, hnodup, -, -, -, -, hagain⟩ :=
    get_all_models_ok (by decide) (by decide) (by decide) hreads honce fun _ => hdefaults
  exact ⟨s', ms, hcall, hnodup, hagain⟩

/-- **What the merge does not do.** Without base models the presets are left out. Two inactive
overrides that find the same model, an explicit null for the ids of actions and a null default for
the capabilities raise. The copy of a base model is shallow, so that the defaults end up in the
cached list. -/
theorem merge_counterexample :
    get_all_models ⟨false, none, []⟩ [plainRow "mine" (some "llama3") true] (cachesWith []) =
      .ok (cachesWith [], []) ∧
    get_all_models ⟨false, none, []⟩ [plainRow "llama3" none false, plainRow "llama3:8b" none false]
      (cachesWith [ollamaModel "llama3:8b"]) = .error .valueError ∧
    get_all_models ⟨false, none, []⟩
      [{ plainRow "llama3" none true with meta_ := ⟨none, none, none, [("actionIds", .null)]⟩ }]
      (cachesWith [ollamaModel "llama3"]) = .error .typeError ∧
    get_all_models ⟨false, none, [("capabilities", .null)]⟩ [plainRow "llama3" none true]
      (cachesWith [ollamaModel "llama3"]) = .error .typeError ∧
    (∃ ms, get_all_models oneDefault []
      (cachesWith [{ ollamaModel "llama3" with info := some (.dict [("meta", .dict [])]) }]) =
        .ok (cachesWith [{ ollamaModel "llama3" with
          info := some (.dict [("meta", .dict [("hidden", .bool true)])]) }], ms)) := by
  refine ⟨by decide, by decide, by decide, by decide,
    [{ ollamaModel "llama3" with
      info := some (.dict [("meta", .dict [("hidden", .bool true)])]) }], by decide⟩

end OpenLaunch.Models
