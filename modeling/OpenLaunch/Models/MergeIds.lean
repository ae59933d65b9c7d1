import OpenLaunch.Models.Merge
import Mathlib.Data.List.Nodup
import Mathlib.Data.List.Range

/-! # Which models the merge returns

An override *finds* the model with its identifier, or else the first Ollama model with that name
before the tag. The list is left with the models that no inactive override finds, followed by the
active presets whose identifier is free: `mergeCustoms_ok` says so for every table. -/

namespace OpenLaunch.Models

open Python Python.Json

/-! ## The lookup -/

/-- The place of the model that a name finds: an exact identifier wins over a name before a tag. -/
def found (models : List Model) (name : String) : Option ℕ :=
  (models.findIdx? (·.id = name)).or
    (models.findIdx? fun m => m.isOllama ∧ untagged m.id = name)

theorem get?_addToLookup (lookup : Dict String ℕ) (m : Model) (r : ℕ) (name : String) :
    (addToLookup lookup m r).get? name =
      if name = m.id then some r
      else (lookup.get? name).or (if m.isOllama ∧ untagged m.id = name then some r else none) := by
  rw [addToLookup, Dict.get?_set]
  by_cases hid : name = m.id
  · rw [if_pos hid, if_pos hid]
  · rw [if_neg hid, if_neg hid]
    by_cases hadd : m.isOllama = true ∧ untagged m.id ∉ lookup
    · rw [if_pos hadd, Dict.get?_set]
      by_cases hname : name = untagged m.id
      · subst hname
        rw [if_pos rfl, if_pos ⟨hadd.1, rfl⟩, Dict.get?_eq_none_iff.mpr hadd.2, Option.none_or]
      · rw [if_neg hname, if_neg fun h => hname h.2.symm, Option.or_none]
    · rw [if_neg hadd]
      by_cases hname : m.isOllama = true ∧ untagged m.id = name
      · -- The name before the tag is taken already, by an earlier model.
        have hmem : name ∈ lookup := by
          by_contra hnot
          exact hadd ⟨hname.1, hname.2 ▸ hnot⟩
        obtain ⟨r', hr'⟩ := Dict.mem_iff_exists.mp hmem
        rw [hr', Option.some_or]
      · rw [if_neg hname, Option.or_none]

theorem get?_base_model_lookup {models : List Model} (hd : (models.map Model.id).Nodup) (r : ℕ)
    (lookup : Dict String ℕ) (name : String) :
    (base_model_lookup models r lookup).get? name =
      ((models.findIdx? (·.id = name)).map (· + r)).or ((lookup.get? name).or
        ((models.findIdx? fun m => m.isOllama ∧ untagged m.id = name).map (· + r))) := by
  induction models generalizing r lookup with
  | nil => simp [base_model_lookup]
  | cons m models ih =>
    rw [List.map_cons, List.nodup_cons] at hd
    rw [base_model_lookup, ih hd.2, get?_addToLookup, List.findIdx?_cons, List.findIdx?_cons]
    have hshift : ∀ i : Option ℕ, (i.map (· + 1)).map (· + r) = i.map (· + (r + 1)) := fun i => by
      rw [Option.map_map]
      congr 1
      funext n
      show n + 1 + r = n + (r + 1)
      omega
    by_cases hid : m.id = name
    · -- Only this model has the identifier.
      have hrest : models.findIdx? (fun m' => decide (m'.id = name)) = none := by
        rw [List.findIdx?_eq_none_iff]
        intro m' hm'
        refine decide_eq_false fun h => hd.1 ?_
        rw [hid, ← h]
        exact List.mem_map_of_mem hm'
      simp [hid, hrest]
    · rw [if_neg (Ne.symm hid)]
      by_cases htag : m.isOllama = true ∧ untagged m.id = name
      · simp [hid, htag, hshift, Option.or_assoc]
      · simp only [hid, htag, decide_false, decide_true, if_false, Bool.false_eq_true, hshift,
          Option.or_none]

/-- **The lookup** finds what the name stands for. -/
theorem get?_lookup {models : List Model} (hd : (models.map Model.id).Nodup) (name : String) :
    (base_model_lookup models 0 .empty).get? name = found models name := by
  have h := get?_base_model_lookup hd 0 .empty name
  have hempty : (Dict.empty : Dict String ℕ).get? name = none := rfl
  simpa [hempty, found] using h

theorem found_lt {models : List Model} {name : String} {r : ℕ} (h : found models name = some r) :
    r < models.length := by
  rcases Option.or_eq_some_iff.mp h with h | ⟨-, h⟩
  · exact (List.findIdx?_eq_some_iff_findIdx_eq.mp h).1
  · exact (List.findIdx?_eq_some_iff_findIdx_eq.mp h).1

/-! ## One row -/

/-- The row is an inactive override that finds the model at the place. -/
def Deactivates (models : List Model) (c : ModelModel) (r : ℕ) : Prop :=
  c.base_model_id = none ∧ c.is_active = false ∧ found models c.id = some r

instance (models : List Model) (c : ModelModel) (r : ℕ) : Decidable (Deactivates models c r) :=
  inferInstanceAs (Decidable (_ ∧ _ ∧ _))

/-- The row is an active preset whose identifier no model of the list has. -/
def Adds (models : List Model) (c : ModelModel) : Prop :=
  c.base_model_id ≠ none ∧ c.is_active = true ∧ c.id ∉ models.map Model.id

instance (models : List Model) (c : ModelModel) : Decidable (Adds models c) :=
  inferInstanceAs (Decidable (_ ∧ _ ∧ _))

/-- The ids under a key of the metadata, where they can be read. -/
def idsOf (meta_ : ModelMeta) (key : String) : List Json := (idsIn meta_ key).toOption.getD []

theorem idsIn_eq {meta_ : ModelMeta} {key : String} {ids : List Json}
    (h : idsIn meta_ key = .ok ids) : idsOf meta_ key = ids := by rw [idsOf, h]; rfl

/-- The dicts after a row. The list `models` plays no part in them. -/
def nextObjects (lookup : Dict String ℕ) (existing_ids : List String) (objects : List Obj)
    (c : ModelModel) : List Obj :=
  match c.base_model_id with
  | none =>
    match lookup.get? c.id with
    | none => objects
    | some r =>
      if c.is_active then objects.modify r fun o =>
        ⟨overridden c (idsOf c.meta_ "actionIds") (idsOf c.meta_ "filterIds") o.model, .own⟩
      else objects
  | some base_model_id =>
    if ¬ c.is_active ∨ c.id ∈ existing_ids then objects
    else objects ++ [⟨presetModel c
      (((lookup.get? base_model_id).or (lookup.get? (untagged base_model_id))).bind
        fun r => (objects[r]?).map Obj.model)
      (idsOf c.meta_ "actionIds") (idsOf c.meta_ "filterIds"), .own⟩]

/-- The ids that a row lists can be read. -/
def ReadsIds (c : ModelModel) : Prop :=
  c.is_active = true → (∃ ids, idsIn c.meta_ "actionIds" = .ok ids) ∧
    ∃ ids, idsIn c.meta_ "filterIds" = .ok ids

/-- A change to one element that a function does not see. -/
theorem map_modify_of_eq {α β : Type} {f : α → α} {g : α → β} (h : ∀ a, g (f a) = g a)
    (as : List α) (i : ℕ) : (as.modify i f).map g = as.map g := by
  induction as generalizing i with
  | nil => simp
  | cons a as ih =>
    cases i with
    | zero => simp [h]
    | succ i => simp [ih]

theorem ids_nextObjects {models : List Model} (lookup : Dict String ℕ) (objects : List Obj)
    (c : ModelModel) :
    (nextObjects lookup (models.map Model.id) objects c).map (·.model.id) =
      objects.map (·.model.id) ++ if Adds models c then [c.id] else [] := by
  unfold nextObjects
  cases hbase : c.base_model_id with
  | none =>
    rw [if_neg fun h : Adds models c => h.1 hbase, List.append_nil]
    dsimp only
    split
    · rfl
    · split
      · exact map_modify_of_eq (f := fun o => Obj.mk (overridden c _ _ o.model) .own)
          (fun o => rfl) _ _
      · rfl
  | some base_model_id =>
    dsimp only
    by_cases hskip : ¬ c.is_active = true ∨ c.id ∈ models.map Model.id
    · rw [if_pos hskip, if_neg fun h : Adds models c => hskip.elim (fun h' => h' h.2.1) h.2.2,
        List.append_nil]
    · have hfree := not_or.mp hskip
      have hadds : Adds models c :=
        ⟨by rw [hbase]; exact Option.some_ne_none _, not_not.mp hfree.1, hfree.2⟩
      rw [if_neg hskip, if_pos hadds, List.map_append]
      rfl

/-! ## The list of models -/

/-- The list after the rows `done`: the places of all dicts but those that a row deactivates. -/
structure MergeInv (init : List Obj) (done : List ModelModel) (t : Merge) : Prop where
  /-- The dicts are those at the start and those of the presets. -/
  ids : t.objects.map (·.model.id) =
    init.map (·.model.id) ++ (done.filter (Adds (init.map Obj.model) ·)).map ModelModel.id
  /-- The list holds the places that are left. -/
  models : t.models = (List.range t.objects.length).filter
    fun r => ∀ c ∈ done, ¬ Deactivates (init.map Obj.model) c r

theorem mergeInv_nil (init : List Obj) : MergeInv init [] ⟨init, List.range init.length⟩ where
  ids := by simp
  models := by simp

theorem map_id_eq (init : List Obj) :
    (init.map Obj.model).map Model.id = init.map (·.model.id) := by
  rw [List.map_map]
  rfl

/-- Presets take identifiers that are free, so all dicts have identifiers of their own. -/
theorem MergeInv.nodup {init : List Obj} {done : List ModelModel} {t : Merge}
    (h : MergeInv init done t) (hd : (init.map (·.model.id)).Nodup)
    (hdone : (done.map ModelModel.id).Nodup) : (t.objects.map (·.model.id)).Nodup := by
  rw [h.ids, List.nodup_append]
  refine ⟨hd, hdone.sublist (List.filter_sublist.map _), ?_⟩
  rintro x hx y hy rfl
  obtain ⟨c, hc, rfl⟩ := List.mem_map.mp hy
  have hadds := (of_decide_eq_true (List.mem_filter.mp hc).2).2.2
  rw [map_id_eq] at hadds
  exact hadds hx

/-- Places of the list hold equal dicts only when they are the same. -/
theorem model?_inj {t : Merge} (hd : (t.objects.map (·.model.id)).Nodup) {r r' : ℕ}
    (hr : r < t.objects.length) (h : t.model? r' = t.model? r) : r' = r := by
  simp only [Merge.model?] at h
  rw [List.getElem?_eq_getElem hr, Option.map_some] at h
  obtain ⟨o, ho, hmodel⟩ := Option.map_eq_some_iff.mp h
  obtain ⟨hr', rfl⟩ := List.getElem?_eq_some_iff.mp ho
  have hr₂ : r < (t.objects.map (·.model.id)).length := by rwa [List.length_map]
  have hr₂' : r' < (t.objects.map (·.model.id)).length := by rwa [List.length_map]
  refine (@List.Nodup.getElem_inj_iff _ _ hd r' hr₂' r hr₂).mp ?_
  rw [List.getElem_map, List.getElem_map, hmodel]

/-- `models.remove(model)` removes the place of the dict, when the list holds it. -/
theorem remove_eq {t : Merge} (hd : (t.objects.map (·.model.id)).Nodup) {r : ℕ}
    (hr : r < t.objects.length) (hmem : r ∈ t.models) (hnodup : t.models.Nodup) :
    t.remove r = .ok { t with models := t.models.filter (· ≠ r) } := by
  have hiff : ∀ r', decide (t.model? r' = t.model? r) = decide (r' = r) := fun r' =>
    decide_eq_decide.mpr ⟨fun h => model?_inj hd hr h, fun h => by rw [h]⟩
  rw [Merge.remove, if_pos (List.any_eq_true.mpr ⟨r, hmem, decide_eq_true rfl⟩)]
  simp only [hiff]
  have herase : t.models.eraseP (fun r' => decide (r' = r)) = t.models.erase r :=
    (List.erase_eq_eraseP' r t.models).symm
  rw [herase, hnodup.erase_eq_filter]
  congr 3
  funext r'
  exact Bool.eq_iff_iff.mpr (by simp)

/-- What a row does where it does not raise. -/
theorem mergeCustom_ok {init : List Obj} {done : List ModelModel} {t : Merge} {c : ModelModel}
    (hd : (init.map (·.model.id)).Nodup) (hdone : (done.map ModelModel.id).Nodup)
    (h : MergeInv init done t) (hreads : ReadsIds c)
    (honce : ∀ c' ∈ done, ∀ r, Deactivates (init.map Obj.model) c' r →
      ¬ Deactivates (init.map Obj.model) c r) :
    ∃ t', mergeCustom (base_model_lookup (init.map Obj.model) 0 .empty)
        (init.map (·.model.id)) t c = .ok t' ∧
      t'.objects = nextObjects (base_model_lookup (init.map Obj.model) 0 .empty)
        (init.map (·.model.id)) t.objects c ∧
      t'.models = (List.range t'.objects.length).filter
        fun r => ∀ c' ∈ done ++ [c], ¬ Deactivates (init.map Obj.model) c' r := by
  have hlookup : ∀ name, (base_model_lookup (init.map Obj.model) 0 .empty).get? name =
      found (init.map Obj.model) name := get?_lookup (by rwa [map_id_eq])
  -- A row that deactivates nothing keeps every place.
  have hkeep : (∀ r, ¬ Deactivates (init.map Obj.model) c r) → ∀ n,
      (List.range n).filter (fun r => ∀ c' ∈ done ++ [c],
        ¬ Deactivates (init.map Obj.model) c' r) =
      (List.range n).filter (fun r => ∀ c' ∈ done, ¬ Deactivates (init.map Obj.model) c' r) := by
    intro hnone n
    refine List.filter_congr fun r _ => decide_eq_decide.mpr ?_
    simp [hnone, or_imp, forall_and]
  unfold mergeCustom nextObjects
  cases hbase : c.base_model_id with
  | none =>
    dsimp only
    rw [hlookup]
    cases hfound : found (init.map Obj.model) c.id with
    | none =>
      refine ⟨t, rfl, rfl, ?_⟩
      rw [hkeep (fun r hdeact => by rw [hdeact.2.2] at hfound; cases hfound), h.models]
    | some r =>
      have hr : r < t.objects.length := by
        have hlen := congrArg List.length h.ids
        have hlt := found_lt hfound
        simp only [List.length_map, List.length_append] at hlen hlt
        omega
      dsimp only
      cases hactive : c.is_active with
      | true =>
        obtain ⟨⟨action_ids, haction⟩, filter_ids, hfilter⟩ := hreads hactive
        refine ⟨_, by rw [if_pos rfl, haction, hfilter]; rfl, ?_, ?_⟩
        · rw [if_pos rfl, idsIn_eq haction, idsIn_eq hfilter]
        · dsimp only
          rw [List.length_modify, hkeep (fun r' hdeact => by rw [hdeact.2.1] at hactive; cases hactive),
            h.models]
      | false =>
        have hdeact : Deactivates (init.map Obj.model) c r := ⟨hbase, hactive, hfound⟩
        have hmem : r ∈ t.models := by
          rw [h.models, List.mem_filter]
          refine ⟨List.mem_range.mpr hr, decide_eq_true fun c' hc' hdeact' => ?_⟩
          exact honce c' hc' r hdeact' hdeact
        have hnodup : t.models.Nodup := h.models ▸ List.nodup_range.filter _
        refine ⟨_, by rw [if_neg (by simp), remove_eq (h.nodup hd hdone) hr hmem hnodup], ?_, ?_⟩
        · rw [if_neg (by simp)]
        · dsimp only
          rw [h.models, List.filter_filter]
          refine List.filter_congr fun r' _ => ?_
          -- The row deactivates this place and no other.
          have honly : Deactivates (init.map Obj.model) c r' ↔ r' = r := by
            constructor
            · rintro ⟨-, -, hfound'⟩
              rw [hfound] at hfound'
              exact (Option.some.inj hfound').symm
            · rintro rfl
              exact hdeact
          simp [or_imp, forall_and, honly, Bool.and_comm]
  | some base_model_id =>
    dsimp only
    have hnone : ∀ r, ¬ Deactivates (init.map Obj.model) c r := fun r hdeact => by
      rw [hdeact.1] at hbase
      cases hbase
    by_cases hskip : ¬ c.is_active = true ∨ c.id ∈ init.map (·.model.id)
    · exact ⟨t, if_pos hskip, (if_pos hskip).symm, by rw [hkeep hnone, h.models]⟩
    · obtain ⟨⟨action_ids, haction⟩, filter_ids, hfilter⟩ :=
        hreads (not_not.mp (not_or.mp hskip).1)
      refine ⟨_, by rw [if_neg hskip, haction, hfilter]; rfl, ?_, ?_⟩
      · rw [if_neg hskip, idsIn_eq haction, idsIn_eq hfilter]
        rfl
      · dsimp only
        rw [hkeep hnone, List.length_append, List.length_singleton, List.range_succ,
          List.filter_append, h.models]
        congr 1
        -- The new place is past those that a row can find.
        refine (List.filter_eq_self.mpr ?_).symm
        intro r hr
        refine decide_eq_true fun c' _ hdeact => ?_
        have hlen := congrArg List.length h.ids
        have hlt := found_lt hdeact.2.2
        rw [List.mem_singleton] at hr
        simp only [List.length_map, List.length_append] at hlen hlt
        omega

/-- The step keeps the invariant. -/
theorem MergeInv.step {init : List Obj} {done : List ModelModel} {t t' : Merge} {c : ModelModel}
    (h : MergeInv init done t)
    (hobjects : t'.objects = nextObjects (base_model_lookup (init.map Obj.model) 0 .empty)
      (init.map (·.model.id)) t.objects c)
    (hmodels : t'.models = (List.range t'.objects.length).filter
      fun r => ∀ c' ∈ done ++ [c], ¬ Deactivates (init.map Obj.model) c' r) :
    MergeInv init (done ++ [c]) t' where
  ids := by
    have hids := @ids_nextObjects (init.map Obj.model)
      (base_model_lookup (init.map Obj.model) 0 .empty) t.objects c
    rw [map_id_eq] at hids
    rw [hobjects, hids, h.ids, List.filter_append, List.map_append, List.append_assoc]
    congr 2
    by_cases hadds : Adds (init.map Obj.model) c
    · simp [hadds]
    · simp [hadds]
  models := hmodels

/-- No two inactive overrides find the same model. -/
def DeactivateOnce (models : List Model) (rows : List ModelModel) : Prop :=
  rows.Pairwise fun c' c => ∀ r, Deactivates models c' r → ¬ Deactivates models c r

/-- **The loop over the rows** does not raise, and leaves the list described above. -/
theorem mergeCustoms_ok {init : List Obj} (hd : (init.map (·.model.id)).Nodup)
    {rows done : List ModelModel} {t : Merge}
    (hids : ((done ++ rows).map ModelModel.id).Nodup) (h : MergeInv init done t)
    (hreads : ∀ c ∈ rows, ReadsIds c)
    (honce : DeactivateOnce (init.map Obj.model) (done ++ rows)) :
    ∃ t', mergeCustoms (base_model_lookup (init.map Obj.model) 0 .empty)
        (init.map (·.model.id)) rows t = .ok t' ∧
      t'.objects = rows.foldl (nextObjects (base_model_lookup (init.map Obj.model) 0 .empty)
        (init.map (·.model.id))) t.objects ∧
      MergeInv init (done ++ rows) t' := by
  induction rows generalizing done t with
  | nil => exact ⟨t, rfl, rfl, by rwa [List.append_nil]⟩
  | cons c rows ih =>
    have hsplit : done ++ c :: rows = (done ++ [c]) ++ rows := by simp
    have hdone : (done.map ModelModel.id).Nodup :=
      hids.sublist ((List.sublist_append_left _ _).map _)
    have hpair : ∀ c' ∈ done, ∀ r, Deactivates (init.map Obj.model) c' r →
        ¬ Deactivates (init.map Obj.model) c r := fun c' hc' =>
      (List.pairwise_append.mp honce).2.2 c' hc' c (by simp)
    obtain ⟨t₁, hstep, hobjects, hmodels⟩ :=
      mergeCustom_ok hd hdone h (hreads c (by simp)) hpair
    rw [hsplit] at hids honce ⊢
    obtain ⟨t', hrest, hobjects', hinv⟩ := ih hids (h.step hobjects hmodels)
      (fun c' hc' => hreads c' (List.mem_cons_of_mem _ hc')) honce
    refine ⟨t', ?_, by rw [hobjects', hobjects, List.foldl_cons], hinv⟩
    rw [mergeCustoms, hstep]
    exact hrest

/-! ## The models returned -/

/-- The dicts that the list `models` holds. -/
def Merge.listed (t : Merge) : List Obj := t.models.filterMap (t.objects[·]?)

theorem filterMap_range_getElem? {α : Type} (as : List α) :
    (List.range as.length).filterMap (as[·]?) = as := by
  induction as with
  | nil => rfl
  | cons a as ih =>
    rw [List.length_cons, List.range_succ_eq_map, List.filterMap_cons, List.filterMap_map]
    exact congrArg (a :: ·) ih

theorem MergeInv.listed_sublist {init : List Obj} {done : List ModelModel} {t : Merge}
    (h : MergeInv init done t) : t.listed.Sublist t.objects := by
  rw [Merge.listed, h.models]
  conv => rhs; rw [← filterMap_range_getElem? t.objects]
  exact List.filter_sublist.filterMap _

theorem MergeInv.mem_listed {init : List Obj} {done : List ModelModel} {t : Merge}
    (h : MergeInv init done t) {o : Obj} :
    o ∈ t.listed ↔ ∃ r : ℕ, t.objects[r]? = some o ∧
      ∀ c ∈ done, ¬ Deactivates (init.map Obj.model) c r := by
  rw [Merge.listed, h.models, List.mem_filterMap]
  constructor
  · rintro ⟨r, hr, ho⟩
    exact ⟨r, ho, of_decide_eq_true (List.mem_filter.mp hr).2⟩
  · rintro ⟨r, ho, hfree⟩
    have hlt := (List.getElem?_eq_some_iff.mp ho).1
    exact ⟨r, List.mem_filter.mpr ⟨List.mem_range.mpr hlt, decide_eq_true hfree⟩, ho⟩

/-- **The identifiers returned**: those of the models that no inactive override finds, and those of
the active presets with a free identifier. -/
theorem MergeInv.mem_ids {init : List Obj} {done : List ModelModel} {t : Merge}
    (h : MergeInv init done t) {id : String} :
    id ∈ t.listed.map (·.model.id) ↔
      (∃ r : ℕ, ((init.map Obj.model)[r]?).map Model.id = some id ∧
        ∀ c ∈ done, ¬ Deactivates (init.map Obj.model) c r) ∨
      ∃ c ∈ done, Adds (init.map Obj.model) c ∧ c.id = id := by
  have hinit : ∀ r : ℕ, ((init.map Obj.model)[r]?).map Model.id = (init.map (·.model.id))[r]? :=
    fun r => by rw [← map_id_eq, List.getElem?_map (f := Model.id)]
  have hat : ∀ r : ℕ, (t.objects[r]?).map (·.model.id) =
      (init.map (·.model.id) ++ (done.filter (Adds (init.map Obj.model) ·)).map ModelModel.id)[r]? :=
    fun r => by rw [← h.ids, List.getElem?_map]
  simp only [List.mem_map, h.mem_listed, hinit]
  constructor
  · rintro ⟨o, ⟨r, ho, hfree⟩, rfl⟩
    have hr := hat r
    rw [ho, Option.map_some] at hr
    by_cases hlt : r < (init.map (·.model.id)).length
    · rw [List.getElem?_append_left hlt] at hr
      exact .inl ⟨r, hr.symm, hfree⟩
    · rw [List.getElem?_append_right (Nat.le_of_not_lt hlt)] at hr
      obtain ⟨c, hc, hid⟩ := List.mem_map.mp (List.mem_of_getElem? hr.symm)
      exact .inr ⟨c, (List.mem_filter.mp hc).1, of_decide_eq_true (List.mem_filter.mp hc).2, hid⟩
  · rintro (⟨r, hr, hfree⟩ | ⟨c, hc, hadds, rfl⟩)
    · have hlt := (List.getElem?_eq_some_iff.mp hr).1
      have ho := hat r
      rw [List.getElem?_append_left hlt, hr] at ho
      obtain ⟨o, ho, hid⟩ := Option.map_eq_some_iff.mp ho
      exact ⟨o, ⟨r, ho, hfree⟩, hid⟩
    · have hmem : c.id ∈ (done.filter (Adds (init.map Obj.model) ·)).map ModelModel.id :=
        List.mem_map_of_mem (List.mem_filter.mpr ⟨hc, decide_eq_true hadds⟩)
      obtain ⟨i, hi⟩ := List.mem_iff_getElem?.mp hmem
      have ho := hat ((init.map (·.model.id)).length + i)
      rw [List.getElem?_append_right (Nat.le_add_right _ _), Nat.add_sub_cancel_left, hi] at ho
      obtain ⟨o, ho, hid⟩ := Option.map_eq_some_iff.mp ho
      refine ⟨o, ⟨_, ho, fun c' _ hdeact => ?_⟩, hid⟩
      -- A place past the start is not one that a row can find.
      have hlt := found_lt hdeact.2.2
      simp only [List.length_map] at hlt
      omega

end OpenLaunch.Models
