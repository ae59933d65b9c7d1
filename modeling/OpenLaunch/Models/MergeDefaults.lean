import OpenLaunch.Models.MergeIds
import Mathlib.Data.List.Forall2

/-! # The default metadata and the cached lists

The defaults are written into the metadata of every model of the call. Metadata that a base model
or an arena model brought along is shared with the cached lists, so the defaults show there too;
filling them in a second time changes nothing, and the next call returns what this one did. -/

namespace OpenLaunch.Models

open Python Python.Json

/-! ## Metadata that the defaults fit into -/

/-- A value of `capabilities` that can be merged: a dict, or one that counts as none. -/
def Mergeable (existing : Json) : Prop := existing.truthy = false ∨ ∃ kvs, existing = .dict kvs

/-- Defaults that can be merged: `capabilities`, if there, is a dict. Keys of a dict are
distinct. -/
structure DefaultsOk (default_metadata : List (String × Json)) : Prop where
  /-- No key is there twice. -/
  nodup : (Assoc.keys default_metadata).Nodup
  /-- `capabilities` is a dict. -/
  capabilities : ∀ value, Assoc.get? default_metadata "capabilities" = some value →
    ∃ kvs, value = .dict kvs ∧ (Assoc.keys kvs).Nodup

/-- Metadata that the defaults fit into. -/
def MetaOk (meta_ : List (String × Json)) : Prop :=
  Mergeable ((Assoc.get? meta_ "capabilities").getD .null)

/-- An `info` that the defaults fit into: a dict, whose `meta`, if there, is a dict. -/
def InfoOk (info : Json) : Prop :=
  ∃ kvs, info = .dict kvs ∧ ∃ meta_, (Assoc.get? kvs "meta").getD (.dict []) = .dict meta_ ∧
    MetaOk meta_

/-- A model that the defaults fit into. -/
def ModelOk (m : Model) : Prop := ∀ info, m.info? = some info → InfoOk info

/-! ## Filling defaults in -/

section Fill

variable {key : String} {value : Json} {meta_ meta₁ meta₂ : List (String × Json)}

/-- A default that fits goes in. -/
theorem exists_fillDefault (hvalue : key = "capabilities" → ∃ kvs, value = .dict kvs)
    (hmeta : MetaOk meta_) : ∃ meta', fillDefault key value meta_ = .ok meta' := by
  unfold fillDefault
  dsimp only
  split
  · next hkey =>
    obtain ⟨kvs, rfl⟩ := hvalue hkey
    subst hkey
    rcases hmeta with hfalsy | ⟨existing, hdict⟩
    · exact ⟨_, by rw [Json.or, if_neg (by rw [hfalsy]; simp)]⟩
    · rw [hdict]
      cases existing with
      | nil => exact ⟨_, rfl⟩
      | cons e existing => exact ⟨_, rfl⟩
  · split
    · exact ⟨_, rfl⟩
    · exact ⟨_, rfl⟩

/-- Only the key of the default is written. -/
theorem get?_fillDefault (h : fillDefault key value meta_ = .ok meta₁) {key' : String}
    (hne : key' ≠ key) : Assoc.get? meta₁ key' = Assoc.get? meta_ key' := by
  unfold fillDefault at h
  dsimp only at h
  split at h
  · split at h
    · cases h
      exact Assoc.get?_set_ne _ hne _
    · cases h
  · split at h
    · cases h
      exact Assoc.get?_set_ne _ hne _
    · cases h
      rfl

/-- Metadata with defaults in it takes the next ones. -/
theorem metaOk_fillDefault (h : fillDefault key value meta_ = .ok meta₁) (hmeta : MetaOk meta_) :
    MetaOk meta₁ := by
  by_cases hkey : key = "capabilities"
  · subst hkey
    unfold fillDefault at h
    rw [if_pos rfl] at h
    split at h
    · cases h
      exact .inr ⟨_, by rw [Assoc.get?_set_self]; rfl⟩
    · cases h
  · rw [MetaOk, get?_fillDefault h (Ne.symm hkey)]
    exact hmeta

/-- A default that is in stays as it is. -/
theorem fillDefault_again
    (hvalue : key = "capabilities" → ∀ kvs, value = .dict kvs → (Assoc.keys kvs).Nodup)
    (h : fillDefault key value meta_ = .ok meta₁) : fillDefault key value meta₁ = .ok meta₁ := by
  unfold fillDefault at h ⊢
  dsimp only at h ⊢
  split at h
  · next hkey =>
    split at h
    · next kvs existing hexisting =>
      cases h
      rw [if_pos hkey, Assoc.get?_set_self, Option.getD_some]
      -- The merged dict is what the next merge finds.
      have hor : (Json.dict (Assoc.update kvs existing)).or (.dict []) =
          .dict (Assoc.update kvs existing) := by
        cases hmerged : Assoc.update kvs existing with
        | nil => rfl
        | cons e merged => rfl
      rw [hor]
      refine congrArg Except.ok (Assoc.set_of_get? ?_)
      rw [Assoc.get?_set_self, Assoc.update_update (hvalue hkey kvs rfl)]
    · cases h
  · next hkey =>
    rw [if_neg hkey]
    split at h
    · cases h
      rw [Assoc.get?_set_self, Option.getD_some]
      split
      · exact congrArg Except.ok (Assoc.set_of_get? (Assoc.get?_set_self _ _ _))
      · rfl
    · next hnull =>
      cases h
      rw [if_neg hnull]

/-- Whether a default is in is seen from its key. -/
theorem fillDefault_congr (hget : Assoc.get? meta₂ key = Assoc.get? meta₁ key)
    (h : fillDefault key value meta₁ = .ok meta₁) : fillDefault key value meta₂ = .ok meta₂ := by
  unfold fillDefault at h ⊢
  dsimp only at h ⊢
  rw [hget]
  split at h
  · next hkey =>
    rw [if_pos hkey]
    split at h
    · have hset := Assoc.set_eq_self_iff.mp (Except.ok.inj h)
      refine congrArg Except.ok (Assoc.set_of_get? ?_)
      rw [hget, hset]
    · cases h
  · next hkey =>
    rw [if_neg hkey]
    split at h
    · next hnull =>
      have hset := Assoc.set_eq_self_iff.mp (Except.ok.inj h)
      rw [if_pos hnull]
      exact congrArg Except.ok (Assoc.set_of_get? (by rw [hget, hset]))
    · next hnull => rw [if_neg hnull]

end Fill

section FillAll

variable {default_metadata meta_ meta₁ : List (String × Json)}

theorem get?_fillDefaults (h : fillDefaults default_metadata meta_ = .ok meta₁) {key : String}
    (hkey : key ∉ Assoc.keys default_metadata) :
    Assoc.get? meta₁ key = Assoc.get? meta_ key := by
  induction default_metadata generalizing meta_ with
  | nil =>
    cases h
    rfl
  | cons e rest ih =>
    rw [Assoc.keys_cons, List.mem_cons, not_or] at hkey
    obtain ⟨meta', hone, hrest⟩ := bind_eq_ok.mp h
    rw [ih hrest hkey.2, get?_fillDefault hone hkey.1]

/-- Defaults that fit go in. -/
theorem exists_fillDefaults (hdefaults : DefaultsOk default_metadata) (hmeta : MetaOk meta_) :
    ∃ meta', fillDefaults default_metadata meta_ = .ok meta' := by
  have hvalues : ∀ e ∈ default_metadata, e.1 = "capabilities" → ∃ kvs, e.2 = .dict kvs := by
    rintro ⟨key, value⟩ he rfl
    obtain ⟨kvs, hkvs, -⟩ := hdefaults.capabilities value (Assoc.get?_of_mem hdefaults.nodup he)
    exact ⟨kvs, hkvs⟩
  clear hdefaults
  induction default_metadata generalizing meta_ with
  | nil => exact ⟨meta_, rfl⟩
  | cons e rest ih =>
    obtain ⟨key, value⟩ := e
    rw [List.forall_mem_cons] at hvalues
    obtain ⟨meta', hone⟩ := exists_fillDefault hvalues.1 hmeta
    obtain ⟨meta'', hrest⟩ := ih (metaOk_fillDefault hone hmeta) hvalues.2
    exact ⟨meta'', by rw [fillDefaults, hone]; exact hrest⟩

/-- Each default is in after all of them have been filled in. -/
theorem filled_of_fillDefaults (hnodup : (Assoc.keys default_metadata).Nodup)
    (hvalues : ∀ e ∈ default_metadata, e.1 = "capabilities" → ∀ kvs, e.2 = .dict kvs →
      (Assoc.keys kvs).Nodup)
    (h : fillDefaults default_metadata meta_ = .ok meta₁) :
    ∀ e ∈ default_metadata, fillDefault e.1 e.2 meta₁ = .ok meta₁ := by
  induction default_metadata generalizing meta_ with
  | nil => simp
  | cons e rest ih =>
    obtain ⟨key, value⟩ := e
    rw [Assoc.keys_cons, List.nodup_cons] at hnodup
    rw [List.forall_mem_cons] at hvalues
    obtain ⟨meta', hone, hrest⟩ := bind_eq_ok.mp h
    refine List.forall_mem_cons.mpr ⟨?_, ih hnodup.2 hvalues.2 hrest⟩
    have hkey : Assoc.get? meta₁ key = Assoc.get? meta' key := get?_fillDefaults hrest hnodup.1
    exact fillDefault_congr hkey (fillDefault_again hvalues.1 hone)

/-- **Filling the defaults in again** changes nothing. -/
theorem fillDefaults_again (hdefaults : DefaultsOk default_metadata)
    (h : fillDefaults default_metadata meta_ = .ok meta₁) :
    fillDefaults default_metadata meta₁ = .ok meta₁ := by
  have hfilled : ∀ e ∈ default_metadata, fillDefault e.1 e.2 meta₁ = .ok meta₁ := by
    refine filled_of_fillDefaults hdefaults.nodup ?_ h
    rintro ⟨key, value⟩ he rfl kvs rfl
    obtain ⟨kvs', hkvs, hnodup⟩ :=
      hdefaults.capabilities _ (Assoc.get?_of_mem hdefaults.nodup he)
    cases hkvs
    exact hnodup
  clear h hdefaults
  induction default_metadata with
  | nil => rfl
  | cons e rest ih =>
    rw [List.forall_mem_cons] at hfilled
    rw [fillDefaults, hfilled.1]
    exact ih hfilled.2

theorem exists_fillInfo (hdefaults : DefaultsOk default_metadata) {info : Json}
    (h : InfoOk info) : ∃ info', fillInfo default_metadata info = .ok info' := by
  obtain ⟨kvs, rfl, meta_, hmeta, hok⟩ := h
  obtain ⟨meta', hfill⟩ := exists_fillDefaults hdefaults hok
  exact ⟨_, by rw [fillInfo, hmeta]; dsimp only; rw [hfill]; rfl⟩

/-- What filling an `info` in gives: the dict with other metadata. -/
theorem fillInfo_eq_ok {info info' : Json} (h : fillInfo default_metadata info = .ok info') :
    ∃ kvs meta_ meta', info = .dict kvs ∧ (Assoc.get? kvs "meta").getD (.dict []) = .dict meta_ ∧
      fillDefaults default_metadata meta_ = .ok meta' ∧
      info' = .dict (Assoc.set kvs "meta" (.dict meta')) := by
  unfold fillInfo at h
  split at h
  · next kvs =>
    split at h
    · next meta_ hmeta =>
      obtain ⟨meta', hfill, h⟩ := bind_eq_ok.mp h
      cases h
      exact ⟨kvs, meta_, meta', rfl, hmeta, hfill, rfl⟩
    · cases h
  · cases h

theorem fillInfo_again (hdefaults : DefaultsOk default_metadata) {info info' : Json}
    (h : fillInfo default_metadata info = .ok info') :
    fillInfo default_metadata info' = .ok info' := by
  obtain ⟨kvs, meta_, meta', rfl, -, hfill, rfl⟩ := fillInfo_eq_ok h
  have hset : Assoc.set (Assoc.set kvs "meta" (.dict meta')) "meta" (.dict meta') =
      Assoc.set kvs "meta" (.dict meta') := Assoc.set_of_get? (Assoc.get?_set_self _ _ _)
  rw [fillInfo, Assoc.get?_set_self, Option.getD_some]
  dsimp only
  rw [fillDefaults_again hdefaults hfill]
  exact congrArg (fun kvs => Except.ok (Json.dict kvs)) hset

end FillAll

/-! ## What is shared -/

/-- The `info` that the shared object at a place gives to the models of a call. -/
def AppState.infoAt (s : AppState) : Origin → Option Json
  | .own => none
  | .base i => (s.BASE_MODELS[i]?).bind Model.info?
  | .arena i => (s.arena_models[i]?).map fun a => .dict [("meta", a.meta_)]
  | .defaultArena => some (.dict [("meta", s.DEFAULT_ARENA_MODEL.meta_)])

/-- What a dict shares is what the shared object holds. -/
def Linked (s : AppState) (o : Obj) : Prop := o.origin = .own ∨ s.infoAt o.origin = o.model.info?

/-- A model with the defaults filled in, or as it was. -/
def RefilledModel (default_metadata : List (String × Json)) (m m' : Model) : Prop :=
  m' = m ∨ ∃ info info', m.info? = some info ∧ fillInfo default_metadata info = .ok info' ∧
    m' = { m with info := some info' }

/-- An arena entry with the defaults filled in, or as it was. -/
def RefilledArena (default_metadata : List (String × Json)) (a a' : ArenaModel) : Prop :=
  a' = a ∨ ∃ meta', fillInfo default_metadata (.dict [("meta", a.meta_)]) =
    .ok (.dict [("meta", meta')]) ∧ a' = { a with meta_ := meta' }

/-- The cached lists, up to defaults that were filled into metadata they carry. -/
structure Refilled (default_metadata : List (String × Json)) (s s' : AppState) : Prop where
  /-- The base models. -/
  base : List.Forall₂ (RefilledModel default_metadata) s.BASE_MODELS s'.BASE_MODELS
  /-- The arena configuration. -/
  arena : List.Forall₂ (RefilledArena default_metadata) s.arena_models s'.arena_models
  /-- The default arena model. -/
  default : RefilledArena default_metadata s.DEFAULT_ARENA_MODEL s'.DEFAULT_ARENA_MODEL

theorem Refilled.refl (default_metadata : List (String × Json)) (s : AppState) :
    Refilled default_metadata s s where
  base := List.forall₂_same.mpr fun _ _ => .inl rfl
  arena := List.forall₂_same.mpr fun _ _ => .inl rfl
  default := .inl rfl

/-- A change to one element of the second list. -/
theorem forall₂_modify {α β : Type} {R : α → β → Prop} {as : List α} {bs : List β}
    (h : List.Forall₂ R as bs) {i : ℕ} {f : β → β}
    (hf : ∀ a b, as[i]? = some a → R a b → R a (f b)) : List.Forall₂ R as (bs.modify i f) := by
  induction h generalizing i with
  | nil => simp
  | cons hab htail ih =>
    cases i with
    | zero => exact .cons (hf _ _ rfl hab) htail
    | succ i => exact .cons hab (ih fun a b ha => hf a b ha)

section Share

variable {default_metadata : List (String × Json)} {s₀ s : AppState} {origin : Origin}
  {info info' : Json}

/-- What filling in gives for metadata on its own. -/
theorem fillInfo_meta {meta_ : Json}
    (h : fillInfo default_metadata (.dict [("meta", meta_)]) = .ok info') :
    ∃ meta', info' = .dict [("meta", meta')] ∧ (info'.get "meta").toOption.getD .null = meta' := by
  obtain ⟨kvs, -, meta', hkvs, -, -, rfl⟩ := fillInfo_eq_ok h
  cases hkvs
  exact ⟨.dict meta', rfl, rfl⟩

/-- A write of filled-in defaults leaves the caches refilled. -/
theorem Refilled.share (h : Refilled default_metadata s₀ s)
    (hinfo : s₀.infoAt origin = some info) (hfill : fillInfo default_metadata info = .ok info') :
    Refilled default_metadata s₀ (s.share origin info') := by
  cases origin with
  | own => exact h
  | base i =>
    refine ⟨forall₂_modify h.base fun m m' hm hrel => ?_, h.arena, h.default⟩
    rw [AppState.infoAt, hm, Option.bind_some] at hinfo
    refine .inr ⟨info, info', hinfo, hfill, ?_⟩
    rcases hrel with rfl | ⟨-, -, -, -, rfl⟩
    · rfl
    · rfl
  | arena i =>
    refine ⟨h.base, forall₂_modify h.arena fun a a' ha hrel => ?_, h.default⟩
    rw [AppState.infoAt, ha, Option.map_some, Option.some.injEq] at hinfo
    subst hinfo
    obtain ⟨meta', rfl, hget⟩ := fillInfo_meta hfill
    refine .inr ⟨meta', hfill, ?_⟩
    rw [hget]
    rcases hrel with rfl | ⟨-, -, rfl⟩
    · rfl
    · rfl
  | defaultArena =>
    refine ⟨h.base, h.arena, ?_⟩
    rw [AppState.infoAt, Option.some.injEq] at hinfo
    subst hinfo
    obtain ⟨meta', rfl, hget⟩ := fillInfo_meta hfill
    refine .inr ⟨meta', hfill, ?_⟩
    dsimp only [AppState.share]
    rw [hget]
    rcases h.default with hsame | ⟨meta₀, -, hsame⟩
    · rw [hsame]
    · rw [hsame]

/-- After the write the shared object holds what was written. -/
theorem infoAt_share_self (h : Refilled default_metadata s₀ s) (hown : origin ≠ .own)
    (hinfo : s₀.infoAt origin = some info) (hfill : fillInfo default_metadata info = .ok info') :
    (s.share origin info').infoAt origin = some info' := by
  cases origin with
  | own => exact absurd rfl hown
  | base i =>
    have hdict : info' ≠ .null := by
      obtain ⟨-, -, -, -, -, -, rfl⟩ := fillInfo_eq_ok hfill
      exact fun h => nomatch h
    have hlt : i < s.BASE_MODELS.length := by
      rw [AppState.infoAt, Option.bind_eq_some_iff] at hinfo
      obtain ⟨m, hm, -⟩ := hinfo
      rw [← h.base.length_eq]
      exact (List.getElem?_eq_some_iff.mp hm).1
    simp [AppState.infoAt, AppState.share, List.getElem?_modify, List.getElem?_eq_getElem hlt,
      Model.info?, hdict]
  | arena i =>
    rw [AppState.infoAt, Option.map_eq_some_iff] at hinfo
    obtain ⟨a, ha, rfl⟩ := hinfo
    have hlt : i < s.arena_models.length := by
      rw [← h.arena.length_eq]
      exact (List.getElem?_eq_some_iff.mp ha).1
    obtain ⟨meta', rfl, -⟩ := fillInfo_meta hfill
    simp [AppState.infoAt, AppState.share, List.getElem?_eq_getElem hlt, Except.toOption]
  | defaultArena =>
    rw [AppState.infoAt, Option.some.injEq] at hinfo
    subst hinfo
    obtain ⟨meta', rfl, -⟩ := fillInfo_meta hfill
    simp [AppState.infoAt, AppState.share, Except.toOption]

/-- A write to one shared object does not show in another. -/
theorem infoAt_share_ne {origin' : Origin} (hne : origin' ≠ origin) :
    (s.share origin info').infoAt origin' = s.infoAt origin' := by
  cases origin with
  | own => rfl
  | base i =>
    cases origin' with
    | base j =>
      have hij : i ≠ j := fun h => hne (by rw [h])
      simp [AppState.infoAt, AppState.share, List.getElem?_modify, hij]
    | _ => rfl
  | arena i =>
    cases origin' with
    | arena j =>
      have hij : i ≠ j := fun h => hne (by rw [h])
      simp [AppState.infoAt, AppState.share, List.getElem?_modify, hij]
    | _ => rfl
  | defaultArena =>
    cases origin' with
    | defaultArena => exact absurd rfl hne
    | _ => rfl

/-- A change to one element that leaves it as it is. -/
theorem modify_self {α : Type} {as : List α} {i : ℕ} {f : α → α}
    (h : ∀ a, as[i]? = some a → f a = a) : as.modify i f = as := by
  refine List.ext_getElem? fun j => ?_
  rw [List.getElem?_modify]
  by_cases hij : i = j
  · subst hij
    cases ha : as[i]? with
    | none => rfl
    | some a => simp [h a ha]
  · simp [hij]

/-- Writing what the shared object holds changes nothing. -/
theorem share_self (hinfo : s.infoAt origin = some info') : s.share origin info' = s := by
  cases origin with
  | own => rfl
  | base i =>
    have hsame : s.BASE_MODELS.modify i ({ · with info := some info' }) = s.BASE_MODELS := by
      refine modify_self fun m hm => ?_
      rw [AppState.infoAt, hm, Option.bind_some] at hinfo
      rw [← (Option.filter_eq_some_iff.mp hinfo).1]
    dsimp only [AppState.share]
    rw [hsame]
  | arena i =>
    rw [AppState.infoAt, Option.map_eq_some_iff] at hinfo
    obtain ⟨a, ha, rfl⟩ := hinfo
    have hsame : s.arena_models.modify i ({ · with meta_ := a.meta_ }) = s.arena_models := by
      refine modify_self fun a' ha' => ?_
      rw [ha, Option.some.injEq] at ha'
      rw [ha']
    exact congrArg (fun arena_models => { s with arena_models }) hsame
  | defaultArena =>
    rw [AppState.infoAt, Option.some.injEq] at hinfo
    subst hinfo
    rfl

end Share

/-! ## The loop over the models -/

section Loop

variable {default_metadata : List (String × Json)} {s₀ s : AppState}

/-- The body of the loop: the model with the defaults, and the write it makes. -/
theorem withDefaults_eq_ok {m m' : Model} (h : m.withDefaults default_metadata = .ok m') :
    m'.id = m.id ∧ (m.info? = none ∨ ∃ info info', m.info? = some info ∧
      fillInfo default_metadata info = .ok info' ∧ m' = { m with info := some info' }) := by
  unfold Model.withDefaults at h
  split at h
  · next hinfo =>
    cases h
    exact ⟨rfl, .inl hinfo⟩
  · next info hinfo =>
    obtain ⟨info', hfill, h⟩ := bind_eq_ok.mp h
    cases h
    exact ⟨rfl, .inr ⟨info, info', hinfo, hfill, rfl⟩⟩

theorem exists_withDefaults (hdefaults : DefaultsOk default_metadata) {m : Model}
    (hm : ModelOk m) : ∃ m', m.withDefaults default_metadata = .ok m' := by
  unfold Model.withDefaults
  cases hinfo : m.info? with
  | none => exact ⟨_, rfl⟩
  | some info =>
    obtain ⟨info', hfill⟩ := exists_fillInfo hdefaults (hm info hinfo)
    exact ⟨_, by dsimp only; rw [hfill]; rfl⟩

/-- The write that the loop makes for a model. -/
def sharedAfter (s : AppState) (o : Obj) (m' : Model) : AppState :=
  match o.model.info?, m'.info with
  | some _, some info => s.share o.origin info
  | _, _ => s

theorem applyDefaults_cons {o : Obj} {os : List Obj} {m' : Model}
    (h : o.model.withDefaults default_metadata = .ok m') :
    applyDefaults default_metadata (o :: os) s =
      (fun r => (r.1, m' :: r.2)) <$> applyDefaults default_metadata os (sharedAfter s o m') := by
  rw [applyDefaults, h]
  rfl

/-- What the shared objects hold of the models that have been filled. -/
def Holds (default_metadata : List (String × Json)) (s : AppState) (o : Obj) : Prop :=
  o.origin = .own ∨ o.model.info? = none ∨ ∃ info info', o.model.info? = some info ∧
    fillInfo default_metadata info = .ok info' ∧ s.infoAt o.origin = some info'

/-- A write keeps what the others hold: those that share the same object hold the same. -/
theorem Holds.sharedAfter {o o' : Obj} {m' : Model} (hrefilled : Refilled default_metadata s₀ s)
    (ho : Linked s₀ o) (ho' : Linked s₀ o') (hm : o.model.withDefaults default_metadata = .ok m')
    (h : Holds default_metadata s o') : Holds default_metadata (sharedAfter s o m') o' := by
  rcases h with hown | hnone | ⟨info, info', hinfo, hfill, hat⟩
  · exact .inl hown
  · exact .inr (.inl hnone)
  · refine .inr (.inr ⟨info, info', hinfo, hfill, ?_⟩)
    rcases (withDefaults_eq_ok hm).2 with hnone | ⟨info₂, info₂', hinfo₂, hfill₂, rfl⟩
    · rw [Models.sharedAfter, hnone]
      exact hat
    · rw [Models.sharedAfter, hinfo₂]
      dsimp only
      by_cases hsame : o'.origin = o.origin
      · rw [hsame] at hat ⊢
        have hown : o.origin ≠ .own := by
          intro hown
          rw [hown] at hat
          cases hat
        have hinit := ho.resolve_left hown
        have hinit' := ho'.resolve_left (hsame ▸ hown)
        rw [hsame, hinit, hinfo₂, hinfo, Option.some.injEq] at hinit'
        subst hinit'
        rw [hfill] at hfill₂
        cases hfill₂
        rw [share_self hat]
        exact hat
      · rw [infoAt_share_ne hsame]
        exact hat

/-- **The loop**: it returns, the caches are refilled, and what the models share holds the
defaults. -/
theorem applyDefaults_ok (hdefaults : DefaultsOk default_metadata) {os : List Obj}
    (hrefilled : Refilled default_metadata s₀ s) (hok : ∀ o ∈ os, ModelOk o.model)
    (hlinked : ∀ o ∈ os, Linked s₀ o) {seen : List Obj} (hseen : ∀ o ∈ seen, Linked s₀ o)
    (hholds : ∀ o ∈ seen, Holds default_metadata s o) :
    ∃ s' ms, applyDefaults default_metadata os s = .ok (s', ms) ∧
      ms.map Model.id = os.map (·.model.id) ∧ Refilled default_metadata s₀ s' ∧
      List.Forall₂ (fun o m => o.model.withDefaults default_metadata = .ok m) os ms ∧
      ∀ o ∈ seen ++ os, Holds default_metadata s' o := by
  induction os generalizing s seen with
  | nil => exact ⟨s, [], rfl, rfl, hrefilled, .nil, by simpa using hholds⟩
  | cons o os ih =>
    rw [List.forall_mem_cons] at hok hlinked
    obtain ⟨m', hm⟩ := exists_withDefaults hdefaults hok.1
    have hself : Refilled default_metadata s₀ (sharedAfter s o m') ∧
        Holds default_metadata (sharedAfter s o m') o := by
      rcases (withDefaults_eq_ok hm).2 with hnone | ⟨info, info', hinfo, hfill, rfl⟩
      · rw [sharedAfter, hnone]
        exact ⟨hrefilled, .inr (.inl hnone)⟩
      · rw [sharedAfter, hinfo]
        dsimp only
        by_cases hown : o.origin = .own
        · rw [hown]
          exact ⟨hrefilled, .inl hown⟩
        · have hinit : s₀.infoAt o.origin = some info := by
            rw [hlinked.1.resolve_left hown, hinfo]
          exact ⟨hrefilled.share hinit hfill,
            .inr (.inr ⟨info, info', hinfo, hfill, infoAt_share_self hrefilled hown hinit hfill⟩)⟩
    have hseen' : ∀ o' ∈ seen ++ [o], Linked s₀ o' := by
      intro o' ho'
      rcases List.mem_append.mp ho' with ho' | ho'
      · exact hseen o' ho'
      · rw [List.mem_singleton.mp ho']
        exact hlinked.1
    have hholds' : ∀ o' ∈ seen ++ [o], Holds default_metadata (sharedAfter s o m') o' := by
      intro o' ho'
      rcases List.mem_append.mp ho' with ho' | ho'
      · exact (hholds o' ho').sharedAfter hrefilled hlinked.1 (hseen o' ho') hm
      · rw [List.mem_singleton.mp ho']
        exact hself.2
    obtain ⟨s', ms, hrun, hids, hrefilled', hms, hall⟩ :=
      ih hself.1 hok.2 hlinked.2 hseen' hholds'
    refine ⟨s', m' :: ms, ?_, ?_, hrefilled', .cons hm hms, ?_⟩
    · rw [applyDefaults_cons hm, hrun]
      rfl
    · rw [List.map_cons, List.map_cons, hids, (withDefaults_eq_ok hm).1]
    · rw [List.append_cons]
      exact hall

end Loop

end OpenLaunch.Models
