import Mathlib.Data.List.Nodup
import Mathlib.Data.List.Basic

/-! # Insertion-ordered dictionaries

Python's `dict` keeps its entries in insertion order and overwrites in place. `Assoc` has the
operations on raw entry lists (the form a nested JSON value needs), and `Dict κ α` packages an entry
list with the proof that its keys are pairwise distinct, so that no operation can build a map with
two entries for one key. -/

namespace Python

universe u v w

variable {κ : Type u} {α : Type v} [DecidableEq κ]

/-! ## Raw entry lists -/

namespace Assoc

/-- `d.get(k)`: the value stored under `k`, if any. -/
def get? : List (κ × α) → κ → Option α
  | [], _ => none
  | (k', a) :: d, k => if k' = k then some a else get? d k

/-- `d[k] = a`: overwrite in place, or append at the end. -/
def set : List (κ × α) → κ → α → List (κ × α)
  | [], k, a => [(k, a)]
  | (k', a') :: d, k, a => if k' = k then (k', a) :: d else (k', a') :: set d k a

/-- `d.pop(k, None)`, as an update: every entry but the one of `k`. -/
def erase (d : List (κ × α)) (k : κ) : List (κ × α) := d.filter fun e => e.1 ≠ k

/-- `k in d`. -/
def contains (d : List (κ × α)) (k : κ) : Bool := (get? d k).isSome

/-- The keys in insertion order. -/
def keys (d : List (κ × α)) : List κ := d.map Prod.fst

omit [DecidableEq κ] in
@[simp] theorem keys_nil : keys ([] : List (κ × α)) = [] := rfl

omit [DecidableEq κ] in
@[simp] theorem keys_cons (e : κ × α) (d : List (κ × α)) : keys (e :: d) = e.1 :: keys d := rfl

@[simp] theorem get?_nil (k : κ) : get? ([] : List (κ × α)) k = none := rfl

theorem get?_cons (k' : κ) (a : α) (d : List (κ × α)) (k : κ) :
    get? ((k', a) :: d) k = if k' = k then some a else get? d k := rfl

@[simp] theorem get?_cons_self (k : κ) (a : α) (d : List (κ × α)) :
    get? ((k, a) :: d) k = some a := if_pos rfl

theorem get?_cons_ne {k' k : κ} (h : k' ≠ k) (a : α) (d : List (κ × α)) :
    get? ((k', a) :: d) k = get? d k := if_neg h

/-- A key has a value exactly when it is among the keys. -/
theorem get?_isSome_iff (d : List (κ × α)) (k : κ) : (get? d k).isSome ↔ k ∈ keys d := by
  induction d with
  | nil => simp
  | cons e d ih =>
    obtain ⟨k', a⟩ := e
    by_cases h : k' = k
    · simp [h]
    · rw [get?_cons_ne h, ih]
      simp [Ne.symm h]

theorem get?_eq_none_iff (d : List (κ × α)) (k : κ) : get? d k = none ↔ k ∉ keys d := by
  rw [← get?_isSome_iff, Option.not_isSome_iff_eq_none]

theorem contains_iff (d : List (κ × α)) (k : κ) : contains d k = true ↔ k ∈ keys d :=
  get?_isSome_iff d k

theorem mem_of_get? {d : List (κ × α)} {k : κ} {a : α} (h : get? d k = some a) : (k, a) ∈ d := by
  induction d with
  | nil => simp at h
  | cons e d ih =>
    obtain ⟨k', a'⟩ := e
    by_cases hk : k' = k
    · subst hk
      simp only [get?_cons_self, Option.some.injEq] at h
      simp [h]
    · rw [get?_cons_ne hk] at h
      exact List.mem_cons_of_mem _ (ih h)

/-- Under distinct keys, membership of an entry is lookup. -/
theorem get?_of_mem {d : List (κ × α)} (hd : (keys d).Nodup) {k : κ} {a : α} (h : (k, a) ∈ d) :
    get? d k = some a := by
  induction d with
  | nil => simp at h
  | cons e d ih =>
    obtain ⟨k', a'⟩ := e
    rw [keys_cons, List.nodup_cons] at hd
    rcases List.mem_cons.mp h with heq | hmem
    · obtain ⟨rfl, rfl⟩ := Prod.mk.inj heq
      exact get?_cons_self ..
    · have hk : k' ≠ k := by
        rintro rfl
        exact hd.1 (List.mem_map.mpr ⟨_, hmem, rfl⟩)
      rw [get?_cons_ne hk]
      exact ih hd.2 hmem

@[simp] theorem get?_set_self (d : List (κ × α)) (k : κ) (a : α) : get? (set d k a) k = some a := by
  induction d with
  | nil => simp [set]
  | cons e d ih =>
    obtain ⟨k', a'⟩ := e
    by_cases h : k' = k
    · simp [set, h]
    · simp only [set, h, if_false]
      rw [get?_cons_ne h, ih]

theorem get?_set_ne (d : List (κ × α)) {k k₂ : κ} (h : k₂ ≠ k) (a : α) :
    get? (set d k a) k₂ = get? d k₂ := by
  induction d with
  | nil => simp [set, get?_cons_ne h.symm]
  | cons e d ih =>
    obtain ⟨k', a'⟩ := e
    by_cases hk : k' = k
    · subst hk
      simp [set, get?_cons_ne h.symm]
    · simp only [set, hk, if_false, get?_cons, ih]

theorem get?_set (d : List (κ × α)) (k k₂ : κ) (a : α) :
    get? (set d k a) k₂ = if k₂ = k then some a else get? d k₂ := by
  split
  · subst k₂; exact get?_set_self d k a
  · exact get?_set_ne d ‹_› a

/-- Overwriting keeps the keys; a new key goes to the end. -/
theorem keys_set (d : List (κ × α)) (k : κ) (a : α) :
    keys (set d k a) = if k ∈ keys d then keys d else keys d ++ [k] := by
  induction d with
  | nil => simp [set]
  | cons e d ih =>
    obtain ⟨k', a'⟩ := e
    by_cases h : k' = k
    · simp [set, h]
    · simp only [set, h, if_false, keys_cons, List.mem_cons, Ne.symm h, false_or, ih]
      split <;> simp

theorem nodup_keys_set {d : List (κ × α)} (hd : (keys d).Nodup) (k : κ) (a : α) :
    (keys (set d k a)).Nodup := by
  rw [keys_set]
  split
  · exact hd
  · rename_i h
    exact List.nodup_append.mpr ⟨hd, by simp, by
      intro x hx y hy
      rw [List.mem_singleton.mp hy]
      exact fun hxk => h (hxk ▸ hx)⟩

theorem mem_keys_set (d : List (κ × α)) (k k₂ : κ) (a : α) :
    k₂ ∈ keys (set d k a) ↔ k₂ = k ∨ k₂ ∈ keys d := by
  rw [keys_set]
  split
  · exact ⟨Or.inr, fun h => h.elim (· ▸ ‹_›) id⟩
  · rw [List.mem_append, List.mem_singleton, or_comm]

/-- Updating every value by a function of its key and value. -/
theorem get?_map {β : Type w} (g : κ → α → β) (d : List (κ × α)) (k : κ) :
    get? (d.map fun e => (e.1, g e.1 e.2)) k = (get? d k).map (g k) := by
  induction d with
  | nil => rfl
  | cons e d ih =>
    obtain ⟨k', a⟩ := e
    by_cases h : k' = k
    · simp [h]
    · rw [List.map_cons, get?_cons_ne h, get?_cons_ne h, ih]

/-- Keeping the entries whose keys satisfy `p`. -/
theorem get?_filter (p : κ → Bool) (d : List (κ × α)) (k : κ) :
    get? (d.filter fun e => p e.1) k = if p k then get? d k else none := by
  induction d with
  | nil => simp
  | cons e d ih =>
    obtain ⟨k', a⟩ := e
    by_cases h : k' = k
    · subst h
      by_cases hp : p k' <;> simp [hp, ih]
    · by_cases hp : p k'
      · rw [List.filter_cons_of_pos (by simpa using hp), get?_cons_ne h, get?_cons_ne h, ih]
      · rw [List.filter_cons_of_neg (by simpa using hp), get?_cons_ne h, ih]

theorem keys_erase (d : List (κ × α)) (k : κ) : keys (erase d k) = (keys d).filter (· ≠ k) := by
  simp only [keys, erase, List.filter_map]
  rfl

/-- `d.update(kvs)`, and the entries of `{**d, **kvs}`. -/
def update (d kvs : List (κ × α)) : List (κ × α) := kvs.foldl (fun d e => set d e.1 e.2) d

@[simp] theorem update_nil (d : List (κ × α)) : update d [] = d := rfl

theorem update_cons (d kvs : List (κ × α)) (e : κ × α) :
    update d (e :: kvs) = update (set d e.1 e.2) kvs := rfl

theorem mem_keys_update (d kvs : List (κ × α)) (k : κ) :
    k ∈ keys (update d kvs) ↔ k ∈ keys d ∨ k ∈ keys kvs := by
  induction kvs generalizing d with
  | nil => simp
  | cons e kvs ih =>
    rw [update_cons, ih, mem_keys_set, keys_cons, List.mem_cons]
    tauto

theorem nodup_keys_update {d : List (κ × α)} (hd : (keys d).Nodup) (kvs : List (κ × α)) :
    (keys (update d kvs)).Nodup := by
  induction kvs generalizing d with
  | nil => exact hd
  | cons e kvs ih => exact ih (nodup_keys_set hd e.1 e.2)

/-- **Updating by entries with distinct keys**: their values win. -/
theorem get?_update {kvs : List (κ × α)} (h : (keys kvs).Nodup) (d : List (κ × α)) (k : κ) :
    get? (update d kvs) k = (get? kvs k).or (get? d k) := by
  induction kvs generalizing d with
  | nil => rfl
  | cons e kvs ih =>
    obtain ⟨k', a⟩ := e
    rw [keys_cons, List.nodup_cons] at h
    rw [update_cons, ih h.2, get?_set]
    by_cases hk : k' = k
    · subst hk
      rw [(get?_eq_none_iff kvs k').mpr h.1, get?_cons_self, if_pos rfl]
      rfl
    · rw [get?_cons_ne hk, if_neg (Ne.symm hk)]

/-- Updating by entries whose keys are there keeps the keys. -/
theorem keys_update_of_subset {d kvs : List (κ × α)} (h : keys kvs ⊆ keys d) :
    keys (update d kvs) = keys d := by
  induction kvs generalizing d with
  | nil => rfl
  | cons e kvs ih =>
    rw [keys_cons, List.cons_subset] at h
    have hset : keys (set d e.1 e.2) = keys d := by
      rw [keys_set, if_pos h.1]
    rw [update_cons, ih, hset]
    rw [hset]
    exact h.2

/-- Writing the value that is there changes nothing. -/
theorem set_of_get? {d : List (κ × α)} {k : κ} {a : α} (h : get? d k = some a) : set d k a = d := by
  induction d with
  | nil => cases h
  | cons e d ih =>
    obtain ⟨k', a'⟩ := e
    by_cases hk : k' = k
    · subst hk
      rw [get?_cons_self] at h
      cases h
      simp [set]
    · rw [get?_cons_ne hk] at h
      simp only [set, hk, if_false, ih h]

/-- A new key goes to the end. -/
theorem set_of_not_mem {d : List (κ × α)} {k : κ} (h : k ∉ keys d) (a : α) :
    set d k a = d ++ [(k, a)] := by
  induction d with
  | nil => rfl
  | cons e d ih =>
    obtain ⟨k', a'⟩ := e
    rw [keys_cons, List.mem_cons, not_or] at h
    simp only [set, Ne.symm h.1, if_false, ih h.2, List.cons_append]

/-- Entries with new, distinct keys go to the end. -/
theorem update_of_nodup {d kvs : List (κ × α)} (h : (keys (d ++ kvs)).Nodup) :
    update d kvs = d ++ kvs := by
  induction kvs generalizing d with
  | nil => simp
  | cons e kvs ih =>
    have hnew : e.1 ∉ keys d := by
      intro hmem
      rw [keys, List.map_append, List.nodup_append] at h
      exact h.2.2 e.1 hmem e.1 (by simp) rfl
    rw [update_cons, set_of_not_mem hnew, ih, List.append_assoc, List.singleton_append]
    simpa using h

/-- Writing changes nothing only when the value is there. -/
theorem set_eq_self_iff {d : List (κ × α)} {k : κ} {a : α} :
    set d k a = d ↔ get? d k = some a := by
  refine ⟨fun h => ?_, set_of_get?⟩
  rw [← h]
  exact get?_set_self d k a

theorem keys_prefix_update (d kvs : List (κ × α)) : keys d <+: keys (update d kvs) := by
  induction kvs generalizing d with
  | nil => exact List.prefix_refl _
  | cons e kvs ih =>
    refine List.IsPrefix.trans ?_ (ih (set d e.1 e.2))
    rw [keys_set]
    split
    · exact List.prefix_refl _
    · exact List.prefix_append _ _

/-- What holds of every value and of the value written holds of every value then. -/
theorem forall_mem_set {P : α → Prop} {d : List (κ × α)} (hd : ∀ e ∈ d, P e.2) {k : κ} {a : α}
    (ha : P a) : ∀ e ∈ set d k a, P e.2 := by
  induction d with
  | nil => simpa [set] using ha
  | cons e d ih =>
    rw [List.forall_mem_cons] at hd
    simp only [set]
    split
    · exact List.forall_mem_cons.mpr ⟨ha, hd.2⟩
    · exact List.forall_mem_cons.mpr ⟨hd.1, ih hd.2⟩

theorem forall_mem_update {P : α → Prop} {d kvs : List (κ × α)} (hd : ∀ e ∈ d, P e.2)
    (hkvs : ∀ e ∈ kvs, P e.2) : ∀ e ∈ update d kvs, P e.2 := by
  induction kvs generalizing d with
  | nil => exact hd
  | cons e kvs ih =>
    rw [List.forall_mem_cons] at hkvs
    exact ih (forall_mem_set hd hkvs.1) hkvs.2

/-- Entries with distinct keys are determined by the keys and their values. -/
theorem ext_of_get? {d e : List (κ × α)} (hd : (keys d).Nodup) (hkeys : keys d = keys e)
    (hget : ∀ k, get? d k = get? e k) : d = e := by
  induction d generalizing e with
  | nil =>
    cases e with
    | nil => rfl
    | cons x e => cases hkeys
  | cons x d ih =>
    cases e with
    | nil => cases hkeys
    | cons y e =>
      obtain ⟨k, a⟩ := x
      obtain ⟨k', b⟩ := y
      rw [keys_cons, keys_cons, List.cons.injEq] at hkeys
      obtain ⟨hk, hrest⟩ := hkeys
      dsimp only at hk
      subst hk
      rw [keys_cons, List.nodup_cons] at hd
      have hab := hget k
      rw [get?_cons_self, get?_cons_self, Option.some.injEq] at hab
      subst hab
      rw [ih hd.2 hrest]
      intro k'
      by_cases hk : k = k'
      · subst hk
        rw [(get?_eq_none_iff d k).mpr hd.1, (get?_eq_none_iff e k).mpr (hrest ▸ hd.1)]
      · have hget' := hget k'
        rwa [get?_cons_ne hk, get?_cons_ne hk] at hget'

/-- A dictionary that starts with the keys of another overwrites all of it. -/
theorem update_of_keys_prefix {d f : List (κ × α)} (hf : (keys f).Nodup)
    (h : keys d <+: keys f) : update d f = f := by
  have hkeys : keys (f.take d.length) = keys d := by
    rw [keys, List.map_take]
    have htake := List.prefix_iff_eq_take.mp h
    rw [keys, List.length_map] at htake
    exact htake.symm
  have hnodup : (keys (f.take d.length)).Nodup := hf.sublist ((List.take_sublist _ _).map _)
  have hhead : update d (f.take d.length) = f.take d.length := by
    refine ext_of_get? ?_ ?_ fun k => ?_
    · rw [keys_update_of_subset (hkeys ▸ List.Subset.refl _), ← hkeys]
      exact hnodup
    · rw [keys_update_of_subset (hkeys ▸ List.Subset.refl _), hkeys]
    · rw [get?_update hnodup]
      cases hget : get? (f.take d.length) k with
      | some a => rfl
      | none =>
        rw [get?_eq_none_iff, hkeys] at hget
        rw [(get?_eq_none_iff d k).mpr hget]
        rfl
  have hsplit : update d (f.take d.length ++ f.drop d.length) =
      update (update d (f.take d.length)) (f.drop d.length) := List.foldl_append
  calc update d f = update d (f.take d.length ++ f.drop d.length) := by rw [List.take_append_drop]
    _ = update (f.take d.length) (f.drop d.length) := by rw [hsplit, hhead]
    _ = f.take d.length ++ f.drop d.length :=
        update_of_nodup (by rw [List.take_append_drop]; exact hf)
    _ = f := List.take_append_drop _ _

/-- Updating with what an update gave gives it again. -/
theorem update_update {d : List (κ × α)} (hd : (keys d).Nodup) (kvs : List (κ × α)) :
    update d (update d kvs) = update d kvs :=
  update_of_keys_prefix (nodup_keys_update hd kvs) (keys_prefix_update d kvs)

/-- Dropping and converting values. -/
theorem get?_filterMap {β : Type w} {d : List (κ × α)} (hd : (keys d).Nodup) (f : α → Option β)
    (k : κ) : get? (d.filterMap fun e => (f e.2).map (Prod.mk e.1)) k = (get? d k).bind f := by
  induction d with
  | nil => rfl
  | cons e d ih =>
    obtain ⟨k', a⟩ := e
    rw [keys_cons, List.nodup_cons] at hd
    rw [List.filterMap_cons]
    by_cases hk : k' = k
    · subst hk
      cases hf : f a with
      | none => simp [ih hd.2, (get?_eq_none_iff d k').mpr hd.1, hf]
      | some b => simp [hf]
    · cases hf : f a with
      | none => simp [ih hd.2, get?_cons_ne hk]
      | some b => simp [ih hd.2, get?_cons_ne hk]

section MapSnd

variable {β : Type w} (g : α → β)

/-- Writing commutes with a function of the values. -/
theorem set_mapSnd (d : List (κ × α)) (k : κ) (a : α) :
    set (d.map fun e => (e.1, g e.2)) k (g a) = (set d k a).map fun e => (e.1, g e.2) := by
  induction d with
  | nil => rfl
  | cons e d ih =>
    rw [List.map_cons, set, set]
    split
    · rfl
    · rw [ih, List.map_cons]

theorem update_mapSnd (d e : List (κ × α)) :
    update (d.map fun x => (x.1, g x.2)) (e.map fun x => (x.1, g x.2)) =
      (update d e).map fun x => (x.1, g x.2) := by
  induction e generalizing d with
  | nil => rfl
  | cons x e ih =>
    rw [List.map_cons, update_cons, update_cons, ← ih]
    exact congrArg (update · _) (set_mapSnd g d x.1 x.2)

end MapSnd

end Assoc

/-! ## Dictionaries with distinct keys -/

/-- A Python `dict`: its entries in insertion order, no key twice. -/
structure Dict (κ : Type u) (α : Type v) where
  /-- The entries in insertion order. -/
  entries : List (κ × α)
  /-- No key occurs twice. -/
  nodup : (Assoc.keys entries).Nodup

namespace Dict

instance [DecidableEq α] : DecidableEq (Dict κ α) := fun d e =>
  decidable_of_iff (d.entries = e.entries)
    ⟨fun h => by cases d; cases e; simp_all, fun h => congrArg entries h⟩

/-- The empty dictionary `{}`. -/
def empty : Dict κ α := ⟨[], List.nodup_nil⟩

/-- `d.get(k)`. -/
def get? (d : Dict κ α) (k : κ) : Option α := Assoc.get? d.entries k

/-- `d[k] = a`. -/
def set (d : Dict κ α) (k : κ) (a : α) : Dict κ α :=
  ⟨Assoc.set d.entries k a, Assoc.nodup_keys_set d.nodup k a⟩

/-- `d.pop(k, None)`. -/
def erase (d : Dict κ α) (k : κ) : Dict κ α :=
  ⟨Assoc.erase d.entries k, by rw [Assoc.keys_erase]; exact d.nodup.filter _⟩

/-- Update the value of `k` in place; without such an entry nothing changes. -/
def modify (d : Dict κ α) (k : κ) (f : α → α) : Dict κ α :=
  ⟨d.entries.map fun e => (e.1, if e.1 = k then f e.2 else e.2), by
    rw [Assoc.keys, List.map_map]
    exact d.nodup⟩

/-- `{**d, **e}`. -/
def update (d e : Dict κ α) : Dict κ α :=
  ⟨Assoc.update d.entries e.entries, Assoc.nodup_keys_update d.nodup e.entries⟩

/-- Every value is replaced by a function of its key and itself. -/
def mapValues {β : Type w} (f : κ → α → β) (d : Dict κ α) : Dict κ β :=
  ⟨d.entries.map fun e => (e.1, f e.1 e.2), by
    rw [Assoc.keys, List.map_map]
    exact d.nodup⟩

/-- The entries whose values `f` converts. -/
def filterMap {β : Type w} (f : α → Option β) (d : Dict κ α) : Dict κ β :=
  ⟨d.entries.filterMap fun e => (f e.2).map (Prod.mk e.1), by
    have hsub : (Assoc.keys (d.entries.filterMap fun e => (f e.2).map (Prod.mk e.1))).Sublist
        (Assoc.keys d.entries) := by
      generalize d.entries = l
      induction l with
      | nil => exact List.Sublist.slnil
      | cons e l ih =>
        rw [List.filterMap_cons]
        cases f e.2 with
        | none => exact ih.cons e.1
        | some b => exact ih.cons_cons e.1
    exact hsub.nodup d.nodup⟩

/-- The entries that satisfy `p`. -/
def filter (p : κ → α → Bool) (d : Dict κ α) : Dict κ α :=
  ⟨d.entries.filter fun e => p e.1 e.2, (List.filter_sublist.map Prod.fst).nodup d.nodup⟩

/-- The keys in insertion order. -/
def keys (d : Dict κ α) : List κ := Assoc.keys d.entries

/-- The values in insertion order. -/
def values (d : Dict κ α) : List α := d.entries.map Prod.snd

instance : Membership κ (Dict κ α) := ⟨fun d k => k ∈ d.keys⟩

instance (d : Dict κ α) (k : κ) : Decidable (k ∈ d) := inferInstanceAs (Decidable (k ∈ d.keys))

theorem eq_of_entries {d e : Dict κ α} (h : d.entries = e.entries) : d = e := by
  cases d
  cases e
  cases h
  rfl

/-- Maps with the same keys in the same order and the same values are equal. -/
theorem eq_of_get? {d e : Dict κ α} (hkeys : d.keys = e.keys)
    (hget : ∀ k, d.get? k = e.get? k) : d = e :=
  eq_of_entries (Assoc.ext_of_get? d.nodup hkeys hget)

theorem mem_iff_isSome {d : Dict κ α} {k : κ} : k ∈ d ↔ (d.get? k).isSome :=
  (Assoc.get?_isSome_iff d.entries k).symm

theorem mem_iff_exists {d : Dict κ α} {k : κ} : k ∈ d ↔ ∃ a, d.get? k = some a := by
  rw [mem_iff_isSome, Option.isSome_iff_exists]

theorem get?_eq_none_iff {d : Dict κ α} {k : κ} : d.get? k = none ↔ k ∉ d :=
  Assoc.get?_eq_none_iff d.entries k

theorem mem_entries_iff {d : Dict κ α} {k : κ} {a : α} :
    (k, a) ∈ d.entries ↔ d.get? k = some a :=
  ⟨Assoc.get?_of_mem d.nodup, Assoc.mem_of_get?⟩

@[simp] theorem get?_empty (k : κ) : (empty : Dict κ α).get? k = none := rfl

omit [DecidableEq κ] in
@[simp] theorem entries_empty : (empty : Dict κ α).entries = [] := rfl

@[simp] theorem get?_set_self (d : Dict κ α) (k : κ) (a : α) : (d.set k a).get? k = some a :=
  Assoc.get?_set_self ..

theorem get?_set_ne (d : Dict κ α) {k k₂ : κ} (h : k₂ ≠ k) (a : α) :
    (d.set k a).get? k₂ = d.get? k₂ := Assoc.get?_set_ne _ h a

theorem get?_set (d : Dict κ α) (k k₂ : κ) (a : α) :
    (d.set k a).get? k₂ = if k₂ = k then some a else d.get? k₂ := Assoc.get?_set ..

theorem get?_erase (d : Dict κ α) (k k₂ : κ) :
    (d.erase k).get? k₂ = if k₂ = k then none else d.get? k₂ := by
  have h := Assoc.get?_filter (fun x => decide (x ≠ k)) d.entries k₂
  by_cases hk : k₂ = k <;> simpa [Dict.get?, Dict.erase, Assoc.erase, hk] using h

theorem get?_update (d e : Dict κ α) (k : κ) : (d.update e).get? k = (e.get? k).or (d.get? k) :=
  Assoc.get?_update e.nodup d.entries k

/-- Updating twice by the same entries is updating once. -/
theorem update_update_self (d e : Dict κ α) : (d.update e).update e = d.update e := by
  refine eq_of_get? (Assoc.keys_update_of_subset fun k hk => ?_) fun k => ?_
  · exact (Assoc.mem_keys_update _ _ k).mpr (.inr hk)
  · rw [get?_update, get?_update]
    cases e.get? k with
    | some a => rfl
    | none => rfl

theorem get?_mapValues {β : Type w} (f : κ → α → β) (d : Dict κ α) (k : κ) :
    (d.mapValues f).get? k = (d.get? k).map (f k) := Assoc.get?_map f d.entries k

theorem get?_filterMap {β : Type w} (f : α → Option β) (d : Dict κ α) (k : κ) :
    (d.filterMap f).get? k = (d.get? k).bind f := Assoc.get?_filterMap d.nodup f k

theorem get?_modify (d : Dict κ α) (k k₂ : κ) (f : α → α) :
    (d.modify k f).get? k₂ = (d.get? k₂).map fun a => if k₂ = k then f a else a :=
  Assoc.get?_map (fun k' a => if k' = k then f a else a) d.entries k₂

theorem get?_filter (p : κ → α → Bool) (d : Dict κ α) (k : κ) :
    (d.filter p).get? k = (d.get? k).filter (p k) := by
  refine Option.ext fun a => ?_
  rw [Option.filter_eq_some_iff, ← mem_entries_iff, ← mem_entries_iff]
  exact List.mem_filter

theorem mem_set {d : Dict κ α} {k k₂ : κ} {a : α} : k₂ ∈ d.set k a ↔ k₂ = k ∨ k₂ ∈ d :=
  Assoc.mem_keys_set ..

/-- Updating several keys in turn applies `f` as often as the key is listed; an idempotent `f` makes
that once. -/
theorem entries_foldl_modify (ks : List κ) (d : Dict κ α) {f : α → α} (hf : ∀ a, f (f a) = f a) :
    (ks.foldl (fun d k => d.modify k f) d).entries =
      d.entries.map fun e => (e.1, if e.1 ∈ ks then f e.2 else e.2) := by
  induction ks generalizing d with
  | nil => simp
  | cons k ks ih =>
    rw [List.foldl_cons, ih, modify, List.map_map]
    refine List.map_congr_left fun e _ => ?_
    by_cases hk : e.1 = k <;> by_cases hm : e.1 ∈ ks <;> simp_all

theorem entries_foldl_erase (ks : List κ) (d : Dict κ α) :
    (ks.foldl erase d).entries = d.entries.filter fun e => e.1 ∉ ks := by
  induction ks generalizing d with
  | nil => simp
  | cons k ks ih =>
    rw [List.foldl_cons, ih]
    simp only [erase, Assoc.erase, List.filter_filter]
    refine List.filter_congr fun e _ => ?_
    by_cases hk : e.1 = k <;> simp [hk]

/-- A loop over keys whose body changes the value of its own key only. -/
theorem get?_foldl_keys {f : Dict κ α → κ → Dict κ α} {g : Option α → Option α}
    (hself : ∀ d k, (f d k).get? k = g (d.get? k))
    (hother : ∀ d k k', k' ≠ k → (f d k).get? k' = d.get? k') {ks : List κ} (hks : ks.Nodup)
    (d : Dict κ α) (k : κ) :
    (ks.foldl f d).get? k = if k ∈ ks then g (d.get? k) else d.get? k := by
  induction ks generalizing d with
  | nil => rfl
  | cons k' ks ih =>
    rw [List.nodup_cons] at hks
    rw [List.foldl_cons, ih hks.2]
    rcases eq_or_ne k k' with rfl | hk
    · simp [hks.1, hself]
    · simp [hk, hother d k' k hk]

/-- The loop over all keys, if the body keeps a missing key missing. -/
theorem get?_foldl_all_keys {f : Dict κ α → κ → Dict κ α} {g : Option α → Option α}
    (hself : ∀ d k, (f d k).get? k = g (d.get? k))
    (hother : ∀ d k k', k' ≠ k → (f d k).get? k' = d.get? k') (hnone : g none = none)
    (d : Dict κ α) (k : κ) : (d.keys.foldl f d).get? k = g (d.get? k) := by
  have hnodup : d.keys.Nodup := d.nodup
  rw [get?_foldl_keys hself hother hnodup]
  split
  · rfl
  · next hk => rw [get?_eq_none_iff.mpr hk, hnone]

end Dict

end Python
