import OpenLaunch.Python.Json
import Mathlib.Data.List.Infix

/-! # Paths in nested dictionaries

What is found at a path of keys, assignment at a path, and what a dictionary is that is built by
assignments: the order of its keys aside, a dictionary without empty ones inside is determined by
its leaves. -/

namespace Python

namespace Json

/-- What is found at a path of keys. -/
def at? : List String → Json → Option Json
  | [], j => some j
  | k :: p, .dict kvs => (Assoc.get? kvs k).bind (at? p)
  | _ :: _, _ => none

/-- A value that is no dictionary. -/
def leaf? : Json → Option Json
  | .dict _ => none
  | j => some j

/-- **Equality of nested dictionaries**, whose keys have no order. -/
def DictEq (a b : Json) : Prop := ∀ p, (a.at? p).map leaf? = (b.at? p).map leaf?

/-- No dictionary is empty, inside or outside. -/
def Filled (j : Json) : Prop := ∀ p kvs, at? p j = some (.dict kvs) → kvs ≠ []

end Json

/-- `_assign_path`: a value is assigned at a path. What is no dictionary on the way is replaced. -/
def assignPath : List String → List (String × Json) → Json → List (String × Json)
  | [], d, _ => d
  | [k], d, v => Assoc.set d k v
  | k :: p, d, v =>
    let next := match Assoc.get? d k with
      | some (.dict kvs) => kvs
      | _ => []
    Assoc.set d k (.dict (assignPath p next v))

namespace Json

variable {a b c j v w : Json} {p q r : List String} {k : String} {d kvs : List (String × Json)}

@[simp] theorem at?_nil (j : Json) : at? [] j = some j := by
  cases j <;> rfl

@[simp] theorem at?_dict_cons (k : String) (p : List String) (kvs : List (String × Json)) :
    at? (k :: p) (.dict kvs) = (Assoc.get? kvs k).bind (at? p) := rfl

theorem leaf?_eq_some : leaf? j = some v ↔ j = v ∧ ∀ kvs, j ≠ .dict kvs := by
  cases j <;> simp [leaf?]

theorem leaf?_eq_none : leaf? j = none ↔ ∃ kvs, j = .dict kvs := by
  cases j <;> simp [leaf?]

/-- Nothing is found in a leaf. -/
theorem at?_cons_of_leaf (h : leaf? j = some v) : at? (k :: p) j = none := by
  cases j <;> first | rfl | cases h

theorem at?_append (p q : List String) (j : Json) : at? (p ++ q) j = (at? p j).bind (at? q) := by
  induction p generalizing j with
  | nil => rw [at?_nil, Option.bind_some, List.nil_append]
  | cons k p ih =>
    cases j with
    | dict kvs =>
      rw [List.cons_append, at?_dict_cons, at?_dict_cons, Option.bind_assoc]
      exact congrArg _ (funext ih)
    | _ => rfl

/-- What something is found in is a dictionary. -/
theorem exists_dict_of_at? (h : at? (p ++ k :: q) j = some v) :
    ∃ kvs, at? p j = some (.dict kvs) ∧ kvs ≠ [] := by
  rw [at?_append] at h
  obtain ⟨w, hw, h⟩ := Option.bind_eq_some_iff.mp h
  cases w with
  | dict kvs =>
    refine ⟨kvs, hw, ?_⟩
    rintro rfl
    cases h
  | _ => cases h

theorem DictEq.symm (h : DictEq a b) : DictEq b a := fun p => (h p).symm

/-- Leaves are at the same paths. -/
theorem DictEq.leaf (h : DictEq a b) (ha : at? p a = some v) (hv : leaf? v = some v) :
    at? p b = some v := by
  have hp := h p
  rw [ha, Option.map_some, hv] at hp
  obtain ⟨w, hw, hleaf⟩ := Option.map_eq_some_iff.mp hp.symm
  rw [hw, (leaf?_eq_some.mp hleaf).1]

theorem DictEq.isSome (h : DictEq a b) (p : List String) : (at? p a).isSome = (at? p b).isSome := by
  rw [← Option.isSome_map (f := leaf?), h p, Option.isSome_map]

/-- Dictionaries are at the same paths. -/
theorem DictEq.dict (h : DictEq a b) (ha : at? p a = some (.dict kvs)) :
    ∃ kvs', at? p b = some (.dict kvs') := by
  have hp := h p
  rw [ha, Option.map_some] at hp
  obtain ⟨w, hw, hleaf⟩ := Option.map_eq_some_iff.mp hp.symm
  obtain ⟨kvs', rfl⟩ := leaf?_eq_none.mp hleaf
  exact ⟨kvs', hw⟩

theorem DictEq.filled (h : DictEq a b) (ha : Filled a) : Filled b := by
  intro p kvs hb
  obtain ⟨kvs', hp⟩ := h.symm.dict hb
  obtain ⟨e, rest, hkvs⟩ := List.exists_cons_of_ne_nil (ha p kvs' hp)
  have hsome : (at? (p ++ [e.1]) a).isSome := by
    rw [at?_append, hp, hkvs, Option.bind_some, at?_dict_cons, Assoc.get?_cons_self]
    rfl
  rw [h.isSome] at hsome
  obtain ⟨w, hw⟩ := Option.isSome_iff_exists.mp hsome
  obtain ⟨kvs'', hp', hne⟩ := exists_dict_of_at? hw
  cases hb.symm.trans hp'
  exact hne

/-- A value without empty dictionaries has a leaf. -/
theorem Filled.exists_leaf (h : Filled j) : ∃ p v, at? p j = some v ∧ leaf? v = some v := by
  induction j with
  | dict kvs ih =>
    obtain ⟨⟨k, v⟩, rest, rfl⟩ := List.exists_cons_of_ne_nil (h [] kvs rfl)
    have hfirst (p : List String) : at? (k :: p) (.dict ((k, v) :: rest)) = at? p v := by
      rw [at?_dict_cons, Assoc.get?_cons_self, Option.bind_some]
    obtain ⟨p, w, hw, hleaf⟩ := ih (k, v) (List.mem_cons_self ..) fun p kvs hp =>
      h (k :: p) kvs ((hfirst p).trans hp)
    exact ⟨k :: p, w, (hfirst p).trans hw, hleaf⟩
  | _ => exact ⟨[], _, at?_nil _, rfl⟩

/-! ## Assignment -/

theorem assignPath_cons (k k' : String) (p : List String) (d : List (String × Json)) (v : Json) :
    assignPath (k :: k' :: p) d v = Assoc.set d k (.dict (assignPath (k' :: p)
      (match Assoc.get? d k with | some (.dict kvs) => kvs | _ => []) v)) := rfl

/-- At the path and below it there is the value. -/
theorem at?_assignPath_append (hp : p ≠ []) (d : List (String × Json)) (r : List String) :
    at? (p ++ r) (.dict (assignPath p d v)) = at? r v := by
  induction p generalizing d with
  | nil => exact absurd rfl hp
  | cons k p ih =>
    cases p with
    | nil =>
      show at? (k :: r) (.dict (Assoc.set d k v)) = _
      rw [at?_dict_cons, Assoc.get?_set_self, Option.bind_some]
    | cons k' p =>
      rw [assignPath_cons, List.cons_append, at?_dict_cons, Assoc.get?_set_self, Option.bind_some]
      exact ih (List.cons_ne_nil k' p) _

/-- Above the path there are dictionaries. -/
theorem at?_assignPath_above (q : List String) (k : String) (r : List String)
    (d : List (String × Json)) :
    ∃ kvs, at? q (.dict (assignPath (q ++ k :: r) d v)) = some (.dict kvs) ∧ kvs ≠ [] := by
  have hat := at?_assignPath_append (p := q ++ k :: r) (v := v) (by simp) d []
  rw [List.append_nil, at?_nil] at hat
  exact exists_dict_of_at? hat

/-- Elsewhere nothing changes. -/
theorem at?_assignPath_apart (hpq : ¬ p <+: q) (hqp : ¬ q <+: p) (d : List (String × Json)) :
    at? q (.dict (assignPath p d v)) = at? q (.dict d) := by
  induction p generalizing q d with
  | nil => exact absurd List.nil_prefix hpq
  | cons k p ih =>
    cases q with
    | nil => exact absurd List.nil_prefix hqp
    | cons k₂ q =>
      by_cases hk : k₂ = k
      · subst hk
        rw [List.cons_prefix_cons, not_and] at hpq hqp
        have hpq := hpq rfl
        have hqp := hqp rfl
        cases p with
        | nil => exact absurd List.nil_prefix hpq
        | cons k' p =>
          rw [assignPath_cons, at?_dict_cons, Assoc.get?_set_self, Option.bind_some, ih hpq hqp,
            at?_dict_cons]
          -- what is replaced by a new dictionary has nothing in it
          have hq : q ≠ [] := by
            rintro rfl
            exact hqp List.nil_prefix
          obtain ⟨k₃, q, rfl⟩ := List.exists_cons_of_ne_nil hq
          cases Assoc.get? d k₂ with
          | none => rfl
          | some w => cases w <;> rfl
      · have hset : ∃ w, assignPath (k :: p) d v = Assoc.set d k w := by
          cases p with
          | nil => exact ⟨v, rfl⟩
          | cons k' p => exact ⟨_, rfl⟩
        obtain ⟨w, hset⟩ := hset
        rw [hset, at?_dict_cons, at?_dict_cons, Assoc.get?_set_ne _ hk]

/-- A path is at or below another one, above it or apart from it. -/
theorem path_cases (p q : List String) :
    (∃ r, q = p ++ r) ∨ (∃ k r, p = q ++ k :: r) ∨ (¬ p <+: q ∧ ¬ q <+: p) := by
  by_cases hpq : p <+: q
  · obtain ⟨r, rfl⟩ := hpq
    exact .inl ⟨r, rfl⟩
  · by_cases hqp : q <+: p
    · obtain ⟨r, rfl⟩ := hqp
      cases r with
      | nil => exact absurd (by rw [List.append_nil]) hpq
      | cons k r => exact .inr (.inl ⟨k, r, rfl⟩)
    · exact .inr (.inr ⟨hpq, hqp⟩)

/-- **A leaf after an assignment** is the one that was assigned or one that was there before. -/
theorem leaf_assignPath (hp : p ≠ []) (hv : leaf? v = some v) (hw : leaf? w = some w)
    (h : at? q (.dict (assignPath p d v)) = some w) :
    (q = p ∧ w = v) ∨ at? q (.dict d) = some w := by
  rcases path_cases p q with ⟨r, rfl⟩ | ⟨k, r, rfl⟩ | ⟨hpq, hqp⟩
  · rw [at?_assignPath_append hp] at h
    cases r with
    | nil => exact .inl ⟨List.append_nil p, (Option.some.inj h).symm⟩
    | cons k r =>
      rw [at?_cons_of_leaf hv] at h
      cases h
  · obtain ⟨kvs, hdict, -⟩ := at?_assignPath_above q k r d (v := v)
    cases hdict.symm.trans h
    cases hw
  · rw [at?_assignPath_apart hpq hqp] at h
    exact .inr h

/-- A dictionary inside is not empty after an assignment, if it was not before. -/
theorem ne_nil_assignPath (hp : p ≠ []) (hv : leaf? v = some v)
    (hd : ∀ kvs, at? q (.dict d) = some (.dict kvs) → kvs ≠ [])
    (h : at? q (.dict (assignPath p d v)) = some (.dict kvs)) : kvs ≠ [] := by
  rcases path_cases p q with ⟨r, rfl⟩ | ⟨k, r, rfl⟩ | ⟨hpq, hqp⟩
  · rw [at?_assignPath_append hp] at h
    cases r with
    | nil =>
      cases Option.some.inj h
      cases hv
    | cons k r =>
      rw [at?_cons_of_leaf hv] at h
      cases h
  · obtain ⟨kvs', hdict, hne⟩ := at?_assignPath_above q k r d (v := v)
    cases hdict.symm.trans h
    exact hne
  · rw [at?_assignPath_apart hpq hqp] at h
    exact hd kvs h

/-! ## Dictionaries that are built by assignments -/

/-- The leaves are assigned one after the other. -/
def assignAll (d : List (String × Json)) (leaves : List (List String × Json)) :
    List (String × Json) :=
  leaves.foldl (fun d e => assignPath e.1 d e.2) d

variable {leaves : List (List String × Json)} {e : List String × Json}

/-- What is assigned: values that are no dictionaries, at paths that are not empty. -/
def Leaves (leaves : List (List String × Json)) : Prop :=
  ∀ e ∈ leaves, e.1 ≠ [] ∧ leaf? e.2 = some e.2

/-- **The leaves of what is built are among those that are assigned.** -/
theorem leaf_assignAll (hleaves : Leaves leaves) (hw : leaf? w = some w)
    (h : at? q (.dict (assignAll d leaves)) = some w) :
    (q, w) ∈ leaves ∨ at? q (.dict d) = some w := by
  induction leaves generalizing d with
  | nil => exact .inr h
  | cons e leaves ih =>
    obtain ⟨he, hrest⟩ := List.forall_mem_cons.mp hleaves
    rcases ih hrest h with hmem | hbefore
    · exact .inl (List.mem_cons_of_mem _ hmem)
    · rcases leaf_assignPath he.1 he.2 hw hbefore with ⟨rfl, rfl⟩ | hbefore
      · exact .inl (List.mem_cons_self ..)
      · exact .inr hbefore

/-- What is built has no empty dictionaries inside. -/
theorem ne_nil_assignAll (hleaves : Leaves leaves)
    (hd : ∀ kvs, at? q (.dict d) = some (.dict kvs) → kvs ≠ [])
    (h : at? q (.dict (assignAll d leaves)) = some (.dict kvs)) : kvs ≠ [] := by
  induction leaves generalizing d with
  | nil => exact hd kvs h
  | cons e leaves ih =>
    obtain ⟨he, hrest⟩ := List.forall_mem_cons.mp hleaves
    exact ih hrest (fun kvs => ne_nil_assignPath he.1 he.2 hd) h

/-- **What is found in the one is found in the other**, dictionaries for dictionaries. -/
def PartOf (a b : Json) : Prop :=
  ∀ p w, at? p a = some w → (at? p b).map leaf? = some (leaf? w)

theorem PartOf.assignPath (h : PartOf (.dict d) c) (hp : p ≠ []) (hv : leaf? v = some v)
    (hc : at? p c = some v) : PartOf (.dict (assignPath p d v)) c := by
  intro q w hw
  rcases path_cases p q with ⟨r, rfl⟩ | ⟨k, r, rfl⟩ | ⟨hpq, hqp⟩
  · rw [at?_assignPath_append hp] at hw
    cases r with
    | nil =>
      rw [at?_nil] at hw
      rw [List.append_nil, hc, Option.some.inj hw]
      rfl
    | cons k r =>
      rw [at?_cons_of_leaf hv] at hw
      cases hw
  · obtain ⟨kvs, hdict, -⟩ := at?_assignPath_above q k r d (v := v)
    obtain ⟨kvs', hdict', -⟩ := exists_dict_of_at? hc
    rw [hdict', ← Option.some.inj (hdict.symm.trans hw)]
    rfl
  · rw [at?_assignPath_apart hpq hqp] at hw
    exact h q w hw

/-- A leaf stays when another leaf of the same value is assigned. -/
theorem at?_assignPath_leaf (hp : p ≠ []) (hv : leaf? v = some v) (hw : leaf? w = some w)
    (hc : at? p c = some v) (hc' : at? q c = some w) (h : at? q (.dict d) = some w) :
    at? q (.dict (Python.assignPath p d v)) = some w := by
  rcases path_cases p q with ⟨r, rfl⟩ | ⟨k, r, rfl⟩ | ⟨hpq, hqp⟩
  · rw [at?_append, hc, Option.bind_some] at hc'
    rw [at?_assignPath_append hp, hc']
  · obtain ⟨kvs, hdict, -⟩ := exists_dict_of_at? hc
    cases hdict.symm.trans hc'
    cases hw
  · rw [at?_assignPath_apart hpq hqp, h]

/-- **What is built from leaves of a value is part of it, with these leaves.** -/
theorem partOf_assignAll (hleaves : Leaves leaves) (hc : ∀ e ∈ leaves, at? e.1 c = some e.2)
    (h : PartOf (.dict d) c) :
    PartOf (.dict (assignAll d leaves)) c ∧
      (∀ q w, leaf? w = some w → at? q c = some w → at? q (.dict d) = some w →
        at? q (.dict (assignAll d leaves)) = some w) ∧
      ∀ e ∈ leaves, at? e.1 (.dict (assignAll d leaves)) = some e.2 := by
  induction leaves generalizing d with
  | nil => exact ⟨h, fun _ _ _ _ => id, List.forall_mem_nil _⟩
  | cons e leaves ih =>
    obtain ⟨he, hrest⟩ := List.forall_mem_cons.mp hleaves
    obtain ⟨hce, hcrest⟩ := List.forall_mem_cons.mp hc
    obtain ⟨hpart, hkeep, hall⟩ := ih hrest hcrest (h.assignPath he.1 he.2 hce)
    refine ⟨hpart, fun q w hw hcw hd => ?_, List.forall_mem_cons.mpr ⟨?_, hall⟩⟩
    · exact hkeep q w hw hcw (at?_assignPath_leaf he.1 he.2 hw hce hcw hd)
    · refine hkeep e.1 e.2 he.2 hce ?_
      have hat := at?_assignPath_append he.1 d [] (v := e.2)
      rwa [List.append_nil, at?_nil] at hat

/-- **A part with all leaves is everything**, where no dictionary is empty. -/
theorem PartOf.dictEq (h : PartOf a b) (hb : Filled b)
    (hleaves : ∀ p v, at? p b = some v → leaf? v = some v → (at? p a).isSome) : DictEq a b := by
  intro p
  cases ha : at? p a with
  | some w => rw [h p w ha, Option.map_some]
  | none =>
    cases hp : at? p b with
    | none => rfl
    | some w =>
      exfalso
      have hw : Filled w := fun q kvs hq => hb (p ++ q) kvs (by rw [at?_append, hp]; exact hq)
      obtain ⟨q, v, hq, hv⟩ := hw.exists_leaf
      have hsome := hleaves (p ++ q) v (by rw [at?_append, hp]; exact hq) hv
      rw [at?_append, ha] at hsome
      cases hsome

end Json

end Python
