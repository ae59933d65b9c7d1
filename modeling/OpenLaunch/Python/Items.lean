import OpenLaunch.Python.Json
import Mathlib.Data.List.Infix

/-! # Items of nested values

`k in j`, `j[k]` and `j[k] = v` for a string `k`, and what a nested value holds along a path of
keys. A path goes through objects only. -/

namespace Python

namespace Assoc

universe u v

variable {κ : Type u} {α : Type v} [DecidableEq κ]

/-- Of two writes to a key the last one counts. -/
theorem set_set (d : List (κ × α)) (k : κ) (a b : α) : set (set d k a) k b = set d k b := by
  induction d with
  | nil => simp [set]
  | cons e d ih => by_cases h : e.1 = k <;> simp [set, h, ih]

/-- What holds of every entry and of the one written holds of every entry then. -/
theorem forall_mem_set_entry {P : κ × α → Prop} {d : List (κ × α)} (hd : ∀ e ∈ d, P e) {k : κ}
    {a : α} (ha : P (k, a)) : ∀ e ∈ set d k a, P e := by
  induction d with
  | nil => simpa [set] using ha
  | cons e d ih =>
    obtain ⟨k', a'⟩ := e
    rw [List.forall_mem_cons] at hd
    by_cases hk : k' = k
    · subst hk
      simpa [set] using ⟨ha, fun k' a' hmem => hd.2 (k', a') hmem⟩
    · rw [set, if_neg hk]
      exact List.forall_mem_cons.mpr ⟨hd.1, ih hd.2⟩

/-- Only the empty list of entries has no key. -/
theorem eq_nil_iff (d : List (κ × α)) : d = [] ↔ ∀ k, get? d k = none := by
  constructor
  · rintro rfl k
    rfl
  · intro h
    match d with
    | [] => rfl
    | (k, a) :: d => exact absurd (h k) (by simp)

end Assoc

namespace Json

/-! ## Subscripts -/

/-- `k in j`. -/
def hasKey : Json → String → Except PyErr Bool
  | .dict kvs, k => .ok (Assoc.contains kvs k)
  | .list xs, k => .ok (decide (.str k ∈ xs))
  | .str s, k => .ok (decide (k.toList <:+: s.toList))
  | _, _ => .error .typeError

/-- `j[k]`. -/
def item : Json → String → Except PyErr Json
  | .dict kvs, k =>
    match Assoc.get? kvs k with
    | some v => .ok v
    | none => .error .keyError
  | _, _ => .error .typeError

/-- `d.get(k)` of a dictionary. -/
def field (kvs : List (String × Json)) (k : String) : Json := (Assoc.get? kvs k).getD .null

/-- The entries, if the value is a dictionary. -/
def entries : Json → List (String × Json)
  | .dict kvs => kvs
  | _ => []

/-- `j[k] = v`. -/
def setItem : Json → String → Json → Except PyErr Json
  | .dict kvs, k, v => .ok (.dict (Assoc.set kvs k v))
  | _, _, _ => .error .typeError

/-- The value that is read under a key which has one. -/
theorem getD_of_field {kvs : List (String × Json)} {k : String} {v : Json} (hv : v ≠ .null)
    (h : field kvs k = v) (default : Json) : (Assoc.get? kvs k).getD default = v := by
  rw [field] at h
  cases hget : Assoc.get? kvs k with
  | none =>
    rw [hget] at h
    exact absurd h.symm hv
  | some w =>
    rw [hget] at h
    exact h

@[simp] theorem hasKey_dict (kvs : List (String × Json)) (k : String) :
    (dict kvs).hasKey k = .ok (Assoc.get? kvs k).isSome := rfl

@[simp] theorem setItem_dict (kvs : List (String × Json)) (k : String) (v : Json) :
    (dict kvs).setItem k v = .ok (.dict (Assoc.set kvs k v)) := rfl

theorem item_dict {kvs : List (String × Json)} {k : String} {v : Json}
    (h : Assoc.get? kvs k = some v) : (dict kvs).item k = .ok v := by
  simp [item, h]

/-- What cannot be subscripted by a string raises at the latest when it is. -/
theorem item_error {j : Json} (h : j.isDict = false) (k : String) :
    j.item k = .error .typeError := by
  cases j with
  | dict kvs => exact absurd h (by simp [isDict])
  | _ => rfl

theorem setItem_error {j : Json} (h : j.isDict = false) (k : String) (v : Json) :
    j.setItem k v = .error .typeError := by
  cases j with
  | dict kvs => exact absurd h (by simp [isDict])
  | _ => rfl

/-! ## Paths -/

/-- The value at a path of keys, read through objects. -/
def valueAt : Json → List String → Option Json
  | j, [] => some j
  | .dict kvs, k :: path => (Assoc.get? kvs k).bind fun v => v.valueAt path
  | _, _ :: _ => none

/-- The truth of the value at a path. -/
def truthAt (j : Json) (path : List String) : Option Bool := (j.valueAt path).map truthy

/-- `some true` for an object with a key, `some false` for a value that is no object. -/
def shape : Json → Option Bool
  | .dict [] => none
  | .dict (_ :: _) => some true
  | _ => some false

/-- The shape of the value at a path. -/
def shapeAt (j : Json) (path : List String) : Option Bool := (j.valueAt path).bind shape

@[simp] theorem valueAt_nil (j : Json) : j.valueAt [] = some j := by cases j <;> rfl

@[simp] theorem valueAt_dict_cons (kvs : List (String × Json)) (k : String) (path : List String) :
    (dict kvs).valueAt (k :: path) = (Assoc.get? kvs k).bind fun v => v.valueAt path := rfl

theorem valueAt_cons_of_not_dict {j : Json} (h : j.isDict = false) (k : String)
    (path : List String) : j.valueAt (k :: path) = none := by
  cases j with
  | dict kvs => exact absurd h (by simp [isDict])
  | _ => rfl

@[simp] theorem truthAt_nil (j : Json) : j.truthAt [] = some j.truthy := by simp [truthAt]

@[simp] theorem truthAt_dict_cons (kvs : List (String × Json)) (k : String) (path : List String) :
    (dict kvs).truthAt (k :: path) = (Assoc.get? kvs k).bind fun v => v.truthAt path := by
  simp [truthAt, Option.map_bind, Function.comp_def]

@[simp] theorem shapeAt_nil (j : Json) : j.shapeAt [] = j.shape := by simp [shapeAt]

@[simp] theorem shapeAt_dict_cons (kvs : List (String × Json)) (k : String) (path : List String) :
    (dict kvs).shapeAt (k :: path) = (Assoc.get? kvs k).bind fun v => v.shapeAt path := by
  simp [shapeAt, Option.bind_assoc]

theorem shapeAt_cons_of_not_dict {j : Json} (h : j.isDict = false) (k : String)
    (path : List String) : j.shapeAt (k :: path) = none := by
  simp [shapeAt, valueAt_cons_of_not_dict h]

theorem shape_of_not_dict {j : Json} (h : j.isDict = false) : j.shape = some false := by
  cases j with
  | dict kvs => exact absurd h (by simp [isDict])
  | _ => rfl

theorem shape_eq_some_false {j : Json} : j.shape = some false ↔ j.isDict = false := by
  cases j with
  | dict kvs => cases kvs <;> simp [shape, isDict]
  | _ => simp [shape, isDict]

theorem isDict_eq_true {j : Json} : j.isDict = true ↔ ∃ kvs, j = .dict kvs := by
  cases j <;> simp [isDict]

/-- A value that is no object and false has nothing inside. -/
theorem valueAt_cons_of_falsy {j : Json} (h : j.truthy = false) (k : String) (path : List String) :
    j.valueAt (k :: path) = none := by
  cases j with
  | dict kvs =>
    have hnil : kvs = [] := by simpa using h
    simp [hnil]
  | _ => rfl

/-- The parts of a value without repeated keys are such values. -/
theorem WellFormed.of_get? {kvs : List (String × Json)} (h : WellFormed (.dict kvs)) {k : String}
    {v : Json} (hv : Assoc.get? kvs k = some v) : v.WellFormed := by
  cases h with
  | dict hkeys hall => exact hall _ (Assoc.mem_of_get? hv)

theorem WellFormed.nodup_keys {kvs : List (String × Json)} (h : WellFormed (.dict kvs)) :
    (Assoc.keys kvs).Nodup := by
  cases h with
  | dict hkeys hall => exact hkeys

end Json

end Python
