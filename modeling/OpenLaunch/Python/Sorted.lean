import OpenLaunch.Python.Json
import Mathlib.Data.List.Dedup
import Mathlib.Data.List.Sort
import Mathlib.Data.String.Basic

/-! # Sorted sets

`sorted(set(·))` of values that JSON text decodes to. A set of lists or dictionaries raises, and so
does sorting values of types that cannot be compared. -/

namespace Python

/-- `sorted(set(·))` of texts. -/
def sortTexts (xs : List String) : List String := xs.dedup.mergeSort fun a b => a ≤ b

theorem mem_sortTexts {xs : List String} {s : String} : s ∈ sortTexts xs ↔ s ∈ xs := by
  rw [sortTexts, List.mem_mergeSort, List.mem_dedup]

/-- The texts are sorted in the same way exactly if they are the same. -/
theorem sortTexts_eq_iff {xs ys : List String} :
    sortTexts xs = sortTexts ys ↔ ∀ s, s ∈ xs ↔ s ∈ ys := by
  constructor
  · intro h s
    rw [← mem_sortTexts, h, mem_sortTexts]
  · intro h
    have hperm : xs.dedup.Perm ys.dedup := by
      refine (List.perm_ext_iff_of_nodup (List.nodup_dedup _) (List.nodup_dedup _)).mpr fun s => ?_
      rw [List.mem_dedup, List.mem_dedup, h s]
    have hsorted : ∀ xs : List String, (sortTexts xs).Pairwise (· ≤ ·) := fun xs => by
      have h : (sortTexts xs).Pairwise fun a b => decide (a ≤ b) = true :=
        List.pairwise_mergeSort
          (fun a b c hab hbc => decide_eq_true
            ((of_decide_eq_true hab).trans (of_decide_eq_true hbc)))
          (fun a b => by simpa using le_total a b) xs.dedup
      exact h.imp of_decide_eq_true
    refine List.Perm.eq_of_pairwise (fun a b _ _ hab hba => le_antisymm hab hba) (hsorted xs)
      (hsorted ys) ?_
    exact (List.mergeSort_perm ..).trans (hperm.trans (List.mergeSort_perm ..).symm)

namespace Json

/-- The value is a number, as `True` and `False` are. -/
def isNumeric : Json → Bool
  | bool _ | int _ | float _ => true
  | null | str _ | list _ | dict _ => false

/-- `sorted(set(·))`, given what it is for numbers. -/
def sortedSet (numbers : List Json → List Json) (xs : List Json) : Except PyErr (List Json) :=
  if xs.all fun x => x.str?.isSome then .ok ((sortTexts (xs.filterMap str?)).map str)
  else if xs.all fun x => x = null then .ok [null]
  else if xs.all isNumeric then .ok (numbers xs)
  else .error .typeError

theorem sortedSet_texts (numbers : List Json → List Json) (xs : List String) :
    sortedSet numbers (xs.map str) = .ok ((sortTexts xs).map str) := by
  rw [sortedSet, if_pos (by simp [str?])]
  simp [List.filterMap_map, Function.comp_def, str?]

end Json

end Python
