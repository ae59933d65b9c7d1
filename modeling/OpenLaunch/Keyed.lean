import Mathlib.Data.List.Nodup

/-! # Rows with a primary key

A table is a list of rows no two of which have the same key. What a query for a key finds is the row
with that key. -/

namespace Keyed

universe u v

variable {α : Type u} {κ : Type v} {key : α → κ} {rows : List α} {a b : α}

/-- A row is determined by its key. -/
theorem eq_of_key (h : (rows.map key).Nodup) (ha : a ∈ rows) (hb : b ∈ rows)
    (hkey : key a = key b) : a = b :=
  List.inj_on_of_nodup_map h ha hb hkey

/-- **A query for a key finds the row that has it.** -/
theorem find?_eq_some_iff [DecidableEq κ] (h : (rows.map key).Nodup) {k : κ} :
    (rows.find? fun x => key x = k) = some a ↔ a ∈ rows ∧ key a = k := by
  constructor
  · intro hfind
    exact ⟨List.mem_of_find?_eq_some hfind, by simpa using List.find?_some hfind⟩
  · rintro ⟨hmem, rfl⟩
    obtain ⟨b, hfind⟩ : ∃ b, (rows.find? fun x => key x = key a) = some b := by
      rw [← Option.isSome_iff_exists, List.find?_isSome]
      exact ⟨a, hmem, decide_eq_true rfl⟩
    have hkey : key b = key a := by simpa using List.find?_some hfind
    rw [hfind, eq_of_key h (List.mem_of_find?_eq_some hfind) hmem hkey]

/-- A query for a key and a condition finds the row that has both. -/
theorem find?_and_eq_some_iff [DecidableEq κ] (h : (rows.map key).Nodup) {k : κ} {p : α → Bool} :
    (rows.find? fun x => key x = k ∧ p x) = some a ↔ a ∈ rows ∧ key a = k ∧ p a = true := by
  constructor
  · intro hfind
    exact ⟨List.mem_of_find?_eq_some hfind, by simpa using List.find?_some hfind⟩
  · rintro ⟨hmem, rfl, hp⟩
    obtain ⟨b, hfind⟩ : ∃ b, (rows.find? fun x => key x = key a ∧ p x) = some b := by
      rw [← Option.isSome_iff_exists, List.find?_isSome]
      exact ⟨a, hmem, decide_eq_true ⟨rfl, hp⟩⟩
    have hb : key b = key a ∧ p b = true := by simpa using List.find?_some hfind
    rw [hfind, eq_of_key h (List.mem_of_find?_eq_some hfind) hmem hb.1]

theorem find?_eq_none_iff [DecidableEq κ] {k : κ} :
    (rows.find? fun x => key x = k) = none ↔ k ∉ rows.map key := by
  rw [List.find?_eq_none, List.mem_map]
  constructor
  · rintro h ⟨a, ha, rfl⟩
    exact h a ha (decide_eq_true rfl)
  · intro h a ha hkey
    exact h ⟨a, ha, of_decide_eq_true hkey⟩

/-- **Where keys are unique, changing the first row with a key changes the row with it.** -/
theorem replaceF_eq_map [DecidableEq κ] (h : (rows.map key).Nodup) (k : κ) (f : α → α) :
    (rows.replaceF fun x => if key x = k then some (f x) else none) =
      rows.map fun x => if key x = k then f x else x := by
  induction rows with
  | nil => rfl
  | cons x rows ih =>
    rw [List.map_cons, List.nodup_cons] at h
    rw [List.replaceF, List.map_cons]
    by_cases hx : key x = k
    · rw [if_pos hx, if_pos hx]
      refine congrArg (f x :: ·) ?_
      rw [List.map_congr_left (g := id) fun y hy => ?_, List.map_id]
      refine if_neg fun hy' => h.1 ?_
      rw [hx, ← hy']
      exact List.mem_map_of_mem hy
    · rw [if_neg hx, if_neg hx]
      exact congrArg (x :: ·) (ih h.2)

end Keyed
