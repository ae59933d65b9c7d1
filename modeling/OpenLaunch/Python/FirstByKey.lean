import Mathlib.Data.List.Nodup

/-! # The first element of each key

A loop over elements that keeps those that are accepted, unless an earlier one that it has kept has
the same key. -/

namespace Python

universe u v

variable {α : Type u} {κ : Type v} [DecidableEq κ]
variable (accepts : α → Bool) (key : α → κ)

/-- The elements that are kept, where those with the keys `seen` have been kept before. -/
def firstsFrom (seen : List κ) : List α → List α
  | [] => []
  | x :: xs =>
    if accepts x = true ∧ key x ∉ seen then x :: firstsFrom (key x :: seen) xs
    else firstsFrom seen xs

/-- An element is accepted, and none before it of its key is. -/
def IsFirst (xs : List α) (x : α) : Prop :=
  ∃ before after, xs = before ++ x :: after ∧ accepts x = true ∧
    ∀ y ∈ before, accepts y = true → key y ≠ key x

variable {accepts key} {seen : List κ} {xs ys : List α} {x y : α}

omit [DecidableEq κ] in
theorem IsFirst.mem (h : IsFirst accepts key xs x) : x ∈ xs := by
  obtain ⟨before, after, rfl, -, -⟩ := h
  exact List.mem_append_right _ List.mem_cons_self

omit [DecidableEq κ] in
theorem IsFirst.accepted (h : IsFirst accepts key xs x) : accepts x = true := by
  obtain ⟨-, -, -, haccepts, -⟩ := h
  exact haccepts

omit [DecidableEq κ] in
/-- The first elements of a list with one more in front. -/
theorem isFirst_cons_iff : IsFirst accepts key (y :: xs) x ↔
    accepts x = true ∧ (x = y ∨
      IsFirst accepts key xs x ∧ (accepts y = true → key y ≠ key x)) := by
  constructor
  · rintro ⟨before, after, hxs, haccepts, hbefore⟩
    refine ⟨haccepts, ?_⟩
    cases before with
    | nil =>
      rw [List.nil_append, List.cons.injEq] at hxs
      exact .inl hxs.1.symm
    | cons b before =>
      rw [List.cons_append, List.cons.injEq] at hxs
      obtain ⟨rfl, hxs⟩ := hxs
      exact .inr ⟨⟨before, after, hxs, haccepts, fun z hz => hbefore z (List.mem_cons_of_mem _ hz)⟩,
        hbefore y List.mem_cons_self⟩
  · rintro ⟨haccepts, rfl | ⟨⟨before, after, rfl, -, hbefore⟩, hne⟩⟩
    · exact ⟨[], xs, rfl, haccepts, nofun⟩
    · exact ⟨y :: before, after, rfl, haccepts, List.forall_mem_cons.mpr ⟨hne, hbefore⟩⟩

omit [DecidableEq κ] in
/-- The first elements of two lists in a row. -/
theorem isFirst_append_iff : IsFirst accepts key (xs ++ ys) x ↔ IsFirst accepts key xs x ∨
    IsFirst accepts key ys x ∧ ∀ y ∈ xs, accepts y = true → key y ≠ key x := by
  induction xs with
  | nil =>
    simp only [List.nil_append, List.not_mem_nil, false_imp_iff, implies_true, and_true]
    refine (or_iff_right ?_).symm
    exact fun h => absurd h.mem List.not_mem_nil
  | cons z xs ih =>
    rw [List.cons_append, isFirst_cons_iff, isFirst_cons_iff, ih, List.forall_mem_cons]
    constructor
    · rintro ⟨haccepts, rfl | ⟨h | ⟨h, hxs⟩, hz⟩⟩
      · exact .inl ⟨haccepts, .inl rfl⟩
      · exact .inl ⟨haccepts, .inr ⟨h, hz⟩⟩
      · exact .inr ⟨h, hz, hxs⟩
    · rintro (⟨haccepts, rfl | ⟨h, hz⟩⟩ | ⟨h, hz, hxs⟩)
      · exact ⟨haccepts, .inl rfl⟩
      · exact ⟨haccepts, .inr ⟨.inl h, hz⟩⟩
      · exact ⟨h.accepted, .inr ⟨.inr ⟨h, hxs⟩, hz⟩⟩

omit [DecidableEq κ] in
/-- An accepted element has a first one of its key. -/
theorem exists_isFirst (hx : x ∈ xs) (haccepts : accepts x = true) :
    ∃ y, IsFirst accepts key xs y ∧ key y = key x := by
  induction xs with
  | nil => cases hx
  | cons z xs ih =>
    by_cases hz : accepts z = true ∧ key z = key x
    · exact ⟨z, isFirst_cons_iff.mpr ⟨hz.1, .inl rfl⟩, hz.2⟩
    · rcases List.mem_cons.mp hx with rfl | hx
      · exact absurd ⟨haccepts, rfl⟩ hz
      · obtain ⟨y, hy, hkey⟩ := ih hx
        refine ⟨y, isFirst_cons_iff.mpr ⟨hy.accepted, .inr ⟨hy, fun hz' hkey' => ?_⟩⟩, hkey⟩
        exact hz ⟨hz', hkey'.trans hkey⟩

/-- **The loop keeps the first elements** whose keys have not been seen before. -/
theorem mem_firstsFrom_iff :
    x ∈ firstsFrom accepts key seen xs ↔ IsFirst accepts key xs x ∧ key x ∉ seen := by
  induction xs generalizing seen with
  | nil =>
    rw [firstsFrom]
    constructor
    · exact nofun
    · rintro ⟨h, -⟩
      exact h.mem
  | cons y xs ih =>
    rw [firstsFrom, isFirst_cons_iff]
    split_ifs with hkeep
    · rw [List.mem_cons, ih, List.mem_cons, not_or]
      constructor
      · rintro (rfl | ⟨h, hne, hseen⟩)
        · exact ⟨⟨hkeep.1, .inl rfl⟩, hkeep.2⟩
        · exact ⟨⟨h.accepted, .inr ⟨h, fun _ hkey => hne hkey.symm⟩⟩, hseen⟩
      · rintro ⟨⟨-, rfl | ⟨h, hne⟩⟩, hseen⟩
        · exact .inl rfl
        · exact .inr ⟨h, fun hkey => hne hkeep.1 hkey.symm, hseen⟩
    · rw [ih]
      constructor
      · rintro ⟨h, hseen⟩
        refine ⟨⟨h.accepted, .inr ⟨h, fun hy hkey => ?_⟩⟩, hseen⟩
        exact hkeep ⟨hy, by rwa [hkey]⟩
      · rintro ⟨⟨haccepts, rfl | ⟨h, -⟩⟩, hseen⟩
        · exact absurd ⟨haccepts, hseen⟩ hkeep
        · exact ⟨h, hseen⟩

/-- No two of the elements that are kept have one key. -/
theorem nodup_firstsFrom (seen : List κ) (xs : List α) :
    ((firstsFrom accepts key seen xs).map key).Nodup := by
  induction xs generalizing seen with
  | nil => exact List.nodup_nil
  | cons y xs ih =>
    rw [firstsFrom]
    split_ifs with hkeep
    · rw [List.map_cons, List.nodup_cons]
      refine ⟨fun hmem => ?_, ih _⟩
      obtain ⟨x, hx, hkey⟩ := List.mem_map.mp hmem
      refine (mem_firstsFrom_iff.mp hx).2 ?_
      rw [hkey]
      exact List.mem_cons_self
    · exact ih seen

end Python
