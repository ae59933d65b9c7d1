import Mathlib.Logic.Relation
import Mathlib.Data.Fintype.Pigeonhole
import Mathlib.Data.Set.Finite.List

/-! # Forests given by a parent function

A forest on `α` is a partial function `parent : α → Option α` without cycles. This file has the
facts about such functions that hold for any carrier: shortcuts of an acyclic function are acyclic,
a finite closed set of nodes contains a root, and the list of ancestors of a node. It also has walks
along a partial function, which either stop or, on a finite set, come back to where they were. -/

namespace Forest

universe u

variable {α : Type u}

/-! ## Parents and ancestors -/

/-- `p` is the parent of `x`. -/
def Edge (parent : α → Option α) (x p : α) : Prop := parent x = some p

/-- No node is its own proper ancestor. -/
def Acyclic (parent : α → Option α) : Prop := ∀ x, ¬ Relation.TransGen (Edge parent) x x

/-- `Ancestors parent x l`: going up from `x` meets exactly the nodes of `l`, nearest first. -/
inductive Ancestors (parent : α → Option α) : α → List α → Prop
  /-- A root has no ancestors. -/
  | root {x : α} (h : parent x = none) : Ancestors parent x []
  /-- The parent, then its ancestors. -/
  | step {x p : α} {l : List α} (h : parent x = some p) (hl : Ancestors parent p l) :
      Ancestors parent x (p :: l)

variable {parent parent' : α → Option α}

/-- A function whose edges are paths of an acyclic function is acyclic. -/
theorem Acyclic.of_shortcut (h : Acyclic parent)
    (hp : ∀ x p, parent' x = some p → Relation.TransGen (Edge parent) x p) : Acyclic parent' := by
  have hlift : ∀ x y, Relation.TransGen (Edge parent') x y → Relation.TransGen (Edge parent) x y := by
    intro x y hxy
    induction hxy with
    | single hxy => exact hp _ _ hxy
    | tail _ hyz ih => exact ih.trans (hp _ _ hyz)
  exact fun x hx => h x (hlift x x hx)

/-- The ancestors of a node depend only on the parents of the node and of its ancestors. -/
theorem Ancestors.congr {x : α} {l : List α} (hl : Ancestors parent x l)
    (h : ∀ y, y = x ∨ y ∈ l → parent y = parent' y) : Ancestors parent' x l := by
  induction hl with
  | root hroot => exact .root ((h _ (.inl rfl)).symm.trans hroot)
  | step hp _ ih =>
    refine .step ((h _ (.inl rfl)).symm.trans hp) (ih fun y hy => h y (.inr ?_))
    exact List.mem_cons.mpr hy

theorem Acyclic.ne_parent (h : Acyclic parent) {x p : α} (hp : parent x = some p) : x ≠ p := by
  rintro rfl
  exact h x (.single hp)

theorem Acyclic.ne_grandparent (h : Acyclic parent) {x p q : α} (hp : parent x = some p)
    (hq : parent p = some q) : x ≠ q := by
  rintro rfl
  exact h x (.tail (.single hp) hq)

/-- **A finite closed set of nodes has a root.** Going up from any of its nodes cannot go on for
ever without a cycle. -/
theorem Acyclic.exists_root (h : Acyclic parent) {s : List α}
    (hs : ∀ x ∈ s, ∀ p, parent x = some p → p ∈ s) (hne : s ≠ []) : ∃ r ∈ s, parent r = none := by
  by_contra hno
  push Not at hno
  obtain ⟨x₀, hx₀⟩ := List.exists_mem_of_ne_nil s hne
  have hnext : ∀ y : {x // x ∈ s}, ∃ z : {x // x ∈ s}, parent y = some z := by
    rintro ⟨y, hy⟩
    obtain ⟨p, hp⟩ := Option.ne_none_iff_exists'.mp (hno y hy)
    exact ⟨⟨p, hs y hy p hp⟩, hp⟩
  choose up hup using hnext
  have hfin : Finite {x // x ∈ s} := s.finite_toSet.to_subtype
  -- the walk upwards visits some node twice, which closes a cycle
  obtain ⟨i, j, hij, heq⟩ :=
    Finite.exists_ne_map_eq_of_infinite fun n : ℕ => up^[n] ⟨x₀, hx₀⟩
  wlog hlt : i < j generalizing i j
  · exact this j i hij.symm heq.symm (lt_of_le_of_ne (not_lt.mp hlt) hij.symm)
  have hpath : ∀ n, Relation.TransGen (Edge parent) (up^[i] ⟨x₀, hx₀⟩).1
      (up^[i + (n + 1)] ⟨x₀, hx₀⟩).1 := by
    intro n
    induction n with
    | zero =>
      rw [Nat.zero_add, Function.iterate_succ_apply']
      exact .single (hup _)
    | succ n ih =>
      rw [← Nat.add_assoc, Function.iterate_succ_apply']
      exact .tail ih (hup _)
  refine h (up^[i] ⟨x₀, hx₀⟩).1 ?_
  have := hpath (j - i - 1)
  rwa [show i + (j - i - 1 + 1) = j by omega, ← heq] at this

/-! ## Removing a node together with its children -/

/-- The nodes that go with `r`: itself and its children. -/
def Removed (parent : α → Option α) (r x : α) : Prop := x = r ∨ parent x = some r

instance [DecidableEq α] (parent : α → Option α) (r x : α) : Decidable (Removed parent r x) :=
  inferInstanceAs (Decidable (_ ∨ _))

/-- The parent function with the grandchildren of `r` handed to the parent of `r`. -/
def splice [DecidableEq α] (parent : α → Option α) (r x : α) : Option α :=
  if (parent x).bind parent = some r then parent r else parent x

section Splice

variable [DecidableEq α] {r : α}

/-- A spliced edge is a path of the original forest. -/
theorem splice_shortcut {x p : α} (h : splice parent r x = some p) :
    Relation.TransGen (Edge parent) x p := by
  unfold splice at h
  split at h
  · rename_i hr
    obtain ⟨c, hxc, hcr⟩ := Option.bind_eq_some_iff.mp hr
    exact .tail (.tail (.single hxc) hcr) h
  · exact .single h

/-- The new parent of a remaining node remains. -/
theorem Acyclic.not_removed_splice (h : Acyclic parent) {x p : α} (hx : ¬ Removed parent r x)
    (hp : splice parent r x = some p) : ¬ Removed parent r p := by
  unfold splice at hp
  split at hp
  · rintro (rfl | hr)
    · exact h _ (.single hp)
    · exact h _ (.tail (.single hp) hr)
  · rename_i hr
    rintro (rfl | hpr)
    · exact hx (.inr hp)
    · exact hr (by rw [hp]; exact hpr)

/-- **Splicing keeps the surviving ancestors of every remaining node, in order.** -/
theorem Ancestors.splice (h : Acyclic parent) {x : α} {l : List α} (hl : Ancestors parent x l)
    (hx : ¬ Removed parent r x) :
    Ancestors (Forest.splice parent r) x (l.filter fun y => ¬ Removed parent r y) := by
  induction hn : l.length using Nat.strong_induction_on generalizing x l with
  | _ n ih =>
  cases hl with
  | root hroot => exact .root (by simp [Forest.splice, hroot])
  | @step _ p l hp hl =>
    by_cases hpr : Removed parent r p
    · -- `p` is a child of `r`: both drop out, and the ancestors go on above `r`
      have hpr' : parent p = some r := hpr.resolve_left fun hpr => hx (.inr (hpr ▸ hp))
      have hspl : Forest.splice parent r x = parent r := if_pos (by rw [hp]; exact hpr')
      have hr : Removed parent r r := .inl rfl
      cases hl with
      | root hnone => rw [hpr'] at hnone; cases hnone
      | step hq hl =>
        rw [hpr'] at hq
        cases hq
        rw [List.filter_cons_of_neg (by simpa using hpr), List.filter_cons_of_neg (by simpa using hr)]
        cases hl with
        | root hroot => exact .root (by rw [hspl, hroot])
        | @step _ q l hq hl =>
          have hqr : ¬ Removed parent r q := h.not_removed_splice hx (by rw [hspl, hq])
          rw [List.filter_cons_of_pos (by simpa using hqr)]
          exact .step (by rw [hspl, hq]) (ih l.length (by simp at hn; omega) hl hqr rfl)
    · have hspl : Forest.splice parent r x = some p := by
        unfold Forest.splice
        rw [if_neg fun hr => hpr (.inr (by rwa [hp] at hr)), hp]
      rw [List.filter_cons_of_pos (by simpa using hpr)]
      exact .step hspl (ih l.length (by simp at hn; omega) hl hpr rfl)

end Splice

/-! ## Walks along a partial function -/

/-- The node a walk along `next` is at after `n` steps from `x`, if it gets that far. -/
def walk (next : α → Option α) (x : α) : ℕ → Option α
  | 0 => some x
  | n + 1 => (walk next x n).bind next

variable {next : α → Option α} {x : α}

@[simp] theorem walk_zero : walk next x 0 = some x := rfl

theorem walk_succ (n : ℕ) : walk next x (n + 1) = (walk next x n).bind next := rfl

/-- A walk that starts with a step is a step and then a walk. -/
theorem walk_succ' (n : ℕ) : walk next x (n + 1) = (next x).bind fun y => walk next y n := by
  induction n with
  | zero => cases h : next x <;> simp [walk, h]
  | succ n ih =>
    rw [walk_succ, ih]
    cases next x <;> rfl

theorem walk_add (m n : ℕ) :
    walk next x (m + n) = (walk next x m).bind fun y => walk next y n := by
  induction n with
  | zero => simp
  | succ n ih =>
    rw [← Nat.add_assoc, walk_succ, ih]
    cases walk next x m <;> rfl

/-- The walk comes back to a node it has been at. -/
def Revisits (next : α → Option α) (x : α) : Prop :=
  ∃ i j, i < j ∧ walk next x i = walk next x j ∧ (walk next x j).isSome

/-- A walk that comes back never stops. -/
theorem Revisits.forever (h : Revisits next x) (n : ℕ) : (walk next x n).isSome := by
  obtain ⟨i, j, hij, heq, hj⟩ := h
  obtain ⟨y, hy⟩ := Option.isSome_iff_exists.mp hj
  have hloop : walk next y (j - i) = some y := by
    have h := @walk_add _ next x i (j - i)
    rw [Nat.add_sub_cancel' hij.le, heq, hy] at h
    exact h.symm
  have hloops : ∀ k, walk next y (k * (j - i)) = some y := by
    intro k
    induction k with
    | zero => simp
    | succ k ih => rw [Nat.succ_mul, walk_add, ih]; exact hloop
  have hfar : walk next x (j + n * (j - i)) = some y := by
    rw [walk_add, hy]
    exact hloops n
  have hle : n ≤ j + n * (j - i) := by
    have : n * 1 ≤ n * (j - i) := Nat.mul_le_mul_left n (by omega)
    omega
  by_contra hnone
  rw [Option.not_isSome_iff_eq_none] at hnone
  obtain ⟨k, hk⟩ := Nat.exists_eq_add_of_le hle
  rw [hk, walk_add, hnone] at hfar
  exact absurd hfar (by simp)

/-- **A walk inside a finite set stops or comes back.** -/
theorem revisits_of_forever {s : List α} (hs : ∀ n y, walk next x n = some y → y ∈ s)
    (h : ∀ n, (walk next x n).isSome) : Revisits next x := by
  have hfin : Finite {y // y ∈ s} := s.finite_toSet.to_subtype
  obtain ⟨i, j, hij, heq⟩ := Finite.exists_ne_map_eq_of_infinite fun n : ℕ =>
    (⟨(walk next x n).get (h n), hs n _ (Option.some_get _).symm⟩ : {y // y ∈ s})
  have hval : walk next x i = walk next x j := by
    rw [← Option.some_get (h i), ← Option.some_get (h j)]
    exact congrArg some (congrArg Subtype.val heq)
  rcases Nat.lt_or_gt_of_ne hij with hlt | hgt
  · exact ⟨i, j, hlt, hval, h j⟩
  · exact ⟨j, i, hgt, hval.symm, h i⟩

/-- A walk upwards is a path. -/
theorem transGen_of_walk {n : ℕ} {y z : α} (h : walk parent y (n + 1) = some z) :
    Relation.TransGen (Edge parent) y z := by
  induction n generalizing z with
  | zero => exact .single (by simpa [walk, Edge] using h)
  | succ n ih =>
    rw [walk_succ] at h
    obtain ⟨w, hw, hz⟩ := Option.bind_eq_some_iff.mp h
    exact .tail (ih hw) hz

/-- A walk that stops has met the ancestors. -/
theorem exists_ancestors_of_walk {n : ℕ} (h : walk parent x n = none) :
    ∃ l, Ancestors parent x l := by
  induction n generalizing x with
  | zero => cases h
  | succ n ih =>
    rw [walk_succ'] at h
    cases hp : parent x with
    | none => exact ⟨[], .root hp⟩
    | some p =>
      rw [hp] at h
      obtain ⟨l, hl⟩ := ih h
      exact ⟨p :: l, .step hp hl⟩

/-- A node has one list of ancestors. -/
theorem Ancestors.unique {l l' : List α} (hl : Ancestors parent x l) (hl' : Ancestors parent x l') :
    l = l' := by
  induction hl generalizing l' with
  | root hroot =>
    cases hl' with
    | root => rfl
    | step hp => rw [hroot] at hp; cases hp
  | step hp _ ih =>
    cases hl' with
    | root hroot => rw [hp] at hroot; cases hroot
    | step hp' hl' =>
      rw [hp] at hp'
      cases hp'
      rw [ih hl']

/-- **In a finite forest every node has its list of ancestors.** -/
theorem Acyclic.exists_ancestors (h : Acyclic parent) {s : List α}
    (hs : ∀ x p, parent x = some p → p ∈ s) (x : α) : ∃ l, Ancestors parent x l := by
  by_contra hnone
  have hforever : ∀ n, (walk parent x n).isSome := fun n =>
    Option.isSome_iff_ne_none.mpr fun hn => hnone (exists_ancestors_of_walk hn)
  have hmem : ∀ n y, walk parent x n = some y → y ∈ x :: s := by
    intro n y hy
    cases n with
    | zero =>
      cases hy
      exact List.mem_cons_self
    | succ n =>
      rw [walk_succ] at hy
      obtain ⟨w, -, hw⟩ := Option.bind_eq_some_iff.mp hy
      exact List.mem_cons_of_mem x (hs w y hw)
  obtain ⟨i, j, hij, heq, hj⟩ := revisits_of_forever hmem hforever
  obtain ⟨y, hy⟩ := Option.isSome_iff_exists.mp hj
  -- the walk from the node it comes back to is a cycle
  have hsplit := @walk_add _ parent x i (j - i)
  rw [Nat.add_sub_cancel' hij.le, heq, hy, show j - i = j - i - 1 + 1 by omega] at hsplit
  exact h y (transGen_of_walk hsplit.symm)

/-- A walk whose steps go down an acyclic forest does not come back. -/
theorem Acyclic.not_revisits (h : Acyclic parent) (hdown : ∀ y z, next y = some z → parent z = some y) :
    ¬ Revisits next x := by
  rintro ⟨i, j, hij, heq, hj⟩
  obtain ⟨y, hy⟩ := Option.isSome_iff_exists.mp hj
  have hpath : ∀ n z, walk next y (n + 1) = some z → Relation.TransGen (Edge parent) z y := by
    intro n
    induction n with
    | zero => intro z hz; exact .single (hdown y z (by simpa [walk] using hz))
    | succ n ih =>
      intro z hz
      rw [walk_succ] at hz
      obtain ⟨w, hw, hz⟩ := Option.bind_eq_some_iff.mp hz
      exact .head (hdown w z hz) (ih w hw)
  refine h y (hpath (j - i - 1) y ?_)
  have hsplit := @walk_add _ next x i (j - i)
  rw [Nat.add_sub_cancel' hij.le, heq, hy] at hsplit
  rw [show j - i - 1 + 1 = j - i by omega]
  exact hsplit.symm

/-! ## Reaching a node -/

section Reaching

variable {y : α}

theorem reflTransGen_iff_walk :
    Relation.ReflTransGen (Edge parent) x y ↔ ∃ n, walk parent x n = some y := by
  constructor
  · intro h
    induction h with
    | refl => exact ⟨0, rfl⟩
    | tail _ hyz ih =>
      obtain ⟨n, hn⟩ := ih
      exact ⟨n + 1, by rw [walk_succ, hn]; exact hyz⟩
  · rintro ⟨n, hn⟩
    cases n with
    | zero =>
      cases hn
      exact .refl
    | succ n => exact (transGen_of_walk hn).to_reflTransGen

/-- A walk may be as long as there are nodes with a next one, and need not be longer. -/
theorem exists_walk_le {s : List α} (hs : ∀ x p, next x = some p → x ∈ s) {n : ℕ}
    (h : walk next x n = some y) : ∃ m, m ≤ s.length ∧ walk next x m = some y := by
  classical
  induction n using Nat.strong_induction_on with
  | _ n ih =>
    by_cases hn : n ≤ s.length
    · exact ⟨n, hn, h⟩
    · -- one of the nodes before the end comes twice, and the steps in between may be left out
      have hstep : ∀ i < n, ∃ z ∈ s, walk next x i = some z := by
        intro i hi
        have hsplit := @walk_add _ next x i (n - i)
        rw [Nat.add_sub_cancel' hi.le, h] at hsplit
        obtain ⟨z, hz, hrest⟩ := Option.bind_eq_some_iff.mp hsplit.symm
        rw [show n - i = n - i - 1 + 1 by omega, walk_succ'] at hrest
        obtain ⟨w, hw, -⟩ := Option.bind_eq_some_iff.mp hrest
        exact ⟨z, hs z w hw, hz⟩
      obtain ⟨i, hi, j, hj, hne, heq⟩ := Finset.exists_ne_map_eq_of_card_lt_of_maps_to
        (s := Finset.range n) (t := s.toFinset) (f := fun i => (walk next x i).getD x)
        (by rw [Finset.card_range]; exact lt_of_le_of_lt s.toFinset_card_le (by omega))
        (by
          intro i hi
          obtain ⟨z, hz, hwalk⟩ := hstep i (Finset.mem_range.mp hi)
          simpa [hwalk] using hz)
      wlog hij : i < j generalizing i j
      · exact this j hj i hi hne.symm heq.symm (by omega)
      have hi' := Finset.mem_range.mp hi
      have hj' := Finset.mem_range.mp hj
      obtain ⟨z, -, hz⟩ := hstep i hi'
      obtain ⟨z', -, hz'⟩ := hstep j hj'
      rw [hz, hz', Option.getD_some, Option.getD_some] at heq
      subst heq
      refine ih (i + (n - j)) (by omega) ?_
      have hsplit := @walk_add _ next x j (n - j)
      rw [Nat.add_sub_cancel' hj'.le, h, hz'] at hsplit
      rw [walk_add, hz]
      exact hsplit.symm

/-- `y` is met on the way up from `x`, after a number of steps at most. -/
def reaches [DecidableEq α] (parent : α → Option α) (bound : ℕ) (x y : α) : Bool :=
  (List.range (bound + 1)).any fun n => walk parent x n = some y

theorem reaches_iff [DecidableEq α] {s : List α} (hs : ∀ x p, parent x = some p → x ∈ s) :
    reaches parent s.length x y = true ↔ Relation.ReflTransGen (Edge parent) x y := by
  rw [reflTransGen_iff_walk, reaches, List.any_eq_true]
  constructor
  · rintro ⟨n, -, hn⟩
    exact ⟨n, of_decide_eq_true hn⟩
  · rintro ⟨n, hn⟩
    obtain ⟨m, hm, hwalk⟩ := exists_walk_le hs hn
    exact ⟨m, List.mem_range.mpr (by omega), decide_eq_true hwalk⟩

end Reaching

/-- Nothing is below a node that is no one's parent. -/
theorem not_below_of_childless {y : α} (h : ∀ z, parent z ≠ some y) :
    ¬ Relation.TransGen (Edge parent) x y := by
  intro hpath
  obtain ⟨z, -, hz⟩ := Relation.TransGen.tail'_iff.mp hpath
  exact h z hz

/-! ## Moving a node -/

section Move

variable [DecidableEq α] {p y z : α}

/-- A path after `x` was moved below `p` is an old one, or leads from below `x` to above `p`. -/
theorem path_of_move (hx : x ≠ p) (hp : ¬ Relation.TransGen (Edge parent) p x)
    (h : Relation.TransGen (Edge (Function.update parent x (some p))) y z) :
    Relation.TransGen (Edge parent) y z ∨
      Relation.ReflTransGen (Edge parent) y x ∧ Relation.ReflTransGen (Edge parent) p z := by
  have hedge {u v : α} (huv : Edge (Function.update parent x (some p)) u v) :
      u = x ∧ v = p ∨ u ≠ x ∧ Edge parent u v := by
    by_cases hu : u = x
    · subst hu
      rw [Edge, Function.update_self, Option.some.injEq] at huv
      exact Or.inl ⟨rfl, huv.symm⟩
    · rw [Edge, Function.update_of_ne hu] at huv
      exact Or.inr ⟨hu, huv⟩
  induction h with
  | single hyz =>
    rcases hedge hyz with ⟨rfl, rfl⟩ | ⟨-, hyz⟩
    · exact Or.inr ⟨.refl, .refl⟩
    · exact Or.inl (.single hyz)
  | tail _ hyz ih =>
    rcases hedge hyz with ⟨rfl, rfl⟩ | ⟨-, hyz⟩
    · rcases ih with hold | ⟨-, hback⟩
      · exact Or.inr ⟨hold.to_reflTransGen, .refl⟩
      · rcases Relation.reflTransGen_iff_eq_or_transGen.mp hback with heq | hback
        · exact absurd heq hx
        · exact absurd hback hp
    · rcases ih with hold | ⟨hdown, hup⟩
      · exact Or.inl (hold.tail hyz)
      · exact Or.inr ⟨hdown, hup.tail hyz⟩

/-- **A node may be moved below any node that is not below it.** -/
theorem Acyclic.move (h : Acyclic parent) (hx : x ≠ p)
    (hp : ¬ Relation.TransGen (Edge parent) p x) : Acyclic (Function.update parent x (some p)) := by
  intro y hy
  rcases path_of_move hx hp hy with hold | ⟨hdown, hup⟩
  · exact h y hold
  · rcases Relation.reflTransGen_iff_eq_or_transGen.mp (hup.trans hdown) with heq | hback
    · exact hx heq
    · exact hp hback

/-- **A node may be given any parent that is not below it**, or none. -/
theorem Acyclic.reparent (h : Acyclic parent) {q : Option α}
    (hof : ∀ y p, parent' y = some p → y = x ∧ q = some p ∨ y ≠ x ∧ parent y = some p)
    (hq : ∀ p, q = some p → p ≠ x ∧ ¬ Relation.TransGen (Edge parent) p x) : Acyclic parent' := by
  cases q with
  | none =>
    refine h.of_shortcut fun y p hy => .single ?_
    rcases hof y p hy with ⟨-, hnone⟩ | ⟨-, hy⟩
    · cases hnone
    · exact hy
  | some q =>
    obtain ⟨hne, hbelow⟩ := hq q rfl
    refine (h.move hne.symm hbelow).of_shortcut fun y p hy => .single ?_
    rcases hof y p hy with ⟨rfl, hp⟩ | ⟨hne', hy⟩
    · rw [Edge, Function.update_self, hp]
    · rw [Edge, Function.update_of_ne hne', hy]

end Move

/-- A function with some of the edges of an acyclic function is acyclic. -/
theorem Acyclic.of_sub (h : Acyclic parent) (hsub : ∀ x p, parent' x = some p → parent x = some p) :
    Acyclic parent' :=
  h.of_shortcut fun x p hp => .single (hsub x p hp)

/-- Two nodes above the same node are above each other. -/
theorem above_total {y z : α} (hy : Relation.ReflTransGen (Edge parent) x y)
    (hz : Relation.ReflTransGen (Edge parent) x z) :
    Relation.ReflTransGen (Edge parent) y z ∨ Relation.ReflTransGen (Edge parent) z y :=
  Relation.ReflTransGen.total_of_right_unique
    (fun _ _ _ h₁ h₂ => Option.some.inj (h₁.symm.trans h₂)) hy hz

/-- **What is below a node is not below its siblings.** -/
theorem Acyclic.eq_of_siblings (h : Acyclic parent) {c c' p : α} (hc : parent c = some p)
    (hc' : parent c' = some p) (hx : Relation.ReflTransGen (Edge parent) x c)
    (hx' : Relation.ReflTransGen (Edge parent) x c') : c = c' := by
  have hup {u v : α} (hu : parent u = some p) (hv : parent v = some p)
      (huv : Relation.ReflTransGen (Edge parent) u v) : u = v := by
    rcases Relation.ReflTransGen.cases_head huv with rfl | ⟨w, huw, hwv⟩
    · rfl
    · obtain rfl : w = p := Option.some.inj (huw.symm.trans hu)
      exact absurd (Relation.TransGen.tail' hwv hv) (h w)
  rcases above_total hx hx' with hle | hle
  · exact hup hc hc' hle
  · exact (hup hc' hc hle).symm

/-- **What comes first has no cycle.** A function on the members of a list that leads to an earlier
place, or out of the list, is acyclic. -/
theorem acyclic_of_before [DecidableEq α] {s : List α}
    (hback : ∀ x p, parent x = some p → p ∈ s → s.idxOf p < s.idxOf x)
    (hs : ∀ x p, parent x = some p → x ∈ s) : Acyclic parent := by
  have hlt : ∀ {x y}, Relation.TransGen (Edge parent) x y → y ∈ s → s.idxOf y < s.idxOf x := by
    intro x y hpath hy
    induction hpath using Relation.TransGen.head_induction_on with
    | single hedge => exact hback _ _ hedge hy
    | head hedge hpath ih =>
      obtain ⟨z, hstep, -⟩ := Relation.TransGen.head'_iff.mp hpath
      exact ih.trans (hback _ _ hedge (hs _ _ hstep))
  intro x hcycle
  obtain ⟨z, hstep, -⟩ := Relation.TransGen.head'_iff.mp hcycle
  exact lt_irrefl _ (hlt hcycle (hs _ _ hstep))

/-- **Going down ends**, if only finitely many nodes have parents. -/
theorem Acyclic.wellFounded_down (h : Acyclic parent) {s : List α}
    (hs : ∀ x p, parent x = some p → x ∈ s) : WellFounded fun x y => parent x = some y := by
  classical
  -- the nodes below a node are fewer than those below its parent
  let rank : α → ℕ := fun y => (s.toFinset.filter fun x =>
    Relation.TransGen (Edge parent) x y).card
  refine Subrelation.wf (r := InvImage (· < ·) rank) ?_ (InvImage.wf rank wellFounded_lt)
  intro x y hxy
  apply Finset.card_lt_card
  refine (Finset.ssubset_iff_of_subset fun z hz => ?_).mpr ⟨x, ?_, ?_⟩
  · rw [Finset.mem_filter] at hz ⊢
    exact ⟨hz.1, hz.2.tail hxy⟩
  · rw [Finset.mem_filter, List.mem_toFinset]
    exact ⟨hs x y hxy, .single hxy⟩
  · rw [Finset.mem_filter]
    exact fun hx => h x hx.2

end Forest
