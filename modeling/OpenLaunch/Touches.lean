import Mathlib.Data.List.Basic
import Mathlib.Tactic.Cases
import Mathlib.Tactic.Tauto

/-! # What is announced of one element

A set is changed by a sequence of steps, each of which announces what it adds and what it removes.
Seen from one element, a step is a `Touch`. The announcements are exact if the element is announced
as added where it is in the set at the end and was not at the start, and announced as removed where
it was in the set and is not any more. `exact_iff_settled` says for which sequences they are. -/

/-- What a step does to one element. -/
inductive Touch
  /-- The step has nothing to do with the element. -/
  | ignore
  /-- A new set that has the element. It is announced where the element was not in the set. -/
  | insert
  /-- A new set that does not have the element. It is announced where the element was in the set. -/
  | erase
  /-- The element is added, which is announced. -/
  | add
  /-- The element is removed, which is announced. -/
  | remove
  /-- The element is not added, but announced as added. -/
  | reject
  deriving DecidableEq

namespace Touch

/-- Whether the element is in the set after a step. -/
def after : Touch → Bool → Bool
  | ignore, b | reject, b => b
  | insert, _ | add, _ => true
  | erase, _ | remove, _ => false

/-- Whether the element is announced as added. -/
def addsTo : Touch → Bool → Bool
  | add, _ | reject, _ => true
  | insert, b => !b
  | ignore, _ | erase, _ | remove, _ => false

/-- Whether the element is announced as removed. -/
def removesFrom : Touch → Bool → Bool
  | remove, _ => true
  | erase, b => b
  | ignore, _ | insert, _ | add, _ | reject, _ => false

/-- The step puts the element in the set. -/
def PutsIn (t : Touch) : Prop := t = insert ∨ t = add

/-- The step takes the element out of the set. -/
def TakesOut (t : Touch) : Prop := t = erase ∨ t = remove

instance (t : Touch) : Decidable t.PutsIn := inferInstanceAs (Decidable (_ ∨ _))

instance (t : Touch) : Decidable t.TakesOut := inferInstanceAs (Decidable (_ ∨ _))

/-! ## Sequences -/

/-- Whether the element is in the set after all steps. -/
def final (ts : List Touch) (b : Bool) : Bool := ts.foldl (fun b t => t.after b) b

/-- Whether a step announces the element as added. -/
def added : List Touch → Bool → Bool
  | [], _ => false
  | t :: ts, b => t.addsTo b || added ts (t.after b)

/-- Whether a step announces the element as removed. -/
def removed : List Touch → Bool → Bool
  | [], _ => false
  | t :: ts, b => t.removesFrom b || removed ts (t.after b)

/-- **The announcements are exact.** -/
def Exact (ts : List Touch) (b : Bool) : Prop :=
  added ts b = (!b && final ts b) ∧ removed ts b = (b && !final ts b)

/-- **The element is settled.** One that is in the set is not added, and is not put in again after
it has been taken out. One that is not in the set is not removed, and is not taken out again after
it has been put in. -/
def Settled (ts : List Touch) : Bool → Prop
  | true => add ∉ ts ∧ reject ∉ ts ∧ ts.Pairwise fun t t' => t.TakesOut → ¬ t'.PutsIn
  | false => remove ∉ ts ∧ reject ∉ ts ∧ ts.Pairwise fun t t' => t.PutsIn → ¬ t'.TakesOut

instance (ts : List Touch) (b : Bool) : Decidable (Settled ts b) := by
  cases b <;> exact inferInstanceAs (Decidable (_ ∧ _))

variable {t : Touch} {ts : List Touch}

theorem final_cons (t : Touch) (ts : List Touch) (b : Bool) :
    final (t :: ts) b = final ts (t.after b) := rfl

theorem Settled.reject_not_mem {b : Bool} (h : Settled ts b) : reject ∉ ts := by
  cases b with
  | true => exact h.2.1
  | false => exact h.2.1

/-- An element that is out and never put in or announced stays out. -/
theorem added_false_iff :
    added ts false = false ↔ reject ∉ ts ∧ ∀ t ∈ ts, ¬ t.PutsIn := by
  induction ts with
  | nil => simp [added]
  | cons t ts ih =>
    cases t <;> simp [added, addsTo, after, PutsIn, ih]

theorem final_false (h : ∀ t ∈ ts, ¬ t.PutsIn) : final ts false = false := by
  induction ts with
  | nil => rfl
  | cons t ts ih =>
    rw [List.forall_mem_cons] at h
    cases t with
    | insert | add => exact absurd h.1 (by decide)
    | ignore | erase | remove | reject => exact ih h.2

/-- An element that is in and never taken out stays in. -/
theorem removed_true_iff : removed ts true = false ↔ ∀ t ∈ ts, ¬ t.TakesOut := by
  induction ts with
  | nil => simp [removed]
  | cons t ts ih =>
    cases t <;> simp [removed, removesFrom, after, TakesOut, ih]

theorem final_true (h : ∀ t ∈ ts, ¬ t.TakesOut) : final ts true = true := by
  induction ts with
  | nil => rfl
  | cons t ts ih =>
    rw [List.forall_mem_cons] at h
    cases t with
    | erase | remove => exact absurd h.1 (by decide)
    | ignore | insert | add | reject => exact ih h.2

/-- A step that leaves the element where it is, without an announcement. -/
theorem exact_cons_of_quiet {b : Bool} (hafter : t.after b = b) (hadds : t.addsTo b = false)
    (hremoves : t.removesFrom b = false) : Exact (t :: ts) b ↔ Exact ts b := by
  rw [Exact, Exact, added, removed, final_cons, hafter, hadds, hremoves, Bool.false_or,
    Bool.false_or]

/-- An element that is announced as removed is out for good. -/
theorem exact_cons_of_leaves (hafter : t.after true = false) (hadds : t.addsTo true = false)
    (hremoves : t.removesFrom true = true) :
    Exact (t :: ts) true ↔ reject ∉ ts ∧ ∀ t ∈ ts, ¬ t.PutsIn := by
  rw [Exact, added, removed, final_cons, hafter, hadds, hremoves, Bool.false_or, Bool.true_or,
    ← added_false_iff]
  refine ⟨fun h => h.1, fun h => ⟨h, ?_⟩⟩
  rw [final_false (added_false_iff.mp h).2]
  rfl

/-- An element that is announced as added is in for good. -/
theorem exact_cons_of_enters (hafter : t.after false = true) (hadds : t.addsTo false = true)
    (hremoves : t.removesFrom false = false) :
    Exact (t :: ts) false ↔ ∀ t ∈ ts, ¬ t.TakesOut := by
  rw [Exact, added, removed, final_cons, hafter, hadds, hremoves, Bool.true_or, Bool.false_or,
    ← removed_true_iff]
  refine ⟨fun h => h.2, fun h => ⟨?_, h⟩⟩
  rw [final_true (removed_true_iff.mp h)]
  rfl

/-- Taken out at the start, the element is settled if it is never put in. -/
theorem settled_cons_true (ht : t.TakesOut) :
    Settled (t :: ts) true ↔ reject ∉ ts ∧ ∀ t ∈ ts, ¬ t.PutsIn := by
  have hne : add ≠ t ∧ reject ≠ t := by
    constructor <;> rintro rfl <;> revert ht <;> decide
  simp only [Settled, List.mem_cons, not_or, List.pairwise_cons]
  constructor
  · rintro ⟨-, ⟨-, hreject⟩, hout, -⟩
    exact ⟨hreject, fun t' ht' => hout t' ht' ht⟩
  · rintro ⟨hreject, hout⟩
    exact ⟨⟨hne.1, fun h => hout _ h (.inr rfl)⟩, ⟨hne.2, hreject⟩, fun t' ht' _ => hout t' ht',
      List.pairwise_of_forall_mem_list fun _ _ t' ht' _ => hout t' ht'⟩

/-- Put in at the start, the element is settled if it is never taken out. -/
theorem settled_cons_false (ht : t.PutsIn) (hreject : reject ∉ ts) :
    Settled (t :: ts) false ↔ ∀ t ∈ ts, ¬ t.TakesOut := by
  have hne : remove ≠ t ∧ reject ≠ t := by
    constructor <;> rintro rfl <;> revert ht <;> decide
  simp only [Settled, List.mem_cons, not_or, List.pairwise_cons]
  constructor
  · rintro ⟨-, -, hin, -⟩
    exact fun t' ht' => hin t' ht' ht
  · intro hin
    exact ⟨⟨hne.1, fun h => hin _ h (.inr rfl)⟩, ⟨hne.2, hreject⟩, fun t' ht' _ => hin t' ht',
      List.pairwise_of_forall_mem_list fun _ _ t' ht' _ => hin t' ht'⟩

/-- **Announcements are exact where the element is settled.** An element that is rejected is never
put in. -/
theorem exact_iff_settled (hreject : reject ∈ ts → ∀ t ∈ ts, ¬ t.PutsIn) {b : Bool} :
    Exact ts b ↔ Settled ts b := by
  induction ts with
  | nil => cases b <;> simp [Exact, Settled, added, removed, final]
  | cons t ts ih =>
    have ih := ih fun h t' ht' => hreject (List.mem_cons_of_mem _ h) t' (List.mem_cons_of_mem _ ht')
    cases b with
    | true =>
      cases t with
      | ignore | insert =>
        rw [exact_cons_of_quiet rfl rfl rfl, ih]
        simp [Settled, TakesOut]
      | add | reject => simp [Exact, Settled, added, addsTo]
      | erase | remove =>
        rw [exact_cons_of_leaves rfl rfl rfl, settled_cons_true (by decide)]
    | false =>
      cases t with
      | ignore | erase =>
        rw [exact_cons_of_quiet rfl rfl rfl, ih]
        simp [Settled, PutsIn]
      | remove => simp [Exact, Settled, removed, removesFrom]
      | insert | add =>
        -- what is put in is not rejected
        have hnot : reject ∉ ts := fun h =>
          hreject (List.mem_cons_of_mem _ h) _ List.mem_cons_self (by decide)
        rw [exact_cons_of_enters rfl rfl rfl, settled_cons_false (by decide) hnot]
      | reject =>
        have hout := final_false fun t ht =>
          hreject List.mem_cons_self t (List.mem_cons_of_mem _ ht)
        simp [Exact, Settled, added, addsTo, final_cons, after, hout]

end Touch
