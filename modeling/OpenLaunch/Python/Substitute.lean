import Mathlib.Data.List.Basic
import Mathlib.Data.Nat.Notation

/-! # Replacing the matches of a pattern

`re.sub` for a pattern that matches no empty text. A pattern is given by what is left of a text after
the match at its start; it may look at the character before, as `\b` does. -/

namespace Python

universe u

variable {α : Type u}

/-- The text with each match replaced, where some characters of a match are still passed over and
`prev` is the character before. -/
def subFrom (found : Option α → List α → Option (List α)) (r : List α) :
    ℕ → Option α → List α → List α
  | _, _, [] => []
  | skip + 1, _, c :: s => subFrom found r skip (some c) s
  | 0, prev, c :: s =>
    match found prev (c :: s) with
    | some rest => r ++ subFrom found r (s.length - rest.length) (some c) s
    | none => c :: subFrom found r 0 (some c) s

/-- `re.sub(pattern, r, s)`. -/
def sub (found : Option α → List α → Option (List α)) (r s : List α) : List α :=
  subFrom found r 0 none s

variable {found : Option α → List α → Option (List α)} {r : List α} {prev : Option α}

theorem subFrom_skip (t s : List α) (prev : Option α) :
    subFrom found r t.length prev (t ++ s) = subFrom found r 0 (t.getLast?.or prev) s := by
  induction t generalizing prev with
  | nil => rfl
  | cons c t ih =>
    have hlast : (c :: t).getLast?.or prev = t.getLast?.or (some c) := by
      rw [List.getLast?_cons]
      cases t.getLast? with
      | none => rfl
      | some d => rfl
    rw [hlast, ← ih]
    rfl

/-- A match is replaced, and what is left is looked at next. -/
theorem subFrom_match {c : α} {t s : List α} (h : found prev (c :: (t ++ s)) = some s) :
    subFrom found r 0 prev (c :: (t ++ s)) = r ++ subFrom found r 0 (t.getLast?.or (some c)) s := by
  have hlength : (t ++ s).length - s.length = t.length := by
    rw [List.length_append]
    omega
  simp only [subFrom, h, hlength, subFrom_skip]

theorem subFrom_cons_of_none {c : α} {s : List α} (h : found prev (c :: s) = none) :
    subFrom found r 0 prev (c :: s) = c :: subFrom found r 0 (some c) s := by
  simp only [subFrom, h]

end Python
