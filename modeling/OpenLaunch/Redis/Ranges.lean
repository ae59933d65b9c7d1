import Mathlib.Data.Int.Notation
import Mathlib.Data.List.Basic

/-! # Ranges of Redis lists and sorted sets

`LRANGE` and `ZRANGE` take the positions of the first and of the last element. A negative position
counts from the end, and a position outside of the sequence is no error. -/

namespace OpenLaunch.Redis

universe u

variable {α : Type u} {m : ℕ} {start stop : ℤ}

/-- The position that `i` means in a sequence of `n` elements; it may lie outside of it. -/
def position (n : ℕ) (i : ℤ) : ℤ := if i < 0 then i + n else i

/-- The elements from `start` to `stop`, both included. -/
def rangeOf (xs : List α) (start stop : ℤ) : List α :=
  (xs.take (position xs.length stop + 1).toNat).drop (position xs.length start).toNat

/-- The elements from `start` on, up to `stop` if it is given. -/
def rangeFrom (xs : List α) (start : ℤ) : Option ℤ → List α
  | none => rangeOf xs start (-1)
  | some stop => rangeOf xs start stop

example : rangeOf ["a", "b", "c"] 1 (-1) = ["b", "c"] := by decide

theorem position_of_nonneg {i : ℤ} (hi : 0 ≤ i) (n : ℕ) : position n i = i :=
  if_neg (Int.not_lt.mpr hi)

/-- A range from a position that is not negative. -/
theorem rangeOf_eq (hstart : 0 ≤ start) (xs : List α) (stop : ℤ) :
    rangeOf xs start stop =
      (xs.drop start.toNat).take ((position xs.length stop + 1).toNat - start.toNat) := by
  rw [rangeOf, position_of_nonneg hstart, List.drop_take]

/-- All elements from a position on. -/
theorem rangeFrom_none (hstart : 0 ≤ start) (xs : List α) :
    rangeFrom xs start none = xs.drop start.toNat := by
  have hlast : (position xs.length (-1) + 1).toNat = xs.length := by
    rw [position, if_pos (by decide)]
    omega
  rw [rangeFrom, rangeOf_eq hstart, hlast]
  exact List.take_of_length_le (Nat.le_of_eq List.length_drop)

/-- An open range that is cut after `m + 1` elements. -/
theorem rangeOf_add (hstart : 0 ≤ start) (xs : List α) (m : ℕ) :
    rangeOf xs start (start + m) = (rangeFrom xs start none).take (m + 1) := by
  have hend : 0 ≤ start + m := by omega
  have hcount : (start + m + 1).toNat - start.toNat = m + 1 := by omega
  rw [rangeFrom_none hstart, rangeOf_eq hstart, position_of_nonneg hend, hcount]

/-- A range up to a position that is not negative, cut after `m + 1` elements. -/
theorem rangeOf_min (hstart : 0 ≤ start) (hstop : 0 ≤ stop) (xs : List α) (m : ℕ) :
    rangeOf xs start (min stop (start + m)) = (rangeOf xs start stop).take (m + 1) := by
  have hend : 0 ≤ min stop (start + m) := by omega
  have hcount : (min stop (start + m) + 1).toNat - start.toNat =
      min (m + 1) ((stop + 1).toNat - start.toNat) := by
    omega
  rw [rangeOf_eq hstart, rangeOf_eq hstart, position_of_nonneg hend, position_of_nonneg hstop,
    List.take_take, hcount]

end OpenLaunch.Redis
