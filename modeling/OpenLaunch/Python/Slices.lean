import Mathlib.Data.Int.Notation
import Mathlib.Data.List.Infix

/-! # Slices from both ends

`xs[:n]` is `xs.take n`. `xs[-n:]` is the last `n` elements, but for `n = 0`: since `-0` is `0`, that
is everything. A selection of at most `n` elements is a prefix, a suffix, or a prefix and a suffix
that do not overlap, with a *gap* between them. -/

namespace Python

universe u

variable {α : Type u}

/-- `xs[-n:]`. -/
def lastSlice (n : ℕ) (xs : List α) : List α := if n = 0 then xs else xs.drop (xs.length - n)

/-- `xs[:k]`; a negative `k` leaves out the last `-k` elements. -/
def sliceUpTo (k : ℤ) (xs : List α) : List α :=
  if 0 ≤ k then xs.take k.toNat else xs.take (xs.length - (-k).toNat)

/-- Which end of a sequence a selection keeps. -/
inductive Part
  | start
  | «end»
  | middletruncate
  deriving DecidableEq

/-- A selection of at most `n` elements, from one end or from both. -/
def Selects (gap : List α) (n : ℕ) : Part → List α → List α → Prop
  | .start, xs, ys => ys <+: xs ∧ ys.length ≤ n
  | .end, xs, ys => ys <:+ xs ∧ ys.length ≤ n
  | .middletruncate, xs, ys => (ys <+: xs ∧ ys.length ≤ n) ∨
      ∃ as mid bs, xs = as ++ mid ++ bs ∧ ys = as ++ gap ++ bs ∧ as.length + bs.length ≤ n

variable {gap xs ys : List α} {k l n : ℕ} {part : Part}

theorem sliceUpTo_of_nonneg {k : ℤ} (hk : 0 ≤ k) (xs : List α) : sliceUpTo k xs = xs.take k.toNat :=
  if_pos hk

theorem lastSlice_zero (xs : List α) : lastSlice 0 xs = xs := if_pos rfl

theorem lastSlice_pos (hn : n ≠ 0) (xs : List α) : lastSlice n xs = xs.drop (xs.length - n) :=
  if_neg hn

theorem length_lastSlice (hn : n ≠ 0) (xs : List α) :
    (lastSlice n xs).length = min n xs.length := by
  rw [lastSlice_pos hn, List.length_drop]
  omega

theorem selects_start (n : ℕ) (xs : List α) : Selects gap n .start xs (xs.take n) :=
  ⟨List.take_prefix n xs, List.length_take_le n xs⟩

/-- The slice from the end is one of at most `n` elements unless `n` is zero. -/
theorem selects_end_iff : Selects gap n .end xs (lastSlice n xs) ↔ n ≠ 0 ∨ xs = [] := by
  constructor
  · rintro ⟨-, hlength⟩
    by_cases hn : n = 0
    · subst hn
      rw [lastSlice_zero] at hlength
      exact .inr (List.eq_nil_of_length_eq_zero (Nat.le_zero.mp hlength))
    · exact .inl hn
  · intro h
    by_cases hn : n = 0
    · have hnil : xs = [] := h.resolve_left (not_not_intro hn)
      subst hn hnil
      exact ⟨List.suffix_refl [], Nat.le_refl 0⟩
    · refine ⟨?_, ?_⟩
      · rw [lastSlice_pos hn]
        exact List.drop_suffix (xs.length - n) xs
      · rw [length_lastSlice hn]
        exact Nat.min_le_left n xs.length

/-- A whole input that is short enough. -/
theorem selects_whole (h : xs.length ≤ n) : Selects gap n .middletruncate xs xs :=
  .inl ⟨List.prefix_refl xs, h⟩

/-- The two halves of a longer input. The slice from the end may not be of zero elements: it would
be everything. -/
theorem selects_halves_iff (hlong : n < xs.length) (hkl : k + l = n) :
    Selects gap n .middletruncate xs (xs.take k ++ gap ++ lastSlice l xs) ↔ l ≠ 0 := by
  constructor
  · rintro h rfl
    rw [lastSlice_zero] at h
    rcases h with ⟨-, hlength⟩ | ⟨as, mid, bs, -, hparts, hlength⟩
    · simp only [List.length_append, List.length_take] at hlength
      omega
    · -- The halves would be longer than the input.
      have hsame := congrArg List.length hparts
      simp only [List.length_append, List.length_take] at hsame
      omega
  · intro hl
    rw [lastSlice_pos hl]
    refine .inr ⟨xs.take k, (xs.drop k).take (xs.length - l - k), xs.drop (xs.length - l), ?_, rfl,
      ?_⟩
    · have hmid : xs.drop (xs.length - l) = (xs.drop k).drop (xs.length - l - k) := by
        rw [List.drop_drop]
        congr 1
        omega
      rw [hmid, List.append_assoc, List.take_append_drop, List.take_append_drop]
    · rw [List.length_take, List.length_drop]
      omega

end Python
