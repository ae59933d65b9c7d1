import Mathlib.Data.List.Basic

/-! # Lines of a cut sequence

`splitLines` cuts a sequence at a separator, as `bytes.split` does: into the lines that a separator
ends, and the rest after the last separator. When the sequence itself comes in chunks, `cutLines`
keeps for each line the fragments in which it came. The lines are the same however the chunks are
cut. -/

namespace Python

universe u

variable {α : Type u} [DecidableEq α]

/-- Items put before the first line, or before the rest if there is no line. -/
def prependLine (as : List α) : List (List α) × List α → List (List α) × List α
  | ([], rest) => ([], as ++ rest)
  | (line :: lines, rest) => ((as ++ line) :: lines, rest)

/-- The lines that a separator ends, without it, and the rest. -/
def splitLines (sep : α) : List α → List (List α) × List α
  | [] => ([], [])
  | a :: as =>
    if a = sep then ([] :: (splitLines sep as).1, (splitLines sep as).2)
    else prependLine [a] (splitLines sep as)

/-- The lines of a chunk, given the fragments of the line before it. -/
def cutChunk (sep : α) (cut : List (List (List α)) × List (List α)) (chunk : List α) :
    List (List (List α)) × List (List α) :=
  match splitLines sep chunk with
  | ([], rest) => (cut.1, cut.2 ++ [rest])
  | (line :: lines, rest) => (cut.1 ++ (cut.2 ++ [line]) :: lines.map ([·]), [rest])

/-- The fragments of each line of some chunks, and those of the rest. -/
def cutLines (sep : α) (chunks : List (List α)) : List (List (List α)) × List (List α) :=
  chunks.foldl (cutChunk sep) ([], [])

variable {sep : α}

theorem prependLine_nil (p : List (List α) × List α) : prependLine [] p = p := by
  obtain ⟨lines, rest⟩ := p
  cases lines <;> rfl

theorem prependLine_append (as bs : List α) (p : List (List α) × List α) :
    prependLine (as ++ bs) p = prependLine as (prependLine bs p) := by
  obtain ⟨lines, rest⟩ := p
  cases lines <;> simp [prependLine]

/-- What comes before a line break belongs to the first line. -/
theorem splitLines_append_of_not_mem {as : List α} (h : sep ∉ as) (bs : List α) :
    splitLines sep (as ++ bs) = prependLine as (splitLines sep bs) := by
  induction as with
  | nil => exact (prependLine_nil _).symm
  | cons a as ih =>
    rw [List.mem_cons, not_or] at h
    rw [List.cons_append, splitLines, if_neg (Ne.symm h.1), ih h.2, ← prependLine_append]
    rfl

/-- **The lines of two parts**: the first of the second part goes on with the rest of the first. -/
theorem splitLines_append (as bs : List α) :
    splitLines sep (as ++ bs) =
      ((splitLines sep as).1 ++ (prependLine (splitLines sep as).2 (splitLines sep bs)).1,
        (prependLine (splitLines sep as).2 (splitLines sep bs)).2) := by
  induction as with
  | nil => simp [splitLines, prependLine_nil]
  | cons a as ih =>
    rw [List.cons_append, splitLines, splitLines, ih]
    by_cases ha : a = sep
    · rw [if_pos ha, if_pos ha]
      rfl
    · rw [if_neg ha, if_neg ha]
      obtain ⟨lines, rest⟩ := splitLines sep as
      cases lines with
      | nil => rw [prependLine, prependLine_append, List.nil_append, List.nil_append]
      | cons line lines => rfl

/-- No line has a separator in it, and the rest has none. -/
theorem not_mem_splitLines (as : List α) :
    (∀ line ∈ (splitLines sep as).1, sep ∉ line) ∧ sep ∉ (splitLines sep as).2 := by
  induction as with
  | nil => simp [splitLines]
  | cons a as ih =>
    rw [splitLines]
    by_cases ha : a = sep
    · rw [if_pos ha]
      exact ⟨List.forall_mem_cons.mpr ⟨List.not_mem_nil, ih.1⟩, ih.2⟩
    · rw [if_neg ha]
      generalize splitLines sep as = p at ih ⊢
      obtain ⟨lines, rest⟩ := p
      cases lines with
      | nil => exact ⟨by simp [prependLine], by simp [prependLine, Ne.symm ha, ih.2]⟩
      | cons line lines =>
        rw [List.forall_mem_cons] at ih
        refine ⟨List.forall_mem_cons.mpr ⟨?_, ih.1.2⟩, ih.2⟩
        simp [Ne.symm ha, ih.1.1]

/-- Putting the fragments of a chunk together. -/
theorem splitLines_cutChunk {as : List α} {cut : List (List (List α)) × List (List α)}
    (h : splitLines sep as = (cut.1.map List.flatten, cut.2.flatten)) (chunk : List α) :
    splitLines sep (as ++ chunk) =
      ((cutChunk sep cut chunk).1.map List.flatten, (cutChunk sep cut chunk).2.flatten) := by
  rw [splitLines_append, h, cutChunk]
  obtain ⟨lines, rest⟩ := splitLines sep chunk
  cases lines with
  | nil => simp [prependLine]
  | cons line lines =>
    have hmap : (lines.map ([·])).map List.flatten = lines := by
      rw [List.map_map]
      exact List.map_id'' (fun line => by simp) lines
    simp only [prependLine, List.map_append, List.map_cons, hmap]
    simp

/-- **The fragments of the lines make up the lines**, however the chunks are cut. -/
theorem splitLines_flatten (chunks : List (List α)) :
    splitLines sep chunks.flatten =
      ((cutLines sep chunks).1.map List.flatten, (cutLines sep chunks).2.flatten) := by
  have hgen (as : List α) (cut : List (List (List α)) × List (List α))
      (h : splitLines sep as = (cut.1.map List.flatten, cut.2.flatten)) :
      splitLines sep (as ++ chunks.flatten) = ((chunks.foldl (cutChunk sep) cut).1.map List.flatten,
        (chunks.foldl (cutChunk sep) cut).2.flatten) := by
    induction chunks generalizing as cut with
    | nil => simpa using h
    | cons chunk chunks ih =>
      rw [List.flatten_cons, ← List.append_assoc, List.foldl_cons]
      exact ih _ _ (splitLines_cutChunk h chunk)
  exact hgen [] ([], []) rfl

end Python
