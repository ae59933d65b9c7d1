import OpenLaunch.Python.Lines
import OpenLaunch.Python.Text

/-! # The line filter of a streamed response

A streamed response is read in chunks and handed on line by line, and a line that is longer than a
limit is to be replaced by one with an empty event. `stream_chunks_handler` cuts the lines out of
the chunks with a buffer for the last, unfinished one. After a long line it is in *skip mode*; there
the buffer may be emptied in the middle of a line, so the length of a line is then that of the part
that was left of it. -/

namespace OpenLaunch.Streams

open Python

/-! ## The handler -/

/-- The line break. -/
def newline : UInt8 := 10

/-- The line that replaces a long one. -/
def emptyData : List UInt8 := encode "data: \x7b\x7d\n".toList

/-- The state of `yield_safe_stream_chunks`, with the chunks it has yielded. -/
structure Filter where
  buffer : List UInt8
  skip_mode : Bool
  yielded : List (List UInt8)

/-- The body of the loop over the complete lines of a chunk. -/
def filterLine (max_buffer_size : ℕ) (s : Filter) (line : List UInt8) : Filter :=
  if s.skip_mode then
    if line.length ≤ max_buffer_size then
      { s with skip_mode := false, yielded := s.yielded ++ [line] }
    else { s with yielded := s.yielded ++ [emptyData] }
  else if max_buffer_size < line.length then
    { s with skip_mode := true, yielded := s.yielded ++ [emptyData] }
  else { s with yielded := s.yielded ++ [line ++ [newline]] }

/-- The end of the body of the loop over the chunks: the last fragment becomes the buffer, unless it
is too long. -/
def saveFragment (max_buffer_size : ℕ) (s : Filter) (fragment : List UInt8) : Filter :=
  if s.skip_mode = false ∧ max_buffer_size < fragment.length then
    { s with skip_mode := true, buffer := [] }
  else { s with buffer := fragment }

/-- The body of the loop over the chunks. -/
def filterChunk (max_buffer_size : ℕ) (s : Filter) (data : List UInt8) : Filter :=
  if data = [] then s
  else
    let buffer := if s.skip_mode ∧ max_buffer_size < s.buffer.length then [] else s.buffer
    let lines := splitLines newline (buffer ++ data)
    saveFragment max_buffer_size (lines.1.foldl (filterLine max_buffer_size) s) lines.2

/-- `yield_safe_stream_chunks`: all that it yields. -/
def yield_safe_stream_chunks (max_buffer_size : ℕ) (chunks : List (List UInt8)) :
    List (List UInt8) :=
  let s := chunks.foldl (filterChunk max_buffer_size) ⟨[], false, []⟩
  if s.buffer ≠ [] ∧ s.skip_mode = false then s.yielded ++ [s.buffer ++ [newline]] else s.yielded

/-- `stream_chunks_handler`, with its limit and the chunks of the stream. -/
def stream_chunks_handler (max_buffer_size : Option ℤ) (chunks : List (List UInt8)) :
    List (List UInt8) :=
  match max_buffer_size with
  | none => chunks
  | some size => if size ≤ 0 then chunks else yield_safe_stream_chunks size.toNat chunks

/-! ## What it is for -/

/-- A line that is handed on: as it is, or replaced. -/
def render (max_buffer_size : ℕ) (line : List UInt8) : List UInt8 :=
  if line.length ≤ max_buffer_size then line ++ [newline] else emptyData

/-- The lines of a stream, a last one without a line break included. -/
def safeLines (max_buffer_size : ℕ) (input : List UInt8) : List UInt8 :=
  (splitLines newline input).1.flatMap (render max_buffer_size) ++
    if (splitLines newline input).2 = [] then []
    else render max_buffer_size (splitLines newline input).2

/-- **What the handler is to yield**, all together. Without a limit there are no long lines. -/
def safeStream (max_buffer_size : Option ℤ) (input : List UInt8) : List UInt8 :=
  match max_buffer_size with
  | none => input
  | some size => if size ≤ 0 then input else safeLines size.toNat input

/-! ## What is seen of a line

The handler sees a line in fragments, one for each chunk that has a part of it. -/

/-- A buffer that is too long is emptied before the next chunk. -/
def carry (max_buffer_size : ℕ) (buffer : List UInt8) : List UInt8 :=
  if max_buffer_size < buffer.length then [] else buffer

/-- **What is left of a line when it is complete**, given its fragments. -/
def seen (max_buffer_size : ℕ) (fragments : List (List UInt8)) : List UInt8 :=
  fragments.foldl (fun buffer fragment => carry max_buffer_size buffer ++ fragment) []

/-- The lines of the chunks that are not empty, as fragments. -/
def fragmentsOf (chunks : List (List UInt8)) : List (List (List UInt8)) × List (List UInt8) :=
  cutLines newline (chunks.filter (· ≠ []))

/-- **When the handler filters the lines**: no line is longer than the limit; or, from some line on,
so much of every line comes after the last time that the buffer was emptied in it that this part is
longer than the limit, all lines before are not longer, and the stream ends with a line break. -/
def Filterable (max_buffer_size : ℕ) (chunks : List (List UInt8)) : Prop :=
  ((∀ line ∈ (fragmentsOf chunks).1, line.flatten.length ≤ max_buffer_size) ∧
      (fragmentsOf chunks).2.flatten.length ≤ max_buffer_size) ∨
    (fragmentsOf chunks).2.flatten = [] ∧
      ∃ before after, (fragmentsOf chunks).1 = before ++ after ∧
        (∀ line ∈ before, line.flatten.length ≤ max_buffer_size) ∧
        ∀ line ∈ after, max_buffer_size < (seen max_buffer_size line).length

section Seen

variable {max_buffer_size : ℕ}

theorem seen_append (fragments : List (List UInt8)) (fragment : List UInt8) :
    seen max_buffer_size (fragments ++ [fragment]) =
      carry max_buffer_size (seen max_buffer_size fragments) ++ fragment := by
  simp [seen]

@[simp] theorem seen_singleton (fragment : List UInt8) :
    seen max_buffer_size [fragment] = fragment := by
  simp [seen, carry]

theorem carry_of_le {buffer : List UInt8} (h : buffer.length ≤ max_buffer_size) :
    carry max_buffer_size buffer = buffer := if_neg (Nat.not_lt.mpr h)

theorem carry_suffix (buffer : List UInt8) : carry max_buffer_size buffer <:+ buffer := by
  unfold carry
  split
  · exact List.nil_suffix
  · exact List.suffix_rfl

/-- What is left of a line is its end. -/
theorem seen_suffix (fragments : List (List UInt8)) :
    seen max_buffer_size fragments <:+ fragments.flatten := by
  induction fragments using List.reverseRecOn with
  | nil => exact List.suffix_rfl
  | append_singleton fragments fragment ih =>
    rw [seen_append, List.flatten_append, List.flatten_singleton]
    obtain ⟨lost, hlost⟩ := (carry_suffix (seen max_buffer_size fragments)).trans ih
    exact ⟨lost, by rw [← List.append_assoc, hlost]⟩

/-- Of a line that is not too long everything is left. -/
theorem seen_of_le {fragments : List (List UInt8)}
    (h : fragments.flatten.length ≤ max_buffer_size) :
    seen max_buffer_size fragments = fragments.flatten := by
  induction fragments using List.reverseRecOn with
  | nil => rfl
  | append_singleton fragments fragment ih =>
    rw [List.flatten_append, List.flatten_singleton, List.length_append] at h
    have hle : fragments.flatten.length ≤ max_buffer_size := by omega
    rw [seen_append, ih hle, carry_of_le hle, List.flatten_append, List.flatten_singleton]

end Seen

/-! ## The handler line by line -/

/-- What a complete line makes the handler yield, and its mode after it. A line that is seen short
ends the skip mode, also the one that its own beginning has started. -/
def lineOutput (max_buffer_size : ℕ) (skip_mode : Bool) (fragments : List (List UInt8)) :
    List UInt8 × Bool :=
  if max_buffer_size < (seen max_buffer_size fragments).length then (emptyData, true)
  else if skip_mode ∨ max_buffer_size < fragments.flatten.length then
    (seen max_buffer_size fragments, false)
  else (fragments.flatten ++ [newline], false)

/-- What complete lines make it yield, and its mode after them. -/
def runLines (max_buffer_size : ℕ) : Bool → List (List (List UInt8)) → List UInt8 × Bool
  | skip_mode, [] => ([], skip_mode)
  | skip_mode, line :: lines =>
    let now := lineOutput max_buffer_size skip_mode line
    let later := runLines max_buffer_size now.2 lines
    (now.1 ++ later.1, later.2)

section Run

variable {max_buffer_size : ℕ}

theorem runLines_append (skip_mode : Bool) (lines lines' : List (List (List UInt8))) :
    runLines max_buffer_size skip_mode (lines ++ lines') =
      ((runLines max_buffer_size skip_mode lines).1 ++
          (runLines max_buffer_size (runLines max_buffer_size skip_mode lines).2 lines').1,
        (runLines max_buffer_size (runLines max_buffer_size skip_mode lines).2 lines').2) := by
  induction lines generalizing skip_mode with
  | nil => simp [runLines]
  | cons line lines ih => simp [runLines, ih]

/-- The mode of the handler in the middle of a line, given the mode at its start. -/
def modeIn (max_buffer_size : ℕ) (skip_mode : Bool) (opened : List (List UInt8)) : Bool :=
  skip_mode || decide (max_buffer_size < opened.flatten.length)

theorem modeIn_eq_false {skip_mode : Bool} {opened : List (List UInt8)} :
    modeIn max_buffer_size skip_mode opened = false ↔
      skip_mode = false ∧ opened.flatten.length ≤ max_buffer_size := by
  simp only [modeIn, Bool.or_eq_false_iff, decide_eq_false_iff_not, Nat.not_lt]

theorem modeIn_eq_true {skip_mode : Bool} {opened : List (List UInt8)} :
    modeIn max_buffer_size skip_mode opened = true ↔
      skip_mode = true ∨ max_buffer_size < opened.flatten.length := by
  simp only [modeIn, Bool.or_eq_true, decide_eq_true_eq]

/-- The handler completes a line. -/
theorem filterLine_seen {s : Filter} {skip_mode : Bool} {opened : List (List UInt8)}
    (hmode : s.skip_mode = modeIn max_buffer_size skip_mode opened) (fragment : List UInt8) :
    let now := lineOutput max_buffer_size skip_mode (opened ++ [fragment])
    filterLine max_buffer_size s (seen max_buffer_size (opened ++ [fragment])) =
      ⟨s.buffer, now.2, s.yielded ++ [now.1]⟩ := by
  obtain ⟨buffer, mode, yielded⟩ := s
  cases mode with
  | true =>
    have hlong : skip_mode = true ∨
        max_buffer_size < (opened ++ [fragment]).flatten.length := by
      refine (modeIn_eq_true.mp hmode.symm).imp_right fun h => ?_
      rw [List.flatten_append, List.length_append]
      omega
    simp only [filterLine, lineOutput, if_pos hlong, if_true]
    by_cases hseen : max_buffer_size < (seen max_buffer_size (opened ++ [fragment])).length
    · rw [if_neg (Nat.not_le.mpr hseen), if_pos hseen]
    · rw [if_pos (Nat.not_lt.mp hseen), if_neg hseen]
  | false =>
    obtain ⟨rfl, hshort⟩ := modeIn_eq_false.mp hmode.symm
    have hline : seen max_buffer_size (opened ++ [fragment]) =
        (opened ++ [fragment]).flatten := by
      rw [seen_append, seen_of_le hshort, carry_of_le hshort, List.flatten_append,
        List.flatten_singleton]
    simp only [filterLine, lineOutput, hline]
    by_cases hlong : max_buffer_size < (opened ++ [fragment]).flatten.length
    · simp only [if_pos hlong]
      rfl
    · simp only [hlong, Bool.false_eq_true, or_false, if_false]

/-- The handler completes the lines that lie within a chunk. -/
theorem foldl_filterLine (lines : List (List UInt8)) (s : Filter) :
    let now := runLines max_buffer_size s.skip_mode (lines.map ([·]))
    (lines.foldl (filterLine max_buffer_size) s).skip_mode = now.2 ∧
      (lines.foldl (filterLine max_buffer_size) s).yielded.flatten =
        s.yielded.flatten ++ now.1 := by
  induction lines generalizing s with
  | nil => simp [runLines]
  | cons line lines ih =>
    have hmode : s.skip_mode = modeIn max_buffer_size s.skip_mode [] := by simp [modeIn]
    have hline := filterLine_seen hmode line
    rw [List.nil_append, seen_singleton] at hline
    simp only [List.foldl_cons, List.map_cons, runLines, hline]
    obtain ⟨hskip, hyield⟩ := ih ⟨s.buffer, (lineOutput max_buffer_size s.skip_mode [line]).2,
      s.yielded ++ [(lineOutput max_buffer_size s.skip_mode [line]).1]⟩
    refine ⟨hskip, hyield.trans ?_⟩
    simp

/-- The state of the handler after some chunks, whose lines came in these fragments. -/
structure Follows (max_buffer_size : ℕ) (s : Filter)
    (cut : List (List (List UInt8)) × List (List UInt8)) : Prop where
  /-- It has yielded what the complete lines make it yield. -/
  yielded : s.yielded.flatten = (runLines max_buffer_size false cut.1).1
  /-- It is in skip mode after a complete line, or because of the line it is in. -/
  mode : s.skip_mode = modeIn max_buffer_size (runLines max_buffer_size false cut.1).2 cut.2
  /-- The buffer has what is seen of this line. -/
  buffer : carry max_buffer_size s.buffer = carry max_buffer_size (seen max_buffer_size cut.2)
  /-- Outside skip mode this is all of it. -/
  whole : s.skip_mode = false → s.buffer = cut.2.flatten
  unbroken : newline ∉ cut.2.flatten

/-- The end of a chunk: the rest becomes the buffer unless it is too long already. -/
theorem Follows.close {t : Filter} {lines : List (List (List UInt8))} {opened : List (List UInt8)}
    {rest : List UInt8} (hyielded : t.yielded.flatten = (runLines max_buffer_size false lines).1)
    (hrest : rest = seen max_buffer_size opened) (hunbroken : newline ∉ opened.flatten)
    (hskip : t.skip_mode = true →
      modeIn max_buffer_size (runLines max_buffer_size false lines).2 opened = true)
    (hnormal : t.skip_mode = false →
      (runLines max_buffer_size false lines).2 = false ∧ rest = opened.flatten) :
    Follows max_buffer_size (saveFragment max_buffer_size t rest) (lines, opened) := by
  unfold saveFragment
  by_cases hover : t.skip_mode = false ∧ max_buffer_size < rest.length
  · obtain ⟨hstart, hflat⟩ := hnormal hover.1
    rw [if_pos hover]
    refine ⟨hyielded, (modeIn_eq_true.mpr ?_).symm, ?_, fun h => (nomatch h), hunbroken⟩
    · exact Or.inr (hflat ▸ hover.2)
    · dsimp only
      rw [← hrest, carry, carry, if_pos hover.2, ite_self]
  · rw [if_neg hover]
    refine ⟨hyielded, ?_, by dsimp only; rw [hrest], fun h => (hnormal h).2, hunbroken⟩
    cases hmode : t.skip_mode with
    | true => exact (hskip hmode).symm
    | false =>
      obtain ⟨hstart, hflat⟩ := hnormal hmode
      refine (modeIn_eq_false.mpr ⟨hstart, ?_⟩).symm
      rw [← hflat]
      exact Nat.not_lt.mp fun h => hover ⟨hmode, h⟩

/-- **One chunk.** -/
theorem Follows.chunk {s : Filter} {cut : List (List (List UInt8)) × List (List UInt8)}
    (h : Follows max_buffer_size s cut) {data : List UInt8} (hdata : data ≠ []) :
    Follows max_buffer_size (filterChunk max_buffer_size s data) (cutChunk newline cut data) := by
  obtain ⟨lines, opened⟩ := cut
  -- the buffer that the chunk is appended to
  have hused : (if s.skip_mode = true ∧ max_buffer_size < s.buffer.length then [] else s.buffer) =
      carry max_buffer_size (seen max_buffer_size opened) := by
    cases hmode : s.skip_mode with
    | true => simpa [carry] using h.buffer
    | false =>
      have hshort := (modeIn_eq_false.mp (h.mode ▸ hmode)).2
      rw [if_neg (by simp), seen_of_le hshort, carry_of_le hshort]
      exact h.whole hmode
  have hunbroken : newline ∉ carry max_buffer_size (seen max_buffer_size opened) :=
    fun hmem => h.unbroken (((carry_suffix _).trans (seen_suffix opened)).subset hmem)
  have hnormal (hmode : s.skip_mode = false) (fragment : List UInt8) :
      carry max_buffer_size (seen max_buffer_size opened) ++ fragment =
        (opened ++ [fragment]).flatten := by
    have hshort := (modeIn_eq_false.mp (h.mode ▸ hmode)).2
    rw [seen_of_le hshort, carry_of_le hshort, List.flatten_append, List.flatten_singleton]
  rw [filterChunk, if_neg hdata, hused]
  dsimp only
  rw [splitLines_append_of_not_mem hunbroken, cutChunk]
  have hbreak : newline ∉ (splitLines newline data).2 := (not_mem_splitLines data).2
  generalize splitLines newline data = p at hbreak ⊢
  obtain ⟨found, rest⟩ := p
  cases found with
  | nil =>
    simp only [prependLine, List.foldl_nil]
    refine Follows.close h.yielded (seen_append opened rest).symm ?_ (fun hmode => ?_)
      fun hmode => ⟨(modeIn_eq_false.mp (h.mode ▸ hmode)).1, hnormal hmode rest⟩
    · rw [List.flatten_append, List.flatten_singleton, List.mem_append, not_or]
      exact ⟨h.unbroken, hbreak⟩
    · refine modeIn_eq_true.mpr ((modeIn_eq_true.mp (h.mode ▸ hmode)).imp_right fun hlong => ?_)
      rw [List.flatten_append, List.length_append]
      dsimp only at hlong
      omega
  | cons line found =>
    simp only [prependLine, List.foldl_cons]
    have hline := filterLine_seen h.mode line
    rw [seen_append] at hline
    dsimp only at hline
    rw [hline]
    obtain ⟨hmode, hyield⟩ := @foldl_filterLine max_buffer_size found
      ⟨s.buffer, (lineOutput max_buffer_size (runLines max_buffer_size false lines).2
        (opened ++ [line])).2, s.yielded ++ [(lineOutput max_buffer_size
          (runLines max_buffer_size false lines).2 (opened ++ [line])).1]⟩
    have hrun : runLines max_buffer_size false (lines ++ (opened ++ [line]) :: found.map ([·])) =
        _ := runLines_append false lines _
    refine Follows.close ?_ (seen_singleton rest).symm (by simpa using hbreak) ?_ ?_
    · rw [hyield, hrun]
      simp [runLines, h.yielded]
    · intro hskip
      exact modeIn_eq_true.mpr
        (Or.inl (((congrArg Prod.snd hrun).trans hmode.symm).trans hskip))
    · intro hskip
      exact ⟨((congrArg Prod.snd hrun).trans hmode.symm).trans hskip, by simp⟩

/-- **All chunks.** -/
theorem Follows.chunks (chunks : List (List UInt8)) :
    Follows max_buffer_size (chunks.foldl (filterChunk max_buffer_size) ⟨[], false, []⟩)
      (fragmentsOf chunks) := by
  have hgen (s : Filter) (cut : List (List (List UInt8)) × List (List UInt8))
      (h : Follows max_buffer_size s cut) :
      Follows max_buffer_size (chunks.foldl (filterChunk max_buffer_size) s)
        ((chunks.filter (· ≠ [])).foldl (cutChunk newline) cut) := by
    induction chunks generalizing s cut with
    | nil => exact h
    | cons data chunks ih =>
      by_cases hdata : data = []
      · -- an empty chunk is passed over
        have hsame : filterChunk max_buffer_size s data = s := if_pos hdata
        rw [List.foldl_cons, hsame, List.filter_cons_of_neg (by simp [hdata])]
        exact ih s cut h
      · rw [List.foldl_cons, List.filter_cons_of_pos (by simp [hdata]), List.foldl_cons]
        exact ih _ _ (h.chunk hdata)
  refine hgen ⟨[], false, []⟩ ([], []) ⟨rfl, ?_, rfl, fun _ => rfl, List.not_mem_nil⟩
  simp [runLines, modeIn]

/-- What the rest of the stream makes the handler yield at its end. -/
def restOutput (max_buffer_size : ℕ) (skip_mode : Bool) (rest : List UInt8) : List UInt8 :=
  if skip_mode = false ∧ rest ≠ [] ∧ rest.length ≤ max_buffer_size then rest ++ [newline] else []

/-- **The handler yields what the lines make it yield**, in the fragments in which they come. -/
theorem flatten_yield_safe_stream_chunks (chunks : List (List UInt8)) :
    (yield_safe_stream_chunks max_buffer_size chunks).flatten =
      (runLines max_buffer_size false (fragmentsOf chunks).1).1 ++
        restOutput max_buffer_size (runLines max_buffer_size false (fragmentsOf chunks).1).2
          (fragmentsOf chunks).2.flatten := by
  have h := @Follows.chunks max_buffer_size chunks
  rw [yield_safe_stream_chunks]
  generalize chunks.foldl (filterChunk max_buffer_size) ⟨[], false, []⟩ = s at h ⊢
  unfold restOutput
  cases hmode : s.skip_mode with
  | true =>
    have hlong := modeIn_eq_true.mp (h.mode ▸ hmode)
    rw [if_neg (by simp), if_neg, h.yielded, List.append_nil]
    rintro ⟨hskip, -, hle⟩
    rcases hlong with hlong | hlong
    · rw [hlong] at hskip
      cases hskip
    · omega
  | false =>
    obtain ⟨hskip, hle⟩ := modeIn_eq_false.mp (h.mode ▸ hmode)
    have hbuffer := h.whole hmode
    by_cases hnil : s.buffer = []
    · rw [if_neg fun hb => hb.1 hnil, if_neg fun hb => hb.2.1 (hbuffer ▸ hnil), h.yielded,
        List.append_nil]
    · rw [if_pos ⟨hnil, rfl⟩, if_pos ⟨hskip, hbuffer ▸ hnil, hle⟩, List.flatten_append, h.yielded,
        List.flatten_singleton, hbuffer]

end Run

/-! ## When the lines are filtered

A line that ends the skip mode is yielded without a line break, so the handler yields too few line
breaks from then on. -/

section Breaks

variable {max_buffer_size : ℕ}

/-- How many line breaks there are. -/
def breaks (bytes : List UInt8) : ℕ := bytes.count newline

theorem breaks_append (as bs : List UInt8) : breaks (as ++ bs) = breaks as + breaks bs :=
  List.count_append

theorem breaks_eq_zero {bytes : List UInt8} (h : newline ∉ bytes) : breaks bytes = 0 :=
  List.count_eq_zero.mpr h

theorem breaks_emptyData : breaks emptyData = 1 := by decide

theorem breaks_render {line : List UInt8} (h : newline ∉ line) :
    breaks (render max_buffer_size line) = 1 := by
  unfold render
  split
  · rw [breaks_append, breaks_eq_zero h]
    rfl
  · exact breaks_emptyData

theorem breaks_flatMap_render {lines : List (List UInt8)} (h : ∀ line ∈ lines, newline ∉ line) :
    breaks (lines.flatMap (render max_buffer_size)) = lines.length := by
  induction lines with
  | nil => rfl
  | cons line lines ih =>
    rw [List.forall_mem_cons] at h
    rw [List.flatMap_cons, breaks_append, breaks_render h.1, ih h.2, List.length_cons]
    omega

/-- A line that does not end the skip mode, given the mode at its start. -/
def Stays (max_buffer_size : ℕ) (skip_mode : Bool) (line : List (List UInt8)) : Prop :=
  max_buffer_size < (seen max_buffer_size line).length ∨
    skip_mode = false ∧ line.flatten.length ≤ max_buffer_size

/-- No line ends the skip mode. -/
def AllStay (max_buffer_size : ℕ) : Bool → List (List (List UInt8)) → Prop
  | _, [] => True
  | skip_mode, line :: lines => Stays max_buffer_size skip_mode line ∧
      AllStay max_buffer_size (lineOutput max_buffer_size skip_mode line).2 lines

/-- Such a line is yielded as it should be. -/
theorem lineOutput_of_stays {skip_mode : Bool} {line : List (List UInt8)}
    (h : Stays max_buffer_size skip_mode line) :
    (lineOutput max_buffer_size skip_mode line).1 = render max_buffer_size line.flatten := by
  unfold lineOutput render
  rcases h with hlong | ⟨rfl, hshort⟩
  · have hle := (@seen_suffix max_buffer_size line).length_le
    rw [if_pos hlong, if_neg (by omega)]
  · have hseen : ¬ max_buffer_size < (seen max_buffer_size line).length := by
      rw [seen_of_le hshort]
      omega
    rw [if_neg hseen, if_neg (by simpa using hshort), if_pos hshort]

/-- Any other line is yielded without a line break. -/
theorem lineOutput_of_not_stays {skip_mode : Bool} {line : List (List UInt8)}
    (h : ¬ Stays max_buffer_size skip_mode line) (hline : newline ∉ line.flatten) :
    breaks (lineOutput max_buffer_size skip_mode line).1 = 0 := by
  simp only [Stays, not_or, not_and] at h
  have hskip : skip_mode = true ∨ max_buffer_size < line.flatten.length := by
    cases skip_mode with
    | true => exact Or.inl rfl
    | false => exact Or.inr (Nat.not_le.mp (h.2 rfl))
  rw [lineOutput, if_neg h.1, if_pos hskip]
  exact breaks_eq_zero fun hmem => hline ((seen_suffix line).subset hmem)

theorem runLines_of_allStay {skip_mode : Bool} {lines : List (List (List UInt8))}
    (h : AllStay max_buffer_size skip_mode lines) :
    (runLines max_buffer_size skip_mode lines).1 =
      (lines.map List.flatten).flatMap (render max_buffer_size) := by
  induction lines generalizing skip_mode with
  | nil => rfl
  | cons line lines ih =>
    simp only [runLines, List.map_cons, List.flatMap_cons]
    rw [lineOutput_of_stays h.1, ih h.2]

/-- There are no more line breaks than lines, and as many only if no line ends the skip mode. -/
theorem breaks_runLines {skip_mode : Bool} {lines : List (List (List UInt8))}
    (hlines : ∀ line ∈ lines, newline ∉ line.flatten) :
    breaks (runLines max_buffer_size skip_mode lines).1 ≤ lines.length ∧
      (breaks (runLines max_buffer_size skip_mode lines).1 = lines.length →
        AllStay max_buffer_size skip_mode lines) := by
  induction lines generalizing skip_mode with
  | nil => exact ⟨Nat.le_refl _, fun _ => trivial⟩
  | cons line lines ih =>
    rw [List.forall_mem_cons] at hlines
    obtain ⟨hle, heq⟩ := @ih (lineOutput max_buffer_size skip_mode line).2 hlines.2
    simp only [runLines, breaks_append, List.length_cons]
    by_cases hstay : Stays max_buffer_size skip_mode line
    · rw [lineOutput_of_stays hstay, breaks_render hlines.1]
      exact ⟨by omega, fun h => ⟨hstay, heq (by omega)⟩⟩
    · rw [lineOutput_of_not_stays hstay hlines.1]
      exact ⟨by omega, fun h => by omega⟩

/-- From skip mode, no line ends it if and only if every line is seen long. -/
theorem allStay_true {lines : List (List (List UInt8))} :
    AllStay max_buffer_size true lines ↔
      ∀ line ∈ lines, max_buffer_size < (seen max_buffer_size line).length := by
  induction lines with
  | nil => simp [AllStay]
  | cons line lines ih =>
    rw [AllStay, List.forall_mem_cons]
    simp only [Stays, Bool.true_eq_false, false_and, or_false]
    refine and_congr_right fun hlong => ?_
    rw [lineOutput, if_pos hlong, ih]

/-- The mode after a line that is seen long. -/
theorem mode_of_long {skip_mode : Bool} {line : List (List UInt8)}
    (h : max_buffer_size < (seen max_buffer_size line).length) :
    (lineOutput max_buffer_size skip_mode line).2 = true := by
  rw [lineOutput, if_pos h]

/-- The mode after a line that is not long. -/
theorem mode_of_short {line : List (List UInt8)} (h : line.flatten.length ≤ max_buffer_size) :
    (lineOutput max_buffer_size false line).2 = false := by
  have hseen : ¬ max_buffer_size < (seen max_buffer_size line).length := by
    rw [seen_of_le h]
    omega
  rw [lineOutput, if_neg hseen, if_neg (by simpa using h)]

/-- From normal mode, no line ends the skip mode if and only if the lines are not long up to some
line, and seen long from there on. -/
theorem allStay_false {lines : List (List (List UInt8))} :
    AllStay max_buffer_size false lines ↔ ∃ before after, lines = before ++ after ∧
      (∀ line ∈ before, line.flatten.length ≤ max_buffer_size) ∧
      ∀ line ∈ after, max_buffer_size < (seen max_buffer_size line).length := by
  constructor
  · intro h
    induction lines with
    | nil => exact ⟨[], [], rfl, by simp, by simp⟩
    | cons line lines ih =>
      obtain ⟨hstay, hrest⟩ := h
      rcases hstay with hlong | ⟨-, hshort⟩
      · rw [mode_of_long hlong] at hrest
        exact ⟨[], line :: lines, rfl, by simp,
          List.forall_mem_cons.mpr ⟨hlong, allStay_true.mp hrest⟩⟩
      · rw [mode_of_short hshort] at hrest
        obtain ⟨before, after, rfl, hbefore, hafter⟩ := ih hrest
        exact ⟨line :: before, after, rfl, List.forall_mem_cons.mpr ⟨hshort, hbefore⟩, hafter⟩
  · rintro ⟨before, after, rfl, hbefore, hafter⟩
    induction before with
    | nil =>
      cases after with
      | nil => trivial
      | cons line after =>
        rw [List.forall_mem_cons] at hafter
        refine ⟨Or.inl hafter.1, ?_⟩
        rw [mode_of_long hafter.1]
        exact allStay_true.mpr hafter.2
    | cons line before ih =>
      rw [List.forall_mem_cons] at hbefore
      refine ⟨Or.inr ⟨rfl, hbefore.1⟩, ?_⟩
      rw [mode_of_short hbefore.1]
      exact ih hbefore.2

/-- The mode is then normal at the end if and only if no line was long. -/
theorem mode_runLines {lines : List (List (List UInt8))} :
    AllStay max_buffer_size false lines →
      ((runLines max_buffer_size false lines).2 = false ↔
        ∀ line ∈ lines, line.flatten.length ≤ max_buffer_size) := by
  have htrue (lines : List (List (List UInt8))) (h : AllStay max_buffer_size true lines) :
      (runLines max_buffer_size true lines).2 = true := by
    induction lines with
    | nil => rfl
    | cons line lines ih =>
      have hlong := (allStay_true.mp h) line List.mem_cons_self
      have hrest := h.2
      simp only [runLines]
      rw [mode_of_long hlong] at hrest ⊢
      exact ih hrest
  intro h
  induction lines with
  | nil => simp [runLines]
  | cons line lines ih =>
    obtain ⟨hstay, hrest⟩ := h
    simp only [runLines, List.forall_mem_cons]
    rcases hstay with hlong | ⟨-, hshort⟩
    · have hle := (@seen_suffix max_buffer_size line).length_le
      rw [mode_of_long hlong] at hrest ⊢
      rw [htrue lines hrest]
      constructor
      · intro hfalse
        cases hfalse
      · intro hall
        omega
    · rw [mode_of_short hshort] at hrest ⊢
      rw [ih hrest]
      exact (and_iff_right hshort).symm

end Breaks

/-! ## The result -/

theorem flatten_filter_ne_nil (chunks : List (List UInt8)) :
    (chunks.filter (· ≠ [])).flatten = chunks.flatten := by
  induction chunks with
  | nil => rfl
  | cons data chunks ih =>
    by_cases hdata : data = []
    · rw [List.filter_cons_of_neg (by simp [hdata]), ih, hdata]
      rfl
    · rw [List.filter_cons_of_pos (by simp [hdata]), List.flatten_cons, List.flatten_cons, ih]

/-- The lines of the stream are those that the fragments make up. -/
theorem splitLines_chunks (chunks : List (List UInt8)) :
    splitLines newline chunks.flatten =
      ((fragmentsOf chunks).1.map List.flatten, (fragmentsOf chunks).2.flatten) := by
  rw [← flatten_filter_ne_nil]
  exact splitLines_flatten _

/-- The rest of a stream as it should be yielded. -/
def renderRest (max_buffer_size : ℕ) (rest : List UInt8) : List UInt8 :=
  if rest = [] then [] else render max_buffer_size rest

/-- The rest adds no more line breaks than it should. -/
theorem breaks_restOutput {max_buffer_size : ℕ} {skip_mode : Bool} {rest : List UInt8}
    (h : newline ∉ rest) :
    breaks (restOutput max_buffer_size skip_mode rest) ≤
      breaks (renderRest max_buffer_size rest) := by
  unfold restOutput renderRest
  by_cases hrest : rest = []
  · simp [hrest]
  · rw [if_neg hrest, breaks_render h]
    split
    · rw [breaks_append, breaks_eq_zero h]
      exact Nat.le_refl 1
    · exact Nat.zero_le 1

/-- The rest is yielded as it should be if and only if it is not lost. -/
theorem restOutput_eq_iff {max_buffer_size : ℕ} {skip_mode : Bool} {rest : List UInt8}
    (h : newline ∉ rest) :
    restOutput max_buffer_size skip_mode rest = renderRest max_buffer_size rest ↔
      rest = [] ∨ skip_mode = false ∧ rest.length ≤ max_buffer_size := by
  unfold restOutput renderRest
  by_cases hrest : rest = []
  · simp [hrest]
  · rw [if_neg hrest]
    by_cases hkept : skip_mode = false ∧ rest.length ≤ max_buffer_size
    · rw [if_pos ⟨hkept.1, hrest, hkept.2⟩, render, if_pos hkept.2]
      simp [hkept]
    · rw [if_neg fun hc => hkept ⟨hc.1, hc.2.2⟩]
      constructor
      · intro heq
        have hbreaks : breaks [] = 1 := heq ▸ breaks_render h
        simp [breaks] at hbreaks
      · intro hor
        exact absurd (hor.resolve_left hrest) hkept

/-- **The handler filters the lines exactly where they are filterable.** Counting line breaks shows
that no line may end the skip mode. -/
theorem yield_safe_stream_chunks_iff (max_buffer_size : ℕ) (chunks : List (List UInt8)) :
    (yield_safe_stream_chunks max_buffer_size chunks).flatten =
        safeLines max_buffer_size chunks.flatten ↔
      Filterable max_buffer_size chunks := by
  have hsplit := splitLines_chunks chunks
  have hnone : (∀ line ∈ (splitLines newline chunks.flatten).1, newline ∉ line) ∧
      newline ∉ (splitLines newline chunks.flatten).2 := not_mem_splitLines chunks.flatten
  rw [hsplit] at hnone
  rw [flatten_yield_safe_stream_chunks, safeLines, hsplit, Filterable]
  generalize fragmentsOf chunks = cut at hnone ⊢
  obtain ⟨lines, opened⟩ := cut
  generalize opened.flatten = rest at hnone ⊢
  dsimp only at hnone ⊢
  rw [List.forall_mem_map] at hnone
  obtain ⟨hlines, hrest⟩ := hnone
  have hmode : AllStay max_buffer_size false lines →
      (restOutput max_buffer_size (runLines max_buffer_size false lines).2 rest =
          renderRest max_buffer_size rest ↔
        rest = [] ∨ (∀ line ∈ lines, line.flatten.length ≤ max_buffer_size) ∧
          rest.length ≤ max_buffer_size) := by
    intro hstay
    rw [restOutput_eq_iff hrest, mode_runLines hstay]
  constructor
  · intro heq
    have hbreaks := congrArg breaks heq
    have hle := @breaks_restOutput max_buffer_size (runLines max_buffer_size false lines).2 rest
      hrest
    obtain ⟨hrun, hstay⟩ := @breaks_runLines max_buffer_size false lines hlines
    rw [breaks_append, breaks_append, breaks_flatMap_render (by simpa using hlines),
      List.length_map] at hbreaks
    unfold renderRest at hle
    have hall := hstay (by omega)
    rw [runLines_of_allStay hall] at heq
    rcases (hmode hall).mp (List.append_cancel_left heq) with hnil | hshort
    · exact Or.inr ⟨hnil, allStay_false.mp hall⟩
    · exact Or.inl hshort
  · intro hfilter
    have hall : AllStay max_buffer_size false lines := by
      rcases hfilter with hshort | ⟨-, hcut⟩
      · exact allStay_false.mpr ⟨lines, [], by simp, hshort.1, by simp⟩
      · exact allStay_false.mpr hcut
    rw [runLines_of_allStay hall]
    refine congrArg _ ((hmode hall).mpr ?_)
    exact hfilter.symm.imp_left And.left

/-- Whether a limit is one, and the stream filterable for it. -/
def FilterableStream (max_buffer_size : Option ℤ) (chunks : List (List UInt8)) : Prop :=
  ∀ size, max_buffer_size = some size → 0 < size → Filterable size.toNat chunks

/-- **When `stream_chunks_handler` is a line filter.** It yields the lines of the stream in order,
long ones replaced, if and only if there is no limit or the stream is filterable for it. -/
theorem stream_chunks_handler_iff (max_buffer_size : Option ℤ) (chunks : List (List UInt8)) :
    (stream_chunks_handler max_buffer_size chunks).flatten =
        safeStream max_buffer_size chunks.flatten ↔
      FilterableStream max_buffer_size chunks := by
  unfold FilterableStream
  cases max_buffer_size with
  | none => simp [stream_chunks_handler, safeStream]
  | some size =>
    simp only [stream_chunks_handler, safeStream, Option.some.injEq, forall_eq']
    by_cases hsize : size ≤ 0
    · rw [if_pos hsize, if_pos hsize]
      exact iff_of_true rfl fun hpos => absurd hpos (by omega)
    · rw [if_neg hsize, if_neg hsize, yield_safe_stream_chunks_iff]
      exact (imp_iff_right (by omega)).symm

/-- After a line of six bytes, with a limit of four, the line `b` is yielded without its line
break. -/
theorem stream_chunks_handler_joins :
    (stream_chunks_handler (some 4) [encode "aaaaaa\nb\nc\n".toList]).flatten =
        encode "data: \x7b\x7d\nbc\n".toList ∧
      (stream_chunks_handler (some 4) [encode "aaaaaa\nb\nc\n".toList]).flatten ≠
        safeStream (some 4) [encode "aaaaaa\nb\nc\n".toList].flatten := by
  decide

end OpenLaunch.Streams
