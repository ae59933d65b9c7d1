import OpenLaunch.Python.Text
import Mathlib.Data.List.Infix

/-! # Frames of a text that arrives in pieces

A text of frames, each closed by an empty line, is read from a buffer: a new piece is added, `\r\n`
is replaced by `\n`, and the complete frames are taken off. The frames do not depend on the pieces,
unless the text contains `\r\r\n`: there one replacement makes a new `\r\n`, and whether it is
replaced in turn depends on whether another piece follows. -/

namespace Python

/-! ## Line ends -/

/-- `s.replace('\r\n', '\n')`. -/
def replaceCrlf : List Char → List Char
  | '\r' :: '\n' :: cs => '\n' :: replaceCrlf cs
  | c :: cs => c :: replaceCrlf cs
  | [] => []

/-- The text contains `\r\n`. -/
def HasCrlf (cs : List Char) : Prop := ['\r', '\n'] <:+: cs

/-- The text contains `\r\r\n`. -/
def HasCrCrlf (cs : List Char) : Prop := ['\r', '\r', '\n'] <:+: cs

variable {c : Char} {cs ds : List Char}

theorem replaceCrlf_cons (h : c = '\r' → cs.head? ≠ some '\n') :
    replaceCrlf (c :: cs) = c :: replaceCrlf cs := by
  rw [replaceCrlf]
  rintro cs' rfl rfl
  exact h rfl rfl

theorem hasCrlf_cons : HasCrlf (c :: cs) ↔ (c = '\r' ∧ cs.head? = some '\n') ∨ HasCrlf cs := by
  unfold HasCrlf
  rw [List.infix_cons_iff, List.cons_prefix_cons, eq_comm]
  cases cs with
  | nil => simp
  | cons d ds => simp [List.cons_prefix_cons, eq_comm]

theorem hasCrCrlf_cons : HasCrCrlf (c :: cs) ↔
    (c = '\r' ∧ ∃ ds, cs = '\r' :: '\n' :: ds) ∨ HasCrCrlf cs := by
  unfold HasCrCrlf
  rw [List.infix_cons_iff, List.cons_prefix_cons, eq_comm]
  refine or_congr (and_congr_right fun _ => ?_) Iff.rfl
  exact ⟨fun ⟨ds, hds⟩ => ⟨ds, hds.symm⟩, fun ⟨ds, hds⟩ => ⟨ds, hds.symm⟩⟩

/-- The first character after replacement, where the text does not start with `\r\n`. -/
theorem head?_replaceCrlf (h : ∀ ds, cs ≠ '\r' :: '\n' :: ds) :
    (replaceCrlf cs).head? = cs.head? := by
  cases cs with
  | nil => rfl
  | cons c cs =>
    rw [replaceCrlf_cons]
    · rfl
    · intro hc hhead
      obtain ⟨ds, rfl⟩ := List.head?_eq_some_iff.mp hhead
      exact h ds (by rw [hc])

/-- Where the replacement of a text starts with a line end, the text does or starts with `\r\n`. -/
theorem head?_append_of_ne (h : cs.head? ≠ some '\n') (hcrlf : ∀ es, cs ≠ '\r' :: '\n' :: es)
    (hcs : cs ≠ []) : (replaceCrlf cs ++ ds).head? ≠ some '\n' := by
  rw [List.head?_append, head?_replaceCrlf hcrlf]
  cases cs with
  | nil => exact absurd rfl hcs
  | cons c cs => exact h

/-- **Replacing first in a part** does not matter in a text without `\r\r\n`. -/
theorem replaceCrlf_append (h : ¬ HasCrCrlf (cs ++ ds)) :
    replaceCrlf (replaceCrlf cs ++ ds) = replaceCrlf (cs ++ ds) := by
  induction cs using replaceCrlf.induct with
  | case1 cs ih =>
    rw [List.cons_append, List.cons_append, hasCrCrlf_cons, hasCrCrlf_cons, not_or, not_or] at h
    have hrest := ih h.2.2
    show replaceCrlf ('\n' :: (replaceCrlf cs ++ ds)) = '\n' :: replaceCrlf (cs ++ ds)
    rw [replaceCrlf_cons fun hc => absurd hc (by decide), hrest]
  | case2 c cs hne ih =>
    rw [List.cons_append, hasCrCrlf_cons, not_or] at h
    have hhead : c = '\r' → cs.head? ≠ some '\n' := by
      intro hc hhead
      obtain ⟨cs', rfl⟩ := List.head?_eq_some_iff.mp hhead
      exact hne cs' hc rfl
    rw [replaceCrlf_cons hhead, List.cons_append, List.cons_append]
    by_cases hcs : cs = []
    · subst hcs
      rfl
    · have hcrlf : c = '\r' → ∀ es, cs ≠ '\r' :: '\n' :: es := by
        rintro hc es rfl
        exact h.1 ⟨hc, es ++ ds, rfl⟩
      rw [replaceCrlf_cons fun hc => head?_append_of_ne (hhead hc) (hcrlf hc) hcs, ih h.2,
        replaceCrlf_cons]
      intro hc
      rw [List.head?_append_of_ne_nil _ hcs]
      exact hhead hc
  | case3 => rfl

/-- What is replaced has no `\r\n` left. -/
theorem not_hasCrlf_replaceCrlf (h : ¬ HasCrCrlf cs) : ¬ HasCrlf (replaceCrlf cs) := by
  induction cs using replaceCrlf.induct with
  | case1 cs ih =>
    rw [hasCrCrlf_cons, hasCrCrlf_cons, not_or, not_or] at h
    show ¬ HasCrlf ('\n' :: replaceCrlf cs)
    rw [hasCrlf_cons, not_or]
    exact ⟨fun hc => absurd hc.1 (by decide), ih h.2.2⟩
  | case2 c cs hne ih =>
    rw [hasCrCrlf_cons, not_or] at h
    have hhead : c = '\r' → cs.head? ≠ some '\n' := by
      intro hc hhead
      obtain ⟨cs', rfl⟩ := List.head?_eq_some_iff.mp hhead
      exact hne cs' hc rfl
    rw [replaceCrlf_cons hhead, hasCrlf_cons, not_or]
    refine ⟨fun ⟨hc, hnew⟩ => ?_, ih h.2⟩
    rw [head?_replaceCrlf] at hnew
    · exact hhead hc hnew
    · rintro es rfl
      exact h.1 ⟨hc, es, rfl⟩
  | case3 => exact fun ⟨s, t, h⟩ => by simp [replaceCrlf] at h

/-- A part of a text without `\r\r\n`. -/
theorem HasCrCrlf.of_prefix (h : ¬ HasCrCrlf cs) (hpre : ds <+: cs) : ¬ HasCrCrlf ds :=
  fun hds => h (hds.trans hpre.isInfix)

/-! ## Frames -/

/-- A character is put before the text that starts with the given frames. -/
def pushChar (c : Char) : List (List Char) × List Char → List (List Char) × List Char
  | ([], rest) => ([], c :: rest)
  | (frame :: frames, rest) => ((c :: frame) :: frames, rest)

/-- `while '\n\n' in buffer: frame, buffer = buffer.split('\n\n', 1)`: the frames, and what remains in
the buffer. -/
def splitFrames : List Char → List (List Char) × List Char
  | '\n' :: '\n' :: cs => ([] :: (splitFrames cs).1, (splitFrames cs).2)
  | c :: cs => pushChar c (splitFrames cs)
  | [] => ([], [])

theorem splitFrames_cons (h : c = '\n' → cs.head? ≠ some '\n') :
    splitFrames (c :: cs) = pushChar c (splitFrames cs) := by
  rw [splitFrames]
  rintro cs' rfl rfl
  exact h rfl rfl

/-- A character goes to the first frame, if there is one. -/
theorem exists_pushChar (c : Char) {frames : List (List Char)} (h : frames ≠ []) :
    ∃ frames', ∀ more rest, pushChar c (frames ++ more, rest) = (frames' ++ more, rest) := by
  obtain ⟨frame, frames, rfl⟩ := List.exists_cons_of_ne_nil h
  exact ⟨(c :: frame) :: frames, fun more rest => rfl⟩

/-- Without a frame everything remains. -/
theorem splitFrames_snd (h : (splitFrames cs).1 = []) : (splitFrames cs).2 = cs := by
  induction cs using splitFrames.induct with
  | case1 cs ih => cases h
  | case2 c cs hne ih =>
    have hhead : c = '\n' → cs.head? ≠ some '\n' := by
      intro hc hhead
      obtain ⟨cs', rfl⟩ := List.head?_eq_some_iff.mp hhead
      exact hne cs' hc rfl
    rw [splitFrames_cons hhead] at h ⊢
    revert h ih
    cases splitFrames cs with
    | mk frames rest =>
      cases frames with
      | nil => exact fun ih _ => congrArg (c :: ·) (ih rfl)
      | cons frame frames => exact fun _ h => by cases h
  | case3 => rfl

/-- A text that has a frame has two characters, so what follows does not matter for its start. -/
theorem append_ne_crlf (hframe : (splitFrames cs).1 ≠ []) (h : ¬ HasCrlf cs) :
    ∀ es, cs ++ ds ≠ '\r' :: '\n' :: es := by
  intro es heq
  cases cs with
  | nil => exact hframe rfl
  | cons c cs =>
    obtain ⟨rfl, htail⟩ := List.cons.inj heq
    cases cs with
    | nil => exact hframe rfl
    | cons d cs =>
      obtain ⟨rfl, -⟩ := List.cons.inj htail
      exact h (hasCrlf_cons.mpr (.inl ⟨rfl, rfl⟩))

/-- **A frame is taken off for good**: with more text the frames so far stay, and the others are those
of what remained. -/
theorem splitFrames_append (h : ¬ HasCrlf cs) (ds : List Char) :
    splitFrames (replaceCrlf (cs ++ ds)) =
      ((splitFrames cs).1 ++ (splitFrames (replaceCrlf ((splitFrames cs).2 ++ ds))).1,
        (splitFrames (replaceCrlf ((splitFrames cs).2 ++ ds))).2) := by
  induction cs using splitFrames.induct with
  | case1 cs ih =>
    rw [hasCrlf_cons, hasCrlf_cons, not_or, not_or] at h
    have hreplace : replaceCrlf ('\n' :: '\n' :: cs ++ ds) =
        '\n' :: '\n' :: replaceCrlf (cs ++ ds) := by
      rw [List.cons_append, List.cons_append, replaceCrlf_cons fun hc => absurd hc (by decide),
        replaceCrlf_cons fun hc => absurd hc (by decide)]
    rw [hreplace, splitFrames, splitFrames, ih h.2.2]
    rfl
  | case2 c cs hne ih =>
    have hcut : c = '\n' → cs.head? ≠ some '\n' := by
      intro hc hhead
      obtain ⟨cs', rfl⟩ := List.head?_eq_some_iff.mp hhead
      exact hne cs' hc rfl
    rw [hasCrlf_cons, not_or] at h
    by_cases hframe : (splitFrames cs).1 = []
    · -- no frame so far: everything is looked at again
      have hnone : (splitFrames (c :: cs)).1 = [] := by
        have hpair : splitFrames cs = ([], (splitFrames cs).2) := Prod.ext hframe rfl
        rw [splitFrames_cons hcut, hpair]
        rfl
      rw [hnone, splitFrames_snd hnone]
      rfl
    · have hcs : cs ≠ [] := by
        rintro rfl
        exact hframe rfl
      have hreplace : replaceCrlf (c :: cs ++ ds) = c :: replaceCrlf (cs ++ ds) := by
        rw [List.cons_append, replaceCrlf_cons]
        intro hc
        rw [List.head?_append_of_ne_nil _ hcs]
        exact fun hhead => h.1 ⟨hc, hhead⟩
      have hsplit : splitFrames (c :: replaceCrlf (cs ++ ds)) =
          pushChar c (splitFrames (replaceCrlf (cs ++ ds))) := by
        refine splitFrames_cons fun hc => ?_
        rw [head?_replaceCrlf (append_ne_crlf hframe h.2), List.head?_append_of_ne_nil _ hcs]
        exact hcut hc
      obtain ⟨frames', hpush⟩ := exists_pushChar c hframe
      have hfirst : splitFrames (c :: cs) = (frames', (splitFrames cs).2) := by
        rw [splitFrames_cons hcut, ← List.append_nil frames', ← hpush, List.append_nil]
      rw [hreplace, hsplit, ih h.2, hpush, hfirst]
  | case3 => rfl

/-! ## Pieces -/

/-- One piece of text: the frames taken off so far, and the buffer. -/
def feed (state : List (List Char) × List Char) (text : List Char) :
    List (List Char) × List Char :=
  let buffer := splitFrames (replaceCrlf (state.2 ++ text))
  (state.1 ++ buffer.1, buffer.2)

/-- **The frames do not depend on the pieces** in which a text without `\r\r\n` arrives. -/
theorem feed_foldl (texts : List (List Char)) (h : ¬ HasCrCrlf texts.flatten) :
    texts.foldl feed ([], []) = splitFrames (replaceCrlf texts.flatten) := by
  induction texts using List.reverseRecOn with
  | nil => rfl
  | append_singleton texts text ih =>
    rw [List.flatten_append, List.flatten_singleton] at h ⊢
    have hbefore : ¬ HasCrCrlf texts.flatten := HasCrCrlf.of_prefix h (List.prefix_append _ _)
    rw [List.foldl_append, ih hbefore]
    have hcrlf := not_hasCrlf_replaceCrlf hbefore
    rw [← replaceCrlf_append h, splitFrames_append hcrlf text]
    rfl

end Python
