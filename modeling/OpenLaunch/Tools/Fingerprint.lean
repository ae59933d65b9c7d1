import OpenLaunch.Python.Replace
import OpenLaunch.Python.Substitute
import OpenLaunch.Python.Text

/-! # Fingerprints of queries

A fingerprint is the hash of the text of a query in which two patterns have replaced the literals:
quoted strings first, and numbers in what is left. The patterns see the text only. What they replace
are the literals of the query as long as its text is *tame*: no number has an exponent, and no part
outside the literals looks like one. -/

namespace OpenLaunch.Tools

open Python

/-! ## Texts with literals -/

/-- A literal of a query, as it is written in the text of the query. -/
inductive SqlLiteral
  | str (text : List Char)
  | num (text : List Char)
  deriving DecidableEq

/-- How a literal is written. -/
def SqlLiteral.text : SqlLiteral → List Char
  | .str text => text
  | .num text => text

/-- The text of a query, with its literals marked. -/
abbrev SqlText := List (Piece Char SqlLiteral)

/-- The text itself. -/
def SqlText.plain (pieces : SqlText) : List Char := Piece.fill SqlLiteral.text pieces

/-- What is outside the literals. -/
def SqlText.skeleton (pieces : SqlText) : List (Piece Char Unit) :=
  pieces.map fun
    | .lit c => .lit c
    | .hole _ => .hole ()

/-- The text with a mark for each literal. -/
def SqlText.masked (pieces : SqlText) : List Char := Piece.fill (fun _ => ['?']) pieces

/-- The classes of characters `\d` and `\w`. -/
structure CharClasses where
  isDigit : Char → Bool
  isWord : Char → Bool
  isWord_of_isDigit : ∀ c, isDigit c = true → isWord c = true
  punctuation : isWord '?' = false ∧ isWord '\'' = false ∧ isWord '.' = false

/-! ## The fingerprint -/

/-- What is left after the rest of `'(?:''|[^'])*'`, where its first quote was read. A pair of quotes
goes on with the string, unless nothing closes it then: the first quote of the pair closes it. -/
def afterQuoted : List Char → Option (List Char)
  | [] => none
  | c :: s =>
    if c = '\'' then
      match s with
      | '\'' :: s' => (afterQuoted s').or (some ('\'' :: s'))
      | s => some s
    else afterQuoted s

/-- `'(?:''|[^'])*'`. -/
def quotedFound (_ : Option Char) : List Char → Option (List Char)
  | '\'' :: s => afterQuoted s
  | _ => none

section Numbers

variable (classes : CharClasses)

/-- `\b`, after a digit. -/
def endsWord (rest : List Char) : Bool := !rest.head?.any classes.isWord

/-- `\.\d+`. -/
def afterFraction : List Char → Option (List Char)
  | '.' :: c :: s => if classes.isDigit c then some (s.dropWhile classes.isDigit) else none
  | _ => none

/-- `\b\d+(?:\.\d+)?\b`. Fewer digits than there are do not end a word. -/
def numberFound (prev : Option Char) : List Char → Option (List Char)
  | [] => none
  | c :: s =>
    if classes.isDigit c && !prev.any classes.isWord then
      let rest := s.dropWhile classes.isDigit
      ((afterFraction classes rest).filter (endsWord classes)).or
        ((some rest).filter (endsWord classes))
    else none

/-- The text that is hashed. -/
def canonical (text : List Char) : List Char :=
  sub (numberFound classes) ['?'] (sub quotedFound ['?'] text)

/-- `_fingerprint`, of the text that the expression is generated to. -/
def _fingerprint (sha256 : List UInt8 → String) (text : List Char) : String :=
  sha256 (encode (canonical classes text))

end Numbers

/-! ## Tame texts -/

/-- A string between quotes, with the quotes in it doubled. -/
def quoted (s : List Char) : List Char :=
  '\'' :: (s.flatMap (fun c => if c = '\'' then ['\'', '\''] else [c]) ++ ['\''])

/-- Digits, with a fraction or without. -/
def PlainNumber (classes : CharClasses) (t : List Char) : Prop :=
  ∃ c whole fraction, t = c :: (whole ++ fraction) ∧ classes.isDigit c = true ∧
    (∀ d ∈ whole, classes.isDigit d = true) ∧
    (fraction = [] ∨ ∃ d digits, fraction = '.' :: d :: digits ∧ classes.isDigit d = true ∧
      ∀ d' ∈ digits, classes.isDigit d' = true)

/-- The text goes on outside the literals, with a character that ends a number, or it is over. -/
def EndsNumber (classes : CharClasses) : SqlText → Prop
  | [] => True
  | .lit c :: _ => classes.isWord c = false ∧ c ≠ '.'
  | .hole _ :: _ => False

/-- No literal follows at once. -/
def EndsString : SqlText → Prop
  | [] | .lit _ :: _ => True
  | .hole _ :: _ => False

/-- The patterns replace the literals of the text and nothing else: strings are quoted, numbers are
plain and stand apart, and outside the literals are no quotes, no marks, and no digits at the start
of a word. The argument says whether a word goes on. -/
def Tame (classes : CharClasses) : Bool → SqlText → Prop
  | _, [] => True
  | inWord, .lit c :: pieces =>
    c ≠ '\'' ∧ c ≠ '?' ∧ (classes.isDigit c = true → inWord = true) ∧
      Tame classes (classes.isWord c) pieces
  | _, .hole (.str t) :: pieces =>
    (∃ s, t = quoted s) ∧ EndsString pieces ∧ Tame classes false pieces
  | inWord, .hole (.num t) :: pieces =>
    inWord = false ∧ PlainNumber classes t ∧ EndsNumber classes pieces ∧ Tame classes true pieces

section Proofs

variable {classes : CharClasses} {pieces : SqlText} {inWord : Bool}

theorem isDigit_of_punctuation (classes : CharClasses) :
    classes.isDigit '?' = false ∧ classes.isDigit '\'' = false ∧ classes.isDigit '.' = false := by
  obtain ⟨hmark, hquote, hpoint⟩ := classes.punctuation
  have hdigit : ∀ c, classes.isWord c = false → classes.isDigit c = false := by
    intro c hc
    by_contra h
    rw [classes.isWord_of_isDigit c (by simpa using h)] at hc
    exact Bool.noConfusion hc
  exact ⟨hdigit _ hmark, hdigit _ hquote, hdigit _ hpoint⟩

/-! ### Strings -/

theorem afterQuoted_of_ne {c : Char} (hc : c ≠ '\'') (s : List Char) :
    afterQuoted (c :: s) = afterQuoted s := by
  conv_lhs => unfold afterQuoted
  exact if_neg hc

theorem afterQuoted_pair (s : List Char) :
    afterQuoted ('\'' :: '\'' :: s) = (afterQuoted s).or (some ('\'' :: s)) := by
  conv_lhs => unfold afterQuoted
  exact if_pos rfl

theorem afterQuoted_close {s : List Char} (h : s.head? ≠ some '\'') :
    afterQuoted ('\'' :: s) = some s := by
  unfold afterQuoted
  rw [if_pos rfl]
  split
  · exact absurd rfl h
  · rfl

/-- What is left after a string is what follows it, unless that is a quote. -/
theorem afterQuoted_quoted (s rest : List Char) (h : rest.head? ≠ some '\'') :
    afterQuoted (s.flatMap (fun c => if c = '\'' then ['\'', '\''] else [c]) ++ '\'' :: rest) =
      some rest := by
  induction s with
  | nil => exact afterQuoted_close h
  | cons c s ih =>
    rw [List.flatMap_cons, List.append_assoc]
    by_cases hc : c = '\''
    · rw [if_pos hc]
      refine (afterQuoted_pair _).trans ?_
      exact congrArg (Option.or · _) ih
    · rw [if_neg hc]
      exact (afterQuoted_of_ne hc _).trans ih

/-- The first character of a text, where the pieces do not start with a string. -/
theorem head?_plain_ne (hends : EndsString pieces) (h : Tame classes inWord pieces) :
    pieces.plain.head? ≠ some '\'' := by
  cases pieces with
  | nil => exact fun h => nomatch h
  | cons piece pieces =>
    cases piece with
    | lit c =>
      intro hhead
      exact h.1 (Option.some.inj hhead)
    | hole l => exact hends.elim

/-- Characters that are no quotes stay. -/
theorem subFrom_quoted_of_not_mem {t : List Char} (h : '\'' ∉ t) (s : List Char)
    (prev : Option Char) : subFrom quotedFound ['?'] 0 prev (t ++ s) =
      t ++ subFrom quotedFound ['?'] 0 (t.getLast?.or prev) s := by
  induction t generalizing prev with
  | nil => rfl
  | cons c t ih =>
    rw [List.mem_cons, not_or] at h
    have hnone : quotedFound prev (c :: (t ++ s)) = none := by
      unfold quotedFound
      split
      · next heq =>
        rw [List.cons.injEq] at heq
        exact absurd heq.1.symm h.1
      · rfl
    have hlast : (c :: t).getLast?.or prev = t.getLast?.or (some c) := by
      rw [List.getLast?_cons]
      cases t.getLast? with
      | none => rfl
      | some d => rfl
    rw [List.cons_append, subFrom_cons_of_none hnone, ih h.2, hlast]
    rfl

theorem PlainNumber.quote_not_mem {t : List Char} (h : PlainNumber classes t) : '\'' ∉ t := by
  obtain ⟨-, hquote, -⟩ := isDigit_of_punctuation classes
  have hdigit : ∀ c, classes.isDigit c = true → '\'' ≠ c := by
    rintro c hc rfl
    rw [hquote] at hc
    cases hc
  obtain ⟨c, whole, fraction, rfl, hc, hwhole, hfraction⟩ := h
  intro hmem
  rcases List.mem_cons.mp hmem with hhead | hmem
  · exact hdigit c hc hhead
  · rcases List.mem_append.mp hmem with hmem | hmem
    · exact hdigit _ (hwhole _ hmem) rfl
    · rcases hfraction with rfl | ⟨d, digits, rfl, hd, hdigits⟩
      · exact absurd hmem List.not_mem_nil
      · rcases List.mem_cons.mp hmem with hpoint | hmem
        · exact absurd hpoint (by decide)
        · rcases List.mem_cons.mp hmem with hhead | hmem
          · exact hdigit d hd hhead
          · exact hdigit _ (hdigits _ hmem) rfl

/-- A plain number ends with a digit. -/
theorem PlainNumber.exists_getLast {t : List Char} (h : PlainNumber classes t) :
    ∃ d, t.getLast? = some d ∧ classes.isDigit d = true := by
  obtain ⟨c, whole, fraction, rfl, hc, hwhole, hfraction⟩ := h
  have hne : c :: (whole ++ fraction) ≠ [] := List.cons_ne_nil _ _
  refine ⟨_, List.getLast?_eq_getLast_of_ne_nil hne, ?_⟩
  rcases hfraction with rfl | ⟨d, digits, rfl, hd, hdigits⟩
  · have hall : ∀ x ∈ c :: (whole ++ []), classes.isDigit x = true := by
      rw [List.append_nil]
      exact List.forall_mem_cons.mpr ⟨hc, hwhole⟩
    exact hall _ (List.getLast_mem hne)
  · have hall : ∀ x ∈ d :: digits, classes.isDigit x = true :=
      List.forall_mem_cons.mpr ⟨hd, hdigits⟩
    have hsplit : c :: (whole ++ '.' :: d :: digits) = (c :: whole ++ ['.']) ++ d :: digits := by
      simp
    simp only [hsplit]
    rw [List.getLast_append_of_ne_nil _ (List.cons_ne_nil d digits)]
    exact hall _ (List.getLast_mem _)

/-- How a literal is written after the strings were replaced. -/
def numbersOnly : SqlLiteral → List Char
  | .str _ => ['?']
  | .num t => t

/-- **The first pattern replaces the strings of a tame text.** -/
theorem subFrom_quotedFound (h : Tame classes inWord pieces) (prev : Option Char) :
    subFrom quotedFound ['?'] 0 prev pieces.plain = Piece.fill numbersOnly pieces := by
  induction pieces generalizing inWord prev with
  | nil => rfl
  | cons piece pieces ih =>
    cases piece with
    | lit c =>
      obtain ⟨hquote, -, -, hrest⟩ := h
      have hc : '\'' ∉ [c] := fun hmem => hquote (List.mem_singleton.mp hmem).symm
      show subFrom quotedFound ['?'] 0 prev ([c] ++ SqlText.plain pieces) = c :: _
      rw [subFrom_quoted_of_not_mem hc, ih hrest]
      rfl
    | hole l =>
      cases l with
      | str t =>
        obtain ⟨⟨s, rfl⟩, hends, hrest⟩ := h
        have hfound : quotedFound prev (quoted s ++ SqlText.plain pieces) =
            some (SqlText.plain pieces) := by
          show afterQuoted (_ ++ ['\''] ++ SqlText.plain pieces) = _
          rw [List.append_assoc, List.singleton_append]
          exact afterQuoted_quoted s _ (head?_plain_ne hends hrest)
        show subFrom quotedFound ['?'] 0 prev (quoted s ++ SqlText.plain pieces) = '?' :: _
        exact (subFrom_match hfound).trans (congrArg ('?' :: ·) (ih hrest _))
      | num t =>
        obtain ⟨-, hplain, -, hrest⟩ := h
        show subFrom quotedFound ['?'] 0 prev (t ++ SqlText.plain pieces) = t ++ _
        rw [subFrom_quoted_of_not_mem hplain.quote_not_mem, ih hrest]

/-! ### Numbers -/

theorem dropWhile_digits {t : List Char} (ht : ∀ c ∈ t, classes.isDigit c = true) {s : List Char}
    (hs : s.head?.any classes.isDigit = false) : (t ++ s).dropWhile classes.isDigit = s := by
  induction t with
  | nil =>
    cases s with
    | nil => rfl
    | cons c s => exact List.dropWhile_cons_of_neg (by simpa using hs)
  | cons c t ih =>
    rw [List.forall_mem_cons] at ht
    rw [List.cons_append, List.dropWhile_cons_of_pos ht.1, ih ht.2]

/-- What follows a number ends it: a word does not go on, nor does a fraction follow. -/
theorem EndsNumber.fill (hends : EndsNumber classes pieces) (f : SqlLiteral → List Char) :
    endsWord classes (Piece.fill f pieces) = true ∧
      afterFraction classes (Piece.fill f pieces) = none ∧
      (Piece.fill f pieces).head?.any classes.isDigit = false := by
  cases pieces with
  | nil => exact ⟨rfl, rfl, rfl⟩
  | cons piece pieces =>
    cases piece with
    | lit c =>
      obtain ⟨hword, hpoint⟩ := hends
      have hdigit : classes.isDigit c = false := by
        by_contra h
        rw [classes.isWord_of_isDigit c (by simpa using h)] at hword
        cases hword
      refine ⟨?_, ?_, hdigit⟩
      · show (!classes.isWord c) = true
        rw [hword]
        rfl
      · show afterFraction classes (c :: Piece.fill f pieces) = none
        unfold afterFraction
        split
        · next heq =>
          rw [List.cons.injEq] at heq
          exact absurd heq.1 hpoint
        · rfl
    | hole l => exact hends.elim

/-- The pattern for numbers matches a plain number, where it stands apart. -/
theorem numberFound_plain {t : List Char} (h : PlainNumber classes t) {prev : Option Char}
    (hprev : prev.any classes.isWord = false) (hends : EndsNumber classes pieces)
    (f : SqlLiteral → List Char) :
    numberFound classes prev (t ++ Piece.fill f pieces) = some (Piece.fill f pieces) := by
  obtain ⟨hword, hfraction, hdigit⟩ := hends.fill f
  generalize Piece.fill f pieces = rest at hword hfraction hdigit
  obtain ⟨-, -, hpoint⟩ := isDigit_of_punctuation classes
  obtain ⟨c, whole, fraction, rfl, hc, hwhole, hcases⟩ := h
  rw [List.cons_append, List.append_assoc]
  refine (if_pos (show (classes.isDigit c && !prev.any classes.isWord) = true from ?_)).trans ?_
  · rw [hc, hprev]
    rfl
  show ((afterFraction classes ((whole ++ (fraction ++ rest)).dropWhile classes.isDigit)).filter
      (endsWord classes)).or ((some ((whole ++ (fraction ++ rest)).dropWhile
        classes.isDigit)).filter (endsWord classes)) = some rest
  rcases hcases with rfl | ⟨d, digits, rfl, hd, hdigits⟩
  · rw [List.nil_append, dropWhile_digits hwhole hdigit, hfraction, Option.filter_some, hword]
    rfl
  · have hhead : (('.' :: d :: digits) ++ rest).head?.any classes.isDigit = false := hpoint
    rw [dropWhile_digits hwhole hhead]
    have hafter : afterFraction classes (('.' :: d :: digits) ++ rest) = some rest := by
      show (if classes.isDigit d then some ((digits ++ rest).dropWhile classes.isDigit) else none) =
        some rest
      rw [if_pos hd, dropWhile_digits hdigits hdigit]
    rw [hafter, Option.filter_some, hword]
    rfl

/-- **The second pattern replaces the numbers of a tame text**, where its strings were replaced. -/
theorem subFrom_numberFound (prev : Option Char) (h : Tame classes (prev.any classes.isWord) pieces) :
    subFrom (numberFound classes) ['?'] 0 prev (Piece.fill numbersOnly pieces) =
      pieces.masked := by
  induction pieces generalizing prev with
  | nil => rfl
  | cons piece pieces ih =>
    cases piece with
    | lit c =>
      obtain ⟨-, -, hword, hrest⟩ := h
      have hnone : numberFound classes prev (c :: Piece.fill numbersOnly pieces) = none := by
        unfold numberFound
        refine if_neg fun hand => ?_
        rw [Bool.and_eq_true] at hand
        rw [hword hand.1] at hand
        exact Bool.noConfusion hand.2
      show subFrom _ ['?'] 0 prev (c :: Piece.fill numbersOnly pieces) = c :: _
      rw [subFrom_cons_of_none hnone]
      exact congrArg (c :: ·) (ih (some c) hrest)
    | hole l =>
      cases l with
      | str t =>
        obtain ⟨-, -, hrest⟩ := h
        obtain ⟨hmark, -⟩ := isDigit_of_punctuation classes
        have hnone : numberFound classes prev ('?' :: Piece.fill numbersOnly pieces) = none := by
          refine if_neg fun hand => ?_
          rw [hmark] at hand
          exact Bool.noConfusion hand
        show subFrom _ ['?'] 0 prev ('?' :: Piece.fill numbersOnly pieces) = '?' :: _
        rw [subFrom_cons_of_none hnone]
        refine congrArg ('?' :: ·) (ih (some '?') ?_)
        show Tame classes (classes.isWord '?') pieces
        rw [classes.punctuation.1]
        exact hrest
      | num t =>
        obtain ⟨hprev, hplain, hends, hrest⟩ := h
        have hfound := @numberFound_plain classes pieces t hplain prev hprev hends numbersOnly
        obtain ⟨d, hlast, hd⟩ := hplain.exists_getLast
        obtain ⟨c, whole, fraction, rfl, -⟩ := hplain
        show subFrom _ ['?'] 0 prev (c :: (whole ++ fraction ++ Piece.fill numbersOnly pieces)) =
          '?' :: _
        refine (subFrom_match hfound).trans (congrArg ('?' :: ·) (ih _ ?_))
        have hprev' : (whole ++ fraction).getLast?.or (some c) = some d := by
          rw [List.getLast?_cons] at hlast
          cases hl : (whole ++ fraction).getLast? with
          | none =>
            rw [hl] at hlast
            exact hlast
          | some d' =>
            rw [hl] at hlast
            exact hlast
        rw [hprev']
        show Tame classes (classes.isWord d) pieces
        rw [classes.isWord_of_isDigit d hd]
        exact hrest

/-! ### The text that is hashed -/

/-- **What is hashed of a tame text**: the text with a mark for each literal. -/
theorem canonical_plain (h : Tame classes false pieces) :
    canonical classes pieces.plain = pieces.masked := by
  rw [canonical, sub, sub, subFrom_quotedFound h]
  exact subFrom_numberFound none h

theorem masked_eq_fill (pieces : SqlText) :
    pieces.masked = Piece.fill (fun _ => ['?']) pieces.skeleton := by
  induction pieces with
  | nil => rfl
  | cons piece pieces ih =>
    cases piece with
    | lit c => exact congrArg (c :: ·) ih
    | hole l => exact congrArg ('?' :: ·) ih

theorem Tame.tail {piece : Piece Char SqlLiteral} (h : Tame classes inWord (piece :: pieces)) :
    ∃ inWord', Tame classes inWord' pieces := by
  cases piece with
  | lit c => exact ⟨_, h.2.2.2⟩
  | hole l =>
    cases l with
    | str t => exact ⟨_, h.2.2⟩
    | num t => exact ⟨_, h.2.2.2⟩

/-- Marks and characters that are none can be told apart. -/
theorem skeleton_eq_of_masked_eq {pieces' : SqlText} {inWord' : Bool}
    (h : Tame classes inWord pieces) (h' : Tame classes inWord' pieces')
    (hmasked : pieces.masked = pieces'.masked) : pieces.skeleton = pieces'.skeleton := by
  induction pieces generalizing inWord inWord' pieces' with
  | nil =>
    cases pieces' with
    | nil => rfl
    | cons piece' pieces' =>
      cases piece' with
      | lit c => cases hmasked
      | hole l => cases hmasked
  | cons piece pieces ih =>
    obtain ⟨w, htail⟩ := h.tail
    cases pieces' with
    | nil =>
      cases piece with
      | lit c => cases hmasked
      | hole l => cases hmasked
    | cons piece' pieces' =>
      obtain ⟨w', htail'⟩ := h'.tail
      cases piece with
      | lit c =>
        cases piece' with
        | lit c' =>
          obtain ⟨rfl, hrest⟩ := List.cons.inj hmasked
          exact congrArg (Piece.lit c :: ·) (ih htail htail' hrest)
        | hole l' => exact absurd (List.cons.inj hmasked).1 h.2.1
      | hole l =>
        cases piece' with
        | lit c' => exact absurd (List.cons.inj hmasked).1.symm h'.2.1
        | hole l' =>
          exact congrArg (Piece.hole () :: ·) (ih htail htail' (List.cons.inj hmasked).2)

end Proofs

/-- **Fingerprints abstract the literals of tame texts, and nothing else.** Two trees that differ in
the values of literals only have the same fingerprint, and where the texts differ outside the
literals what is hashed differs. -/
theorem fingerprint_abstracts {Tree : Type} (classes : CharClasses)
    (sha256 : List UInt8 → String) (generate : Tree → SqlText) (sameButLiterals : Tree → Tree → Prop)
    (hgenerate : ∀ t t', sameButLiterals t t' → (generate t).skeleton = (generate t').skeleton)
    {t t' : Tree} (ht : Tame classes false (generate t)) (ht' : Tame classes false (generate t')) :
    (sameButLiterals t t' → _fingerprint classes sha256 (generate t).plain =
      _fingerprint classes sha256 (generate t').plain) ∧
    ((generate t).skeleton ≠ (generate t').skeleton →
      canonical classes (generate t).plain ≠ canonical classes (generate t').plain) := by
  rw [_fingerprint, _fingerprint, canonical_plain ht, canonical_plain ht']
  refine ⟨fun hsame => ?_, fun hne hmasked => hne (skeleton_eq_of_masked_eq ht ht' hmasked)⟩
  rw [masked_eq_fill, masked_eq_fill, hgenerate t t' hsame]

/-! ## Two texts -/

/-- The characters of ASCII. -/
def asciiClasses : CharClasses where
  isDigit c := c.isDigit
  isWord c := c.isDigit || c.isAlpha || c = '_'
  isWord_of_isDigit c h := by
    rw [h]
    rfl
  punctuation := by decide

/-- `id = ` and a number. -/
def idEquals (number : String) : SqlText :=
  "id = ".toList.map .lit ++ [.hole (.num number.toList)]

/-- `id = 7` and `id = 8`. -/
theorem fingerprint_abstracts_seven :
    _fingerprint asciiClasses (fun _ => "") (idEquals "7").plain =
      _fingerprint asciiClasses (fun _ => "") (idEquals "8").plain := by
  have htame : ∀ number, number = "7" ∨ number = "8" →
      Tame asciiClasses false (idEquals number) := by
    have hnumber : ∀ c, asciiClasses.isDigit c = true →
        Tame asciiClasses false ("id = ".toList.map .lit ++ [.hole (.num [c])]) := by
      intro c hc
      refine ⟨by decide, by decide, by decide, by decide, by decide, by decide, by decide, by decide,
        by decide, by decide, by decide, by decide, by decide, by decide, by decide, rfl, ?_,
        trivial, trivial⟩
      exact ⟨c, [], [], rfl, hc, fun _ h => absurd h List.not_mem_nil, .inl rfl⟩
    rintro number (rfl | rfl)
    · exact hnumber '7' rfl
    · exact hnumber '8' rfl
  exact (fingerprint_abstracts asciiClasses (fun _ => "") idEquals (fun _ _ => True)
    (fun _ _ _ => rfl) (htame "7" (.inl rfl)) (htame "8" (.inr rfl))).1 trivial

/-- A column with a quoted name. -/
def quotedColumn (name : String) : SqlText := ("SELECT \"" ++ name ++ "\"").toList.map .lit

/-- **A literal that stays, and a name that goes**: a number with an exponent is kept in the text
that is hashed, and a digit in a quoted name is not. -/
theorem fingerprint_counterexample :
    ((idEquals "7").skeleton = (idEquals "1e5").skeleton ∧
      canonical asciiClasses (idEquals "7").plain = "id = ?".toList ∧
      canonical asciiClasses (idEquals "1e5").plain = "id = 1e5".toList ∧
      _fingerprint asciiClasses (fun bytes => toString bytes.length) (idEquals "7").plain ≠
        _fingerprint asciiClasses (fun bytes => toString bytes.length) (idEquals "1e5").plain) ∧
    ((quotedColumn "a 1").skeleton ≠ (quotedColumn "a 2").skeleton ∧
      canonical asciiClasses (quotedColumn "a 1").plain =
        canonical asciiClasses (quotedColumn "a 2").plain) := by
  decide

end OpenLaunch.Tools
