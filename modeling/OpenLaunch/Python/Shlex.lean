import OpenLaunch.Python.Blank
import OpenLaunch.Python.Scanners

/-! # Shell-style tokens

The POSIX mode of the `shlex` module with `whitespace_split`: a tokeniser that reads one character
at a time. It is given by what a character does in a mode: which mode comes next, and which
characters it adds to the current token. With `bars`, a bar that is neither quoted nor escaped is
punctuation and ends a command (`punctuation_chars = '|'`); without, it is a character like others.

What the tokens hold together is `added`, whatever their boundaries; most facts about two ways to
read a text need no more than that. -/

namespace Python.Shlex

/-! ## The tokeniser -/

/-- `shlex.whitespace`. -/
def isBlank (c : Char) : Bool := c = ' ' || c = '\t' || c = '\r' || c = '\n'

/-- The states of the tokeniser. -/
inductive Mode
  /-- Between tokens. -/
  | blank
  /-- In a token. -/
  | word
  /-- In single quotes. -/
  | single
  /-- In double quotes. -/
  | double
  /-- After a backslash. -/
  | escape
  /-- After a backslash in double quotes. -/
  | escapeDouble
  deriving DecidableEq, Repr

namespace Mode

/-- Neither quoted nor escaped: here a blank or a bar ends a token, and the text may end. -/
def isOpen : Mode → Bool
  | blank => true
  | word => true
  | _ => false

/-- The mode after a character that does not end a token. -/
def next : Mode → Char → Mode
  | single, c => if c = '\'' then word else single
  | double, c => if c = '"' then word else if c = '\\' then escapeDouble else double
  | escape, _ => word
  | escapeDouble, _ => double
  | _, c => if c = '\\' then escape else if c = '\'' then single else if c = '"' then double
      else word

/-- What a character that does not end a token adds to it. In double quotes a backslash is kept
unless it stands before a double quote or a backslash. -/
def adds : Mode → Char → List Char
  | single, c => if c = '\'' then [] else [c]
  | double, c => if c = '"' ∨ c = '\\' then [] else [c]
  | escape, c => [c]
  | escapeDouble, c => if c = '"' ∨ c = '\\' then [c] else ['\\', c]
  | _, c => if c = '\\' ∨ c = '\'' ∨ c = '"' then [] else [c]

/-- The token that ends here. -/
def pending : Mode → List Char → List (List Char)
  | blank, _ => []
  | _, token => [token]

end Mode

/-- The tokens of one command. -/
abbrev Command := List (List Char)

/-- The tokens of the rest of a text: those of the current command, and the commands after it.
`none` where a quotation is not closed or a backslash ends the text. -/
def lex (bars : Bool) : Mode → List Char → List Char → Option (Command × List Command)
  | mode, token, [] => if mode.isOpen then some (mode.pending token, []) else none
  | mode, token, c :: cs =>
    if mode.isOpen && bars && c = '|' then
      (lex bars .blank [] cs).map fun r => (mode.pending token, r.1 :: r.2)
    else if mode.isOpen && isBlank c then
      (lex bars .blank [] cs).map fun r => (mode.pending token ++ r.1, r.2)
    else lex bars (mode.next c) (token ++ mode.adds c) cs

/-- `shlex.split(s)`; `none` where it raises `ValueError`. -/
def split (cs : List Char) : Option Command := (lex false .blank [] cs).map Prod.fst

/-- The commands of a pipeline, without those that have no tokens. -/
def pipeline (cs : List Char) : Option (List Command) :=
  (lex true .blank [] cs).map fun r => (r.1 :: r.2).filter fun command => command ≠ []

example : pipeline "a 'b|c' | d\\|e".toList =
    some [["a".toList, "b|c".toList], ["d|e".toList]] := by decide

/-! ## Modes and characters of a text -/

/-- The mode after a text. -/
def run (mode : Mode) (cs : List Char) : Mode :=
  cs.foldl (fun mode c => if mode.isOpen && isBlank c then .blank else mode.next c) mode

/-- What a text adds to tokens. -/
def added : Mode → List Char → List Char
  | _, [] => []
  | mode, c :: cs =>
    if mode.isOpen && isBlank c then added .blank cs else mode.adds c ++ added (mode.next c) cs

section

variable {mode : Mode} {c : Char} {token as bs cs : List Char}

theorem Mode.next_ne_blank (mode : Mode) (c : Char) : mode.next c ≠ .blank := by
  unfold Mode.next
  grind

theorem run_nil : run mode [] = mode := rfl

theorem run_cons_blank (h : (mode.isOpen && isBlank c) = true) :
    run mode (c :: cs) = run .blank cs := by
  rw [run, List.foldl_cons, if_pos h]
  rfl

theorem run_cons (h : ¬ (mode.isOpen && isBlank c) = true) :
    run mode (c :: cs) = run (mode.next c) cs := by
  rw [run, List.foldl_cons, if_neg h]
  rfl

theorem run_append : run mode (as ++ bs) = run (run mode as) bs := List.foldl_append

theorem added_append : added mode (as ++ bs) = added mode as ++ added (run mode as) bs := by
  induction as generalizing mode with
  | nil => rfl
  | cons c as ih =>
    rw [List.cons_append, added, added]
    by_cases h : (mode.isOpen && isBlank c) = true
    · rw [if_pos h, if_pos h, ih, run_cons_blank h]
    · rw [if_neg h, if_neg h, ih, run_cons h, List.append_assoc]

/-- **The tokens of a text hold what it adds**, and there are tokens exactly if it ends outside of
quotations and escapes. -/
theorem lex_eq (hblank : mode = .blank → token = []) :
    lex false mode token cs = none ∧ (run mode cs).isOpen = false ∨
      ∃ ts, lex false mode token cs = some (ts, []) ∧ (run mode cs).isOpen = true ∧
        ts.flatten = token ++ added mode cs := by
  induction cs generalizing mode token with
  | nil =>
    rw [lex, run_nil, added, List.append_nil]
    cases mode with
    | blank => exact .inr ⟨[], rfl, rfl, (hblank rfl).symm⟩
    | word => exact .inr ⟨[token], rfl, rfl, by simp⟩
    | single | double | escape | escapeDouble => exact .inl ⟨rfl, rfl⟩
  | cons c cs ih =>
    rw [lex, added]
    simp only [Bool.and_false, Bool.false_and, if_false, Bool.false_eq_true]
    by_cases h : (mode.isOpen && isBlank c) = true
    · rw [if_pos h, if_pos h, run_cons_blank h]
      rcases @ih .blank [] (fun _ => rfl) with ⟨hnone, hrun⟩ | ⟨ts, hsome, hrun, hflat⟩
      · exact .inl ⟨by rw [hnone]; rfl, hrun⟩
      · refine .inr ⟨mode.pending token ++ ts, by rw [hsome]; rfl, hrun, ?_⟩
        rw [List.flatten_append, hflat, List.nil_append]
        cases mode with
        | blank => rw [hblank rfl]; rfl
        | word => simp [Mode.pending]
        | single | double | escape | escapeDouble => simp [Mode.isOpen] at h
    · rw [if_neg h, if_neg h, run_cons h]
      rcases ih (fun hnext => absurd hnext (Mode.next_ne_blank mode c)) with
        ⟨hnone, hrun⟩ | ⟨ts, hsome, hrun, hflat⟩
      · exact .inl ⟨hnone, hrun⟩
      · exact .inr ⟨ts, hsome, hrun, by rw [hflat, List.append_assoc]⟩

/-- **`shlex.split`**: it raises where the text ends in a quotation or behind a backslash, and its
tokens hold what the text adds. -/
theorem split_eq (cs : List Char) :
    split cs = none ∧ (run .blank cs).isOpen = false ∨
      ∃ ts, split cs = some ts ∧ (run .blank cs).isOpen = true ∧ ts.flatten = added .blank cs := by
  rcases @lex_eq .blank [] cs (fun _ => rfl) with ⟨hnone, hrun⟩ | ⟨ts, hsome, hrun, hflat⟩
  · exact .inl ⟨by rw [split, hnone]; rfl, hrun⟩
  · exact .inr ⟨ts, by rw [split, hsome]; rfl, hrun, hflat⟩

theorem isOpen_of_split {ts : Command} (h : split cs = some ts) :
    (run .blank cs).isOpen = true ∧ ts.flatten = added .blank cs := by
  rcases split_eq cs with ⟨hnone, -⟩ | ⟨ts', hsome, hrun, hflat⟩
  · rw [hnone] at h
    exact nomatch h
  · rw [hsome, Option.some.injEq] at h
    exact ⟨hrun, h ▸ hflat⟩

/-- In a token there is a token. -/
theorem lex_word (hmode : mode ≠ .blank) {ts : Command} {rest : List Command}
    (h : lex false mode token cs = some (ts, rest)) : ts ≠ [] := by
  have hpending : mode.pending token = [token] := by
    cases mode with
    | blank => exact absurd rfl hmode
    | word | single | double | escape | escapeDouble => rfl
  induction cs generalizing mode token ts with
  | nil =>
    rw [lex] at h
    split_ifs at h
    rw [Option.some.injEq, Prod.mk.injEq, hpending] at h
    rw [← h.1]
    exact List.cons_ne_nil _ _
  | cons c cs ih =>
    rw [lex, Bool.and_false, Bool.false_and, if_neg Bool.false_ne_true] at h
    split_ifs at h with hc
    · obtain ⟨x, -, hx⟩ := Option.map_eq_some_iff.mp h
      rw [Prod.mk.injEq, hpending] at hx
      rw [← hx.1]
      exact List.cons_ne_nil _ _
    · refine ih (Mode.next_ne_blank mode c) h ?_
      cases hnext : mode.next c with
      | blank => exact absurd hnext (Mode.next_ne_blank mode c)
      | word | single | double | escape | escapeDouble => rfl

/-- Only a blank text has no tokens. -/
theorem isBlank_of_split_nil (h : split cs = some []) : ∀ c ∈ cs, isBlank c = true := by
  induction cs with
  | nil => exact nofun
  | cons c cs ih =>
    rw [split, lex, Bool.and_false, Bool.false_and, if_neg Bool.false_ne_true] at h
    split_ifs at h with hc
    · rw [Option.map_map] at h
      intro d hd
      rcases List.mem_cons.mp hd with rfl | hd
      · exact hc
      · exact ih h d hd
    · obtain ⟨⟨ts, rest⟩, hlex, rfl⟩ := Option.map_eq_some_iff.mp h
      exact absurd rfl (lex_word (Mode.next_ne_blank _ c) hlex)

/-! ## Open modes -/

theorem next_open (h : mode.isOpen = true) (c : Char) : mode.next c = Mode.next .blank c := by
  cases mode with
  | blank | word => rfl
  | single | double | escape | escapeDouble => exact absurd h Bool.false_ne_true

theorem adds_open (h : mode.isOpen = true) (c : Char) : mode.adds c = Mode.adds .blank c := by
  cases mode with
  | blank | word => rfl
  | single | double | escape | escapeDouble => exact absurd h Bool.false_ne_true

/-- In an open mode a text goes on as from the start. -/
theorem run_open (h : mode.isOpen = true) (c : Char) (cs : List Char) :
    run mode (c :: cs) = run .blank (c :: cs) := by
  rw [run, run, List.foldl_cons, List.foldl_cons, next_open h, h]
  rfl

theorem isOpen_run_open (h : mode.isOpen = true) (cs : List Char) :
    (run mode cs).isOpen = (run .blank cs).isOpen := by
  cases cs with
  | nil => exact h
  | cons c cs => rw [run_open h]

theorem added_open (h : mode.isOpen = true) (cs : List Char) :
    added mode cs = added .blank cs := by
  cases cs with
  | nil => rfl
  | cons c cs =>
    rw [added, added, next_open h, adds_open h, h]
    rfl

/-! ## Bars -/

theorem count_adds (mode : Mode) (c : Char) : (mode.adds c).count '|' = [c].count '|' := by
  unfold Mode.adds
  grind

/-- A bar that is no punctuation is kept. -/
theorem count_added (mode : Mode) (cs : List Char) : (added mode cs).count '|' = cs.count '|' := by
  induction cs generalizing mode with
  | nil => rfl
  | cons c cs ih =>
    rw [added, List.count_cons]
    split_ifs with h hc hc
    · rw [beq_iff_eq] at hc
      subst hc
      rw [Bool.and_eq_true] at h
      exact absurd h.2 (by decide)
    · rw [ih, Nat.add_zero]
    · rw [List.count_append, ih, count_adds, beq_iff_eq.mp hc, List.count_singleton_self]
      omega
    · rw [List.count_append, ih, count_adds, List.count_cons, if_neg hc, List.count_nil]
      omega

/-! ## Blanks and white space -/

/-- Blanks end the current token, and no more. -/
theorem lex_blanks (hbs : ∀ c ∈ bs, isBlank c = true) (h : mode.isOpen = true) :
    lex false mode token bs = some (mode.pending token, []) := by
  induction bs generalizing mode token with
  | nil => rw [lex, if_pos h]
  | cons c bs ih =>
    have hc : isBlank c = true := hbs c List.mem_cons_self
    have hrest := @ih .blank [] (fun c' hc' => hbs c' (List.mem_cons_of_mem _ hc')) rfl
    simp only [lex, h, hc, hrest, Bool.and_false, Bool.false_and, Bool.and_true, if_true, if_false,
      Bool.false_eq_true, Option.map_some, Mode.pending, List.append_nil]

/-- Blanks behind a text that ends outside of quotations and escapes. -/
theorem lex_append_blanks (hbs : ∀ c ∈ bs, isBlank c = true) (h : (run mode cs).isOpen = true) :
    lex false mode token (cs ++ bs) = lex false mode token cs := by
  induction cs generalizing mode token with
  | nil =>
    have hopen : mode.isOpen = true := h
    rw [List.nil_append, lex_blanks hbs hopen, lex, if_pos hopen]
  | cons c cs ih =>
    rw [List.cons_append, lex, lex]
    simp only [Bool.and_false, Bool.false_and, if_false, Bool.false_eq_true]
    by_cases hc : (mode.isOpen && isBlank c) = true
    · rw [run_cons_blank hc] at h
      rw [if_pos hc, if_pos hc, ih h]
    · rw [run_cons hc] at h
      rw [if_neg hc, if_neg hc, ih h]

/-- Blanks before a text. -/
theorem split_blanks_append (has : ∀ c ∈ as, isBlank c = true) : split (as ++ cs) = split cs := by
  induction as with
  | nil => rfl
  | cons c as ih =>
    have hc : isBlank c = true := has c List.mem_cons_self
    rw [← ih fun c' hc' => has c' (List.mem_cons_of_mem _ hc'), List.cons_append, split, split, lex]
    simp only [Mode.isOpen, hc, Bool.and_false, Bool.false_and, Bool.and_true, if_true, if_false,
      Bool.false_eq_true, Mode.pending, List.nil_append, Option.map_map]
    rfl

/-- Blanks behind a text that ends outside of quotations and escapes. -/
theorem split_append_blanks (hbs : ∀ c ∈ bs, isBlank c = true)
    (h : (run .blank cs).isOpen = true) : split (cs ++ bs) = split cs := by
  rw [split, split, lex_append_blanks hbs h]

theorem isSpace_of_isBlank (h : isBlank c = true) : isSpace c = true := by
  rw [isBlank] at h
  simp only [Bool.or_eq_true, decide_eq_true_eq] at h
  rcases h with ((rfl | rfl) | rfl) | rfl
  · decide
  · decide
  · decide
  · decide

/-- White space neither quotes nor escapes. -/
theorem next_blank_of_isSpace (h : isSpace c = true) :
    Mode.next .blank c = .word ∧ Mode.adds .blank c = [c] := by
  have hne : ∀ d : Char, isSpace d = false → c ≠ d := by
    rintro d hd rfl
    exact Bool.false_ne_true (hd.symm.trans h)
  have hslash : c ≠ '\\' := hne _ (by decide)
  have hsingle : c ≠ '\'' := hne _ (by decide)
  have hdouble : c ≠ '"' := hne _ (by decide)
  constructor
  · rw [Mode.next]
    · rw [if_neg hslash, if_neg hsingle, if_neg hdouble]
    all_goals exact nofun
  · rw [Mode.adds]
    · rw [if_neg (by simp [hslash, hsingle, hdouble])]
    all_goals exact nofun

/-- White space outside of quotations and escapes: what is no blank is added. -/
theorem run_white (hbs : Blank bs) (h : mode.isOpen = true) :
    (run mode bs).isOpen = true ∧ added mode bs = bs.filter fun c => !isBlank c := by
  induction bs generalizing mode with
  | nil => exact ⟨h, rfl⟩
  | cons c bs ih =>
    have hrest : Blank bs := fun c' hc' => hbs c' (List.mem_cons_of_mem _ hc')
    obtain ⟨hnext, hadds⟩ := next_blank_of_isSpace (hbs c List.mem_cons_self)
    by_cases hc : isBlank c = true
    · obtain ⟨hopen, hadded⟩ := ih hrest (show Mode.isOpen .blank = true from rfl)
      rw [run_cons_blank (by rw [h, hc]; rfl), added, if_pos (by rw [h, hc]; rfl),
        List.filter_cons_of_neg (by rw [hc]; decide)]
      exact ⟨hopen, hadded⟩
    · obtain ⟨hopen, hadded⟩ := ih hrest (show Mode.isOpen .word = true from rfl)
      have hneg : ¬ (mode.isOpen && isBlank c) = true := by rwa [h, Bool.true_and]
      rw [run_cons hneg, added, if_neg hneg, next_open h, adds_open h, hnext, hadds, hadded,
        List.filter_cons_of_pos (by simpa using hc)]
      exact ⟨hopen, rfl⟩

/-- White space closes no quotation. -/
theorem run_white_quoted (hbs : Blank bs) (h : mode = .single ∨ mode = .double) :
    (run mode bs).isOpen = false := by
  induction bs with
  | nil => rcases h with rfl | rfl <;> rfl
  | cons c bs ih =>
    have hrest := ih fun c' hc' => hbs c' (List.mem_cons_of_mem _ hc')
    have hne : ∀ d : Char, isSpace d = false → c ≠ d := by
      rintro d hd rfl
      exact Bool.false_ne_true (hd.symm.trans (hbs c List.mem_cons_self))
    rcases h with rfl | rfl
    · rw [run_cons (by simp [Mode.isOpen]), Mode.next, if_neg (hne _ (by decide))]
      exact hrest
    · rw [run_cons (by simp [Mode.isOpen]), Mode.next, if_neg (hne _ (by decide)),
        if_neg (hne _ (by decide))]
      exact hrest

/-- A text that white space brings out of quotations and escapes was out of them, or its last
character escapes white space. -/
theorem open_or_escape (hbs : Blank bs) (h : (run mode bs).isOpen = true) :
    mode.isOpen = true ∨ mode = .escape ∧ bs ≠ [] := by
  cases mode with
  | blank | word => exact .inl rfl
  | single =>
    rw [run_white_quoted hbs (.inl rfl)] at h
    exact nomatch h
  | double =>
    rw [run_white_quoted hbs (.inr rfl)] at h
    exact nomatch h
  | escape =>
    refine .inr ⟨rfl, ?_⟩
    rintro rfl
    exact nomatch h
  | escapeDouble =>
    cases bs with
    | nil => exact nomatch h
    | cons c bs =>
      have hrun : run .escapeDouble (c :: bs) = run .double bs := run_cons (by simp [Mode.isOpen])
      have hrest : Blank bs := fun c' hc' => hbs c' (List.mem_cons_of_mem _ hc')
      rw [hrun, run_white_quoted hrest (.inr rfl)] at h
      exact nomatch h

end

/-! ## The bars that end a command -/

/-- The tokeniser as a scanner for bars that are neither quoted nor escaped. -/
def posix : Scanner Char '|' Mode where
  start := .blank
  next mode c := if mode.isOpen && isBlank c then .blank else mode.next c
  isOpen := Mode.isOpen
  restart mode h cs := by
    have hbar : ¬ (mode.isOpen && isBlank '|') = true := by
      simp [show isBlank '|' = false by decide]
    have hword : (if mode.isOpen && isBlank '|' then .blank else mode.next '|') = Mode.word := by
      rw [if_neg hbar, next_open h]
      decide
    rw [hword]
    exact isOpen_run_open rfl cs

section

variable {mode : Mode} {token p r cs : List Char} {ts : Command}

theorem posix_run : posix.run mode cs = run mode cs := rfl

/-- Without a bar that counts, there is one command. -/
theorem lex_noCut (h : posix.NoCut mode cs) : lex true mode token cs = lex false mode token cs := by
  induction cs generalizing mode token with
  | nil => rfl
  | cons c cs ih =>
    have hbar : ¬ (mode.isOpen && true && decide (c = '|')) = true := by
      intro hc
      simp only [Bool.and_true, Bool.and_eq_true, decide_eq_true_eq] at hc
      exact h.head ⟨hc.2, hc.1⟩
    have htail := h.tail
    rw [lex, lex, if_neg hbar, Bool.and_false, Bool.false_and, if_neg Bool.false_ne_true]
    by_cases hc : (mode.isOpen && isBlank c) = true
    · have hnext : posix.next mode c = .blank := if_pos hc
      rw [hnext] at htail
      rw [if_pos hc, if_pos hc, ih htail]
    · have hnext : posix.next mode c = mode.next c := if_neg hc
      rw [hnext] at htail
      rw [if_neg hc, if_neg hc, ih htail]

/-- The first bar that counts ends the first command. -/
theorem lex_cut (hp : posix.NoCut mode p) (hopen : (run mode p).isOpen = true)
    (hts : lex false mode token p = some (ts, [])) :
    lex true mode token (p ++ '|' :: r) =
      (lex true .blank [] r).map fun x => (ts, x.1 :: x.2) := by
  induction p generalizing mode token ts with
  | nil =>
    have hmode : mode.isOpen = true := hopen
    rw [lex, if_pos hmode, Option.some.injEq, Prod.mk.injEq] at hts
    rw [List.nil_append, lex, if_pos (by rw [hmode]; rfl), hts.1]
  | cons c p ih =>
    have hbar : ¬ (mode.isOpen && true && decide (c = '|')) = true := by
      intro hc
      simp only [Bool.and_true, Bool.and_eq_true, decide_eq_true_eq] at hc
      exact hp.head ⟨hc.2, hc.1⟩
    have htail := hp.tail
    rw [lex, Bool.and_false, Bool.false_and, if_neg Bool.false_ne_true] at hts
    rw [List.cons_append, lex, if_neg hbar]
    by_cases hc : (mode.isOpen && isBlank c) = true
    · have hnext : posix.next mode c = .blank := if_pos hc
      rw [hnext] at htail
      rw [run_cons_blank hc] at hopen
      rw [if_pos hc] at hts ⊢
      obtain ⟨⟨ts', rs⟩, hts', heq⟩ := Option.map_eq_some_iff.mp hts
      rw [Prod.mk.injEq] at heq
      obtain ⟨rfl, rfl⟩ := heq
      rw [ih htail hopen hts', Option.map_map]
      rfl
    · have hnext : posix.next mode c = mode.next c := if_neg hc
      rw [hnext] at htail
      rw [run_cons hc] at hopen
      rw [if_neg hc] at hts ⊢
      exact ih htail hopen hts

/-- **A pipeline by its pieces**: the commands are the tokens of the pieces between the bars that
count, in order. -/
theorem pipeline_eq (cs : List Char) :
    pipeline cs = ((posix.cut cs).mapM split).map fun commands =>
      commands.filter fun command => command ≠ [] := by
  have hlex : (lex true .blank [] cs).map (fun x => x.1 :: x.2) = (posix.cut cs).mapM split := by
    induction cs using Scanner.induction_cuts posix posix with
    | last cs h _ =>
      have hstart : posix.NoCut .blank cs := h
      rw [Scanner.cut_last h, lex_noCut hstart]
      rcases @lex_eq .blank [] cs (fun _ => rfl) with ⟨hnone, -⟩ | ⟨ts, hsome, -, -⟩
      · simp [split, hnone]
      · simp [split, hsome]
    | both p r hp _ hopen _ ih =>
      have hstart : posix.NoCut .blank p := hp
      rw [Scanner.cut_open hp hopen]
      rcases @lex_eq .blank [] p (fun _ => rfl) with ⟨-, hclosed⟩ | ⟨ts, hsome, -, -⟩
      · exact absurd (hclosed.symm.trans hopen) Bool.false_ne_true
      · have hsplit : split p = some ts := by rw [split, hsome]; rfl
        rw [lex_cut hstart hopen hsome, List.mapM_cons, hsplit, ← ih, Option.map_map]
        cases lex true .blank [] r <;> rfl
    | left p r _ _ hopen hnot => exact absurd hopen hnot
    | right p r _ _ hnot hopen => exact absurd hopen hnot
  rw [← hlex, Option.map_map]
  rfl

end

end Python.Shlex
