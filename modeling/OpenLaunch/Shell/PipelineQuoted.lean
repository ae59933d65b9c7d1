import OpenLaunch.Shell.Pipeline
import Mathlib

/-! # Quoted pipelines

A token that `shlex.quote` has quoted is read back by `shlex` and leaves the scanner of the code
outside of quotes. So a pipeline that is written from lists of tokens is read back, although other
pipelines are not read as the shell reads them. -/

namespace OpenLaunch.Shell

open Python Python.Shlex

/-! ## Quoting -/

/-- A character that `shlex.quote` does not take for unsafe. -/
def isSafe (c : Char) : Bool := c.isAlphanum || "_@%+=:,./-".toList.contains c

/-- A character in single quotes: a single quote stands in double quotes of its own. -/
def quoteChar (c : Char) : List Char := if c = '\'' then "'\"'\"'".toList else [c]

/-- `shlex.quote`. -/
def quote (s : List Char) : List Char :=
  if s = [] then "''".toList
  else if s.all isSafe then s
  else '\'' :: s.flatMap quoteChar ++ ['\'']

/-- The text of a command with its tokens quoted. -/
def commandText (command : Command) : List Char := [' '].intercalate (command.map quote)

/-- The text of a pipeline with all tokens quoted. -/
def pipelineText (commands : List Command) : List Char :=
  " | ".toList.intercalate (commands.map commandText)

/-! ## Safe characters -/

section

variable {c : Char} {s token rest : List Char} {mode : Mode}

/-- Safe characters are between the percent sign and `z`. -/
theorem range_of_isSafe (h : isSafe c = true) : 37 ≤ c.toNat ∧ c.toNat ≤ 122 := by
  rw [isSafe, Bool.or_eq_true] at h
  rcases h with h | h
  · simp only [Char.isAlphanum, Char.isAlpha, Char.isUpper, Char.isLower, Char.isDigit,
      Bool.or_eq_true, Bool.and_eq_true, decide_eq_true_eq, UInt32.le_iff_toNat_le, ge_iff_le] at h
    change ((65 ≤ c.toNat ∧ c.toNat ≤ 90) ∨ (97 ≤ c.toNat ∧ c.toNat ≤ 122)) ∨
      (48 ≤ c.toNat ∧ c.toNat ≤ 57) at h
    omega
  · have hmem : c ∈ "_@%+=:,./-".toList := by simpa using h
    have hall : ("_@%+=:,./-".toList.all fun d => 37 ≤ d.toNat ∧ d.toNat ≤ 122) = true := by decide
    exact of_decide_eq_true (List.all_eq_true.mp hall c hmem)

theorem isSpace_of_isSafe (h : isSafe c = true) : isSpace c = false := by
  have hrange := range_of_isSafe h
  simp only [isSpace, Bool.or_eq_false_iff, Bool.and_eq_false_iff, decide_eq_false_iff_not]
  omega

/-- A safe character is no blank, and neither quotes nor escapes. -/
theorem next_of_isSafe (h : isSafe c = true) (hmode : mode.isOpen = true) :
    isBlank c = false ∧ mode.next c = .word ∧ mode.adds c = [c] := by
  have hne : ∀ d : Char, isSafe d = false → c ≠ d := by
    rintro d hd rfl
    exact Bool.false_ne_true (hd.symm.trans h)
  have hslash : c ≠ '\\' := hne _ (by decide)
  have hsingle : c ≠ '\'' := hne _ (by decide)
  have hdouble : c ≠ '"' := hne _ (by decide)
  refine ⟨?_, ?_, ?_⟩
  · by_contra hblank
    rw [Bool.not_eq_false] at hblank
    have hspace := isSpace_of_isBlank hblank
    rw [isSpace_of_isSafe h] at hspace
    exact nomatch hspace
  · rw [next_open hmode]
    simp [Mode.next, hslash, hsingle, hdouble]
  · rw [adds_open hmode]
    simp [Mode.adds, hslash, hsingle, hdouble]

/-! ## Reading a quoted token -/

/-- Reading safe characters, of which there is one. -/
theorem lex_safe (hmode : mode.isOpen = true) (hs : s.all isSafe = true) (hne : s ≠ []) :
    lex false mode token (s ++ rest) = lex false .word (token ++ s) rest := by
  induction s generalizing mode token with
  | nil => exact absurd rfl hne
  | cons c s ih =>
    rw [List.all_cons, Bool.and_eq_true] at hs
    obtain ⟨hblank, hnext, hadds⟩ := next_of_isSafe hs.1 hmode
    rw [List.cons_append, lex]
    simp only [hblank, hnext, hadds, Bool.and_false, Bool.false_and, if_false, Bool.false_eq_true]
    by_cases hnil : s = []
    · subst hnil
      rfl
    · rw [ih rfl hs.2 hnil, List.append_assoc]
      rfl

/-- Reading on in single quotes. -/
theorem lex_single (c : Char) (hc : c ≠ '\'') (token rest : List Char) :
    lex false .single token (c :: rest) = lex false .single (token ++ [c]) rest := by
  rw [lex]
  simp [Mode.isOpen, Mode.next, Mode.adds, hc]

/-- Reading what is quoted, to the end of the quotation. -/
theorem lex_quoteChars (s token rest : List Char) :
    lex false .single token (s.flatMap quoteChar ++ '\'' :: rest) =
      lex false .word (token ++ s) rest := by
  induction s generalizing token with
  | nil =>
    rw [List.flatMap_nil, List.nil_append, lex, List.append_nil]
    simp [Mode.isOpen, Mode.next, Mode.adds]
  | cons c s ih =>
    rw [List.flatMap_cons, List.append_assoc]
    by_cases hc : c = '\''
    · subst hc
      have hquote : ∀ cs, lex false .single token ("'\"'\"'".toList ++ cs) =
          lex false .single (token ++ ['\'']) cs := by
        intro cs
        simp [lex, Mode.isOpen, Mode.next, Mode.adds, isBlank]
      rw [quoteChar, if_pos rfl, hquote, ih, List.append_assoc]
      rfl
    · rw [quoteChar, if_neg hc, List.singleton_append, lex_single c hc, ih, List.append_assoc]
      rfl

/-- **A quoted token is read back.** -/
theorem lex_quote (hmode : mode.isOpen = true) (s token rest : List Char) :
    lex false mode token (quote s ++ rest) = lex false .word (token ++ s) rest := by
  have hstart : ∀ cs, lex false mode token ('\'' :: cs) = lex false .single token cs := by
    intro cs
    rw [lex, next_open hmode, adds_open hmode]
    simp [Mode.next, Mode.adds, isBlank]
  rw [quote]
  split_ifs with hnil hsafe
  · have hempty : "''".toList ++ rest = '\'' :: ([].flatMap quoteChar ++ '\'' :: rest) := rfl
    rw [hempty, hstart, lex_quoteChars, hnil]
  · exact lex_safe hmode hsafe hnil
  · rw [List.cons_append, List.cons_append, hstart, List.append_assoc, List.singleton_append,
      lex_quoteChars]

/-- The tokens of a command's text. -/
theorem split_commandText (command : Command) : split (commandText command) = some command := by
  have hlex : ∀ t ts, lex false .blank [] (commandText (t :: ts)) = some (t :: ts, []) := by
    intro t ts
    induction ts generalizing t with
    | nil =>
      have hone := lex_quote (show Mode.isOpen .blank = true from rfl) t [] []
      rw [List.append_nil, List.nil_append] at hone
      rw [commandText, List.map_cons, List.map_nil, List.intercalate_singleton, hone]
      rfl
    | cons t' ts ih =>
      have htext : commandText (t :: t' :: ts) = quote t ++ ' ' :: commandText (t' :: ts) := by
        rw [commandText, List.map_cons, List.map_cons, List.intercalate_cons_cons,
          List.append_assoc]
        rfl
      rw [htext, lex_quote (show Mode.isOpen .blank = true from rfl), List.nil_append, lex]
      simp only [Mode.isOpen, show isBlank ' ' = true by decide, Bool.and_false, Bool.false_and,
        Bool.and_true, if_true, if_false, Bool.false_eq_true, ih]
      rfl
  cases command with
  | nil => rfl
  | cons t ts => rw [split, hlex]; rfl

/-! ## The scanner over a quoted token -/

/-- The scanner of the code goes over the text without a cut, and is outside of quotes behind it. -/
def Closes (cs : List Char) : Prop :=
  quotes.NoCut quotes.start cs ∧ quotes.run quotes.start cs = quotes.start

theorem Closes.append {cs cs' : List Char} (h : Closes cs) (h' : Closes cs') :
    Closes (cs ++ cs') := by
  refine ⟨h.1.append ?_, ?_⟩
  · rw [h.2]
    exact h'.1
  · rw [Scanner.run_append, h.2]
    exact h'.2

theorem closes_space : Closes [' '] := ⟨Scanner.noCut_of_notMem (by decide), by decide⟩

theorem closes_safe (h : s.all isSafe = true) : Closes s := by
  induction s with
  | nil => exact ⟨Scanner.noCut_nil, rfl⟩
  | cons c s ih =>
    rw [List.all_cons, Bool.and_eq_true] at h
    have hne : ∀ d : Char, isSafe d = false → c ≠ d := by
      rintro d hd rfl
      exact Bool.false_ne_true (hd.symm.trans h.1)
    have hbar : c ≠ '|' := hne _ (by decide)
    have hsingle : c ≠ '\'' := hne _ (by decide)
    have hdouble : c ≠ '"' := hne _ (by decide)
    have hnext : quotes.next quotes.start c = quotes.start := by simp [quotes, hsingle, hdouble]
    have hone : Closes [c] := ⟨Scanner.noCut_of_notMem (by simpa using hbar.symm), hnext⟩
    exact hone.append (ih h.2)

/-- In single quotes every character stays quoted. -/
theorem quotes_quoteChars (s : List Char) :
    quotes.NoCut (true, false) (s.flatMap quoteChar) ∧
      quotes.run (true, false) (s.flatMap quoteChar) = (true, false) := by
  induction s with
  | nil => exact ⟨Scanner.noCut_nil, rfl⟩
  | cons c s ih =>
    have hone : quotes.NoCut (true, false) (quoteChar c) ∧
        quotes.run (true, false) (quoteChar c) = (true, false) := by
      by_cases hc : c = '\''
      · subst hc
        exact ⟨Scanner.noCut_of_notMem (by decide), by decide⟩
      · rw [quoteChar, if_neg hc]
        refine ⟨Scanner.NoCut.cons (fun h => nomatch h.2) Scanner.noCut_nil, ?_⟩
        simp [Scanner.run, quotes, hc]
    rw [List.flatMap_cons]
    refine ⟨hone.1.append ?_, ?_⟩
    · rw [hone.2]
      exact ih.1
    · rw [Scanner.run_append, hone.2]
      exact ih.2

theorem closes_quote (s : List Char) : Closes (quote s) := by
  rw [quote]
  split_ifs with hnil hsafe
  · exact ⟨Scanner.noCut_of_notMem (by decide), by decide⟩
  · exact closes_safe hsafe
  · have hopen : quotes.run quotes.start ['\''] = (true, false) := by decide
    have hbody : quotes.NoCut quotes.start (['\''] ++ s.flatMap quoteChar) ∧
        quotes.run quotes.start (['\''] ++ s.flatMap quoteChar) = (true, false) := by
      refine ⟨Scanner.NoCut.append (Scanner.noCut_of_notMem (by decide)) ?_, ?_⟩
      · rw [hopen]
        exact (quotes_quoteChars s).1
      · rw [Scanner.run_append, hopen]
        exact (quotes_quoteChars s).2
    refine ⟨hbody.1.append (Scanner.noCut_of_notMem (by decide)), ?_⟩
    show quotes.run quotes.start ((['\''] ++ s.flatMap quoteChar) ++ ['\'']) = quotes.start
    rw [Scanner.run_append, hbody.2]
    decide

theorem closes_commandText (command : Command) : Closes (commandText command) := by
  induction command with
  | nil => exact ⟨Scanner.noCut_nil, rfl⟩
  | cons t ts ih =>
    cases ts with
    | nil =>
      rw [commandText, List.map_cons, List.map_nil, List.intercalate_singleton]
      exact closes_quote t
    | cons t' ts =>
      rw [commandText, List.map_cons, List.map_cons, List.intercalate_cons_cons]
      exact ((closes_quote t).append closes_space).append ih

/-! ## The ends of a quoted command -/

theorem tight_quote (s : List Char) : Tight (quote s) ∧ quote s ≠ [] := by
  rw [quote]
  split_ifs with hnil hsafe
  · exact ⟨Solid.tight (by decide), by decide⟩
  · have hsolid : Solid s := fun c hc => isSpace_of_isSafe (List.all_eq_true.mp hsafe c hc)
    exact ⟨hsolid.tight, hnil⟩
  · have hquote : Tight ['\''] := Solid.tight (by decide)
    exact ⟨hquote.append hquote (by decide) (by decide), by simp⟩

theorem tight_commandText (command : Command) (h : command ≠ []) :
    Tight (commandText command) ∧ commandText command ≠ [] := by
  induction command with
  | nil => exact absurd rfl h
  | cons t ts ih =>
    cases ts with
    | nil =>
      rw [commandText, List.map_cons, List.map_nil, List.intercalate_singleton]
      exact tight_quote t
    | cons t' ts =>
      obtain ⟨htight, hne⟩ := ih (List.cons_ne_nil _ _)
      obtain ⟨hquote, hquote'⟩ := tight_quote t
      rw [commandText, List.map_cons, List.map_cons, List.intercalate_cons_cons]
      exact ⟨hquote.append htight hquote' hne, by simp [hquote']⟩

/-- A quoted command with white space around it is read back. -/
theorem pieceCommand_commandText {as bs : List Char} (has : Blank as) (hbs : Blank bs)
    {command : Command} (h : command ≠ []) :
    pieceCommand (as ++ commandText command ++ bs) = some command := by
  obtain ⟨htight, hne⟩ := tight_commandText command h
  rw [pieceCommand, strip_eq has htight hbs, segmentCommand, if_neg hne, split_commandText,
    Option.getD_some, if_neg h]

/-- **Quoted pipelines are read back.** -/
theorem parse_pipelineText (commands : List Command) (h : ∀ command ∈ commands, command ≠ []) :
    _parse_pipeline (pipelineText commands) = commands := by
  have hblanks : Blank [' '] := by decide
  have hcut : ∀ as, Closes as → Blank as →
      (quotes.cut (as ++ pipelineText commands)).filterMap pieceCommand = commands := by
    induction commands with
    | nil =>
      intro as hcloses has
      have htext : as ++ pipelineText [] = as := List.append_nil as
      rw [htext, Scanner.cut_last hcloses.1, filterMap_cons_toList,
        pieceCommand_nil (strip_eq_nil_iff.mpr has)]
      rfl
    | cons command commands ih =>
      intro as hcloses has
      have hcommand := h command List.mem_cons_self
      have hrest := ih fun c hc => h c (List.mem_cons_of_mem _ hc)
      have hpiece := hcloses.append (closes_commandText command)
      cases commands with
      | nil =>
        have htext : as ++ pipelineText [command] = as ++ commandText command := by
          rw [pipelineText, List.map_cons, List.map_nil, List.intercalate_singleton]
        have hlast := pieceCommand_commandText has blank_nil hcommand
        rw [List.append_nil] at hlast
        rw [htext, Scanner.cut_last hpiece.1, filterMap_cons_toList, hlast]
        rfl
      | cons command' commands =>
        have htext : as ++ pipelineText (command :: command' :: commands) =
            (as ++ commandText command ++ [' ']) ++
              '|' :: ([' '] ++ pipelineText (command' :: commands)) := by
          rw [pipelineText, List.map_cons, List.map_cons, List.intercalate_cons_cons]
          simp [pipelineText]
        have hclosed := hpiece.append closes_space
        have hopen : quotes.OpenAfter (as ++ commandText command ++ [' ']) := by
          rw [Scanner.OpenAfter, hclosed.2]
          rfl
        rw [htext, Scanner.cut_open hclosed.1 hopen, filterMap_cons_toList,
          pieceCommand_commandText has hblanks hcommand, hrest [' '] closes_space hblanks]
        rfl
  rw [parse_pipeline_eq]
  exact hcut [] ⟨Scanner.noCut_nil, rfl⟩ blank_nil

end

/-! ## What is read as the shell reads it -/

/-- **When the code reads a pipeline as the shell does**: exactly if the scanner of the code and the
shell tell the same bars from the others, and what `strip()` takes away from the pieces between
them are unescaped blanks. Pipelines of quoted tokens are always read back. -/
theorem parse_pipeline_eq_iff (command : List Char) (cmds : List Command)
    (h : pipeline command = some cmds) :
    (_parse_pipeline command = cmds ↔
        posix.Agree quotes command ∧ ∀ piece ∈ posix.cut command, PlainEdges piece) ∧
      ∀ commands : List Command, (∀ command ∈ commands, command ≠ []) →
        _parse_pipeline (pipelineText commands) = commands := by
  refine ⟨⟨fun heq => ?_, fun hcond => ?_⟩, parse_pipelineText⟩
  · obtain ⟨hsplit, rfl⟩ := pipeline_some h
    rw [parse_pipeline_eq] at heq
    exact (agree_of_commands_eq command hsplit [] nofun heq).2
  · exact commands_eq_of_agree h hcond.1 hcond.2

/-- A bar in single quotes, and one that ends a command. -/
theorem quoted_bar :
    (posix.Agree quotes "grep 'a|b' f | head".toList ∧
      ∀ piece ∈ posix.cut "grep 'a|b' f | head".toList, PlainEdges piece) ∧
    _parse_pipeline (pipelineText [["grep".toList, "a|b".toList], ["head".toList]]) =
      [["grep".toList, "a|b".toList], ["head".toList]] :=
  have hboth := parse_pipeline_eq_iff "grep 'a|b' f | head".toList
    [["grep".toList, "a|b".toList, "f".toList], ["head".toList]] (by decide)
  ⟨hboth.1.1 (by decide), hboth.2 [["grep".toList, "a|b".toList], ["head".toList]] (by decide)⟩

/-- A bar behind an escaped double quote in double quotes: the code splits there. -/
theorem escaped_quote_and_bar :
    pipeline "grep \"a\\\"|b\" f".toList =
        some [["grep".toList, "a\"|b".toList, "f".toList]] ∧
      _parse_pipeline "grep \"a\\\"|b\" f".toList =
        [["grep".toList, "\"a\\\"".toList], ["b\"".toList, "f".toList]] := by
  decide

end OpenLaunch.Shell
