import OpenLaunch.Python.Shlex

/-! # Pipelines of the knowledge file system

`_parse_pipeline` cuts a command at the bars outside of quotes, with a scanner of its own, strips
the pieces and has `shlex` split each into tokens. The scanner does not know the backslash, and
`strip()` takes away more than the blanks of `shlex`. A pipeline in the sense of the shell is
`Shlex.pipeline`. -/

namespace OpenLaunch.Shell

open Python Python.Shlex

/-! ## The code -/

/-- `s.split()`, behind a part of a word. -/
def wordsFrom : List Char → List Char → List (List Char)
  | word, [] => if word = [] then [] else [word]
  | word, c :: cs =>
    if isSpace c then (if word = [] then [] else [word]) ++ wordsFrom [] cs
    else wordsFrom (word ++ [c]) cs

/-- The loop over the characters of a command: the segments, from the state of the quotes and the
buffer on. -/
def scanSegments : Bool → Bool → List Char → List Char → List (List Char)
  | _, _, buf, [] =>
    let remaining := strip buf
    if remaining = [] then [] else [remaining]
  | in_single, in_double, buf, ch :: command =>
    if ch = '\'' ∧ in_double = false then
      scanSegments (!in_single) in_double (buf ++ [ch]) command
    else if ch = '"' ∧ in_single = false then
      scanSegments in_single (!in_double) (buf ++ [ch]) command
    else if ch = '|' ∧ in_single = false ∧ in_double = false then
      strip buf :: scanSegments in_single in_double [] command
    else scanSegments in_single in_double (buf ++ [ch]) command

/-- The tokens of a segment, if it has any. -/
def segmentCommand (seg : List Char) : Option Command :=
  if seg = [] then none
  else
    -- words instead of tokens where the quotes are malformed
    let tokens := (split seg).getD (wordsFrom [] seg)
    if tokens = [] then none else some tokens

/-- `_parse_pipeline`. -/
def _parse_pipeline (command : List Char) : List Command :=
  (scanSegments false false [] command).filterMap segmentCommand

/-! ## The scanner of the code -/

/-- The two flags for quotes, as a scanner. -/
def quotes : Scanner Char '|' (Bool × Bool) where
  start := (false, false)
  next s ch :=
    if ch = '\'' ∧ s.2 = false then (!s.1, s.2)
    else if ch = '"' ∧ s.1 = false then (s.1, !s.2)
    else s
  isOpen s := !s.1 && !s.2
  restart := by
    rintro ⟨s, d⟩ h cs
    simp only [Bool.and_eq_true, Bool.not_eq_true'] at h
    obtain ⟨rfl, rfl⟩ := h
    rfl

/-- The command of a piece between two bars. -/
def pieceCommand (piece : List Char) : Option Command := segmentCommand (strip piece)

/-- **The code by its pieces.** -/
theorem scanSegments_eq (in_single in_double : Bool) (buf command : List Char) :
    (scanSegments in_single in_double buf command).filterMap segmentCommand =
      (quotes.cutFrom (in_single, in_double) buf command).filterMap pieceCommand := by
  induction command generalizing in_single in_double buf with
  | nil =>
    rw [scanSegments, Scanner.cutFrom]
    by_cases h : strip buf = []
    · simp [h, pieceCommand, segmentCommand]
    · simp only [h, if_false]
      rfl
  | cons ch command ih =>
    rw [scanSegments, Scanner.cutFrom]
    by_cases hbar : ch = '|'
    · subst hbar
      rw [if_neg (by simp), if_neg (by simp)]
      by_cases hopen : in_single = false ∧ in_double = false
      · obtain ⟨rfl, rfl⟩ := hopen
        rw [if_pos ⟨rfl, rfl, rfl⟩, if_pos ⟨rfl, rfl⟩, List.filterMap_cons, List.filterMap_cons, ih]
        rfl
      · have hclosed : ¬ ('|' = '|' ∧ quotes.isOpen (in_single, in_double) = true) := by
          rintro ⟨-, h⟩
          simp only [quotes, Bool.and_eq_true, Bool.not_eq_true'] at h
          exact hopen h
        have hnext : quotes.next (in_single, in_double) '|' = (in_single, in_double) := by
          simp [quotes]
        rw [if_neg (fun h => hopen h.2), if_neg hclosed, ih, hnext]
    · have hcut : ¬ (ch = '|' ∧ quotes.isOpen (in_single, in_double) = true) := fun h => hbar h.1
      rw [if_neg hcut]
      by_cases hsingle : ch = '\'' ∧ in_double = false
      · have hnext : quotes.next (in_single, in_double) ch = (!in_single, in_double) :=
          if_pos hsingle
        rw [if_pos hsingle, ih, hnext]
      · by_cases hdouble : ch = '"' ∧ in_single = false
        · have hnext : quotes.next (in_single, in_double) ch = (in_single, !in_double) := by
            simp only [quotes, if_neg hsingle, if_pos hdouble]
          rw [if_neg hsingle, if_pos hdouble, ih, hnext]
        · have hnext : quotes.next (in_single, in_double) ch = (in_single, in_double) := by
            simp only [quotes, if_neg hsingle, if_neg hdouble]
          have hbar' : ¬ (ch = '|' ∧ in_single = false ∧ in_double = false) := fun h => hbar h.1
          rw [if_neg hsingle, if_neg hdouble, if_neg hbar', ih, hnext]

theorem parse_pipeline_eq (command : List Char) :
    _parse_pipeline command = (quotes.cut command).filterMap pieceCommand :=
  scanSegments_eq false false [] command

/-! ## Characters of commands -/

section

variable {piece core as bs : List Char} {c ts : Command}

/-- Words hold everything but the white space. -/
theorem flatten_wordsFrom (word cs : List Char) :
    (wordsFrom word cs).flatten = word ++ cs.filter fun ch => !isSpace ch := by
  induction cs generalizing word with
  | nil =>
    rw [wordsFrom, List.filter_nil, List.append_nil]
    split_ifs with h
    · rw [h]
      rfl
    · exact List.flatten_singleton
  | cons ch cs ih =>
    rw [wordsFrom, List.filter_cons]
    by_cases hspace : isSpace ch = true
    · have hword : (if word = [] then [] else [word]).flatten = word := by
        split_ifs with h
        · rw [h]
          rfl
        · exact List.flatten_singleton
      rw [if_pos hspace, List.flatten_append, ih, hword, if_neg (by simp [hspace])]
      rfl
    · rw [if_neg hspace, ih, if_pos (by simpa using hspace), List.append_assoc]
      rfl

/-- No white space in the words of a text. -/
theorem solid_words (cs : List Char) : Solid (wordsFrom [] cs).flatten := by
  rw [flatten_wordsFrom]
  intro ch hch
  simpa using (List.mem_filter.mp hch).2

/-- A text with a character that is no white space has words. -/
theorem words_ne_nil {cs : List Char} (h : ¬ Blank cs) : wordsFrom [] cs ≠ [] := by
  intro hnil
  have hflat := flatten_wordsFrom [] cs
  rw [hnil] at hflat
  refine h fun ch hch => ?_
  by_contra hspace
  have hmem : ch ∈ cs.filter fun ch => !isSpace ch :=
    List.mem_filter.mpr ⟨hch, by simpa using hspace⟩
  rw [List.nil_append] at hflat
  rw [← hflat] at hmem
  exact nomatch hmem

/-- White space has no bars. -/
theorem count_of_blank {ws : List Char} (h : Blank ws) : ws.count '|' = 0 := by
  refine List.count_eq_zero.mpr fun hmem => ?_
  exact absurd (h '|' hmem) (by decide)

theorem count_strip (cs : List Char) : (strip cs).count '|' = cs.count '|' := by
  obtain ⟨as, bs, heq, has, -, hbs⟩ := strip_split cs
  conv_rhs => rw [heq]
  rw [List.count_append, List.count_append, count_of_blank has, count_of_blank hbs]
  omega

/-- **The command of a piece**: the tokens of the stripped piece, or its words if they cannot be
told. -/
theorem pieceCommand_cases (h : strip piece ≠ []) :
    ∃ c, pieceCommand piece = some c ∧
      (split (strip piece) = some c ∨
        split (strip piece) = none ∧ c = wordsFrom [] (strip piece)) := by
  have hwhite : ¬ Blank (strip piece) := fun hblank =>
    h ((tight_strip piece).eq_nil_of_blank hblank)
  rw [pieceCommand, segmentCommand, if_neg h]
  rcases split_eq (strip piece) with ⟨hnone, -⟩ | ⟨ts, hsome, -, -⟩
  · refine ⟨wordsFrom [] (strip piece), ?_, .inr ⟨hnone, rfl⟩⟩
    rw [hnone, Option.getD_none, if_neg (words_ne_nil hwhite)]
  · refine ⟨ts, ?_, .inl hsome⟩
    have hts : ts ≠ [] := by
      rintro rfl
      exact hwhite fun ch hch => isSpace_of_isBlank (isBlank_of_split_nil hsome ch hch)
    rw [hsome, Option.getD_some, if_neg hts]

theorem pieceCommand_nil (h : strip piece = []) : pieceCommand piece = none := by
  rw [pieceCommand, segmentCommand, if_pos h]

theorem strip_ne_nil (h : pieceCommand piece = some c) : strip piece ≠ [] := by
  intro hnil
  rw [pieceCommand_nil hnil] at h
  exact nomatch h

/-- All bars of a piece are in its command. -/
theorem count_pieceCommand (h : pieceCommand piece = some c) :
    c.flatten.count '|' = piece.count '|' := by
  obtain ⟨c', hc', hcases⟩ := pieceCommand_cases (strip_ne_nil h)
  rw [h, Option.some.injEq] at hc'
  subst hc'
  rcases hcases with hsplit | ⟨-, rfl⟩
  · rw [(isOpen_of_split hsplit).2, count_added, count_strip]
  · rw [flatten_wordsFrom, List.nil_append, List.count_filter (by decide), count_strip]

theorem count_split (h : split piece = some ts) : ts.flatten.count '|' = piece.count '|' := by
  rw [(isOpen_of_split h).2, count_added]

/-! ## White commands -/

/-- The command consists of white space, which the shell does not take for blanks. -/
def White (c : Command) : Prop := Blank c.flatten ∧ c.flatten ≠ []

theorem White.count (h : White c) : c.flatten.count '|' = 0 := count_of_blank h.1

/-- The code has white commands only where the shell reads the stripped piece. -/
theorem White.split (h : White c) (hc : pieceCommand piece = some c) :
    Shlex.split (strip piece) = some c := by
  obtain ⟨c', hc', hcases⟩ := pieceCommand_cases (strip_ne_nil hc)
  rw [hc, Option.some.injEq] at hc'
  subst hc'
  rcases hcases with hsplit | ⟨-, rfl⟩
  · exact hsplit
  · exact absurd (h.1.eq_nil_of_solid (solid_words _)) h.2

/-! ## What stripping changes -/

/-- The command of a piece in the sense of the shell. -/
def shellCommand (piece : List Char) : Option Command :=
  (split piece).filter fun command => command ≠ []

/-- What `strip()` takes away from the ends of the piece are blanks, and none of them is escaped. -/
def PlainEdges (piece : List Char) : Prop :=
  ∃ as bs, piece = as ++ strip piece ++ bs ∧ (∀ ch ∈ as, isBlank ch = true) ∧
    (∀ ch ∈ bs, isBlank ch = true) ∧ run .blank (as ++ strip piece) ≠ .escape

/-- The code reads a piece with plain edges as the shell does. -/
theorem pieceCommand_of_plain (hplain : PlainEdges piece) (hts : split piece = some ts) :
    pieceCommand piece = shellCommand piece := by
  obtain ⟨as, bs, heq, has, hbs, hescape⟩ := hplain
  have hblank : Blank bs := fun ch hch => isSpace_of_isBlank (hbs ch hch)
  have hopen : (run .blank (as ++ strip piece)).isOpen = true := by
    have hrun := (isOpen_of_split hts).1
    rw [heq, run_append] at hrun
    exact (open_or_escape hblank hrun).resolve_right fun h => hescape h.1
  have hstrip : split (strip piece) = some ts := by
    conv at hts => rw [heq]
    rw [split_append_blanks hbs hopen, split_blanks_append has] at hts
    exact hts
  rw [shellCommand, hts, Option.filter_some]
  by_cases h : strip piece = []
  · rw [h] at hstrip
    have hnil : ts = [] := (Option.some.inj hstrip).symm
    rw [pieceCommand_nil h, if_neg (by simpa using hnil)]
  · obtain ⟨c, hc, hcases⟩ := pieceCommand_cases h
    rcases hcases with hsplit | ⟨hnone, -⟩
    · have hsame : c = ts := Option.some.inj (hsplit.symm.trans hstrip)
      have hne : ts ≠ [] := by
        rintro rfl
        refine h ((tight_strip piece).eq_nil_of_blank fun ch hch => ?_)
        exact isSpace_of_isBlank (isBlank_of_split_nil hstrip ch hch)
      rw [hc, hsame, if_pos (by simpa using hne)]
    · rw [hnone] at hstrip
      exact nomatch hstrip

/-- What the tokens of a piece hold, by the parts that `strip()` tells apart. -/
theorem flatten_split_parts (has : Blank as) (hts : split (as ++ core ++ bs) = some ts) :
    ts.flatten = as.filter (fun ch => !isBlank ch) ++ added .blank core ++
      added (run .blank (as ++ core)) bs := by
  obtain ⟨hopen, hadded⟩ := run_white has (show Mode.isOpen .blank = true from rfl)
  rw [(isOpen_of_split hts).2, added_append, added_append, hadded, added_open hopen]

/-- The stripped part is read like the piece up to its end. -/
theorem isOpen_strip (has : Blank as) :
    (run .blank (as ++ core)).isOpen = (run .blank core).isOpen := by
  rw [run_append, isOpen_run_open (run_white has (show Mode.isOpen .blank = true from rfl)).1]

theorem shellCommand_of_ne_nil (hts : split piece = some ts) (h : ts.flatten ≠ []) :
    shellCommand piece = some ts := by
  have hne : ts ≠ [] := by
    rintro rfl
    exact h rfl
  rw [shellCommand, hts, Option.filter_some, if_pos (by simpa using hne)]

/-- **Where the edges are not plain**, the command of the shell holds white space that the code's
does not. -/
theorem pieceCommand_of_not_plain (hplain : ¬ PlainEdges piece) (hts : split piece = some ts) :
    shellCommand piece = some ts ∧ pieceCommand piece ≠ some ts ∧
      (pieceCommand piece = none → White ts) ∧
      ∀ c, pieceCommand piece = some c → White c → White ts := by
  obtain ⟨as, bs, heq, has, htight, hbs⟩ := strip_split piece
  have hparts := hts
  rw [heq] at hparts
  have hflat := flatten_split_parts has hparts
  have hrun := (isOpen_of_split hts).1
  rw [heq, run_append] at hrun
  rcases open_or_escape hbs hrun with hopen | ⟨hescape, hne⟩
  · -- the white space around is not quoted; what is no blank of it goes into tokens
    rw [(run_white hbs hopen).2] at hflat
    have hmore : as.filter (fun ch => !isBlank ch) ≠ [] ∨
        bs.filter (fun ch => !isBlank ch) ≠ [] := by
      by_contra hno
      rw [not_or, not_not, not_not, List.filter_eq_nil_iff, List.filter_eq_nil_iff] at hno
      refine hplain ⟨as, bs, heq, fun ch hch => ?_, fun ch hch => ?_, fun h => ?_⟩
      · simpa using hno.1 ch hch
      · simpa using hno.2 ch hch
      · rw [h] at hopen
        exact nomatch hopen
    have hlong : (added .blank (strip piece)).length < ts.flatten.length := by
      rw [hflat, List.length_append, List.length_append]
      rcases hmore with h | h
      · have := List.length_pos_of_ne_nil h
        omega
      · have := List.length_pos_of_ne_nil h
        omega
    have hts' : ts.flatten ≠ [] := List.ne_nil_of_length_pos (by omega)
    have hwhite : Blank (added .blank (strip piece)) → White ts := by
      intro hadded
      refine ⟨fun ch hch => ?_, hts'⟩
      rw [hflat, List.mem_append, List.mem_append] at hch
      rcases hch with (hch | hch) | hch
      · exact has ch (List.mem_filter.mp hch).1
      · exact hadded ch hch
      · exact hbs ch (List.mem_filter.mp hch).1
    have hsome : ∀ c, pieceCommand piece = some c → c.flatten = added .blank (strip piece) := by
      intro c hc
      obtain ⟨c', hc', hcases⟩ := pieceCommand_cases (strip_ne_nil hc)
      rw [hc, Option.some.injEq] at hc'
      subst hc'
      rcases hcases with hsplit | ⟨hnone, -⟩
      · exact (isOpen_of_split hsplit).2
      · rcases split_eq (strip piece) with ⟨-, hclosed⟩ | ⟨ts', hsome, -, -⟩
        · rw [isOpen_strip has, hclosed] at hopen
          exact nomatch hopen
        · rw [hnone] at hsome
          exact nomatch hsome
    refine ⟨shellCommand_of_ne_nil hts hts', fun h => ?_, fun h => ?_, fun c hc hcwhite => ?_⟩
    · rw [hsome ts h] at hlong
      exact Nat.lt_irrefl _ hlong
    · refine hwhite ?_
      have hnil : strip piece = [] := by
        by_contra hstrip
        obtain ⟨c, hc, -⟩ := pieceCommand_cases hstrip
        rw [h] at hc
        exact nomatch hc
      rw [hnil]
      exact blank_nil
    · refine hwhite ?_
      rw [← hsome c hc]
      exact hcwhite.1
  · -- the backslash that ends the stripped part escapes white space
    have hclosed : (run .blank (strip piece)).isOpen = false := by
      rw [← isOpen_strip has, hescape]
      rfl
    have hnone : split (strip piece) = none := by
      rcases split_eq (strip piece) with ⟨hnone, -⟩ | ⟨ts', -, hopen, -⟩
      · exact hnone
      · rw [hclosed] at hopen
        exact nomatch hopen
    have hstrip : strip piece ≠ [] := by
      intro h
      rw [h] at hclosed
      exact nomatch hclosed
    obtain ⟨ch, bs, rfl⟩ := List.exists_cons_of_ne_nil hne
    have hmem : ch ∈ ts.flatten := by
      rw [hflat, hescape]
      exact List.mem_append_right _ List.mem_cons_self
    have hwords : ∀ c, pieceCommand piece = some c → Solid c.flatten := by
      intro c hc
      obtain ⟨c', hc', hcases⟩ := pieceCommand_cases hstrip
      rw [hc, Option.some.injEq] at hc'
      subst hc'
      rcases hcases with hsplit | ⟨-, rfl⟩
      · rw [hnone] at hsplit
        exact nomatch hsplit
      · exact solid_words _
    refine ⟨shellCommand_of_ne_nil hts (List.ne_nil_of_mem hmem), fun h => ?_, fun h => ?_,
      fun c hc hcwhite => ?_⟩
    · have hsolid := hwords ts h ch hmem
      rw [hbs ch List.mem_cons_self] at hsolid
      exact nomatch hsolid
    · obtain ⟨c, hc, -⟩ := pieceCommand_cases hstrip
      rw [h] at hc
      exact nomatch hc
    · exact absurd (hcwhite.1.eq_nil_of_solid (hwords c hc)) hcwhite.2

end

/-! ## Whole commands -/

section

variable {command : List Char} {cmds : List Command}

theorem filterMap_shellCommand {pieces : List (List Char)} {tss : List Command}
    (h : pieces.mapM split = some tss) :
    (∀ piece ∈ pieces, ∃ ts, split piece = some ts) ∧
      (tss.filter fun command => command ≠ []) = pieces.filterMap shellCommand := by
  induction pieces generalizing tss with
  | nil =>
    rw [List.mapM_nil] at h
    obtain rfl : [] = tss := Option.some.inj h
    exact ⟨nofun, rfl⟩
  | cons piece pieces ih =>
    rw [List.mapM_cons] at h
    obtain ⟨ts, hts, h⟩ := Option.bind_eq_some_iff.mp h
    obtain ⟨rest, hrest, h⟩ := Option.bind_eq_some_iff.mp h
    obtain rfl : ts :: rest = tss := Option.some.inj h
    obtain ⟨hpieces, hfilter⟩ := ih hrest
    refine ⟨?_, ?_⟩
    · intro p hp
      rcases List.mem_cons.mp hp with rfl | hp
      · exact ⟨ts, hts⟩
      · exact hpieces p hp
    · rw [List.filter_cons, List.filterMap_cons, shellCommand, hts, Option.filter_some, ← hfilter]
      split_ifs <;> rfl

/-- The commands of a pipeline by its pieces. -/
theorem pipeline_some (h : pipeline command = some cmds) :
    (∀ piece ∈ posix.cut command, ∃ ts, split piece = some ts) ∧
      cmds = (posix.cut command).filterMap shellCommand := by
  rw [pipeline_eq] at h
  obtain ⟨tss, htss, rfl⟩ := Option.map_eq_some_iff.mp h
  exact filterMap_shellCommand htss

/-- Outside of quotes the scanner stays so over blanks. -/
theorem quotes_run_blanks {cs : List Char} (h : ∀ ch ∈ cs, isBlank ch = true) :
    quotes.OpenAfter cs := by
  have hrun : quotes.run quotes.start cs = quotes.start := by
    induction cs with
    | nil => rfl
    | cons ch cs ih =>
      have hch : isBlank ch = true := h ch List.mem_cons_self
      have hnext : quotes.next quotes.start ch = quotes.start := by
        have hsingle : ch ≠ '\'' := by
          rintro rfl
          exact absurd hch (by decide)
        have hdouble : ch ≠ '"' := by
          rintro rfl
          exact absurd hch (by decide)
        simp [quotes, hsingle, hdouble]
      rw [Scanner.run, List.foldl_cons, hnext]
      exact ih fun c hc => h c (List.mem_cons_of_mem _ hc)
  rw [Scanner.OpenAfter, hrun]
  rfl

/-- White space alone leaves the shell outside of quotes. -/
theorem posix_openAfter_white {cs : List Char} (h : Blank cs) : posix.OpenAfter cs :=
  (run_white h (show Mode.isOpen .blank = true from rfl)).1

omit command cmds in
/-- The first of some pieces. -/
theorem filterMap_cons_toList {α β : Type} (f : α → Option β) (x : α) (xs : List α) :
    (x :: xs).filterMap f = (f x).toList ++ xs.filterMap f := by
  rw [List.filterMap_cons]
  cases f x <;> rfl

/-- One piece that both read: if its command and those after it are the shell's behind some white
ones, there are no such, and its edges are plain. -/
theorem plain_of_commands_eq {piece : List Char} {ts : Command} {xs ys ws : List Command}
    (hts : split piece = some ts) (hws : ∀ w ∈ ws, White w)
    (h : (pieceCommand piece).toList ++ xs = ws ++ ((shellCommand piece).toList ++ ys))
    (hrest : ∀ ws', (∀ w ∈ ws', White w) → xs = ws' ++ ys → ws' = []) :
    ws = [] ∧ PlainEdges piece ∧ xs = ys := by
  -- the command of the shell goes to the white ones, which the rest excludes
  have hpush : ∀ ws' w, (∀ w ∈ ws', White w) → White w → xs ≠ ws' ++ w :: ys := by
    intro ws' w hws' hw heq
    have hnil := hrest (ws' ++ [w]) ?_ (by rw [heq, List.append_assoc]; rfl)
    · exact absurd hnil (by simp)
    · intro w' hw'
      rcases List.mem_append.mp hw' with hw' | hw'
      · exact hws' w' hw'
      · rw [List.mem_singleton.mp hw']
        exact hw
  by_cases hplain : PlainEdges piece
  · rw [pieceCommand_of_plain hplain hts] at h
    cases hshell : shellCommand piece with
    | none =>
      rw [hshell] at h
      have hnil := hrest ws hws h
      rw [hnil] at h
      exact ⟨hnil, hplain, h⟩
    | some c =>
      rw [hshell] at h
      cases ws with
      | nil => exact ⟨rfl, hplain, (List.cons.inj h).2⟩
      | cons w ws =>
        obtain ⟨hw, hxs⟩ := List.cons.inj h
        refine absurd hxs (hpush ws c (fun w hw => hws w (List.mem_cons_of_mem _ hw)) ?_)
        rw [hw]
        exact hws w List.mem_cons_self
  · obtain ⟨hshell, hne, hnone, hsome⟩ := pieceCommand_of_not_plain hplain hts
    rw [hshell] at h
    cases hpiece : pieceCommand piece with
    | none =>
      rw [hpiece] at h
      exact absurd h (hpush ws ts hws (hnone hpiece))
    | some c =>
      rw [hpiece] at h
      cases ws with
      | nil =>
        obtain ⟨rfl, -⟩ := List.cons.inj h
        exact absurd hpiece hne
      | cons w ws =>
        obtain ⟨hw, hxs⟩ := List.cons.inj h
        refine absurd hxs (hpush ws ts (fun w hw => hws w (List.mem_cons_of_mem _ hw)) ?_)
        refine hsome c hpiece ?_
        rw [hw]
        exact hws w List.mem_cons_self

/-- A piece that ends outside of quotations for the stripped part does so as a whole. -/
theorem posix_openAfter_of_split {piece : List Char} {c : Command}
    (h : split (strip piece) = some c) : posix.OpenAfter piece := by
  obtain ⟨as, bs, heq, has, -, hbs⟩ := strip_split piece
  have hopen : (run .blank (as ++ strip piece)).isOpen = true := by
    rw [isOpen_strip has]
    exact (isOpen_of_split h).1
  have hrun : (run .blank piece).isOpen = true := by
    rw [heq, run_append]
    exact (run_white hbs hopen).1
  exact hrun

/-- A command that is neither a white one nor the first of the shell's. -/
theorem commands_ne {c : Command} {xs ys ws : List Command} (hws : c ∉ ws)
    (hys : ys.head? ≠ some c) : c :: xs ≠ ws ++ ys := by
  intro h
  cases ws with
  | nil =>
    rw [List.nil_append] at h
    exact hys (by rw [← h]; rfl)
  | cons w ws =>
    obtain ⟨rfl, -⟩ := List.cons.inj h
    exact hws List.mem_cons_self

/-- **Reading the commands back.** If the code's commands are those of the shell, even behind some
white ones, there are no such, the scanners agree, and the edges are plain. -/
theorem agree_of_commands_eq (command : List Char)
    (hsplit : ∀ piece ∈ posix.cut command, ∃ ts, split piece = some ts) (ws : List Command)
    (hws : ∀ w ∈ ws, White w)
    (h : (quotes.cut command).filterMap pieceCommand =
      ws ++ (posix.cut command).filterMap shellCommand) :
    ws = [] ∧ posix.Agree quotes command ∧ ∀ piece ∈ posix.cut command, PlainEdges piece := by
  induction command using Scanner.induction_cuts posix quotes generalizing ws with
  | last cs hp hq =>
    rw [Scanner.cut_last hp] at hsplit h ⊢
    rw [Scanner.cut_last hq, filterMap_cons_toList, filterMap_cons_toList] at h
    obtain ⟨ts, hts⟩ := hsplit cs List.mem_cons_self
    obtain ⟨hnil, hplain, -⟩ := plain_of_commands_eq hts hws h fun ws' _ h' =>
      (List.append_eq_nil_iff.mp h'.symm).1
    refine ⟨hnil, Scanner.agree_last hp hq, fun piece hpiece => ?_⟩
    rw [List.mem_singleton.mp hpiece]
    exact hplain
  | both p r hp hq hopen hopen' ih =>
    rw [Scanner.cut_open hp hopen] at hsplit h ⊢
    rw [Scanner.cut_open hq hopen', filterMap_cons_toList, filterMap_cons_toList] at h
    obtain ⟨ts, hts⟩ := hsplit p List.mem_cons_self
    have hrest := fun ws' hws' => ih (fun piece hpiece =>
      hsplit piece (List.mem_cons_of_mem _ hpiece)) ws' hws'
    obtain ⟨hnil, hplain, heq⟩ := plain_of_commands_eq hts hws h fun ws' hws' h' =>
      (hrest ws' hws' h').1
    obtain ⟨-, hagree, hpieces⟩ := hrest [] nofun heq
    refine ⟨hnil, (Scanner.agree_open hp hq hopen hopen').mpr hagree, fun piece hpiece => ?_⟩
    rcases List.mem_cons.mp hpiece with rfl | hpiece
    · exact hplain
    · exact hpieces piece hpiece
  | left p r hp hq hopen hclosed =>
    -- the code's first piece goes on beyond the bar
    obtain ⟨u, us, hcut⟩ := Scanner.cut_closed (r := r) hq hclosed
    rw [Scanner.cut_open hp hopen] at hsplit h
    rw [hcut, filterMap_cons_toList, filterMap_cons_toList] at h
    obtain ⟨ts, hts⟩ := hsplit p List.mem_cons_self
    have hcount : (p ++ '|' :: u).count '|' = p.count '|' + u.count '|' + 1 := by
      rw [List.count_append, List.count_cons_self]
      omega
    have hstrip : strip (p ++ '|' :: u) ≠ [] := by
      intro hnil
      have hzero := count_of_blank (strip_eq_nil_iff.mp hnil)
      omega
    obtain ⟨c, hc, -⟩ := pieceCommand_cases hstrip
    have hcc := count_pieceCommand hc
    have hshell : shellCommand p = some ts := by
      rw [shellCommand, hts, Option.filter_some]
      refine if_pos ?_
      rw [decide_eq_true_eq]
      rintro rfl
      exact hclosed (quotes_run_blanks (isBlank_of_split_nil hts))
    rw [hc, hshell] at h
    refine absurd h (commands_ne (fun hmem => ?_) (fun hhead => ?_))
    · have hzero := (hws c hmem).count
      omega
    · obtain rfl : ts = c := Option.some.inj hhead
      have hcts := count_split hts
      omega
  | right p r hp hq hclosed hopen =>
    -- the shell's first piece goes on beyond the bar
    obtain ⟨u, us, hcut⟩ := Scanner.cut_closed (r := r) hp hclosed
    rw [hcut] at hsplit h
    rw [Scanner.cut_open hq hopen, filterMap_cons_toList, filterMap_cons_toList] at h
    obtain ⟨ts, hts⟩ := hsplit (p ++ '|' :: u) List.mem_cons_self
    have hcount : (p ++ '|' :: u).count '|' = p.count '|' + u.count '|' + 1 := by
      rw [List.count_append, List.count_cons_self]
      omega
    have hcts := count_split hts
    have hstrip : strip p ≠ [] := fun hnil =>
      hclosed (posix_openAfter_white (strip_eq_nil_iff.mp hnil))
    obtain ⟨c, hc, -⟩ := pieceCommand_cases hstrip
    have hcc := count_pieceCommand hc
    have hshell : shellCommand (p ++ '|' :: u) = some ts := by
      refine shellCommand_of_ne_nil hts fun hnil => ?_
      rw [hnil, List.count_nil] at hcts
      omega
    rw [hc, hshell] at h
    refine absurd h (commands_ne (fun hmem => ?_) (fun hhead => ?_))
    · exact hclosed (posix_openAfter_of_split ((hws c hmem).split hc))
    · obtain rfl : ts = c := Option.some.inj hhead
      omega

/-- The code reads a pipeline as the shell does where the scanners agree and the edges are plain. -/
theorem commands_eq_of_agree (h : pipeline command = some cmds)
    (hagree : posix.Agree quotes command)
    (hplain : ∀ piece ∈ posix.cut command, PlainEdges piece) : _parse_pipeline command = cmds := by
  obtain ⟨hsplit, rfl⟩ := pipeline_some h
  rw [parse_pipeline_eq, ← hagree.cut_eq]
  refine List.filterMap_congr fun piece hpiece => ?_
  obtain ⟨ts, hts⟩ := hsplit piece hpiece
  exact pieceCommand_of_plain (hplain piece hpiece) hts

end

end OpenLaunch.Shell
