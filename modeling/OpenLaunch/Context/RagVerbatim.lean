import OpenLaunch.Context.RagTemplate

/-! # When the context and the query are inserted verbatim

Each replacement fills one kind of holes of the template, unless its placeholder comes about in the
texts that were put in before, or between them and what is around them. The markers do not help: they
stand for the placeholders of the template, while those of the context are replaced. -/

namespace OpenLaunch.Context

open Python Piece

variable {context query : List Char} {pieces : List (Piece Char Placeholder)}
  {σ : Placeholder → List Char}

/-! ## One replacement -/

/-- The texts of the placeholders in the order of their replacement. -/
theorem update_assign (j : Placeholder) (b₁ b₂ b₃ b₄ r : List Char) :
    Function.update (assign b₁ b₂ b₃ b₄) j r =
      assign (if j = .bracketContext then r else b₁) (if j = .braceContext then r else b₂)
        (if j = .bracketQuery then r else b₃) (if j = .braceQuery then r else b₄) := by
  funext i
  cases j <;> cases i <;> rfl

theorem text_eq_assign : Placeholder.text = assign Placeholder.bracketContext.text
    Placeholder.braceContext.text Placeholder.bracketQuery.text Placeholder.braceQuery.text := by
  funext i
  cases i <;> rfl

/-- A replacement of a placeholder fills its holes, if it changes nothing or the placeholder touches
none of the other texts. -/
theorem replace_assign (hfree : ∀ i : Placeholder, FreeOf i.text pieces) {j : Placeholder}
    {b₁ b₂ b₃ b₄ r : List Char} (hj : assign b₁ b₂ b₃ b₄ j = j.text)
    (h : r = j.text ∨ ∀ i, i ≠ j → ¬ Touches j.text (assign b₁ b₂ b₃ b₄ i)) :
    replace j.text r (fill (assign b₁ b₂ b₃ b₄) pieces) =
      fill (Function.update (assign b₁ b₂ b₃ b₄) j r) pieces := by
  rcases h with rfl | h
  · rw [replace_self (separate_placeholders.ne_nil j), ← hj, Function.update_eq_self]
  · rw [← hj] at h ⊢
    have hne : assign b₁ b₂ b₃ b₄ j ≠ [] := hj ▸ separate_placeholders.ne_nil j
    apply replace_fill hne r
    apply onlyAt_of_not_touches
    · rw [hj]
      exact separate_placeholders.unbordered j
    · rw [hj]
      exact hfree j
    · exact fun i _ hi => h i hi

/-! ## Inert texts are inserted verbatim -/

/-- What is in a query hole before the query, and what is in it afterwards: the query in place of the
placeholder `j`, or a marker, if the query is the placeholder. -/
def Guarded (j : Placeholder) (query b b' : List Char) : Prop :=
  b = j.text ∧ b' = query ∨ query = j.text ∧ b' = b ∧ ∃ uuid, IsUuid uuid ∧ b = marker uuid

theorem Guarded.not_touches {i j : Placeholder} {b b' : List Char} (h : Guarded j query b b')
    (hij : i ≠ j) : ¬ Touches i.text b := by
  rcases h with ⟨rfl, -⟩ | ⟨-, -, uuid, huuid, rfl⟩
  · exact separate_placeholders.apart i j hij
  · exact huuid.not_touches_marker i

/-- The context and the query are put in, with the markers left as they are. -/
theorem insertTexts_fill (hfree : ∀ i : Placeholder, FreeOf i.text pieces)
    (h : Inert context query) {b₃ b₄ b₃' b₄' : List Char}
    (h₃ : Guarded .bracketQuery query b₃ b₃') (h₄ : Guarded .braceQuery query b₄ b₄') :
    insertTexts (fill (assign Placeholder.bracketContext.text Placeholder.braceContext.text b₃ b₄)
        pieces) context query = fill (assign context context b₃' b₄') pieces := by
  obtain ⟨hcontext, hquery, hbrace⟩ := h
  have hfirst : replace Placeholder.bracketContext.text context (fill (assign
      Placeholder.bracketContext.text Placeholder.braceContext.text b₃ b₄) pieces) =
      fill (assign context Placeholder.braceContext.text b₃ b₄) pieces := by
    rw [replace_assign hfree (j := .bracketContext) ?_ ?_, update_assign]
    · rfl
    · rfl
    · refine Or.inr fun i hi => ?_
      cases i with
      | bracketContext => exact absurd rfl hi
      | braceContext => exact separate_placeholders.apart _ _ hi.symm
      | bracketQuery => exact h₃.not_touches hi.symm
      | braceQuery => exact h₄.not_touches hi.symm
  have hsecond : replace Placeholder.braceContext.text context (fill (assign context
      Placeholder.braceContext.text b₃ b₄) pieces) =
      fill (assign context context b₃ b₄) pieces := by
    rw [replace_assign hfree (j := .braceContext) ?_ ?_, update_assign]
    · rfl
    · rfl
    · refine hcontext.imp_right fun hc i hi => ?_
      cases i with
      | bracketContext => exact hc
      | braceContext => exact absurd rfl hi
      | bracketQuery => exact h₃.not_touches hi.symm
      | braceQuery => exact h₄.not_touches hi.symm
  have hthird : replace Placeholder.bracketQuery.text query
      (fill (assign context context b₃ b₄) pieces) =
      fill (assign context context b₃' b₄) pieces := by
    rcases h₃ with ⟨rfl, rfl⟩ | ⟨rfl, rfl, -⟩
    · rw [replace_assign hfree (j := .bracketQuery) ?_ ?_, update_assign]
      · rfl
      · rfl
      · refine hquery.imp_right fun hc i hi => ?_
        cases i with
        | bracketContext | braceContext => exact hc
        | bracketQuery => exact absurd rfl hi
        | braceQuery => exact h₄.not_touches hi.symm
    · exact replace_self (separate_placeholders.ne_nil _) _
  have hfourth : replace Placeholder.braceQuery.text query
      (fill (assign context context b₃' b₄) pieces) =
      fill (assign context context b₃' b₄') pieces := by
    rcases h₄ with ⟨rfl, rfl⟩ | ⟨rfl, rfl, -⟩
    · rw [replace_assign hfree (j := .braceQuery) ?_ ?_, update_assign]
      · rfl
      · rfl
      · refine hbrace.imp_right fun hc i hi => ?_
        cases i with
        | bracketContext | braceContext => exact hc.1
        | bracketQuery =>
          rcases h₃ with ⟨-, rfl⟩ | ⟨-, rfl, uuid, huuid, rfl⟩
          · exact hc.2
          · exact huuid.not_touches_marker _
        | braceQuery => exact absurd rfl hi
    · exact replace_self (separate_placeholders.ne_nil _) _
  simp only [insertTexts, hfirst, hsecond, hthird, hfourth]

/-- A fresh marker is replaced by what it stands for. -/
theorem replace_marker {uuid r : List Char} {j : Placeholder} (huuid : IsUuid uuid)
    (hσ : σ j = marker uuid)
    (hfresh : ¬ marker uuid <:+: fill (Function.update σ j r) pieces) :
    replace (marker uuid) r (fill σ pieces) = fill (Function.update σ j r) pieces := by
  rw [← hσ] at hfresh ⊢
  have hunbordered : Unbordered (σ j) := hσ ▸ huuid.unbordered_marker
  have hne : σ j ≠ [] := by
    rw [hσ, marker_eq]
    exact List.cons_ne_nil _ _
  exact replace_fill hne r (onlyAt_of_fresh hunbordered hfresh)

theorem Inert.insertsVerbatim (h : Inert context query) : InsertsVerbatim context query := by
  intro now DEFAULT_RAG_TEMPLATE uuid₁ uuid₂ template huuid₁ huuid₂ prepared hfresh₁ hfresh₂
  have hfree (i : Placeholder) : FreeOf i.text (parse Placeholder.text placeholders prepared) :=
    freeOf_parse separate_placeholders (mem_placeholders i) prepared
  have hparse : fill Placeholder.text (parse Placeholder.text placeholders prepared) = prepared :=
    fill_parse separate_placeholders prepared
  show restore uuid₁ uuid₂ (insertTexts (protect uuid₁ uuid₂ prepared context) context query)
    context = insertVerbatim prepared context query
  rw [insertVerbatim] at hfresh₁ hfresh₂ ⊢
  generalize parse Placeholder.text placeholders prepared = pieces at *
  rw [← hparse, text_eq_assign]
  have hapart (j i : Placeholder) (hi : i ≠ j) : ¬ Touches j.text (assign
      Placeholder.bracketContext.text Placeholder.braceContext.text Placeholder.bracketQuery.text
      Placeholder.braceQuery.text i) := by
    rw [← text_eq_assign]
    exact separate_placeholders.apart j i hi.symm
  by_cases hbracket : Placeholder.bracketQuery.text <:+: context
  · -- the query is the placeholder in brackets
    have hquery := h.2.1.resolve_right fun hc => hc (Or.inl hbracket)
    have hbrace : ¬ Placeholder.braceQuery.text <:+: context := by
      intro hbrace
      rcases h.2.2 with hquery' | hc
      · exact absurd (hquery.symm.trans hquery') (by decide)
      · exact hc.1 (Or.inl hbrace)
    simp only [protect, restore, if_pos hbracket, if_neg hbrace]
    rw [replace_assign hfree (j := .bracketQuery) ?_ (Or.inr (hapart _)), update_assign]
    simp only [reduceCtorEq, if_true, if_false]
    rw [insertTexts_fill hfree h (Or.inr ⟨hquery, rfl, uuid₁, huuid₁, rfl⟩) (Or.inl ⟨rfl, rfl⟩)]
    have hupdate : Function.update (assign context context (marker uuid₁) query) .bracketQuery
        Placeholder.bracketQuery.text = assign context context query query := by
      rw [update_assign, ← hquery]
      rfl
    rw [replace_marker (j := .bracketQuery) huuid₁ rfl (by rwa [hupdate]), hupdate]
    rfl
  · by_cases hbrace : Placeholder.braceQuery.text <:+: context
    · -- the query is the placeholder in braces
      have hquery := h.2.2.resolve_right fun hc => hc.1 (Or.inl hbrace)
      simp only [protect, restore, if_neg hbracket, if_pos hbrace]
      rw [replace_assign hfree (j := .braceQuery) ?_ (Or.inr (hapart _)), update_assign]
      simp only [reduceCtorEq, if_true, if_false]
      rw [insertTexts_fill hfree h (Or.inl ⟨rfl, rfl⟩) (Or.inr ⟨hquery, rfl, uuid₂, huuid₂, rfl⟩)]
      have hupdate : Function.update (assign context context query (marker uuid₂)) .braceQuery
          Placeholder.braceQuery.text = assign context context query query := by
        rw [update_assign, ← hquery]
        rfl
      rw [replace_marker (j := .braceQuery) huuid₂ rfl (by rwa [hupdate]), hupdate]
      rfl
    · simp only [protect, restore, if_neg hbracket, if_neg hbrace]
      exact insertTexts_fill hfree h (Or.inl ⟨rfl, rfl⟩) (Or.inl ⟨rfl, rfl⟩)

/-! ## Templates with one placeholder -/

/-- Parts of a placeholder, to stand around another one. -/
structure PartsOf (j : Placeholder) (x y : List Char) : Prop where
  isPrefix : x <+: j.text
  isSuffix : y <:+ j.text
  left_lt : x.length < j.text.length
  right_lt : y.length < j.text.length

variable {j k i : Placeholder} {x y : List Char}

theorem PartsOf.not_infix (h : PartsOf j x y) (i : Placeholder) :
    ¬ i.text <:+: x ∧ ¬ i.text <:+: y := by
  have hof {z : List Char} (hz : z <:+: j.text) (hlt : z.length < j.text.length) :
      ¬ i.text <:+: z := by
    intro hin
    have hij : i = j := by
      by_contra hne
      exact separate_placeholders.apart i j hne (Or.inl (hin.trans hz))
    subst hij
    have := hin.length_le
    omega
  exact ⟨hof h.isPrefix.isInfix h.left_lt, hof h.isSuffix.isInfix h.right_lt⟩

theorem PartsOf.nil (j : Placeholder) : PartsOf j [] [] where
  isPrefix := List.nil_prefix
  isSuffix := List.nil_suffix
  left_lt := List.length_pos_iff.mpr (separate_placeholders.ne_nil j)
  right_lt := List.length_pos_iff.mpr (separate_placeholders.ne_nil j)

/-- The pieces of a template with one placeholder. -/
def onePlaceholder (x : List Char) (k : Placeholder) (y : List Char) :
    List (Piece Char Placeholder) := x.map lit ++ hole k :: y.map lit

theorem fill_onePlaceholder (σ : Placeholder → List Char) :
    fill σ (onePlaceholder x k y) = x ++ σ k ++ y := by
  rw [onePlaceholder, fill_append, fill_map_lit, fill, fill_map_lit, List.append_assoc]

theorem PartsOf.freeOf (h : PartsOf j x y) (k i : Placeholder) :
    FreeOf i.text (onePlaceholder x k y) :=
  freeOf_around k (h.not_infix i).1 (h.not_infix i).2

theorem PartsOf.insertVerbatim (h : PartsOf j x y) (k : Placeholder) (context query : List Char) :
    insertVerbatim (x ++ k.text ++ y) context query =
      x ++ assign context context query query k ++ y := by
  rw [Context.insertVerbatim, ← fill_onePlaceholder Placeholder.text,
    parse_fill separate_placeholders mem_placeholders (h.freeOf k), fill_onePlaceholder]

theorem PartsOf.replace (h : PartsOf j x y) (k : Placeholder) (r : List Char) :
    Python.replace k.text r (x ++ k.text ++ y) = x ++ r ++ y := by
  have hfill := replace_fill (separate_placeholders.ne_nil k) r
    (onlyAt_of_not_touches (separate_placeholders.unbordered k) (h.freeOf k k)
      fun i _ hi => separate_placeholders.apart k i hi.symm)
  rwa [fill_onePlaceholder, fill_onePlaceholder, Function.update_self] at hfill

theorem PartsOf.not_infix_template (h : PartsOf j x y) (hik : i ≠ k) :
    ¬ i.text <:+: x ++ k.text ++ y := by
  intro hin
  rcases touches_of_infix_around hin with htouch | hx | hy
  · exact separate_placeholders.apart i k hik htouch
  · exact (h.not_infix i).1 hx
  · exact (h.not_infix i).2 hy

/-- A placeholder that touches a text occurs in it, with parts of the placeholder around it. -/
theorem exists_partsOf {c : List Char} (h : Touches j.text c) :
    ∃ x y, PartsOf j x y ∧ j.text <:+: x ++ c ++ y := by
  have hlength : 2 ≤ j.text.length := by cases j <;> decide
  obtain ⟨x, y, hx, hy, hxlt, hylt, hin⟩ := h.exists_around hlength
  exact ⟨x, y, ⟨hx, hy, hxlt, hylt⟩, hin⟩

/-! ## Templates without variables -/

/-- A text without an underscore has no variable of the prompt. -/
theorem prompt_template_of_not_mem (now : Now) {template : List Char} (h : '_' ∉ template) :
    prompt_template now template = template := by
  have hvariables : ∀ e ∈ promptVariables now, '_' ∈ e.1 := by
    simp only [promptVariables, List.forall_mem_cons]
    decide
  rw [prompt_template]
  generalize promptVariables now = vars at hvariables
  induction vars with
  | nil => rfl
  | cons e vars ih =>
    have hnot : ¬ e.1 <:+: template := fun hin => h (hin.mem (hvariables e List.mem_cons_self))
    rw [List.foldl_cons, replace_of_absent _ hnot]
    exact ih fun e he => hvariables e (List.mem_cons_of_mem _ he)

/-- A template with one placeholder is filled as it is. -/
theorem PartsOf.prepared (h : PartsOf j x y) (k : Placeholder) (now : Now)
    (DEFAULT_RAG_TEMPLATE : List Char) :
    preparedTemplate now DEFAULT_RAG_TEMPLATE (x ++ k.text ++ y) = x ++ k.text ++ y := by
  have htext (i : Placeholder) : '_' ∉ i.text ∧ ∀ ch ∈ i.text, isSpace ch = false := by
    have hunderscore : '_' ∉ i.text := by cases i <;> decide
    have hsolid : (i.text.all fun ch => !isSpace ch) = true := by cases i <;> decide
    exact ⟨hunderscore, fun ch hch => by simpa using List.all_eq_true.mp hsolid ch hch⟩
  have hsolid : strip (x ++ k.text ++ y) ≠ [] := by
    rw [ne_eq, strip_eq_nil_iff, blank_append, blank_append]
    rintro ⟨⟨-, hblank⟩, -⟩
    obtain ⟨ch, t, ht⟩ := List.exists_cons_of_ne_nil (separate_placeholders.ne_nil k)
    have hch : ch ∈ k.text := ht ▸ List.mem_cons_self
    exact absurd (hblank ch hch) (by rw [(htext k).2 ch hch]; exact Bool.false_ne_true)
  rw [preparedTemplate, if_neg hsolid, prompt_template_of_not_mem]
  simp only [List.mem_append, not_or]
  exact ⟨⟨fun hx => (htext j).1 (h.isPrefix.mem hx), (htext k).1⟩,
    fun hy => (htext j).1 (h.isSuffix.mem hy)⟩

/-- There is a UUID whose marker is longer than a text. -/
theorem exists_uuid (n : ℕ) : ∃ uuid, IsUuid uuid ∧ n < (marker uuid).length := by
  refine ⟨List.replicate (n + 1) '0', ⟨by simp, fun ch hch => ?_⟩, ?_⟩
  · rw [List.eq_of_mem_replicate hch]
    exact Or.inl (by decide)
  · rw [marker, List.length_append, List.length_append, List.length_replicate]
    omega

theorem not_infix_of_length_lt {s t : List Char} (h : t.length < s.length) : ¬ s <:+: t :=
  fun hin => absurd hin.length_le (by omega)

/-- **Without markers**: on a template that has no placeholder for which markers would be put in, the
four replacements alone insert the texts verbatim. -/
theorem InsertsVerbatim.insertTexts_eq (hV : InsertsVerbatim context query) (h : PartsOf j x y)
    (hbracket : Placeholder.bracketQuery.text <:+: context → k ≠ .bracketQuery)
    (hbrace : Placeholder.braceQuery.text <:+: context → k ≠ .braceQuery) :
    insertTexts (x ++ k.text ++ y) context query =
      x ++ assign context context query query k ++ y := by
  obtain ⟨uuid, huuid, hlt⟩ := exists_uuid
    ((insertTexts (x ++ k.text ++ y) context query).length +
      (x ++ assign context context query query k ++ y).length)
  have hprotect : protect uuid uuid (x ++ k.text ++ y) context = x ++ k.text ++ y := by
    have hfirst : (if Placeholder.bracketQuery.text <:+: context then
        Python.replace Placeholder.bracketQuery.text (marker uuid) (x ++ k.text ++ y)
        else x ++ k.text ++ y) = x ++ k.text ++ y := by
      split_ifs with hin
      · exact replace_of_absent _ (h.not_infix_template (hbracket hin).symm)
      · rfl
    rw [protect, hfirst]
    split_ifs with hin
    · exact replace_of_absent _ (h.not_infix_template (hbrace hin).symm)
    · rfl
  have hrestore : restore uuid uuid (insertTexts (x ++ k.text ++ y) context query) context =
      insertTexts (x ++ k.text ++ y) context query := by
    have hnot : ¬ marker uuid <:+: insertTexts (x ++ k.text ++ y) context query :=
      not_infix_of_length_lt (by omega)
    rw [restore]
    simp only [replace_of_absent _ hnot, ite_self]
  have hfresh : ¬ marker uuid <:+: x ++ assign context context query query k ++ y :=
    not_infix_of_length_lt (by omega)
  have hrag := hV ⟨[], [], []⟩ [] uuid uuid (x ++ k.text ++ y) huuid huuid
  rw [rag_template] at hrag
  simp only [h.prepared, h.insertVerbatim, hprotect, hrestore] at hrag
  exact hrag hfresh hfresh

/-! ## Only inert texts are inserted verbatim -/

/-- A context with `[query]`: the placeholders of the template are not replaced by the query. -/
theorem InsertsVerbatim.query_eq (hV : InsertsVerbatim context query)
    (hin : Placeholder.bracketQuery.text <:+: context) : query = Placeholder.bracketQuery.text := by
  obtain ⟨uuid, huuid, hlt⟩ := exists_uuid (query.length + Placeholder.bracketQuery.text.length)
  have hparts := PartsOf.nil .bracketQuery
  have hmarker (i : Placeholder) (r : List Char) : Python.replace i.text r (marker uuid) =
      marker uuid :=
    replace_of_absent r fun hin => huuid.not_touches_marker i (Or.inl hin)
  have hprotect : protect uuid uuid Placeholder.bracketQuery.text context = marker uuid := by
    have hfirst := hparts.replace .bracketQuery (marker uuid)
    simp only [List.nil_append, List.append_nil] at hfirst
    rw [protect, if_pos hin, hfirst]
    simp only [hmarker, ite_self]
  have hinsert : insertTexts (marker uuid) context query = marker uuid := by
    simp only [insertTexts, hmarker]
  have hrestore : restore uuid uuid (marker uuid) context = Placeholder.bracketQuery.text := by
    have hfirst : Python.replace (marker uuid) Placeholder.bracketQuery.text (marker uuid) =
        Placeholder.bracketQuery.text := by
      have hne : marker uuid ≠ [] := by
        rw [marker_eq]
        exact List.cons_ne_nil _ _
      have happend := replace_append hne Placeholder.bracketQuery.text []
      rwa [List.append_nil, replace_nil, List.append_nil] at happend
    have hnot : ¬ marker uuid <:+: Placeholder.bracketQuery.text :=
      not_infix_of_length_lt (by omega)
    rw [restore, if_pos hin, hfirst]
    simp only [replace_of_absent _ hnot, ite_self]
  have hfresh : ¬ marker uuid <:+: query := not_infix_of_length_lt (by omega)
  have hprepared := hparts.prepared .bracketQuery ⟨[], [], []⟩ []
  have hverbatim := hparts.insertVerbatim .bracketQuery context query
  have hrag := hV ⟨[], [], []⟩ [] uuid uuid Placeholder.bracketQuery.text huuid huuid
  simp only [List.nil_append, List.append_nil, assign] at hprepared hverbatim
  rw [rag_template] at hrag
  simp only [hprepared, hverbatim, hprotect, hinsert, hrestore] at hrag
  exact (hrag hfresh hfresh).symm

/-- A pattern occurs in a text and not over its ends, if the texts around it do not have the first and
the last character of the pattern. -/
theorem infix_of_ends {a z : Char} {mid c : List Char} (ha : a ∉ x) (hz : z ∉ y)
    (h : a :: mid ++ [z] <:+: x ++ c ++ y) : a :: mid ++ [z] <:+: c := by
  rcases List.infix_append_iff_ne_nil.mp h with h | h | ⟨l₁, l₂, -, hl₂, hl, -, hstarts⟩
  · rcases List.infix_append_iff_ne_nil.mp h with h | h | ⟨l₁, l₂, hl₁, -, hl, hsuffix, -⟩
    · exact absurd (h.mem (by simp)) ha
    · exact h
    · obtain ⟨a', l₁, rfl⟩ := List.exists_cons_of_ne_nil hl₁
      rw [List.cons_append, List.cons_append] at hl
      rw [(List.cons.inj hl).1] at ha
      exact absurd (hsuffix.mem List.mem_cons_self) ha
  · exact absurd (h.mem (by simp)) hz
  · have hlast : z ∈ l₂ := by
      have hlast := congrArg List.getLast? hl
      rw [List.getLast?_append_of_ne_nil _ (List.cons_ne_nil z []),
        List.getLast?_append_of_ne_nil _ hl₂] at hlast
      exact List.mem_of_getLast? hlast.symm
    exact absurd (hstarts.mem hlast) hz

/-- `{{QUERY}}` is replaced last. -/
theorem InsertsVerbatim.braceQuery (hV : InsertsVerbatim context query)
    (hne : query ≠ Placeholder.braceQuery.text) :
    ¬ Touches Placeholder.braceQuery.text context ∧
      ¬ Touches Placeholder.braceQuery.text query := by
  have hneP := separate_placeholders.ne_nil
  constructor
  · intro htouch
    obtain ⟨x, y, hparts, hin⟩ := exists_partsOf htouch
    have heq := hV.insertTexts_eq hparts (k := .braceContext) (by simp) (by simp)
    rw [insertTexts, replace_of_absent _ (hparts.not_infix_template (by simp)),
      hparts.replace] at heq
    have hquery : Python.replace Placeholder.bracketQuery.text query (x ++ context ++ y) =
        x ++ context ++ y := by
      by_cases hcontext : Placeholder.bracketQuery.text <:+: context
      · rw [hV.query_eq hcontext, replace_self (hneP _)]
      · -- the parts of the other placeholder have no brackets
        have htext : Placeholder.bracketQuery.text = '[' :: "query".toList ++ [']'] := by
          decide
        have hopen : '[' ∉ x := fun hx => absurd (hparts.isPrefix.mem hx) (by decide)
        have hclose : ']' ∉ y := fun hy => absurd (hparts.isSuffix.mem hy) (by decide)
        rw [htext] at hcontext ⊢
        exact replace_of_absent _ fun hin => hcontext (infix_of_ends hopen hclose hin)
    rw [hquery] at heq
    exact replace_ne_of_infix (hneP _) hne hin heq
  · intro htouch
    have hcontext : ¬ Placeholder.bracketQuery.text <:+: context := by
      intro hin
      rw [hV.query_eq hin] at htouch
      exact separate_placeholders.apart .braceQuery .bracketQuery (by simp) htouch
    obtain ⟨x, y, hparts, hin⟩ := exists_partsOf htouch
    have heq := hV.insertTexts_eq hparts (k := .bracketQuery) (fun hc => absurd hc hcontext)
      (by simp)
    rw [insertTexts, replace_of_absent _ (hparts.not_infix_template (by simp)),
      replace_of_absent _ (hparts.not_infix_template (by simp)), hparts.replace] at heq
    exact replace_ne_of_infix (hneP _) hne hin heq

/-- What was replaced in a text stays, if the text and the replacement are not touched. -/
theorem PartsOf.replace_replace (h : PartsOf j x y) {p r c : List Char} (hp : p ≠ [])
    (hlater : query = i.text ∨ ¬ Touches i.text c ∧ ¬ Touches i.text r) :
    Python.replace i.text query (Python.replace p r (x ++ c ++ y)) =
      Python.replace p r (x ++ c ++ y) := by
  rcases hlater with rfl | ⟨hc, hr⟩
  · exact replace_self (separate_placeholders.ne_nil i) _
  · apply replace_of_absent
    apply not_infix_replace hp hr
    intro hin
    rcases touches_of_infix_around hin with htouch | hx | hy
    · exact hc htouch
    · exact (h.not_infix i).1 hx
    · exact (h.not_infix i).2 hy

/-- `[query]` is replaced after the context was put in. -/
theorem InsertsVerbatim.bracketQuery (hV : InsertsVerbatim context query)
    (hne : query ≠ Placeholder.bracketQuery.text) :
    ¬ Touches Placeholder.bracketQuery.text context := by
  intro htouch
  have hneP := separate_placeholders.ne_nil
  have hbrace : query = Placeholder.braceQuery.text ∨
      ¬ Touches Placeholder.braceQuery.text context ∧
        ¬ Touches Placeholder.braceQuery.text query :=
    or_iff_not_imp_left.mpr hV.braceQuery
  obtain ⟨x, y, hparts, hin⟩ := exists_partsOf htouch
  have heq := hV.insertTexts_eq hparts (k := .braceContext) (by simp) (by simp)
  rw [insertTexts, replace_of_absent _ (hparts.not_infix_template (by simp)),
    hparts.replace] at heq
  rw [hparts.replace_replace (hneP _) hbrace] at heq
  exact replace_ne_of_infix (hneP _) hne hin heq

/-- `{{CONTEXT}}` is replaced after the context was put in for `[context]`. -/
theorem InsertsVerbatim.braceContext (hV : InsertsVerbatim context query)
    (hne : context ≠ Placeholder.braceContext.text) :
    ¬ Touches Placeholder.braceContext.text context := by
  intro htouch
  have hneP := separate_placeholders.ne_nil
  have hbracket : query = Placeholder.bracketQuery.text ∨
      ¬ Touches Placeholder.bracketQuery.text context ∧
        ¬ Touches Placeholder.bracketQuery.text context :=
    or_iff_not_imp_left.mpr fun h => ⟨hV.bracketQuery h, hV.bracketQuery h⟩
  have hbrace : query = Placeholder.braceQuery.text ∨
      ¬ Touches Placeholder.braceQuery.text context ∧
        ¬ Touches Placeholder.braceQuery.text context :=
    or_iff_not_imp_left.mpr fun h => ⟨(hV.braceQuery h).1, (hV.braceQuery h).1⟩
  obtain ⟨x, y, hparts, hin⟩ := exists_partsOf htouch
  have heq := hV.insertTexts_eq hparts (k := .bracketContext) (by simp) (by simp)
  rw [insertTexts, hparts.replace] at heq
  rw [hparts.replace_replace (hneP _) hbracket, hparts.replace_replace (hneP _) hbrace] at heq
  exact replace_ne_of_infix (hneP _) hne hin heq

/-- **The context and the query are inserted verbatim into every template exactly when they are
inert.** -/
theorem insertsVerbatim_iff_inert (context query : List Char) :
    InsertsVerbatim context query ↔ Inert context query := by
  constructor
  · intro hV
    exact ⟨or_iff_not_imp_left.mpr hV.braceContext, or_iff_not_imp_left.mpr hV.bracketQuery,
      or_iff_not_imp_left.mpr hV.braceQuery⟩
  · exact Inert.insertsVerbatim

/-- A document that has the text `[query]`: the query is put into the document, and not where the
template has it. -/
theorem query_in_context_is_replaced :
    rag_template ⟨[], [], []⟩ [] "0".toList "1".toList "[context]: [query]".toList
        "a [query] b".toList "Q".toList = "a Q b: [query]".toList ∧
      insertVerbatim "[context]: [query]".toList "a [query] b".toList "Q".toList =
        "a [query] b: Q".toList := by
  decide

end OpenLaunch.Context
