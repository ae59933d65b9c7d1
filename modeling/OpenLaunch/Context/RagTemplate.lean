import OpenLaunch.Python.Replace
import OpenLaunch.Python.Blank

/-! # The template of retrieved context

`rag_template` puts the retrieved context and the query of the user into a template, by one
replacement after the other. Where the context has a query placeholder of its own, the placeholders
of the template are replaced by markers meanwhile, which are made of random UUIDs. -/

namespace OpenLaunch.Context

open Python Piece

/-! ## The placeholders -/

/-- The placeholders of a template. -/
inductive Placeholder
  | bracketContext
  | braceContext
  | bracketQuery
  | braceQuery
  deriving DecidableEq

/-- All placeholders. -/
def placeholders : List Placeholder := [.bracketContext, .braceContext, .bracketQuery, .braceQuery]

theorem mem_placeholders (i : Placeholder) : i ∈ placeholders := by
  cases i <;> decide

/-- The text of a placeholder. -/
def Placeholder.text : Placeholder → List Char
  | .bracketContext => "[context]".toList
  | .braceContext => "\x7b\x7bCONTEXT\x7d\x7d".toList
  | .bracketQuery => "[query]".toList
  | .braceQuery => "\x7b\x7bQUERY\x7d\x7d".toList

/-- What the placeholders stand for. -/
def assign (bracketContext braceContext bracketQuery braceQuery : List Char) :
    Placeholder → List Char
  | .bracketContext => bracketContext
  | .braceContext => braceContext
  | .bracketQuery => bracketQuery
  | .braceQuery => braceQuery

/-! ## The function -/

/-- The texts of `datetime.now()`. -/
structure Now where
  date : List Char
  time : List Char
  weekday : List Char

/-- The variables of `prompt_template` without a user, in the order of their replacement. -/
def promptVariables (now : Now) : List (List Char × List Char) :=
  [("\x7b\x7bCURRENT_DATE\x7d\x7d".toList, now.date),
    ("\x7b\x7bCURRENT_TIME\x7d\x7d".toList, now.time),
    ("\x7b\x7bCURRENT_DATETIME\x7d\x7d".toList, now.date ++ ' ' :: now.time),
    ("\x7b\x7bCURRENT_WEEKDAY\x7d\x7d".toList, now.weekday),
    ("\x7b\x7bUSER_NAME\x7d\x7d".toList, "Unknown".toList),
    ("\x7b\x7bUSER_EMAIL\x7d\x7d".toList, "Unknown".toList),
    ("\x7b\x7bUSER_BIO\x7d\x7d".toList, "Unknown".toList),
    ("\x7b\x7bUSER_GENDER\x7d\x7d".toList, "Unknown".toList),
    ("\x7b\x7bUSER_BIRTH_DATE\x7d\x7d".toList, "Unknown".toList),
    ("\x7b\x7bUSER_AGE\x7d\x7d".toList, "Unknown".toList),
    ("\x7b\x7bUSER_LOCATION\x7d\x7d".toList, "Unknown".toList),
    ("\x7b\x7bUSER_GROUPS\x7d\x7d".toList, [])]

/-- `prompt_template`, without a user. -/
def prompt_template (now : Now) (template : List Char) : List Char :=
  (promptVariables now).foldl (fun template e => replace e.1 e.2 template) template

/-- What a marker has before the UUID. -/
def markerStart : List Char := "\x7b\x7bQUERY".toList

/-- What a marker has after the UUID. -/
def markerEnd : List Char := "\x7d\x7d".toList

/-- A marker: a query placeholder with a UUID in it. -/
def marker (uuid : List Char) : List Char := markerStart ++ uuid ++ markerEnd

/-- The query placeholders that are in the context are replaced by markers. -/
def protect (uuid₁ uuid₂ template context : List Char) : List Char :=
  let template := if Placeholder.bracketQuery.text <:+: context then
    replace Placeholder.bracketQuery.text (marker uuid₁) template else template
  if Placeholder.braceQuery.text <:+: context then
    replace Placeholder.braceQuery.text (marker uuid₂) template
  else template

/-- The context and the query are put in. -/
def insertTexts (template context query : List Char) : List Char :=
  let template := replace Placeholder.bracketContext.text context template
  let template := replace Placeholder.braceContext.text context template
  let template := replace Placeholder.bracketQuery.text query template
  replace Placeholder.braceQuery.text query template

/-- The markers are replaced by what they stand for. -/
def restore (uuid₁ uuid₂ template context : List Char) : List Char :=
  let template := if Placeholder.bracketQuery.text <:+: context then
    replace (marker uuid₁) Placeholder.bracketQuery.text template else template
  if Placeholder.braceQuery.text <:+: context then
    replace (marker uuid₂) Placeholder.braceQuery.text template
  else template

/-- The template that is filled: the default one if the template is blank, with the variables of the
prompt replaced. -/
def preparedTemplate (now : Now) (DEFAULT_RAG_TEMPLATE template : List Char) : List Char :=
  prompt_template now (if strip template = [] then DEFAULT_RAG_TEMPLATE else template)

/-- `rag_template`, with the two UUIDs that it may draw. -/
def rag_template (now : Now) (DEFAULT_RAG_TEMPLATE uuid₁ uuid₂ template context query : List Char) :
    List Char :=
  let template := preparedTemplate now DEFAULT_RAG_TEMPLATE template
  restore uuid₁ uuid₂
    (insertTexts (protect uuid₁ uuid₂ template context) context query) context

/-! ## The specification -/

/-- **Insertion as it is meant**: every placeholder of the template is replaced at the same time. -/
def insertVerbatim (template context query : List Char) : List Char :=
  fill (assign context context query query) (parse Placeholder.text placeholders template)

/-- A text that `str(uuid.uuid4())` can be, but for its length and dashes. -/
def IsUuid (uuid : List Char) : Prop :=
  uuid ≠ [] ∧ ∀ ch ∈ uuid, ch.isDigit = true ∨ ('a' ≤ ch ∧ ch ≤ 'f') ∨ ch = '-'

/-- The function inserts a context and a query verbatim, into every template, if the markers are
fresh: they do not occur in what comes out. -/
def InsertsVerbatim (context query : List Char) : Prop :=
  ∀ now DEFAULT_RAG_TEMPLATE uuid₁ uuid₂ template, IsUuid uuid₁ → IsUuid uuid₂ →
    let prepared := preparedTemplate now DEFAULT_RAG_TEMPLATE template
    ¬ marker uuid₁ <:+: insertVerbatim prepared context query →
    ¬ marker uuid₂ <:+: insertVerbatim prepared context query →
    rag_template now DEFAULT_RAG_TEMPLATE uuid₁ uuid₂ template context query =
      insertVerbatim prepared context query

/-- **Texts that are inserted verbatim**: no placeholder that is still to be replaced touches what
was put in before, or the placeholder is replaced by itself. -/
def Inert (context query : List Char) : Prop :=
  (context = Placeholder.braceContext.text ∨ ¬ Touches Placeholder.braceContext.text context) ∧
  (query = Placeholder.bracketQuery.text ∨ ¬ Touches Placeholder.bracketQuery.text context) ∧
  (query = Placeholder.braceQuery.text ∨
    ¬ Touches Placeholder.braceQuery.text context ∧ ¬ Touches Placeholder.braceQuery.text query)

/-! ## Placeholders and markers do not overlap -/

theorem separate_placeholders : Separate Placeholder.text where
  ne_nil i := by cases i <;> decide
  unbordered i := by cases i <;> decide
  apart i j := by cases i <;> cases j <;> decide

/-- A text that starts with two braces, and has no other opening brace. -/
def braced (body : List Char) : List Char := '\x7b' :: '\x7b' :: body

/-- Two such texts overlap only where they start. -/
theorem eq_braced_of_overlap {b b' v : List Char} (hb : '\x7b' ∉ b) (hne : b ≠ [])
    (hv : v ≠ []) (hsuffix : v <:+ braced b) (hstarts : v <+: braced b') : v = braced b := by
  obtain ⟨a, v, rfl⟩ := List.exists_cons_of_ne_nil hv
  obtain ⟨rfl, hrest⟩ := List.cons_prefix_cons.mp hstarts
  rcases List.suffix_cons_iff.mp hsuffix with h | h
  · exact h
  rcases List.suffix_cons_iff.mp h with h | h
  · obtain rfl := (List.cons.inj h).2
    cases v with
    | nil => exact absurd rfl hne
    | cons a v =>
      obtain ⟨rfl, -⟩ := List.cons_prefix_cons.mp hrest
      exact absurd List.mem_cons_self hb
  · exact absurd (h.mem List.mem_cons_self) hb

theorem unbordered_braced {b : List Char} (hb : '\x7b' ∉ b) (hne : b ≠ []) :
    Unbordered (braced b) := by
  intro v hv hv' hstarts
  exact eq_braced_of_overlap hb hne hv' ((List.mem_tails v _).mp hv) hstarts

theorem prefix_of_infix_braced {b b' : List Char} (hb : '\x7b' ∉ b) (h : braced b' <:+: braced b) :
    b' <+: b := by
  obtain ⟨v, ⟨t, rfl⟩, hsuffix⟩ := List.infix_iff_prefix_suffix.mp h
  rcases List.suffix_cons_iff.mp hsuffix with h | h
  · exact ⟨t, (List.cons.inj (List.cons.inj h).2).2⟩
  rcases List.suffix_cons_iff.mp h with h | h
  · rw [← (List.cons.inj h).2] at hb
    exact absurd List.mem_cons_self hb
  · exact absurd (h.mem List.mem_cons_self) hb

theorem not_touches_braced {b b' : List Char} (hb : '\x7b' ∉ b) (hb' : '\x7b' ∉ b')
    (hne : b ≠ []) (hne' : b' ≠ []) (h : ¬ b <+: b') (h' : ¬ b' <+: b) :
    ¬ Touches (braced b) (braced b') := by
  have hstarts {c c' : List Char} (hc : braced c <+: braced c') : c <+: c' :=
    (List.cons_prefix_cons.mp (List.cons_prefix_cons.mp hc).2).2
  rintro (hin | hin | ⟨v, hv, hvne, hpre⟩ | ⟨v, hv, hvne, hpre⟩)
  · exact h (prefix_of_infix_braced hb' hin)
  · exact h' (prefix_of_infix_braced hb hin)
  · rw [eq_braced_of_overlap hb' hne' hvne ((List.mem_tails v _).mp hv) hpre] at hpre
    exact h' (hstarts hpre)
  · rw [eq_braced_of_overlap hb hne hvne ((List.mem_tails v _).mp hv) hpre] at hpre
    exact h (hstarts hpre)

/-- A pattern does not touch a text without its first and its last character. -/
theorem not_touches_of_ends {a z : Char} {mid c : List Char} (ha : a ∉ c) (hz : z ∉ c)
    (hc : ¬ c <:+: a :: mid ++ [z]) : ¬ Touches (a :: mid ++ [z]) c := by
  rintro (hin | hin | ⟨v, hv, hvne, hpre⟩ | ⟨v, hv, hvne, hpre⟩)
  · exact ha (hin.mem (by simp))
  · exact hc hin
  · obtain ⟨x, v, rfl⟩ := List.exists_cons_of_ne_nil hvne
    obtain ⟨rfl, -⟩ := List.cons_prefix_cons.mp hpre
    exact ha (((List.mem_tails _ _).mp hv).mem List.mem_cons_self)
  · have hlast : v.getLast hvne = z := by
      rw [((List.mem_tails _ _).mp hv).getLast hvne, List.getLast_append_singleton]
    exact hz (hpre.mem (hlast ▸ List.getLast_mem hvne))

/-! ## Markers -/

variable {uuid : List Char}

theorem IsUuid.not_mem (h : IsUuid uuid) {ch : Char}
    (hch : ¬ (ch.isDigit = true ∨ ('a' ≤ ch ∧ ch ≤ 'f') ∨ ch = '-')) : ch ∉ uuid :=
  fun hmem => hch (h.2 ch hmem)

/-- What follows the braces of a marker. -/
def markerBody (uuid : List Char) : List Char := "QUERY".toList ++ uuid ++ markerEnd

theorem marker_eq (uuid : List Char) : marker uuid = braced (markerBody uuid) := by
  have hstart : markerStart = braced "QUERY".toList := by decide
  rw [marker, hstart]
  rfl

theorem markerBody_ne_nil (uuid : List Char) : markerBody uuid ≠ [] := by
  have hend : markerEnd ≠ [] := by decide
  exact List.append_ne_nil_of_right_ne_nil _ hend

theorem IsUuid.brace_not_mem (h : IsUuid uuid) : '\x7b' ∉ markerBody uuid := by
  have huuid : '\x7b' ∉ uuid := h.not_mem (by decide)
  have hquery : '\x7b' ∉ "QUERY".toList := by decide
  have hclose : '\x7b' ∉ markerEnd := by decide
  simp only [markerBody, List.mem_append, not_or]
  exact ⟨⟨hquery, huuid⟩, hclose⟩

theorem IsUuid.unbordered_marker (h : IsUuid uuid) : Unbordered (marker uuid) := by
  rw [marker_eq]
  exact unbordered_braced h.brace_not_mem (markerBody_ne_nil uuid)

theorem IsUuid.not_mem_marker (h : IsUuid uuid) {ch : Char}
    (hch : ¬ (ch.isDigit = true ∨ ('a' ≤ ch ∧ ch ≤ 'f') ∨ ch = '-'))
    (hopen : ch ∉ markerStart) (hclose : ch ∉ markerEnd) :
    ch ∉ marker uuid := by
  simp only [marker, List.mem_append, not_or]
  exact ⟨⟨hopen, h.not_mem hch⟩, hclose⟩

theorem brace_mem_marker (uuid : List Char) : '\x7b' ∈ marker uuid := by
  rw [marker_eq]
  exact List.mem_cons_self

/-- The UUID of a marker does not start with the brace that ends a placeholder. -/
theorem IsUuid.not_prefix (h : IsUuid uuid) (s t : List Char) :
    ¬ '\x7d' :: s <+: uuid ++ t ∧ ¬ uuid ++ t <+: '\x7d' :: s := by
  obtain ⟨a, u, rfl⟩ := List.exists_cons_of_ne_nil h.1
  have ha : a ≠ '\x7d' := by
    rintro rfl
    exact absurd List.mem_cons_self (h.not_mem (by decide : ¬ _))
  exact ⟨fun hpre => ha (List.cons_prefix_cons.mp hpre).1.symm,
    fun hpre => ha (List.cons_prefix_cons.mp hpre).1⟩

/-- **No placeholder touches a marker.** -/
theorem IsUuid.not_touches_marker (h : IsUuid uuid) (i : Placeholder) :
    ¬ Touches i.text (marker uuid) := by
  have hbracket {mid : List Char} (hmid : '\x7b' ∉ mid) :
      ¬ Touches ('[' :: mid ++ [']']) (marker uuid) := by
    apply not_touches_of_ends
    · exact h.not_mem_marker (by decide) (by decide) (by decide)
    · exact h.not_mem_marker (by decide) (by decide) (by decide)
    · intro hin
      have hmem := hin.mem (brace_mem_marker uuid)
      simp [hmid] at hmem
  have hbrace {b : List Char} (hb : '\x7b' ∉ b) (hne : b ≠ []) (hb₁ : ¬ b <+: markerBody uuid)
      (hb₂ : ¬ markerBody uuid <+: b) : ¬ Touches (braced b) (marker uuid) := by
    rw [marker_eq]
    exact not_touches_braced hb h.brace_not_mem hne (markerBody_ne_nil uuid) hb₁ hb₂
  have hQ : "QUERY".toList = 'Q' :: "UERY".toList := by decide
  cases i with
  | bracketContext =>
    have htext : Placeholder.bracketContext.text = '[' :: "context".toList ++ [']'] := by
      decide
    rw [htext]
    exact hbracket (by decide)
  | bracketQuery =>
    have htext : Placeholder.bracketQuery.text = '[' :: "query".toList ++ [']'] := by
      decide
    rw [htext]
    exact hbracket (by decide)
  | braceContext =>
    have htext : Placeholder.braceContext.text = braced ('C' :: "ONTEXT\x7d\x7d".toList) := by
      decide
    rw [htext]
    apply hbrace (by decide) (List.cons_ne_nil _ _)
    · rw [markerBody, hQ]
      exact fun hpre => absurd (List.cons_prefix_cons.mp hpre).1 (by decide)
    · rw [markerBody, hQ]
      exact fun hpre => absurd (List.cons_prefix_cons.mp hpre).1 (by decide)
  | braceQuery =>
    have htext : Placeholder.braceQuery.text = braced ("QUERY".toList ++ '\x7d' :: ['\x7d']) := by
      decide
    rw [htext]
    apply hbrace (by decide) (by simp)
    · rw [markerBody, List.append_assoc, List.prefix_append_right_inj]
      exact (h.not_prefix _ _).1
    · rw [markerBody, List.append_assoc, List.prefix_append_right_inj]
      exact (h.not_prefix _ _).2

end OpenLaunch.Context
