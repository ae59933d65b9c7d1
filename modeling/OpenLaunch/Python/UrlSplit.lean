import Mathlib.Data.List.Basic
import Mathlib.Data.List.TakeWhile

/-! # Splitting URLs

`urllib.parse.urlsplit` and `urlunsplit`. The text of a URL up to its query, its *head*, has the
scheme, the host part and the path. A head that is put together again is read as the same parts,
whatever query follows it. -/

namespace Python

/-! ## Splitting -/

/-- What `urlsplit` returns. -/
structure SplitResult where
  scheme : List Char
  netloc : List Char
  path : List Char
  query : List Char
  fragment : List Char
  deriving DecidableEq

/-- `_WHATWG_C0_CONTROL_OR_SPACE`. -/
def isControlOrSpace (c : Char) : Bool := c ≤ ' '

/-- `_UNSAFE_URL_BYTES_TO_REMOVE`. -/
def isUnsafe (c : Char) : Bool := c = '\t' || c = '\r' || c = '\n'

def isAsciiAlpha (c : Char) : Bool := ('a' ≤ c && c ≤ 'z') || ('A' ≤ c && c ≤ 'Z')

/-- `c in scheme_chars`. -/
def isSchemeChar (c : Char) : Bool :=
  isAsciiAlpha c || ('0' ≤ c && c ≤ '9') || c = '+' || c = '-' || c = '.'

/-- A text that can be a scheme. -/
def isScheme : List Char → Bool
  | [] => false
  | c :: cs => isAsciiAlpha c && (c :: cs).all isSchemeChar

/-- The scheme, in lower case, and what follows it. -/
def splitScheme (url : List Char) : List Char × List Char :=
  match url.dropWhile (· ≠ ':') with
  | [] => ([], url)
  | _ :: rest =>
    if isScheme (url.takeWhile (· ≠ ':')) then
      ((url.takeWhile (· ≠ ':')).map Char.toLower, rest)
    else ([], url)

/-- `c not in '/?#'`. -/
def inNetloc (c : Char) : Bool := c ≠ '/' && c ≠ '?' && c ≠ '#'

/-- `_splitnetloc`, of a text that begins with `//`. -/
def splitNetloc : List Char → List Char × List Char
  | '/' :: '/' :: url => (url.takeWhile inNetloc, url.dropWhile inNetloc)
  | url => ([], url)

/-- `s.split(sep, 1)`, where what follows may be missing. -/
def cutAt (sep : Char) (s : List Char) : List Char × List Char :=
  (s.takeWhile (· ≠ sep), (s.dropWhile (· ≠ sep)).drop 1)

/-- The text that is split: `urlsplit` begins by removing characters. -/
def cleanUrl (url : List Char) : List Char :=
  (url.dropWhile isControlOrSpace).filter fun c => !isUnsafe c

/-- `urlsplit`. The checks of a host part are `netloc_ok`; without them there is a `ValueError`. -/
def urlsplit (netloc_ok : List Char → Bool) (url : List Char) : Option SplitResult :=
  let (scheme, url) := splitScheme (cleanUrl url)
  let (netloc, url) := splitNetloc url
  let (url, fragment) := cutAt '#' url
  let (path, query) := cutAt '?' url
  if netloc_ok netloc then some ⟨scheme, netloc, path, query, fragment⟩ else none

/-! ## Putting together -/

/-- The schemes whose URLs have a host part. -/
def uses_netloc : List (List Char) :=
  ["", "ftp", "http", "gopher", "nntp", "telnet", "imap", "wais", "file", "mms", "https", "shttp",
    "snews", "prospero", "rtsp", "rtsps", "rtspu", "rsync", "svn", "svn+ssh", "sftp", "nfs", "git",
    "git+ssh", "ws", "wss"].map String.toList

/-- The host part and the path. -/
def hierText (scheme netloc path : List Char) : List Char :=
  if netloc ≠ [] ∨ scheme ≠ [] ∧ scheme ∈ uses_netloc ∨ ['/', '/'] <+: path then
    ['/', '/'] ++ netloc ++ (if path ≠ [] ∧ path.head? ≠ some '/' then '/' :: path else path)
  else path

/-- The text up to the query. -/
def headText (scheme netloc path : List Char) : List Char :=
  if scheme ≠ [] then scheme ++ ':' :: hierText scheme netloc path
  else hierText scheme netloc path

/-- `urlunsplit`. -/
def urlunsplit (r : SplitResult) : List Char :=
  headText r.scheme r.netloc r.path ++ (if r.query ≠ [] then '?' :: r.query else []) ++
    (if r.fragment ≠ [] then '#' :: r.fragment else [])

variable {url head path rest t q : List Char} {c : Char} {netloc_ok : List Char → Bool}
  {r : SplitResult}

/-! ## Schemes -/

theorem isSchemeChar_of_mem (h : isScheme t = true) (hc : c ∈ t) : isSchemeChar c = true := by
  cases t with
  | nil => cases hc
  | cons c' t =>
    rw [isScheme, Bool.and_eq_true, List.all_eq_true] at h
    exact h.2 c hc

/-- What is no character of a scheme is not in one. -/
theorem not_mem_of_isScheme (h : isScheme t = true) (hc : isSchemeChar c = false) : c ∉ t := by
  intro hmem
  rw [isSchemeChar_of_mem h hmem] at hc
  cases hc

theorem ne_nil_of_isScheme (h : isScheme t = true) : t ≠ [] := by
  rintro rfl
  cases h

theorem splitScheme_of_not_mem (h : ':' ∉ url) : splitScheme url = ([], url) := by
  have hdrop : url.dropWhile (· ≠ ':') = [] :=
    List.dropWhile_eq_nil_iff.mpr fun c hc => decide_eq_true fun heq => h (heq ▸ hc)
  unfold splitScheme
  rw [hdrop]

/-- The first colon decides. -/
theorem splitScheme_append_colon (h : ':' ∉ t) (rest : List Char) :
    splitScheme (t ++ ':' :: rest) =
      if isScheme t then (t.map Char.toLower, rest) else ([], t ++ ':' :: rest) := by
  have hne : ∀ c ∈ t, decide (c ≠ ':') = true := fun c hc =>
    decide_eq_true fun heq => h (heq ▸ hc)
  unfold splitScheme
  rw [List.takeWhile_append_of_pos hne, List.dropWhile_append_of_pos hne]
  simp

theorem splitScheme_of_isScheme (h : isScheme t = true) (rest : List Char) :
    splitScheme (t ++ ':' :: rest) = (t.map Char.toLower, rest) := by
  rw [splitScheme_append_colon (not_mem_of_isScheme h (by decide)), if_pos h]

/-- There is a scheme, or the text is left. -/
theorem splitScheme_cases (url : List Char) :
    (∃ t rest, isScheme t = true ∧ url = t ++ ':' :: rest ∧
        splitScheme url = (t.map Char.toLower, rest)) ∨
      splitScheme url = ([], url) := by
  by_cases hcolon : ':' ∈ url
  · obtain ⟨t, rest, rfl, ht⟩ := List.eq_append_cons_of_mem hcolon
    rw [splitScheme_append_colon ht]
    by_cases hscheme : isScheme t = true
    · exact .inl ⟨t, rest, hscheme, rfl, if_pos hscheme⟩
    · exact .inr (if_neg hscheme)
  · exact .inr (splitScheme_of_not_mem hcolon)

/-- The beginning of a query or of a fragment, or the end of the text. -/
def EndsHead (rest : List Char) : Prop := ∀ c ∈ rest.head?, c = '?' ∨ c = '#'

/-- The scheme is one of the head. -/
theorem splitScheme_append (h : EndsHead rest) (head : List Char) :
    splitScheme (head ++ rest) = ((splitScheme head).1, (splitScheme head).2 ++ rest) := by
  by_cases hcolon : ':' ∈ head
  · obtain ⟨t, rest', rfl, ht⟩ := List.eq_append_cons_of_mem hcolon
    rw [List.append_assoc, List.cons_append, splitScheme_append_colon ht,
      splitScheme_append_colon ht]
    split_ifs
    · rfl
    · simp
  · rw [splitScheme_of_not_mem hcolon]
    by_cases hrest : ':' ∈ rest
    · obtain ⟨u, v, rfl, hu⟩ := List.eq_append_cons_of_mem hrest
      have hmem : ':' ∉ head ++ u := by
        rw [List.mem_append, not_or]
        exact ⟨hcolon, hu⟩
      -- what is before the colon has the first character of the query, which no scheme has
      have hscheme : ¬ isScheme (head ++ u) = true := by
        intro hscheme
        cases u with
        | nil =>
          rcases h ':' rfl with h | h
          · cases h
          · cases h
        | cons c u =>
          refine not_mem_of_isScheme hscheme ?_ (List.mem_append_right head List.mem_cons_self)
          rcases h c rfl with rfl | rfl <;> decide
      rw [← List.append_assoc, splitScheme_append_colon hmem, if_neg hscheme]
    · refine splitScheme_of_not_mem ?_
      rw [List.mem_append, not_or]
      exact ⟨hcolon, hrest⟩

/-! ## Lower case -/

theorem toLower_ascii : ∀ n : Fin 128, isSchemeChar (Char.ofNat n) = true →
    isSchemeChar (Char.ofNat n).toLower = true ∧
      (Char.ofNat n).toLower.toLower = (Char.ofNat n).toLower ∧
      (isAsciiAlpha (Char.ofNat n) = true → isAsciiAlpha (Char.ofNat n).toLower = true) := by
  decide

theorem toNat_lt_of_isSchemeChar (h : isSchemeChar c = true) : c.toNat < 128 := by
  have hle : ∀ d : Char, d.toNat < 128 → c ≤ d → c.toNat < 128 := fun d hd hcd =>
    (UInt32.le_iff_toNat_le.mp (Char.le_def.mp hcd)).trans_lt hd
  simp only [isSchemeChar, isAsciiAlpha, Bool.or_eq_true, Bool.and_eq_true, decide_eq_true_eq] at h
  rcases h with ((((h | h) | h) | rfl) | rfl) | rfl
  · exact hle 'z' (by decide) h.2
  · exact hle 'Z' (by decide) h.2
  · exact hle '9' (by decide) h.2
  all_goals decide

theorem isControlOrSpace_ascii : ∀ n : Fin 128, isSchemeChar (Char.ofNat n) = true →
    isControlOrSpace (Char.ofNat n) = false := by
  decide

/-- What is removed everywhere is also removed in front. -/
theorem isUnsafe_of_visible (h : isControlOrSpace c = false) : isUnsafe c = false := by
  unfold isUnsafe
  simp only [Bool.or_eq_false_iff, decide_eq_false_iff_not]
  refine ⟨⟨?_, ?_⟩, ?_⟩ <;> · rintro rfl; cases h

theorem visible_of_isSchemeChar (h : isSchemeChar c = true) : isControlOrSpace c = false := by
  have hvisible := isControlOrSpace_ascii ⟨c.toNat, toNat_lt_of_isSchemeChar h⟩
  simp only [Char.ofNat_toNat] at hvisible
  exact hvisible h

/-- A character of a scheme in lower case. -/
theorem toLower_of_isSchemeChar (h : isSchemeChar c = true) : isSchemeChar c.toLower = true ∧
    c.toLower.toLower = c.toLower ∧ (isAsciiAlpha c = true → isAsciiAlpha c.toLower = true) := by
  have hlower := toLower_ascii ⟨c.toNat, toNat_lt_of_isSchemeChar h⟩
  simp only [Char.ofNat_toNat] at hlower
  exact hlower h

/-- A scheme in lower case is one, and stays so. -/
theorem isScheme_map_toLower (h : isScheme t = true) : isScheme (t.map Char.toLower) = true ∧
    (t.map Char.toLower).map Char.toLower = t.map Char.toLower := by
  have hchars : ∀ c ∈ t, isSchemeChar c = true := fun c hc => isSchemeChar_of_mem h hc
  constructor
  · cases t with
    | nil => exact h
    | cons c t =>
      obtain ⟨halpha, -⟩ := Bool.and_eq_true_iff.mp h
      rw [List.map_cons, isScheme, Bool.and_eq_true, List.all_eq_true]
      refine ⟨(toLower_of_isSchemeChar (hchars c List.mem_cons_self)).2.2 halpha, ?_⟩
      intro c' hc'
      rw [← List.map_cons] at hc'
      obtain ⟨d, hd, rfl⟩ := List.mem_map.mp hc'
      exact (toLower_of_isSchemeChar (hchars d hd)).1
  · rw [List.map_map]
    exact List.map_congr_left fun c hc => (toLower_of_isSchemeChar (hchars c hc)).2.1

/-! ## Host parts -/

theorem splitNetloc_slashes (url : List Char) :
    splitNetloc ('/' :: '/' :: url) = (url.takeWhile inNetloc, url.dropWhile inNetloc) := rfl

theorem splitNetloc_of_no_slashes (h : ¬ ['/', '/'] <+: url) : splitNetloc url = ([], url) := by
  unfold splitNetloc
  split
  · next url => exact absurd (List.prefix_append ['/', '/'] url) h
  · rfl

/-- A run of characters ends where what follows begins. -/
theorem span_append {p : Char → Bool} (h : ∀ c ∈ rest.head?, p c = false) (cs : List Char) :
    (cs ++ rest).takeWhile p = cs.takeWhile p ∧
      (cs ++ rest).dropWhile p = cs.dropWhile p ++ rest := by
  induction cs with
  | nil =>
    cases rest with
    | nil => exact ⟨rfl, rfl⟩
    | cons c rest => simp [h c rfl]
  | cons c cs ih =>
    by_cases hc : p c = true
    · simpa [hc] using ih
    · simp [hc]

/-- The host part is one of the head. -/
theorem splitNetloc_append (h : EndsHead rest) (head : List Char) :
    splitNetloc (head ++ rest) = ((splitNetloc head).1, (splitNetloc head).2 ++ rest) := by
  have hstop : ∀ c ∈ rest.head?, c ≠ '/' ∧ inNetloc c = false := by
    intro c hc
    rcases h c hc with rfl | rfl <;> exact ⟨by decide, by decide⟩
  by_cases hslashes : ['/', '/'] <+: head
  · obtain ⟨url, rfl⟩ := hslashes
    obtain ⟨htake, hdrop⟩ := span_append (fun c hc => (hstop c hc).2) url
    show splitNetloc ('/' :: '/' :: (url ++ rest)) =
      ((splitNetloc ('/' :: '/' :: url)).1, (splitNetloc ('/' :: '/' :: url)).2 ++ rest)
    rw [splitNetloc_slashes, splitNetloc_slashes, htake, hdrop]
  · have hnot : ¬ ['/', '/'] <+: head ++ rest := by
      rintro ⟨url, hurl⟩
      cases head with
      | nil =>
        rw [List.nil_append] at hurl
        exact (hstop '/' (by rw [← hurl]; rfl)).1 rfl
      | cons c head =>
        cases head with
        | nil =>
          have hrest : '/' :: url = rest := (List.cons.inj hurl).2
          exact (hstop '/' (by rw [← hrest]; rfl)).1 rfl
        | cons c' head =>
          simp only [List.cons_append, List.cons.injEq] at hurl
          obtain ⟨rfl, rfl, -⟩ := hurl
          exact hslashes (List.prefix_append ['/', '/'] head)
    rw [splitNetloc_of_no_slashes hslashes, splitNetloc_of_no_slashes hnot]

/-- A host part and a path are read from a text without queries. -/
theorem splitNetloc_spec (hquery : '?' ∉ url) (hfragment : '#' ∉ url) :
    (∀ c ∈ (splitNetloc url).1, inNetloc c = true) ∧
      ((splitNetloc url).1 = [] ∨ ∀ c ∈ (splitNetloc url).2.head?, c = '/') := by
  by_cases hslashes : ['/', '/'] <+: url
  · obtain ⟨url, rfl⟩ := hslashes
    show (∀ c ∈ url.takeWhile inNetloc, inNetloc c = true) ∧
      (url.takeWhile inNetloc = [] ∨ ∀ c ∈ (url.dropWhile inNetloc).head?, c = '/')
    refine ⟨fun c hc => List.mem_takeWhile_imp hc, .inr fun c hc => ?_⟩
    have hmem : c ∈ ['/', '/'] ++ url :=
      List.mem_append_right _ ((List.dropWhile_sublist _).subset (List.mem_of_mem_head? hc))
    have hstop : inNetloc c = false := by
      have h := List.head?_dropWhile_not inNetloc url
      rw [Option.mem_def.mp hc] at h
      simpa using h
    simp only [inNetloc, Bool.and_eq_false_iff, decide_eq_false_iff_not, not_not] at hstop
    rcases hstop with (hstop | rfl) | rfl
    · exact hstop
    · exact absurd hmem hquery
    · exact absurd hmem hfragment
  · rw [splitNetloc_of_no_slashes hslashes]
    exact ⟨nofun, .inl rfl⟩

/-- Without a host part, the text is its path. -/
theorem hierText_of_no_slashes {scheme : List Char}
    (hscheme : ¬ (scheme ≠ [] ∧ scheme ∈ uses_netloc)) (hslashes : ¬ ['/', '/'] <+: url) :
    hierText scheme (splitNetloc url).1 (splitNetloc url).2 = url := by
  rw [splitNetloc_of_no_slashes hslashes]
  unfold hierText
  refine if_neg ?_
  rintro (h | h | h)
  · exact h rfl
  · exact hscheme h
  · exact hslashes h

/-- A host part and a path that are put together are read again. -/
theorem splitNetloc_hierText {scheme : List Char} (hscheme : ¬ (scheme ≠ [] ∧ scheme ∈ uses_netloc))
    (hquery : '?' ∉ url) (hfragment : '#' ∉ url) :
    splitNetloc (hierText scheme (splitNetloc url).1 (splitNetloc url).2) = splitNetloc url := by
  obtain ⟨hnetloc, hpath⟩ := splitNetloc_spec hquery hfragment
  by_cases hslashes : ['/', '/'] <+: url
  · generalize hparts : splitNetloc url = parts at hnetloc hpath ⊢
    obtain ⟨netloc, path⟩ := parts
    simp only at hnetloc hpath ⊢
    unfold hierText
    by_cases htext : netloc ≠ [] ∨ scheme ≠ [] ∧ scheme ∈ uses_netloc ∨ ['/', '/'] <+: path
    · -- a path after a host part begins with a slash, and ends it
      have hslash : ∀ c ∈ path.head?, c = '/' := by
        rcases hpath with rfl | hpath
        · rcases htext with h | h | h
          · exact absurd rfl h
          · exact absurd h hscheme
          · obtain ⟨path, rfl⟩ := h
            rintro c ⟨⟩
            rfl
        · exact hpath
      have hsame : (if path ≠ [] ∧ path.head? ≠ some '/' then '/' :: path else path) = path := by
        refine if_neg ?_
        rintro ⟨hne, hhead⟩
        cases path with
        | nil => exact hne rfl
        | cons c path =>
          rw [hslash c rfl] at hhead
          exact hhead rfl
      have hstop : ∀ c ∈ path.head?, inNetloc c = false := by
        intro c hc
        rw [hslash c hc]
        rfl
      obtain ⟨htake, hdrop⟩ := span_append hstop netloc
      rw [if_pos htext, hsame]
      show splitNetloc ('/' :: '/' :: (netloc ++ path)) = _
      rw [splitNetloc_slashes, htake, hdrop, List.takeWhile_eq_self_iff.mpr hnetloc,
        List.dropWhile_eq_nil_iff.mpr hnetloc]
      rfl
    · rw [if_neg htext]
      simp only [not_or, not_not] at htext
      rw [splitNetloc_of_no_slashes htext.2.2, htext.1]
  · rw [hierText_of_no_slashes hscheme hslashes]

/-! ## Heads -/

/-- The scheme, the host part and the path of a head. -/
def splitHead (head : List Char) : List Char × List Char × List Char :=
  ((splitScheme head).1, splitNetloc (splitScheme head).2)

/-- A text that can stand before a query. -/
structure CleanHead (head : List Char) : Prop where
  noQuery : '?' ∉ head
  noFragment : '#' ∉ head
  safe : ∀ c ∈ head, isUnsafe c = false
  visible : ∀ c ∈ head.head?, isControlOrSpace c = false

/-- The characters of what is put together. -/
theorem mem_hierText {scheme netloc path : List Char} (h : c ∈ hierText scheme netloc path) :
    c = '/' ∨ c ∈ netloc ∨ c ∈ path := by
  unfold hierText at h
  split_ifs at h with htext hpath
  · simp only [List.mem_append, List.mem_cons, List.not_mem_nil, or_false] at h
    tauto
  · simp only [List.mem_append, List.mem_cons, List.not_mem_nil, or_false] at h
    tauto
  · exact .inr (.inr h)

theorem mem_splitNetloc (h : c ∈ (splitNetloc url).1 ∨ c ∈ (splitNetloc url).2) : c ∈ url := by
  by_cases hslashes : ['/', '/'] <+: url
  · obtain ⟨url, rfl⟩ := hslashes
    refine List.mem_append_right _ ?_
    rcases h with h | h
    · exact (List.takeWhile_sublist _).subset h
    · exact (List.dropWhile_sublist _).subset h
  · rw [splitNetloc_of_no_slashes hslashes] at h
    rcases h with h | h
    · cases h
    · exact h

/-- A text that is put together begins with a slash, or is the same. -/
theorem hierText_cases {scheme : List Char} (hscheme : ¬ (scheme ≠ [] ∧ scheme ∈ uses_netloc))
    (hquery : '?' ∉ url) (hfragment : '#' ∉ url) :
    hierText scheme (splitNetloc url).1 (splitNetloc url).2 = url ∨
      ∀ c ∈ (hierText scheme (splitNetloc url).1 (splitNetloc url).2).head?, c = '/' := by
  by_cases hslashes : ['/', '/'] <+: url
  · refine .inr fun c hc => ?_
    unfold hierText at hc
    split_ifs at hc with htext hpath
    · exact (Option.mem_some_iff.mp hc).symm
    · exact (Option.mem_some_iff.mp hc).symm
    · -- without a host part the path begins where that would end
      obtain ⟨url, rfl⟩ := hslashes
      have hmem := mem_splitNetloc (.inr (List.mem_of_mem_head? hc))
      have hstop : inNetloc c = false := by
        have h := List.head?_dropWhile_not inNetloc url
        change c ∈ (url.dropWhile inNetloc).head? at hc
        rw [Option.mem_def.mp hc] at h
        simpa using h
      simp only [inNetloc, Bool.and_eq_false_iff, decide_eq_false_iff_not, not_not] at hstop
      rcases hstop with (hstop | rfl) | rfl
      · exact hstop
      · exact absurd hmem hquery
      · exact absurd hmem hfragment
  · exact .inl (hierText_of_no_slashes hscheme hslashes)

/-- The scheme of a head is a scheme in lower case, and what follows is part of the head. -/
theorem splitScheme_spec (head : List Char) :
    ((splitScheme head).1 = [] ∧ (splitScheme head).2 = head ∨
      isScheme (splitScheme head).1 = true ∧
        (splitScheme head).1.map Char.toLower = (splitScheme head).1) ∧
      ∀ c ∈ (splitScheme head).2, c ∈ head := by
  rcases splitScheme_cases head with ⟨t, rest, ht, rfl, hsplit⟩ | hsplit
  · rw [hsplit]
    refine ⟨.inr (isScheme_map_toLower ht), fun c hc => ?_⟩
    exact List.mem_append_right t (List.mem_cons_of_mem ':' hc)
  · rw [hsplit]
    exact ⟨.inl ⟨rfl, rfl⟩, fun c hc => hc⟩

/-- What begins with a slash has no scheme. -/
theorem splitScheme_of_slash (h : ∀ c ∈ url.head?, c = '/') : splitScheme url = ([], url) := by
  rcases splitScheme_cases url with ⟨t, rest, ht, rfl, -⟩ | hsplit
  · obtain ⟨c, t, rfl⟩ := List.exists_cons_of_ne_nil (ne_nil_of_isScheme ht)
    rw [h c rfl] at ht
    cases ht
  · exact hsplit

/-- The text of the parts of a head. -/
def rebuilt (head : List Char) : List Char :=
  headText (splitHead head).1 (splitHead head).2.1 (splitHead head).2.2

/-- **A head that is put together is read as the same parts.** -/
theorem splitHead_rebuilt (h : CleanHead head)
    (hscheme : ¬ ((splitHead head).1 ≠ [] ∧ (splitHead head).1 ∈ uses_netloc)) :
    splitHead (rebuilt head) = splitHead head := by
  obtain ⟨hspec, hsub⟩ := splitScheme_spec head
  have hquery : '?' ∉ (splitScheme head).2 := fun hmem => h.noQuery (hsub _ hmem)
  have hfragment : '#' ∉ (splitScheme head).2 := fun hmem => h.noFragment (hsub _ hmem)
  unfold rebuilt headText splitHead at *
  simp only at hscheme ⊢
  have hread := splitNetloc_hierText hscheme hquery hfragment
  have hcases := hierText_cases hscheme hquery hfragment
  generalize hierText (splitScheme head).1 (splitNetloc (splitScheme head).2).1
    (splitNetloc (splitScheme head).2).2 = text at hread hcases ⊢
  rcases hspec with ⟨hnil, hrest⟩ | ⟨hvalid, hlower⟩
  · -- without a scheme, the text is the head, or begins with a slash
    rw [if_neg (not_not.mpr hnil)]
    have hsplit : splitScheme text = ([], text) := by
      rcases hcases with htext | htext
      · rw [htext, hrest, ← hnil]
        exact Prod.ext rfl hrest
      · exact splitScheme_of_slash htext
    rw [hsplit, hread, hnil]
  · rw [if_pos (ne_nil_of_isScheme hvalid), splitScheme_of_isScheme hvalid, hlower, hread]

/-- **A head that is put together can stand before a query.** -/
theorem cleanHead_rebuilt (h : CleanHead head)
    (hscheme : ¬ ((splitHead head).1 ≠ [] ∧ (splitHead head).1 ∈ uses_netloc)) :
    CleanHead (rebuilt head) := by
  obtain ⟨hspec, hsub⟩ := splitScheme_spec head
  have hquery : '?' ∉ (splitScheme head).2 := fun hmem => h.noQuery (hsub _ hmem)
  have hfragment : '#' ∉ (splitScheme head).2 := fun hmem => h.noFragment (hsub _ hmem)
  have hchars : ∀ c ∈ hierText (splitScheme head).1 (splitNetloc (splitScheme head).2).1
      (splitNetloc (splitScheme head).2).2, c = '/' ∨ c ∈ head := by
    intro c hc
    rcases mem_hierText hc with hc | hc | hc
    · exact .inl hc
    · exact .inr (hsub c (mem_splitNetloc (.inl hc)))
    · exact .inr (hsub c (mem_splitNetloc (.inr hc)))
  unfold rebuilt headText splitHead at *
  simp only at hscheme ⊢
  have hcases := hierText_cases hscheme hquery hfragment
  generalize hierText (splitScheme head).1 (splitNetloc (splitScheme head).2).1
    (splitNetloc (splitScheme head).2).2 = text at hchars hcases ⊢
  rcases hspec with ⟨hnil, hrest⟩ | ⟨hvalid, -⟩
  · rw [if_neg (not_not.mpr hnil)]
    refine ⟨fun hc => ?_, fun hc => ?_, fun c hc => ?_, fun c hc => ?_⟩
    · exact h.noQuery ((hchars _ hc).resolve_left (by decide))
    · exact h.noFragment ((hchars _ hc).resolve_left (by decide))
    · rcases hchars c hc with rfl | hc
      · rfl
      · exact h.safe c hc
    · rcases hcases with htext | htext
      · rw [htext, hrest] at hc
        exact h.visible c hc
      · rw [htext c hc]
        rfl
  · rw [if_pos (ne_nil_of_isScheme hvalid)]
    have hmem : ∀ c ∈ (splitScheme head).1 ++ ':' :: text,
        isSchemeChar c = true ∨ c = ':' ∨ c = '/' ∨ c ∈ head := by
      intro c hc
      rcases List.mem_append.mp hc with hc | hc
      · exact .inl (isSchemeChar_of_mem hvalid hc)
      · rcases List.mem_cons.mp hc with hc | hc
        · exact .inr (.inl hc)
        · exact .inr (.inr (hchars c hc))
    refine ⟨fun hc => ?_, fun hc => ?_, fun c hc => ?_, fun c hc => ?_⟩
    · rcases hmem _ hc with hc | hc | hc | hc
      · cases hc
      · cases hc
      · cases hc
      · exact h.noQuery hc
    · rcases hmem _ hc with hc | hc | hc | hc
      · cases hc
      · cases hc
      · cases hc
      · exact h.noFragment hc
    · rcases hmem _ hc with hc | rfl | rfl | hc
      · exact isUnsafe_of_visible (visible_of_isSchemeChar hc)
      · rfl
      · rfl
      · exact h.safe c hc
    · obtain ⟨c', t, ht⟩ := List.exists_cons_of_ne_nil (ne_nil_of_isScheme hvalid)
      rw [ht] at hc hvalid
      obtain rfl : c' = c := Option.mem_some_iff.mp hc
      exact visible_of_isSchemeChar (isSchemeChar_of_mem hvalid List.mem_cons_self)

/-! ## Queries -/

/-- The query and the fragment of what follows a head. -/
def splitRest (rest : List Char) : List Char × List Char :=
  ((rest.takeWhile (· ≠ '#')).drop 1, (rest.dropWhile (· ≠ '#')).drop 1)

theorem endsHead_cons (rest : List Char) : EndsHead ('?' :: rest) := by
  rintro c ⟨⟩
  exact .inl rfl

theorem endsHead_nil : EndsHead [] := nofun

/-- **A clean text is split at the end of its head.** -/
theorem urlsplit_of_cleanUrl (h : CleanHead head) (hrest : EndsHead rest)
    (hclean : cleanUrl url = head ++ rest) :
    urlsplit netloc_ok url = if netloc_ok (splitHead head).2.1 then
      some ⟨(splitHead head).1, (splitHead head).2.1, (splitHead head).2.2, (splitRest rest).1,
        (splitRest rest).2⟩ else none := by
  have hpath : ∀ c ∈ (splitNetloc (splitScheme head).2).2, c ≠ '#' ∧ c ≠ '?' := by
    intro c hc
    have hmem : c ∈ head := (splitScheme_spec head).2 c (mem_splitNetloc (.inr hc))
    exact ⟨fun heq => h.noFragment (heq ▸ hmem), fun heq => h.noQuery (heq ▸ hmem)⟩
  unfold urlsplit
  rw [hclean, splitScheme_append hrest]
  simp only
  rw [splitNetloc_append hrest]
  simp only [splitHead]
  generalize (splitNetloc (splitScheme head).2).2 = path at hpath ⊢
  have hfragment : cutAt '#' (path ++ rest) =
      (path ++ rest.takeWhile (· ≠ '#'), (splitRest rest).2) := by
    have hall : ∀ c ∈ path, decide (c ≠ '#') = true := fun c hc => decide_eq_true (hpath c hc).1
    unfold cutAt
    rw [List.takeWhile_append_of_pos hall, List.dropWhile_append_of_pos hall]
    rfl
  have hstop : ∀ c ∈ (rest.takeWhile (· ≠ '#')).head?, decide (c ≠ '?') = false := by
    intro c hc
    have hne : c ≠ '#' := by
      have h := List.mem_takeWhile_imp (List.mem_of_mem_head? hc)
      exact of_decide_eq_true h
    have hhead : c ∈ rest.head? := by
      cases rest with
      | nil => cases hc
      | cons c' rest =>
        rw [List.takeWhile_cons] at hc
        split_ifs at hc
        · exact hc
        · cases hc
    rcases hrest c hhead with rfl | rfl
    · rfl
    · exact absurd rfl hne
  have hquery : cutAt '?' (path ++ rest.takeWhile (· ≠ '#')) = (path, (splitRest rest).1) := by
    have hall : ∀ c ∈ path, decide (c ≠ '?') = true := fun c hc => decide_eq_true (hpath c hc).2
    obtain ⟨htake, hdrop⟩ := span_append hstop path
    unfold cutAt
    rw [htake, hdrop, List.takeWhile_eq_self_iff.mpr hall, List.dropWhile_eq_nil_iff.mpr hall]
    rfl
  simp only [hfragment, hquery]
  rfl

/-- What is removed in front does not come about again. -/
theorem visible_head?_cleanUrl (url : List Char) :
    ∀ c ∈ (cleanUrl url).head?, isControlOrSpace c = false := by
  have hfirst := List.head?_dropWhile_not isControlOrSpace url
  unfold cleanUrl
  cases hdrop : url.dropWhile isControlOrSpace with
  | nil => nofun
  | cons c text =>
    rw [hdrop] at hfirst
    have hvisible : isControlOrSpace c = false := hfirst
    rw [List.filter_cons_of_pos (by rw [isUnsafe_of_visible hvisible]; rfl)]
    rintro c' ⟨⟩
    exact hvisible

/-- Nothing is removed of a clean head. -/
theorem cleanUrl_append (h : CleanHead head) (hrest : EndsHead rest) :
    cleanUrl (head ++ rest) = head ++ rest.filter fun c => !isUnsafe c := by
  have hvisible : ∀ c ∈ (head ++ rest).head?, isControlOrSpace c = false := by
    intro c hc
    cases head with
    | nil => rcases hrest c hc with rfl | rfl <;> rfl
    | cons c' head => exact h.visible c hc
  have hdrop : (head ++ rest).dropWhile isControlOrSpace = head ++ rest := by
    cases htext : head ++ rest with
    | nil => rfl
    | cons c text =>
      rw [htext] at hvisible
      exact List.dropWhile_cons_of_neg (by rw [hvisible c rfl]; exact Bool.false_ne_true)
  have hall : head.filter (fun c => !isUnsafe c) = head :=
    List.filter_eq_self.mpr fun c hc => by rw [h.safe c hc]; rfl
  unfold cleanUrl
  rw [hdrop, List.filter_append, hall]

/-- Every URL has a head that is clean. -/
theorem exists_head (url : List Char) :
    ∃ head rest, cleanUrl url = head ++ rest ∧ CleanHead head ∧ EndsHead rest := by
  have hsafe : ∀ c ∈ cleanUrl url, isUnsafe c = false := by
    intro c hc
    simpa using (List.mem_filter.mp hc).2
  have hvisible := visible_head?_cleanUrl url
  generalize cleanUrl url = text at hsafe hvisible
  let p : Char → Bool := fun c => c ≠ '?' && c ≠ '#'
  refine ⟨text.takeWhile p, text.dropWhile p, List.takeWhile_append_dropWhile.symm,
    ⟨fun hc => ?_, fun hc => ?_, fun c hc => ?_, fun c hc => ?_⟩, fun c hc => ?_⟩
  · cases List.mem_takeWhile_imp hc
  · cases List.mem_takeWhile_imp hc
  · exact hsafe c ((List.takeWhile_sublist p).subset hc)
  · cases text with
    | nil => cases hc
    | cons c' text =>
      rw [List.takeWhile_cons] at hc
      split_ifs at hc
      · exact hvisible c hc
      · cases hc
  · have h := List.head?_dropWhile_not p text
    rw [Option.mem_def.mp hc] at h
    simpa [p, or_iff_not_imp_left] using h

theorem scheme_of_urlsplit (h : urlsplit netloc_ok url = some r) :
    r.scheme = (splitScheme (cleanUrl url)).1 := by
  unfold urlsplit at h
  simp only at h
  split_ifs at h
  rw [← Option.some.inj h]

/-- The parts of a URL are those of a clean head. -/
theorem head_of_urlsplit (h : urlsplit netloc_ok url = some r) :
    ∃ head, CleanHead head ∧ splitHead head = (r.scheme, r.netloc, r.path) ∧
      netloc_ok r.netloc = true := by
  obtain ⟨head, rest, hclean, hhead, hrest⟩ := exists_head url
  rw [urlsplit_of_cleanUrl hhead hrest hclean] at h
  split_ifs at h with hok
  obtain rfl := Option.some.inj h
  exact ⟨head, hhead, rfl, hok⟩

/-- The text of the parts is clean. -/
theorem cleanHead_headText (h : urlsplit netloc_ok url = some r)
    (hscheme : ¬ (r.scheme ≠ [] ∧ r.scheme ∈ uses_netloc)) :
    CleanHead (headText r.scheme r.netloc r.path) := by
  obtain ⟨head, hhead, hparts, -⟩ := head_of_urlsplit h
  have hclean := cleanHead_rebuilt hhead (by rw [hparts]; exact hscheme)
  rw [rebuilt, hparts] at hclean
  exact hclean

/-- **What is put together is split into the same parts**, with the query that follows. -/
theorem urlsplit_headText (h : urlsplit netloc_ok url = some r)
    (hscheme : ¬ (r.scheme ≠ [] ∧ r.scheme ∈ uses_netloc)) (hrest : EndsHead rest) :
    urlsplit netloc_ok (headText r.scheme r.netloc r.path ++ rest) =
      some ⟨r.scheme, r.netloc, r.path, (splitRest (rest.filter fun c => !isUnsafe c)).1,
        (splitRest (rest.filter fun c => !isUnsafe c)).2⟩ := by
  obtain ⟨head, hhead, hparts, hok⟩ := head_of_urlsplit h
  have hscheme' : ¬ ((splitHead head).1 ≠ [] ∧ (splitHead head).1 ∈ uses_netloc) := by
    rw [hparts]
    exact hscheme
  have hfilter : EndsHead (rest.filter fun c => !isUnsafe c) := by
    cases rest with
    | nil => exact hrest
    | cons c rest =>
      rcases hrest c rfl with rfl | rfl
      · exact endsHead_cons _
      · rintro c ⟨⟩
        exact .inr rfl
  have htext : headText r.scheme r.netloc r.path = rebuilt head := by rw [rebuilt, hparts]
  rw [htext, urlsplit_of_cleanUrl (cleanHead_rebuilt hhead hscheme') hfilter
    (cleanUrl_append (cleanHead_rebuilt hhead hscheme') hrest), splitHead_rebuilt hhead hscheme',
    hparts, if_pos hok]

end Python
