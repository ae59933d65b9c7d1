import OpenLaunch.Python.UrlQuery
import OpenLaunch.Python.UrlSplit
import Mathlib.Data.List.Nodup
import Mathlib.Data.List.DropRight

/-! # The SSL parameters of a database URL

`extract_ssl_params_from_url` takes the parameters that are about SSL from the query of a PostgreSQL
URL, and `reattach_ssl_params_to_url` puts them back. They are decoded when they are taken and are
put back as they are, so that only plain values come back. -/

namespace OpenLaunch.Storage

open Python

/-! ## URLs with parameters -/

/-- The schemes whose paths have parameters. -/
def uses_params : List (List Char) :=
  ["", "ftp", "hdl", "prospero", "http", "imap", "https", "shttp", "rtsp", "rtsps", "rtspu", "sip",
    "sips", "mms", "sftp", "tel"].map String.toList

/-- What `urlparse` returns. -/
structure ParseResult where
  scheme : List Char
  netloc : List Char
  path : List Char
  params : List Char
  query : List Char
  fragment : List Char
  deriving DecidableEq

/-- `_splitparams`, of a text with a semicolon. -/
def _splitparams (url : List Char) : List Char × List Char :=
  let front := url.rdropWhile (· ≠ '/')
  let segment := url.rtakeWhile (· ≠ '/')
  if ';' ∈ segment then (front ++ (cutAt ';' segment).1, (cutAt ';' segment).2) else (url, [])

local instance lawfulBEqText : LawfulBEq (List Char) := inferInstance

/-- `urlparse`. -/
def urlparse (netloc_ok : List Char → Bool) (url : List Char) : Option ParseResult :=
  (urlsplit netloc_ok url).map fun r =>
    let (path, params) :=
      if r.scheme ∈ uses_params ∧ ';' ∈ r.path then _splitparams r.path else (r.path, [])
    ⟨r.scheme, r.netloc, path, params, r.query, r.fragment⟩

/-- `urlunparse`. -/
def urlunparse (p : ParseResult) : List Char :=
  urlunsplit ⟨p.scheme, p.netloc, if p.params ≠ [] then p.path ++ ';' :: p.params else p.path,
    p.query, p.fragment⟩

/-! ## The code -/

/-- A query that is parsed. -/
abbrev QueryParams := Dict (List Char) (List (List Char))

/-- `_pop_first`: the first value of a parameter, and the parameters that are left. -/
def _pop_first (params : QueryParams) (key : List Char) : Option (List Char) × QueryParams :=
  ((params.get? key).bind List.head?, params.erase key)

/-- `_is_postgres_url`. -/
def _is_postgres_url (url : List Char) : Bool :=
  url ≠ [] && ["postgresql://".toList, "postgresql+".toList, "postgres://".toList].any fun p =>
    p.isPrefixOf url

/-- A value that counts: `None` and the empty string do not. -/
def truthy (val : Option (List Char)) : Option (List Char) := val.filter fun v => v ≠ []

/-- The names of the certificate files. -/
def certKeys : List (List Char) :=
  ["sslrootcert".toList, "sslcert".toList, "sslkey".toList, "sslcrl".toList]

/-- One round of the loop over the certificate files. -/
def popCert (state : QueryParams × Dict (List Char) (List Char)) (key : List Char) :
    QueryParams × Dict (List Char) (List Char) :=
  let (val, qp) := _pop_first state.1 key
  match truthy val with
  | some v => (qp, state.2.set key v)
  | none => (qp, state.2)

/-- What is popped from the parsed query `qp`, and `ssl_dict`. -/
def popSsl (qp : QueryParams) : QueryParams × Dict (List Char) (List Char) :=
  let (sslmode_val, qp) := _pop_first qp "sslmode".toList
  let (ssl_val, qp) := _pop_first qp "ssl".toList
  let ssl_dict := match (truthy sslmode_val).or (truthy ssl_val) with
    | some ssl_mode => Dict.empty.set "sslmode".toList ssl_mode
    | none => .empty
  certKeys.foldl popCert (qp, ssl_dict)

/-- `extract_ssl_params_from_url`. There is a `ValueError` for what is no URL. -/
def extract_ssl_params_from_url (netloc_ok : List Char → Bool) (url : List Char) :
    Option (List Char × Dict (List Char) (List Char)) :=
  if _is_postgres_url url then
    match urlparse netloc_ok url with
    | none => none
    | some parsed =>
      let (qp, ssl_dict) := popSsl (parse_qs parsed.query)
      if ssl_dict.entries = [] then some (url, ssl_dict)
      else some (urlunparse { parsed with query := urlencode qp }, ssl_dict)
  else some (url, .empty)

/-- A parameter as it is put back. -/
def part (e : List Char × List Char) : List Char := e.1 ++ '=' :: e.2

/-- `reattach_ssl_params_to_url`. -/
def reattach_ssl_params_to_url (url_without_ssl : List Char)
    (ssl_dict : Dict (List Char) (List Char)) : List Char :=
  let parts := (ssl_dict.entries.filter fun e => e.2 ≠ []).map part
  if ssl_dict.entries = [] ∨ parts = [] then url_without_ssl
  else
    let sep := if '?' ∈ url_without_ssl then '&' else '?'
    url_without_ssl ++ sep :: ['&'].intercalate parts

/-! ## What it is for -/

/-- The keys under which parameters are put back. -/
def sslKeys : List (List Char) := "sslmode".toList :: certKeys

/-- The values that a parameter is to have: `ssl` is renamed to `sslmode`, or dropped. -/
def renamed (es : List (List Char × List Char)) (k : List Char) : List (List Char) :=
  if k = "ssl".toList then []
  else if k = "sslmode".toList ∧ valuesOf es k = [] then valuesOf es "ssl".toList
  else valuesOf es k

/-- A URL with the same scheme, host part (user, host and port) and path (database) as what was
parsed, and with the values that its parameters are to have. -/
def SameUrl (netloc_ok : List Char → Bool) (p : ParseResult) (url : List Char) : Prop :=
  ∃ p', urlparse netloc_ok url = some p' ∧ p'.scheme = p.scheme ∧ p'.netloc = p.netloc ∧
    p'.path = p.path ∧ p'.params = p.params ∧
    ∀ k, valuesOf (parse_qsl p'.query) k = renamed (parse_qsl p.query) k

/-- **The parameters come back.** -/
def Preserved (netloc_ok : List Char → Bool) (url : List Char) (p : ParseResult) : Prop :=
  ∃ url_without_ssl ssl_dict,
    extract_ssl_params_from_url netloc_ok url = some (url_without_ssl, ssl_dict) ∧
      SameUrl netloc_ok p (reattach_ssl_params_to_url url_without_ssl ssl_dict)

/-- A value that is read as it is written. -/
structure Plain (v : List Char) : Prop where
  noSeparator : '&' ∉ v
  noFragment : '#' ∉ v
  noPlus : '+' ∉ v
  safe : ∀ c ∈ v, isUnsafe c = false
  noEscape : ¬ HasEscape v

/-! ## Pasted values -/

variable {netloc_ok : List Char → Bool} {url v k : List Char} {es : List (List Char × List Char)}
  {p : ParseResult} {r : SplitResult} {c : Char}

/-- What is left of the text of a query: some characters are removed, and it ends at a fragment. -/
def shown (text : List Char) : List Char :=
  (text.filter fun c => !isUnsafe c).takeWhile (· ≠ '#')

theorem shown_append {text : List Char} (hfragment : '#' ∉ text)
    (hsafe : ∀ c ∈ text, isUnsafe c = false) (more : List Char) :
    shown (text ++ more) = text ++ shown more := by
  have hall : text.filter (fun c => !isUnsafe c) = text :=
    List.filter_eq_self.mpr fun c hc => by rw [hsafe c hc]; rfl
  unfold shown
  rw [List.filter_append, hall, List.takeWhile_append_of_pos]
  exact fun c hc => decide_eq_true fun heq => hfragment (heq ▸ hc)

/-- A key that is read as it is written. -/
structure PlainKey (k : List Char) : Prop where
  noEquals : '=' ∉ k
  plain : Plain k
  same : unquote_plus k = k

/-- The text of the first value. -/
def firstValue (text : List Char) : List Char := text.takeWhile (· ≠ '&')

/-- The first field of a query. -/
theorem parse_qsl_first (h : PlainKey k) (text : List Char) :
    ∃ more, parse_qsl (k ++ '=' :: text) = (k, unquote_plus (firstValue text)) :: more := by
  have hsingle : ∀ w : List Char, '&' ∉ w → parse_qsl (k ++ '=' :: w) = [(k, unquote_plus w)] := by
    intro w hw
    have hfield : ∀ f ∈ [k ++ '=' :: w], '&' ∉ f ∧ f ≠ [] := by
      intro f hf
      rw [List.mem_singleton.mp hf]
      refine ⟨?_, by simp⟩
      rw [List.mem_append, List.mem_cons]
      rintro (hc | hc | hc)
      · exact h.plain.noSeparator hc
      · cases hc
      · exact hw hc
    have hread := parse_qsl_intercalate hfield
    rw [List.intercalate_singleton, List.map_singleton, readField_append h.noEquals,
      h.same] at hread
    exact hread
  by_cases hsep : '&' ∈ text
  · obtain ⟨w, more, rfl, hw⟩ := List.eq_append_cons_of_mem hsep
    have hfirst : firstValue (w ++ '&' :: more) = w := by
      have hall : ∀ c ∈ w, decide (c ≠ '&') = true := fun c hc =>
        decide_eq_true fun heq => hw (heq ▸ hc)
      unfold firstValue
      rw [List.takeWhile_append_of_pos hall]
      simp
    refine ⟨parse_qsl more, ?_⟩
    rw [hfirst, ← List.cons_append, ← List.append_assoc, parse_qsl_append, hsingle w hw]
    rfl
  · have hfirst : firstValue text = text :=
      List.takeWhile_eq_self_iff.mpr fun c hc => decide_eq_true fun heq => hsep (heq ▸ hc)
    exact ⟨[], by rw [hfirst, hsingle text hsep]⟩

/-- The characters of a value that is read. -/
def inValue (c : Char) : Bool := c ≠ '&' && c ≠ '#'

theorem firstValue_shown (text : List Char) :
    firstValue (shown text) = (text.filter fun c => !isUnsafe c).takeWhile inValue := by
  unfold firstValue shown
  rw [List.takeWhile_takeWhile]
  refine congrArg (fun p => List.takeWhile p _) (funext fun c => ?_)
  simp [inValue]

/-- The first value ends at a separator. -/
theorem firstValue_shown_append {more : List Char} (hmore : ∀ c ∈ more.head?, c = '&')
    (v : List Char) : firstValue (shown (v ++ more)) = firstValue (shown v) := by
  have hstop : ∀ c ∈ (more.filter fun c => !isUnsafe c).head?, inValue c = false := by
    intro c hc
    cases more with
    | nil => cases hc
    | cons c' more =>
      obtain rfl := hmore c' rfl
      obtain rfl : '&' = c := Option.mem_some_iff.mp hc
      rfl
  rw [firstValue_shown, firstValue_shown, List.filter_append]
  exact (span_append hstop _).1

/-- A value that is read as it was is plain. -/
theorem plain_of_read {more : List Char} (hmore : ∀ c ∈ more.head?, c = '&')
    (h : unquote_plus (firstValue (shown (v ++ more))) = v) : Plain v := by
  rw [firstValue_shown_append hmore, firstValue_shown, unquote_plus] at h
  -- the text that is read is as long as the value, and so is the whole value
  have hread := length_unquote (((v.filter fun c => !isUnsafe c).takeWhile inValue).map plusToSpace)
  rw [h, List.length_map] at hread
  have hfilterLength := List.length_filter_le (fun c => !isUnsafe c) v
  have htakeLength :=
    (List.takeWhile_sublist (l := v.filter fun c => !isUnsafe c) inValue).length_le
  have hfilter : v.filter (fun c => !isUnsafe c) = v :=
    List.filter_sublist.eq_of_length (by omega)
  have htake : v.takeWhile inValue = v := by
    rw [hfilter] at htakeLength hread
    exact (List.takeWhile_sublist inValue).eq_of_length (by omega)
  rw [hfilter, htake] at hread h
  have hplus : v.map plusToSpace = v := by
    have hself := unquote_eq_self_iff.mpr (hread.2 rfl)
    rw [h] at hself
    exact hself.symm
  have hkeeps := List.takeWhile_eq_self_iff.mp htake
  refine ⟨fun hc => ?_, fun hc => ?_, fun hc => ?_, fun c hc => ?_, ?_⟩
  · cases hkeeps _ hc
  · cases hkeeps _ hc
  · rw [← hplus] at hc
    obtain ⟨c, -, hc⟩ := List.mem_map.mp hc
    unfold plusToSpace at hc
    split_ifs at hc with hplus
    · cases hc
    · exact hplus hc
  · simpa using List.filter_eq_self.mp hfilter c hc
  · have hescape := hread.2 rfl
    rw [hplus] at hescape
    exact hescape

theorem Plain.unquote_plus_eq (h : Plain v) : unquote_plus v = v := by
  have hplus : v.map plusToSpace = v := by
    have hkept : ∀ c ∈ v, plusToSpace c = id c := by
      intro c hc
      refine if_neg ?_
      rintro rfl
      exact h.noPlus hc
    rw [List.map_congr_left hkept, List.map_id]
  rw [unquote_plus, hplus]
  exact unquote_eq_self_iff.mpr h.noEscape

/-! ## Pasted parameters -/

/-- The text of the parameters that are put back. -/
def partsText (es : List (List Char × List Char)) : List Char := ['&'].intercalate (es.map part)

/-- What is read of it. -/
def readParts (es : List (List Char × List Char)) : List (List Char × List Char) :=
  parse_qsl (shown (partsText es))

theorem partsText_cons (k v : List Char) (es : List (List Char × List Char)) :
    ∃ more, (∀ c ∈ more.head?, c = '&') ∧ partsText ((k, v) :: es) = k ++ '=' :: (v ++ more) ∧
      (es = [] ∧ more = [] ∨ more = '&' :: partsText es) := by
  cases es with
  | nil => exact ⟨[], nofun, by simp [partsText, part], .inl ⟨rfl, rfl⟩⟩
  | cons e es =>
    refine ⟨'&' :: partsText (e :: es), ?_, ?_, .inr rfl⟩
    · rintro c ⟨⟩
      rfl
    · unfold partsText
      rw [List.map_cons, List.map_cons, List.intercalate_cons_cons]
      simp [part]

theorem PlainKey.shown_append (h : PlainKey k) (text : List Char) :
    shown (k ++ '=' :: text) = k ++ '=' :: shown text := by
  have hsafe : ∀ c ∈ k ++ ['='], isUnsafe c = false := by
    intro c hc
    rcases List.mem_append.mp hc with hc | hc
    · exact h.plain.safe c hc
    · rw [List.mem_singleton.mp hc]
      rfl
  have hfragment : '#' ∉ k ++ ['='] := by
    rw [List.mem_append, List.mem_singleton]
    rintro (hc | hc)
    · exact h.plain.noFragment hc
    · cases hc
  have happend := OpenLaunch.Storage.shown_append hfragment hsafe text
  rw [List.append_assoc, List.append_assoc] at happend
  exact happend

/-- The first parameter that is read has the first key, and its value only if that is plain. -/
theorem readParts_first (h : PlainKey k) (v : List Char) (es : List (List Char × List Char)) :
    ∃ v' more, readParts ((k, v) :: es) = (k, v') :: more ∧ (v' = v → Plain v) ∧
      (v' = [] → firstValue (shown v) = []) := by
  obtain ⟨more, hmore, htext, -⟩ := partsText_cons k v es
  obtain ⟨fields, hfields⟩ := parse_qsl_first h (shown (v ++ more))
  refine ⟨_, fields, ?_, plain_of_read hmore, fun hnil => ?_⟩
  · rw [readParts, htext, h.shown_append, hfields]
  · rw [firstValue_shown_append hmore] at hnil
    by_contra hne
    refine unquote_ne_nil ?_ hnil
    rw [Ne, List.map_eq_nil_iff]
    exact hne

/-- A plain parameter is read as it was. -/
theorem readParts_cons (h : PlainKey k) (hv : Plain v) (es : List (List Char × List Char)) :
    readParts ((k, v) :: es) = (k, v) :: readParts es := by
  obtain ⟨more, -, htext, hmore⟩ := partsText_cons k v es
  have hfield : ∀ f ∈ [k ++ '=' :: v], '&' ∉ f ∧ f ≠ [] := by
    intro f hf
    rw [List.mem_singleton.mp hf]
    refine ⟨?_, by simp⟩
    rw [List.mem_append, List.mem_cons]
    rintro (hc | hc | hc)
    · exact h.plain.noSeparator hc
    · cases hc
    · exact hv.noSeparator hc
  have hsingle : parse_qsl (k ++ '=' :: v) = [(k, v)] := by
    have hread := parse_qsl_intercalate hfield
    rw [List.intercalate_singleton, List.map_singleton, readField_append h.noEquals, h.same,
      hv.unquote_plus_eq] at hread
    exact hread
  rw [readParts, htext, h.shown_append, shown_append hv.noFragment hv.safe]
  rcases hmore with ⟨rfl, rfl⟩ | rfl
  · have hnil : shown [] = [] := rfl
    rw [hnil, List.append_nil, hsingle]
    rfl
  · have hsep : shown ('&' :: partsText es) = '&' :: shown (partsText es) :=
      @shown_append ['&'] (by decide) (List.forall_mem_singleton.mpr rfl) (partsText es)
    rw [hsep, ← List.cons_append, ← List.append_assoc, parse_qsl_append, hsingle]
    rfl

theorem readParts_of_plain (hkeys : ∀ e ∈ es, PlainKey e.1) (hplain : ∀ e ∈ es, Plain e.2) :
    readParts es = es := by
  induction es with
  | nil => rfl
  | cons e es ih =>
    obtain ⟨k, v⟩ := e
    obtain ⟨hkey, hkeys⟩ := List.forall_mem_cons.mp hkeys
    obtain ⟨hv, hplain⟩ := List.forall_mem_cons.mp hplain
    rw [readParts_cons hkey hv, ih hkeys hplain]

/-- **If each key has its value first, all values are plain.** -/
theorem plain_of_readParts (hkeys : ∀ e ∈ es, PlainKey e.1) (hnodup : (es.map Prod.fst).Nodup)
    (hfirst : ∀ e ∈ es, (valuesOf (readParts es) e.1).head? = some e.2) : ∀ e ∈ es, Plain e.2 := by
  induction es with
  | nil => nofun
  | cons e es ih =>
    obtain ⟨k, v⟩ := e
    obtain ⟨hkey, hkeys⟩ := List.forall_mem_cons.mp hkeys
    rw [List.map_cons, List.nodup_cons] at hnodup
    obtain ⟨hhead, htail⟩ := List.forall_mem_cons.mp hfirst
    obtain ⟨v', more, hread, himp, -⟩ := readParts_first hkey v es
    rw [hread, valuesOf_cons_self] at hhead
    have hv : Plain v := himp (Option.some.inj hhead)
    refine List.forall_mem_cons.mpr ⟨hv, ih hkeys hnodup.2 fun e he => ?_⟩
    have hne : k ≠ e.1 := by
      rintro rfl
      have hmem : e.1 ∈ es.map Prod.fst := List.mem_map_of_mem he
      exact hnodup.1 hmem
    have hhead := htail e he
    rw [readParts_cons hkey hv, valuesOf_cons_ne hne] at hhead
    exact hhead

/-! ## What is taken -/

/-- The value of a parameter that is put back. -/
def pasted (es : List (List Char × List Char)) (k : List Char) : Option (List Char) :=
  if k = "sslmode".toList then
    (truthy (valuesOf es k).head?).or (truthy (valuesOf es "ssl".toList).head?)
  else truthy (valuesOf es k).head?

/-- The parameters that are put back. -/
def pastedParts (es : List (List Char × List Char)) : List (List Char × List Char) :=
  sslKeys.filterMap fun k => (pasted es k).map (Prod.mk k)

/-- The loop takes each key out, and its first value if that counts. -/
theorem foldl_popCert {ks : List (List Char)} (hnodup : ks.Nodup) (qp : QueryParams)
    (ssl_dict : Dict (List Char) (List Char)) (hnew : ∀ k ∈ ks, k ∉ ssl_dict) :
    (∀ k, (ks.foldl popCert (qp, ssl_dict)).1.get? k = if k ∈ ks then none else qp.get? k) ∧
      (ks.foldl popCert (qp, ssl_dict)).2.entries = ssl_dict.entries ++
        ks.filterMap fun k => (truthy ((qp.get? k).bind List.head?)).map (Prod.mk k) := by
  induction ks generalizing qp ssl_dict with
  | nil => exact ⟨fun k => rfl, (List.append_nil _).symm⟩
  | cons key ks ih =>
    obtain ⟨hkey, hks⟩ := List.nodup_cons.mp hnodup
    obtain ⟨hkeyNew, hksNew⟩ := List.forall_mem_cons.mp hnew
    have herase : ∀ k ∈ ks, (qp.erase key).get? k = qp.get? k := by
      intro k hk
      rw [Dict.get?_erase, if_neg]
      rintro rfl
      exact hkey hk
    have hrest : (ks.filterMap fun k => (truthy (((qp.erase key).get? k).bind List.head?)).map
        (Prod.mk k)) = ks.filterMap fun k => (truthy ((qp.get? k).bind List.head?)).map
          (Prod.mk k) :=
      List.filterMap_congr fun k hk => by rw [herase k hk]
    have hget : ∀ k, (if k ∈ ks then none else (qp.erase key).get? k) =
        if k ∈ key :: ks then none else qp.get? k := by
      intro k
      rw [Dict.get?_erase]
      by_cases h : k = key <;> by_cases h' : k ∈ ks <;> simp [h, h']
    rw [List.foldl_cons, List.filterMap_cons]
    cases hval : truthy ((qp.get? key).bind List.head?) with
    | none =>
      have hstep : popCert (qp, ssl_dict) key = (qp.erase key, ssl_dict) := by
        simp only [popCert, _pop_first, hval]
      obtain ⟨hfirst, hsecond⟩ := ih hks (qp.erase key) ssl_dict hksNew
      rw [hstep]
      exact ⟨fun k => (hfirst k).trans (hget k), by rw [hsecond, hrest]; rfl⟩
    | some v =>
      have hstep : popCert (qp, ssl_dict) key = (qp.erase key, ssl_dict.set key v) := by
        simp only [popCert, _pop_first, hval]
      have hnew' : ∀ k ∈ ks, k ∉ ssl_dict.set key v := by
        intro k hk
        rw [Dict.mem_set, not_or]
        refine ⟨?_, hksNew k hk⟩
        rintro rfl
        exact hkey hk
      have hset : (ssl_dict.set key v).entries = ssl_dict.entries ++ [(key, v)] :=
        Assoc.set_of_not_mem hkeyNew v
      obtain ⟨hfirst, hsecond⟩ := ih hks (qp.erase key) (ssl_dict.set key v) hnew'
      rw [hstep]
      exact ⟨fun k => (hfirst k).trans (hget k), by
        rw [hsecond, hset, hrest, List.append_assoc]; rfl⟩

/-- **What is popped of a query.** -/
theorem popSsl_spec (query : List Char) :
    (popSsl (parse_qs query)).2.entries = pastedParts (parse_qsl query) ∧
      ∀ k, ((popSsl (parse_qs query)).1.get? k).getD [] =
        if k = "ssl".toList ∨ k ∈ sslKeys then [] else valuesOf (parse_qsl query) k := by
  have hfirst : ∀ k, ((parse_qs query).get? k).bind List.head? =
      (valuesOf (parse_qsl query) k).head? := by
    intro k
    rw [← getD_parse_qs]
    cases (parse_qs query).get? k <;> rfl
  have hne : "ssl".toList ≠ "sslmode".toList := by decide
  have hcert : ∀ k ∈ certKeys, k ≠ "ssl".toList ∧ k ≠ "sslmode".toList := by decide
  have hmode : (truthy (((parse_qs query).get? "sslmode".toList).bind List.head?)).or
      (truthy ((((parse_qs query).erase "sslmode".toList).get? "ssl".toList).bind List.head?)) =
      pasted (parse_qsl query) "sslmode".toList := by
    rw [Dict.get?_erase, if_neg hne, hfirst, hfirst]
    rfl
  have hpasted : ∀ k ∈ certKeys, truthy (((parse_qs query).get? k).bind List.head?) =
      pasted (parse_qsl query) k := by
    intro k hk
    rw [hfirst, pasted, if_neg (hcert k hk).2]
  unfold popSsl pastedParts sslKeys
  simp only [_pop_first]
  rw [hmode]
  generalize "sslmode".toList = mode at *
  generalize "ssl".toList = ssl at *
  generalize pasted (parse_qsl query) = value at *
  -- the dictionary before the loop
  generalize hdict : (match value mode with
    | some ssl_mode => Dict.empty.set mode ssl_mode
    | none => .empty : Dict (List Char) (List Char)) = ssl_dict
  have hentries : ssl_dict.entries = ((value mode).map (Prod.mk mode)).toList := by
    rw [← hdict]
    cases value mode <;> rfl
  have hnew : ∀ k ∈ certKeys, k ∉ ssl_dict := by
    intro k hk hmem
    have hkeys : k ∈ ssl_dict.entries.map Prod.fst := hmem
    rw [hentries] at hkeys
    cases hvalue : value mode with
    | none =>
      rw [hvalue] at hkeys
      cases hkeys
    | some v =>
      rw [hvalue] at hkeys
      exact (hcert k hk).2 (List.mem_singleton.mp hkeys)
  have hget : ∀ k, (((parse_qs query).erase mode).erase ssl).get? k =
      if k = ssl ∨ k = mode then none else (parse_qs query).get? k := by
    intro k
    rw [Dict.get?_erase, Dict.get?_erase]
    by_cases h : k = ssl <;> by_cases h' : k = mode <;> simp [h, h']
  have hnodup : certKeys.Nodup := by decide
  generalize certKeys = certs at *
  obtain ⟨hloopGet, hloopEntries⟩ :=
    foldl_popCert hnodup (((parse_qs query).erase mode).erase ssl) ssl_dict hnew
  refine ⟨hloopEntries.trans ?_, fun k => ?_⟩
  · have hrest : (certs.filterMap fun k => (truthy (((((parse_qs query).erase mode).erase ssl).get?
        k).bind List.head?)).map (Prod.mk k)) =
        certs.filterMap fun k => (value k).map (Prod.mk k) := by
      refine List.filterMap_congr fun k hk => ?_
      obtain ⟨hssl, hmode⟩ := hcert k hk
      rw [hget, if_neg (not_or.mpr ⟨hssl, hmode⟩), hpasted k hk]
    rw [hentries, hrest, List.filterMap_cons]
    cases value mode <;> rfl
  · rw [hloopGet, hget, ← getD_parse_qs]
    simp only [List.mem_cons]
    by_cases hcert : k ∈ certs
    · rw [if_pos hcert, if_pos (.inr (.inr hcert))]
      rfl
    · rw [if_neg hcert]
      by_cases h : k = ssl ∨ k = mode
      · rw [if_pos h, if_pos (by tauto)]
        rfl
      · rw [if_neg h, if_neg (by tauto)]

/-! ## The URL -/

/-- The scheme of a PostgreSQL URL. -/
theorem postgres_prefix_scheme (hpostgres : _is_postgres_url url = true)
    (hsplit : urlsplit netloc_ok url = some r) (hscheme : r.scheme ≠ []) :
    "postgres".toList <+: r.scheme := by
  obtain ⟨rest, rfl⟩ : "postgres".toList <+: url := by
    simp only [_is_postgres_url, Bool.and_eq_true, List.any_cons, List.any_nil, Bool.or_eq_true,
      Bool.or_false, List.isPrefixOf_iff_prefix] at hpostgres
    rcases hpostgres.2 with h | h | h
    · exact (List.prefix_append "postgres".toList "ql://".toList).trans h
    · exact (List.prefix_append "postgres".toList "ql+".toList).trans h
    · exact (List.prefix_append "postgres".toList "://".toList).trans h
  have hclean : cleanUrl ("postgres".toList ++ rest) =
      "postgres".toList ++ rest.filter fun c => !isUnsafe c := rfl
  rw [scheme_of_urlsplit hsplit, hclean] at hscheme ⊢
  rcases splitScheme_cases ("postgres".toList ++ rest.filter fun c => !isUnsafe c) with
    ⟨t, rest', -, htext, h⟩ | h
  · rw [h]
    have hcolon : ':' ∉ "postgres".toList := by decide
    have hprefix : t ++ [':'] <+: "postgres".toList ++ rest.filter fun c => !isUnsafe c := by
      rw [htext]
      exact ⟨rest', by simp⟩
    have ht : "postgres".toList <+: t := by
      rcases List.prefix_or_prefix_of_prefix hprefix (List.prefix_append _ _) with h | h
      · exact absurd (h.subset (by simp)) hcolon
      · rcases List.prefix_concat_iff.mp h with h | h
        · exact absurd (by rw [h]; simp) hcolon
        · exact h
    exact ht.map Char.toLower
  · rw [h] at hscheme
    exact absurd rfl hscheme

/-- No such scheme has a host part that may be empty, or paths with parameters. -/
theorem not_mem_of_postgres_prefix {scheme : List Char} (h : "postgres".toList <+: scheme) :
    scheme ∉ uses_netloc ∧ scheme ∉ uses_params := by
  have hnetloc : ∀ s ∈ uses_netloc, ¬ "postgres".toList <+: s := by decide
  have hparams : ∀ s ∈ uses_params, ¬ "postgres".toList <+: s := by decide
  exact ⟨fun hmem => hnetloc scheme hmem h, fun hmem => hparams scheme hmem h⟩

/-- `urlparse` of a scheme without parameters. -/
theorem urlparse_eq_some_iff (hscheme : p.scheme ∉ uses_params) :
    urlparse netloc_ok url = some p ↔
      p.params = [] ∧ urlsplit netloc_ok url =
        some ⟨p.scheme, p.netloc, p.path, p.query, p.fragment⟩ := by
  unfold urlparse
  cases hsplit : urlsplit netloc_ok url with
  | none => simp
  | some r =>
    rw [Option.map_some, Option.some.injEq, Option.some.injEq]
    constructor
    · rintro rfl
      have hplain : ¬ (r.scheme ∈ uses_params ∧ ';' ∈ r.path) := fun h => hscheme h.1
      exact ⟨by rw [if_neg hplain], by rw [if_neg hplain]⟩
    · rintro ⟨hparams, rfl⟩
      have hplain : ¬ (p.scheme ∈ uses_params ∧ ';' ∈ p.path) := fun h => hscheme h.1
      obtain ⟨scheme, netloc, path, params, query, fragment⟩ := p
      cases hparams
      simp only [if_neg hplain]

/-- **What is put back is behind the other parameters.** -/
theorem urlparse_reattach (hpostgres : _is_postgres_url url = true)
    (hparse : urlparse netloc_ok url = some p) (hurl : p.scheme ≠ []) (hfragment : p.fragment = [])
    (qp : QueryParams) {ssl_dict : Dict (List Char) (List Char)} (hne : ssl_dict.entries ≠ [])
    (hvalues : ∀ e ∈ ssl_dict.entries, e.2 ≠ []) :
    ∃ query fragment, urlparse netloc_ok (reattach_ssl_params_to_url
        (urlunparse { p with query := urlencode qp }) ssl_dict) =
        some { p with query := query, fragment := fragment } ∧
      parse_qsl query = parse_qsl (urlencode qp) ++ readParts ssl_dict.entries := by
  have hpostgresScheme : "postgres".toList <+: p.scheme := by
    unfold urlparse at hparse
    obtain ⟨r, hsplit, hr⟩ := Option.map_eq_some_iff.mp hparse
    have hscheme : r.scheme = p.scheme := by rw [← hr]
    rw [← hscheme] at hurl ⊢
    exact postgres_prefix_scheme hpostgres hsplit hurl
  obtain ⟨hnetloc, hparams⟩ := not_mem_of_postgres_prefix hpostgresScheme
  obtain ⟨hnoParams, hsplit⟩ := (urlparse_eq_some_iff hparams).mp hparse
  have hscheme : ¬ (p.scheme ≠ [] ∧ p.scheme ∈ uses_netloc) := fun h => hnetloc h.2
  have hhead := cleanHead_headText hsplit hscheme
  simp only at hhead
  -- the text without the parameters, and with them
  have hparts : (ssl_dict.entries.filter fun e => decide (e.2 ≠ [])) = ssl_dict.entries :=
    List.filter_eq_self.mpr fun e he => decide_eq_true (hvalues e he)
  have hwithout : urlunparse { p with query := urlencode qp } = headText p.scheme p.netloc p.path ++
      if urlencode qp ≠ [] then '?' :: urlencode qp else [] := by
    simp [urlunparse, urlunsplit, hfragment, hnoParams]
  have htext : ∃ front, reattach_ssl_params_to_url (urlunparse { p with query := urlencode qp })
      ssl_dict = headText p.scheme p.netloc p.path ++ '?' :: (front ++ partsText ssl_dict.entries) ∧
      (front = [] ∧ urlencode qp = [] ∨ front = urlencode qp ++ ['&']) := by
    have hnil : ¬ (ssl_dict.entries = [] ∨ ssl_dict.entries.map part = []) := by
      rw [List.map_eq_nil_iff, or_self]
      exact hne
    rw [reattach_ssl_params_to_url, hparts, if_neg hnil, hwithout]
    by_cases hquery : urlencode qp = []
    · refine ⟨[], ?_, .inl ⟨rfl, hquery⟩⟩
      rw [if_neg (not_not.mpr hquery), List.append_nil]
      simp only [if_neg hhead.noQuery]
      rfl
    · refine ⟨urlencode qp ++ ['&'], ?_, .inr rfl⟩
      have hmem : '?' ∈ headText p.scheme p.netloc p.path ++ '?' :: urlencode qp :=
        List.mem_append_right _ List.mem_cons_self
      rw [if_pos hquery]
      simp only [if_pos hmem]
      simp [partsText]
  obtain ⟨front, htext, hfront⟩ := htext
  rw [htext]
  generalize htail : front ++ partsText ssl_dict.entries = tail
  have hread := urlsplit_headText hsplit hscheme (endsHead_cons tail)
  let rest := splitRest (('?' :: tail).filter fun c => !isUnsafe c)
  refine ⟨rest.1, rest.2, ?_, ?_⟩
  · exact (urlparse_eq_some_iff (p := { p with query := rest.1, fragment := rest.2 }) hparams).mpr
      ⟨hnoParams, hread⟩
  show parse_qsl (shown tail) = _
  rw [← htail]
  rcases hfront with ⟨rfl, hquery⟩ | rfl
  · rw [hquery]
    rfl
  · have hsafe : ∀ c ∈ urlencode qp ++ ['&'], isUnsafe c = false := by
      intro c hc
      by_contra hunsafe
      rw [Bool.not_eq_false, isUnsafe, Bool.or_eq_true, Bool.or_eq_true, decide_eq_true_eq,
        decide_eq_true_eq, decide_eq_true_eq] at hunsafe
      rcases List.mem_append.mp hc with hc | hc
      · rcases hunsafe with (rfl | rfl) | rfl <;>
          exact not_mem_urlencode (by decide) (by decide) (by decide) hc
      · rw [List.mem_singleton.mp hc] at hunsafe
        revert hunsafe
        decide
    have hnoFragment : '#' ∉ urlencode qp ++ ['&'] := by
      rw [List.mem_append, List.mem_singleton]
      rintro (h | h)
      · exact not_mem_urlencode (by decide) (by decide) (by decide) h
      · cases h
    rw [shown_append hnoFragment hsafe, List.append_assoc, List.singleton_append, parse_qsl_append]
    rfl

/-! ## What comes back -/

/-- **The parameters can come back**: there is nothing to take and no `ssl`, or each of the keys has
at most one value, which is not blank and is plain. -/
def ComesBack (es : List (List Char × List Char)) : Prop :=
  (valuesOf es "ssl".toList = [] ∧ ∀ k ∈ sslKeys, truthy (valuesOf es k).head? = none) ∨
    ∀ k ∈ sslKeys, renamed es k = [] ∨ ∃ v, renamed es k = [v] ∧ v ≠ [] ∧ Plain v

/-- A blank `sslmode` is overwritten by a value of `ssl` whose text begins with `&` or `#`, which can
by accident be read as a blank value again. -/
def Overwritten (es : List (List Char × List Char)) : Prop :=
  ∃ vs v vs', valuesOf es "sslmode".toList = [] :: vs ∧ valuesOf es "ssl".toList = v :: vs' ∧
    v ≠ [] ∧ firstValue (shown v) = []

theorem truthy_eq_some_iff {val : Option (List Char)} :
    truthy val = some v ↔ val = some v ∧ v ≠ [] := by
  rw [truthy, Option.filter_eq_some_iff, decide_eq_true_eq]

theorem plainKey_of_mem (h : k ∈ sslKeys) : PlainKey k := by
  have hequals : ∀ k ∈ sslKeys, '=' ∉ k := by decide
  have hsep : ∀ k ∈ sslKeys, '&' ∉ k := by decide
  have hfragment : ∀ k ∈ sslKeys, '#' ∉ k := by decide
  have hplus : ∀ k ∈ sslKeys, '+' ∉ k := by decide
  have hsafe : ∀ k ∈ sslKeys, (k.all fun c => !isUnsafe c) = true := by decide
  have hsame : ∀ k ∈ sslKeys, unquote k = k := by decide
  have hread : ∀ k ∈ sslKeys, unquote_plus k = k := by decide
  refine ⟨hequals k h, ⟨hsep k h, hfragment k h, hplus k h, fun c hc => ?_,
    unquote_eq_self_iff.mp (hsame k h)⟩, hread k h⟩
  simpa using List.all_eq_true.mp (hsafe k h) c hc

/-- The values of parameters of distinct keys. -/
theorem valuesOf_filterMap {ks : List (List Char)} (hnodup : ks.Nodup)
    (f : List Char → Option (List Char)) (k : List Char) :
    valuesOf (ks.filterMap fun k => (f k).map (Prod.mk k)) k =
      if k ∈ ks then (f k).toList else [] := by
  induction ks with
  | nil => rfl
  | cons key ks ih =>
    obtain ⟨hkey, hks⟩ := List.nodup_cons.mp hnodup
    rw [List.filterMap_cons]
    by_cases hk : k = key
    · subst hk
      rw [if_pos List.mem_cons_self]
      cases hf : f k with
      | none => simp [hf, ih hks, hkey]
      | some v => simp [hf, valuesOf_cons_self, ih hks, hkey]
    · have hmem : (k ∈ key :: ks) ↔ k ∈ ks := by simp [hk]
      simp only [hmem]
      cases hf : f key with
      | none => simp [ih hks]
      | some v => simp [valuesOf_cons_ne (Ne.symm hk), ih hks]

theorem mem_pastedParts {e : List Char × List Char} :
    e ∈ pastedParts es ↔ e.1 ∈ sslKeys ∧ pasted es e.1 = some e.2 := by
  obtain ⟨k, v⟩ := e
  simp only [pastedParts, List.mem_filterMap, Option.map_eq_some_iff, Prod.mk.injEq]
  constructor
  · rintro ⟨k, hk, v, hv, rfl, rfl⟩
    exact ⟨hk, hv⟩
  · rintro ⟨hk, hv⟩
    exact ⟨k, hk, v, hv, rfl, rfl⟩

theorem sslKeys_nodup : sslKeys.Nodup := by decide

theorem keys_filterMap_sublist (ks : List (List Char)) (f : List Char → Option (List Char)) :
    ((ks.filterMap fun k => (f k).map (Prod.mk k)).map Prod.fst).Sublist ks := by
  induction ks with
  | nil => exact List.Sublist.slnil
  | cons k ks ih =>
    rw [List.filterMap_cons]
    cases f k with
    | none => exact ih.cons k
    | some v => exact ih.cons_cons k

theorem keys_pastedParts_nodup (es : List (List Char × List Char)) :
    ((pastedParts es).map Prod.fst).Nodup :=
  (keys_filterMap_sublist sslKeys (pasted es)).nodup sslKeys_nodup

theorem pasted_eq_none (hnil : pastedParts es = []) (hk : k ∈ sslKeys) : pasted es k = none := by
  rw [Option.eq_none_iff_forall_ne_some]
  intro v hv
  have hmem : (k, v) ∈ pastedParts es := mem_pastedParts.mpr ⟨hk, hv⟩
  rw [hnil] at hmem
  cases hmem

/-- What is put back is not blank. -/
theorem pasted_ne_nil (h : pasted es k = some v) : v ≠ [] := by
  unfold pasted at h
  split_ifs at h
  · rcases Option.or_eq_some_iff.mp h with h | ⟨-, h⟩
    · exact (truthy_eq_some_iff.mp h).2
    · exact (truthy_eq_some_iff.mp h).2
  · exact (truthy_eq_some_iff.mp h).2

/-- **When the parameters come back**, by what is read of those that are put back. -/
theorem preserved_iff (hpostgres : _is_postgres_url url = true)
    (hparse : urlparse netloc_ok url = some p) (hurl : p.scheme ≠ [])
    (hfragment : p.fragment = []) :
    Preserved netloc_ok url p ↔
      if pastedParts (parse_qsl p.query) = [] then valuesOf (parse_qsl p.query) "ssl".toList = []
      else ∀ k, (if k = "ssl".toList ∨ k ∈ sslKeys then [] else valuesOf (parse_qsl p.query) k) ++
        valuesOf (readParts (pastedParts (parse_qsl p.query))) k =
          renamed (parse_qsl p.query) k := by
  obtain ⟨hentries, hget⟩ := popSsl_spec p.query
  have hextract : extract_ssl_params_from_url netloc_ok url =
      if (popSsl (parse_qs p.query)).2.entries = [] then
        some (url, (popSsl (parse_qs p.query)).2)
      else some (urlunparse { p with query := urlencode (popSsl (parse_qs p.query)).1 },
        (popSsl (parse_qs p.query)).2) := by
    rw [extract_ssl_params_from_url, if_pos hpostgres, hparse]
  generalize popSsl (parse_qs p.query) = popped at hentries hget hextract
  obtain ⟨qp, ssl_dict⟩ := popped
  simp only at hentries hget hextract
  generalize hes : parse_qsl p.query = es at *
  rw [hentries] at hextract
  have hpreserved : ∀ text, extract_ssl_params_from_url netloc_ok url = some (text, ssl_dict) →
      (Preserved netloc_ok url p ↔
        SameUrl netloc_ok p (reattach_ssl_params_to_url text ssl_dict)) := by
    intro text htext
    constructor
    · rintro ⟨text', ssl_dict', h, hsame⟩
      rw [htext] at h
      obtain ⟨rfl, rfl⟩ := Prod.mk.inj (Option.some.inj h)
      exact hsame
    · exact fun hsame => ⟨text, ssl_dict, htext, hsame⟩
  split_ifs at hextract ⊢ with hnil
  · have hsame : reattach_ssl_params_to_url url ssl_dict = url := by
      rw [reattach_ssl_params_to_url]
      exact if_pos (.inl (hentries.trans hnil))
    rw [hpreserved _ hextract, hsame, SameUrl, hes]
    constructor
    · rintro ⟨p', hp', -, -, -, -, hvalues⟩
      rw [hparse] at hp'
      obtain rfl := Option.some.inj hp'
      rw [← hes, hvalues]
      exact if_pos rfl
    · intro hssl
      refine ⟨p, hparse, rfl, rfl, rfl, rfl, fun k => ?_⟩
      rw [hes, renamed]
      split_ifs with hk hmode
      · rw [hk, hssl]
      · rw [hmode.2, hssl]
      · rfl
  · have hvalues : ∀ e ∈ ssl_dict.entries, e.2 ≠ [] := by
      intro e he
      rw [hentries] at he
      exact pasted_ne_nil (mem_pastedParts.mp he).2
    obtain ⟨query, fragment, hread, hquery⟩ := urlparse_reattach hpostgres hparse hurl hfragment qp
      (by rw [hentries]; exact hnil) hvalues
    have hall : ∀ k, valuesOf (parse_qsl query) k =
        (if k = "ssl".toList ∨ k ∈ sslKeys then [] else valuesOf es k) ++
          valuesOf (readParts (pastedParts es)) k := by
      intro k
      rw [hquery, valuesOf_append, valuesOf_urlencode, hget, hentries]
    rw [hpreserved _ hextract, SameUrl, hread, hes]
    constructor
    · rintro ⟨p', hp', -, -, -, -, hvalues⟩
      obtain rfl := Option.some.inj hp'
      intro k
      rw [← hall]
      exact hvalues k
    · intro hvalues
      refine ⟨_, rfl, rfl, rfl, rfl, rfl, fun k => ?_⟩
      rw [hall]
      exact hvalues k

/-! ## The condition -/

/-- What is put back is the first value that the parameter is to have, unless that is a blank
`sslmode`. -/
theorem pasted_eq (hk : k ≠ "ssl".toList)
    (h : (∃ vs, valuesOf es "sslmode".toList = [] :: vs) →
      truthy (valuesOf es "ssl".toList).head? = none) :
    pasted es k = truthy (renamed es k).head? := by
  unfold pasted renamed
  rw [if_neg hk]
  by_cases hmode : k = "sslmode".toList
  · subst hmode
    rw [if_pos rfl]
    cases hvalues : valuesOf es "sslmode".toList with
    | nil =>
      rw [if_pos ⟨rfl, rfl⟩]
      rfl
    | cons v vs =>
      rw [if_neg (by simp)]
      by_cases hv : v = []
      · subst hv
        rw [h ⟨vs, hvalues⟩, Option.or_none]
      · have hfirst : truthy (v :: vs).head? = some v := truthy_eq_some_iff.mpr ⟨rfl, hv⟩
        rw [hfirst]
        rfl
  · rw [if_neg hmode, if_neg fun hboth => hmode hboth.1]

theorem ne_ssl_of_mem (h : k ∈ sslKeys) : k ≠ "ssl".toList := by
  have hkeys : ∀ k ∈ sslKeys, k ≠ "ssl".toList := by decide
  exact hkeys k h

/-- What the parameters that are put back are for. -/
theorem renamed_of_not_mem (hssl : k ≠ "ssl".toList) (hk : k ∉ sslKeys) :
    renamed es k = valuesOf es k := by
  unfold renamed
  rw [if_neg hssl, if_neg]
  rintro ⟨rfl, -⟩
  exact hk List.mem_cons_self

/-- Single plain values are those that are put back. -/
theorem pasted_of_plain (h : ∀ k ∈ sslKeys, renamed es k = [] ∨
      ∃ v, renamed es k = [v] ∧ v ≠ [] ∧ Plain v) (hk : k ∈ sslKeys) :
    (pasted es k).toList = renamed es k ∧ ∀ v, pasted es k = some v → Plain v := by
  have hmode : "sslmode".toList ∈ sslKeys := List.mem_cons_self
  have hblank : (∃ vs, valuesOf es "sslmode".toList = [] :: vs) →
      truthy (valuesOf es "ssl".toList).head? = none := by
    rintro ⟨vs, hvs⟩
    have hrenamed : renamed es "sslmode".toList = [] :: vs := by
      rw [renamed, if_neg (ne_ssl_of_mem hmode), if_neg (by rw [hvs]; simp), hvs]
    rcases h _ hmode with hnil | ⟨v, hv, hne, -⟩
    · rw [hrenamed] at hnil
      cases hnil
    · rw [hrenamed] at hv
      exact absurd (List.cons.inj hv).1.symm hne
  rw [pasted_eq (ne_ssl_of_mem hk) hblank]
  rcases h k hk with hnil | ⟨v, hv, hne, hplain⟩
  · rw [hnil]
    exact ⟨rfl, nofun⟩
  · rw [hv]
    have hfirst : truthy [v].head? = some v := truthy_eq_some_iff.mpr ⟨rfl, hne⟩
    rw [hfirst]
    refine ⟨rfl, ?_⟩
    rintro v' ⟨⟩
    exact hplain

/-- **Single plain values come back.** -/
theorem reads_of_plain (h : ∀ k ∈ sslKeys, renamed es k = [] ∨
      ∃ v, renamed es k = [v] ∧ v ≠ [] ∧ Plain v) (k : List Char) :
    (if k = "ssl".toList ∨ k ∈ sslKeys then [] else valuesOf es k) ++
      valuesOf (readParts (pastedParts es)) k = renamed es k := by
  have hread : readParts (pastedParts es) = pastedParts es :=
    readParts_of_plain (fun e he => plainKey_of_mem (mem_pastedParts.mp he).1) fun e he =>
      (pasted_of_plain h (mem_pastedParts.mp he).1).2 e.2 (mem_pastedParts.mp he).2
  rw [hread, pastedParts, valuesOf_filterMap sslKeys_nodup]
  by_cases hk : k ∈ sslKeys
  · rw [if_pos (.inr hk), if_pos hk, (pasted_of_plain h hk).1]
    rfl
  · rw [if_neg hk, List.append_nil]
    by_cases hssl : k = "ssl".toList
    · rw [if_pos (.inl hssl), renamed, if_pos hssl]
    · rw [if_neg (not_or.mpr ⟨hssl, hk⟩), renamed_of_not_mem hssl hk]

/-- **Only single plain values come back**, apart from an accident. -/
theorem plain_of_reads (h : ∀ k ∈ sslKeys, valuesOf (readParts (pastedParts es)) k = renamed es k) :
    (∀ k ∈ sslKeys, renamed es k = [] ∨ ∃ v, renamed es k = [v] ∧ v ≠ [] ∧ Plain v) ∨
      Overwritten es := by
  by_cases hblank : (∃ vs, valuesOf es "sslmode".toList = [] :: vs) →
      truthy (valuesOf es "ssl".toList).head? = none
  · refine .inl ?_
    have hplain := plain_of_readParts
      (fun e (he : e ∈ pastedParts es) => plainKey_of_mem (mem_pastedParts.mp he).1)
      (keys_pastedParts_nodup es) fun e he => by
        obtain ⟨hk, hv⟩ := mem_pastedParts.mp he
        rw [h e.1 hk]
        rw [pasted_eq (ne_ssl_of_mem hk) hblank] at hv
        exact (truthy_eq_some_iff.mp hv).1
    have hread : readParts (pastedParts es) = pastedParts es :=
      readParts_of_plain (fun e he => plainKey_of_mem (mem_pastedParts.mp he).1) hplain
    intro k hk
    have hvalues := h k hk
    rw [hread, pastedParts, valuesOf_filterMap sslKeys_nodup, if_pos hk] at hvalues
    rw [← hvalues]
    cases hv : pasted es k with
    | none => exact .inl rfl
    | some v =>
      refine .inr ⟨v, rfl, pasted_ne_nil hv, ?_⟩
      exact hplain (k, v) (mem_pastedParts.mpr ⟨hk, hv⟩)
  · -- a blank `sslmode` is overwritten, and the value that is read has to be blank
    refine .inr ?_
    simp only [Classical.not_imp] at hblank
    obtain ⟨⟨vs, hvs⟩, hssl⟩ := hblank
    obtain ⟨v, hv⟩ := Option.ne_none_iff_exists'.mp hssl
    obtain ⟨hfirst, hne⟩ := truthy_eq_some_iff.mp hv
    obtain ⟨vs', hvs'⟩ := List.head?_eq_some_iff.mp hfirst
    have hpasted : pasted es "sslmode".toList = some v := by
      rw [pasted, if_pos rfl, hvs, hv]
      rfl
    have hparts : pastedParts es = ("sslmode".toList, v) ::
        certKeys.filterMap fun k => (pasted es k).map (Prod.mk k) := by
      rw [pastedParts, sslKeys, List.filterMap_cons, hpasted]
      rfl
    have hmode : "sslmode".toList ∈ sslKeys := List.mem_cons_self
    obtain ⟨v', more, hread, -, hnil⟩ := readParts_first (plainKey_of_mem hmode) v
      (certKeys.filterMap fun k => (pasted es k).map (Prod.mk k))
    have hvalues := h _ hmode
    rw [hparts, hread, valuesOf_cons_self, renamed, if_neg (ne_ssl_of_mem hmode),
      if_neg (by rw [hvs]; simp), hvs] at hvalues
    exact ⟨vs, v, vs', hvs, hvs', hne, hnil (List.cons.inj hvalues).1⟩

/-- **The SSL parameters come back if they are single and plain**, and else they do not, unless a
blank `sslmode` is overwritten by what is read as a blank value. -/
theorem ssl_params_come_back (hpostgres : _is_postgres_url url = true)
    (hparse : urlparse netloc_ok url = some p) (hurl : p.scheme ≠ [])
    (hfragment : p.fragment = []) :
    (ComesBack (parse_qsl p.query) → Preserved netloc_ok url p) ∧
      (Preserved netloc_ok url p →
        ComesBack (parse_qsl p.query) ∨ Overwritten (parse_qsl p.query)) := by
  rw [preserved_iff hpostgres hparse hurl hfragment]
  generalize parse_qsl p.query = es
  have hmode : "sslmode".toList ∈ sslKeys := List.mem_cons_self
  constructor
  · intro hcomes
    split_ifs with hnil
    · rcases hcomes with ⟨hssl, -⟩ | hplain
      · exact hssl
      · have hrenamed := (pasted_of_plain hplain hmode).1
        rw [pasted_eq_none hnil hmode, renamed, if_neg (ne_ssl_of_mem hmode)] at hrenamed
        split_ifs at hrenamed with hvalues
        · exact hrenamed.symm
        · exact absurd ⟨rfl, hrenamed.symm⟩ hvalues
    · rcases hcomes with ⟨hssl, hnone⟩ | hplain
      · refine absurd (List.eq_nil_iff_forall_not_mem.mpr fun e he => ?_) hnil
        obtain ⟨hk, hv⟩ := mem_pastedParts.mp he
        rw [pasted, hnone _ hk, hssl] at hv
        split_ifs at hv
        · cases hv
      · exact reads_of_plain hplain
  · intro hreads
    split_ifs at hreads with hnil
    · refine .inl (.inl ⟨hreads, fun k hk => ?_⟩)
      have hnone := pasted_eq_none hnil hk
      unfold pasted at hnone
      split_ifs at hnone
      · exact (Option.or_eq_none_iff.mp hnone).1
      · exact hnone
    · refine (plain_of_reads fun k hk => ?_).imp_left .inr
      have hvalues := hreads k
      rwa [if_pos (.inr hk), List.nil_append] at hvalues

/-- A URL whose parameters come back. -/
def plainUrl : List Char := "postgresql://u:p@h/db?app=x%20y&ssl=require".toList

/-- Its parts. -/
def plainParts : ParseResult :=
  ⟨"postgresql".toList, "u:p@h".toList, "/db".toList, [], "app=x%20y&ssl=require".toList, []⟩

theorem plain_parts_come_back : Preserved (fun _ => true) plainUrl plainParts := by
  refine (ssl_params_come_back (by decide) (by decide) (by decide) rfl).1 (.inr ?_)
  have hsafe : ("require".toList.all fun c => !isUnsafe c) = true := by decide
  have hplain : Plain "require".toList := ⟨by decide, by decide, by decide,
    fun c hc => by simpa using List.all_eq_true.mp hsafe c hc, unquote_eq_self_iff.mp (by decide)⟩
  have hmode : renamed (parse_qsl plainParts.query) "sslmode".toList = ["require".toList] := by
    decide
  have hcerts : ∀ k ∈ certKeys, renamed (parse_qsl plainParts.query) k = [] := by decide
  intro k hk
  rcases List.mem_cons.mp hk with rfl | hk
  · exact .inr ⟨_, hmode, by decide, hplain⟩
  · exact .inl (hcerts k hk)

/-- A certificate in a directory `/c++` is looked for in another one. -/
theorem plus_signs_get_lost : ∃ p : ParseResult,
    urlparse (fun _ => true) "postgresql://h/db?sslcert=/c%2B%2B/a.pem".toList = some p ∧
      p.fragment = [] ∧
      ¬ Preserved (fun _ => true) "postgresql://h/db?sslcert=/c%2B%2B/a.pem".toList p := by
  have hparse : urlparse (fun _ => true) "postgresql://h/db?sslcert=/c%2B%2B/a.pem".toList = some
      ⟨"postgresql".toList, "h".toList, "/db".toList, [], "sslcert=/c%2B%2B/a.pem".toList, []⟩ := by
    decide
  refine ⟨_, hparse, rfl, ?_⟩
  rw [preserved_iff (by decide) hparse (by decide) rfl, if_neg (by decide)]
  intro h
  have hvalues := h "sslcert".toList
  revert hvalues
  decide

end OpenLaunch.Storage
