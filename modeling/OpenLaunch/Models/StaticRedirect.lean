import OpenLaunch.Python.Parts
import OpenLaunch.Python.Unquote
import Mathlib.Logic.Function.Iterate

/-! # Redirects to static files

The profile image of a model may be a path of the server. `_safe_static_redirect_path` returns a
normal path below `/static` to redirect to, or nothing. The path is decoded before it is normalised,
and nothing that is decoded later can change it. -/

namespace OpenLaunch.Models

open Python

/-! ## The code -/

/-- The loop that decodes, at most `n` times. -/
def decodeUpTo : ℕ → List Char → List Char
  | 0, path => path
  | n + 1, path => if unquote path = path then path else decodeUpTo n (unquote path)

/-- `url.split('?', 1)[0].split('#', 1)[0].strip()`. -/
def pathOf (url : List Char) : List Char :=
  strip ((url.takeWhile (· ≠ '?')).takeWhile (· ≠ '#'))

/-- `_safe_static_redirect_path`. -/
def _safe_static_redirect_path (url : List Char) : Option (List Char) :=
  if url = [] then none
  else
    let path := decodeUpTo 2 (pathOf url)
    if unquote path ≠ path then none
    else if '\x00' ∈ path ∨ '\\' ∈ path then none
    else if path.head? ≠ some '/' then none
    else
      let normalized := normpath path
      if normalized = ".".toList ∨ normalized = "/".toList then none
      else if ¬ (normalized = "/static".toList ∨ "/static/".toList <+: normalized) then none
      else if normalized = "/static".toList then some "/static/".toList
      else some normalized

/-! ## What it is for -/

/-- A path is one of `/static` or below it. -/
def InStatic (path : List Char) : Prop :=
  normpath path = "/static".toList ∨ "/static/".toList <+: normpath path

/-- A path that stays below `/static`, whatever is decoded or normalised later. -/
structure SafePath (path : List Char) : Prop where
  static : "/static/".toList <+: path
  noDots : "..".toList ∉ path.splitOn '/'
  noBackslash : '\\' ∉ path
  noNul : '\x00' ∉ path
  decoded : unquote path = path
  normal : path ≠ "/static/".toList → normpath path = path
  confined : ∀ n, InStatic (unquote^[n] path)

/-! ## Safety -/

variable {path : List Char} {comps : List (List Char)} {url : List Char}

/-- An escape in a path is in one of its components. -/
theorem not_hasEscape_intercalate (h : ∀ comp ∈ comps, ¬ HasEscape comp) :
    ¬ HasEscape (['/'].intercalate comps) := by
  induction comps with
  | nil => exact not_hasEscape_nil
  | cons comp comps ih =>
    obtain ⟨hcomp, hcomps⟩ := List.forall_mem_cons.mp h
    by_cases hnil : comps = []
    · subst hnil
      rw [List.intercalate_singleton]
      exact hcomp
    · rw [List.intercalate_cons_of_ne_nil hnil, List.append_assoc, List.singleton_append,
        hasEscape_append_cons_iff (by decide) (by decide)]
      exact not_or.mpr ⟨hcomp, ih hcomps⟩

/-- **What is normalised stays decoded**: the components are kept whole, so that no new escape
comes about. -/
theorem safePath_of_components (hcomps : comps ≠ []) (hplain : ∀ comp ∈ comps, IsPlain comp)
    (hparts : ∀ comp ∈ comps, comp <:+: path) (hescape : ¬ HasEscape path) (hnul : '\x00' ∉ path)
    (hbackslash : '\\' ∉ path) (hstatic : "/static/".toList <+: '/' :: ['/'].intercalate comps) :
    SafePath ('/' :: ['/'].intercalate comps) := by
  have hchars : ∀ c, c ≠ '/' → c ∉ path → c ∉ '/' :: ['/'].intercalate comps := by
    intro c hslash hc hmem
    rcases List.mem_cons.mp hmem with h | h
    · exact hslash h
    · rcases mem_intercalate h with h | ⟨comp, hcomp, h⟩
      · exact hslash h
      · exact hc ((hparts comp hcomp).subset h)
  have hdecoded : unquote ('/' :: ['/'].intercalate comps) = '/' :: ['/'].intercalate comps := by
    rw [unquote_eq_self_iff, hasEscape_cons_of_ne (by decide)]
    exact not_hasEscape_intercalate fun comp hcomp hin =>
      hescape (hin.of_infix (hparts comp hcomp))
  have hnormal := normpath_of_isPlain hplain hcomps
  refine ⟨hstatic, ?_, hchars _ (by decide) hbackslash, hchars _ (by decide) hnul, hdecoded,
    fun _ => hnormal, fun n => ?_⟩
  · rw [splitOn_of_isPlain hplain hcomps]
    intro h
    rcases List.mem_cons.mp h with h | h
    · cases h
    · exact (hplain _ h).ne_dots rfl
  · rw [Function.iterate_fixed hdecoded, InStatic, hnormal]
    exact .inr hstatic

theorem safePath_static : SafePath "/static/".toList := by
  have hdecoded : unquote "/static/".toList = "/static/".toList := by decide
  refine ⟨List.prefix_refl _, by decide, by decide, by decide, hdecoded,
    fun h => absurd rfl h, fun n => ?_⟩
  rw [Function.iterate_fixed hdecoded]
  exact .inl (by decide)

/-- A normal form below `/static` has one slash in front and plain components. -/
theorem exists_components (hhead : path.head? = some '/')
    (hstatic : "/static/".toList <+: normpath path) : ∃ comps, comps ≠ [] ∧
      (∀ comp ∈ comps, IsPlain comp ∧ comp <:+: path) ∧
        normpath path = '/' :: ['/'].intercalate comps := by
  obtain ⟨k, hk, hnormal⟩ := normpath_absolute hhead
  have hcomps := components_absolute path
  generalize components true path = comps at hnormal hcomps
  have hnil : comps ≠ [] := by
    rintro rfl
    rw [hnormal] at hstatic
    rcases hk with rfl | rfl
    · exact absurd hstatic (by decide)
    · exact absurd hstatic (by decide)
  refine ⟨comps, hnil, fun comp hcomp => ⟨(hcomps comp hcomp).1,
    infix_of_mem_splitOn (hcomps comp hcomp).2⟩, ?_⟩
  rcases hk with rfl | rfl
  · exact hnormal
  · -- two slashes are not followed by `static`
    rw [hnormal] at hstatic
    exact absurd (List.cons_prefix_cons.mp (List.cons_prefix_cons.mp hstatic).2).1 (by decide)

/-- **Every path that is returned is safe.** -/
theorem safe_static_redirect_path_safe (url : List Char) :
    _safe_static_redirect_path url = none ∨
      ∃ path, _safe_static_redirect_path url = some path ∧ SafePath path := by
  rw [_safe_static_redirect_path]
  dsimp only
  split_ifs with hurl hdecoded hchars hhead hroot hother hstatic
  all_goals try exact .inl rfl
  · exact .inr ⟨_, rfl, safePath_static⟩
  · refine .inr ⟨_, rfl, ?_⟩
    generalize decodeUpTo 2 (pathOf url) = path at *
    rw [not_ne_iff] at hdecoded hhead
    have hbelow := hother.resolve_left hstatic
    obtain ⟨hnul, hbackslash⟩ := not_or.mp hchars
    obtain ⟨comps, hnil, hcomps, hnormal⟩ := exists_components hhead hbelow
    rw [hnormal] at hbelow ⊢
    exact safePath_of_components hnil (fun comp hcomp => (hcomps comp hcomp).1)
      (fun comp hcomp => (hcomps comp hcomp).2) (unquote_eq_self_iff.mp hdecoded) hnul hbackslash
      hbelow

/-- The path of the directory itself has a slash at the end, and an encoded question mark is
decoded. -/
theorem directory_and_query :
    (_safe_static_redirect_path "/static".toList = some "/static/".toList ∧
      normpath "/static/".toList ≠ "/static/".toList) ∧
    (_safe_static_redirect_path "/static/a%3Fb".toList = some "/static/a?b".toList ∧
      '?' ∈ "/static/a?b".toList) := by
  decide

end OpenLaunch.Models
