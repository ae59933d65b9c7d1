import Mathlib.Data.List.Infix

/-! # Parts between separators

What `s.split(sep)` and `sep.join(parts)` make of occurrences and elements, for a separator that is
one element. -/

namespace Python

universe u

variable {α : Type u} [DecidableEq α] {sep c : α} {l as bs s : List α} {ls : List (List α)}

/-! ## Occurrences -/

omit [DecidableEq α] in
/-- An occurrence of a list without `c` is on one side of a `c`. -/
theorem infix_append_cons_iff (hc : c ∉ l) (hl : l ≠ []) :
    l <:+: as ++ c :: bs ↔ l <:+: as ∨ l <:+: bs := by
  constructor
  · rintro ⟨x, y, h⟩
    rcases List.append_eq_append_iff.mp h with ⟨as', rfl, -⟩ | ⟨cs, hcs, hbs⟩
    · exact .inl ⟨x, as', rfl⟩
    rcases List.append_eq_append_iff.mp hcs with ⟨as', rfl, hl'⟩ | ⟨x', rfl, rfl⟩
    · cases cs with
      | nil =>
        rw [List.append_nil] at hl'
        exact .inl ⟨x, [], by rw [hl', List.append_nil]⟩
      | cons c' cs =>
        rw [List.cons_append, List.cons.injEq] at hbs
        refine absurd ?_ hc
        rw [hl', hbs.1]
        simp
    · cases x' with
      | nil =>
        obtain ⟨d, l, rfl⟩ := List.exists_cons_of_ne_nil hl
        rw [List.nil_append, List.cons_append, List.cons.injEq] at hbs
        refine absurd ?_ hc
        rw [hbs.1]
        exact List.mem_cons_self
      | cons d x' =>
        simp only [List.cons_append, List.cons.injEq] at hbs
        exact .inr ⟨x', y, hbs.2.symm⟩
  · rintro (h | h)
    · exact h.trans (List.prefix_append as (c :: bs)).isInfix
    · exact h.trans ((List.suffix_cons c bs).trans (List.suffix_append as (c :: bs))).isInfix

omit [DecidableEq α] in
/-- A part occurs in what the parts are joined to. -/
theorem infix_intercalate (h : l ∈ ls) : l <:+: [sep].intercalate ls := by
  induction ls with
  | nil => cases h
  | cons l' ls ih =>
    cases ls with
    | nil =>
      obtain rfl : l = l' := List.mem_singleton.mp h
      simp
    | cons l₂ ls =>
      rw [List.intercalate_cons_cons]
      rcases List.mem_cons.mp h with rfl | h
      · rw [List.append_assoc]
        exact (List.prefix_append _ _).isInfix
      · exact (ih h).trans (List.suffix_append _ _).isInfix

/-- A part of a sequence occurs in it. -/
theorem infix_of_mem_splitOn (h : l ∈ s.splitOn sep) : l <:+: s := by
  have hinfix : l <:+: [sep].intercalate (s.splitOn sep) := infix_intercalate h
  rw [List.intercalate_splitOn] at hinfix
  exact hinfix

/-! ## Joined parts -/

omit [DecidableEq α] in
/-- What two sequences of parts are joined to. -/
theorem intercalate_append {gap : List α} {ls ls' : List (List α)} (h : ls ≠ []) (h' : ls' ≠ []) :
    gap.intercalate (ls ++ ls') = gap.intercalate ls ++ gap ++ gap.intercalate ls' := by
  induction ls with
  | nil => exact absurd rfl h
  | cons l ls ih =>
    rw [List.cons_append]
    cases ls with
    | nil => rw [List.nil_append, List.intercalate_cons_of_ne_nil h', List.intercalate_singleton]
    | cons l₂ ls =>
      rw [List.intercalate_cons_of_ne_nil (by simp), ih (by simp), List.intercalate_cons_cons]
      simp only [List.append_assoc]

omit [DecidableEq α] in
/-- Joining in two stages. -/
theorem intercalate_flatten {gap : List α} {lss : List (List (List α))}
    (h : ∀ ls ∈ lss, ls ≠ []) :
    gap.intercalate (lss.map gap.intercalate) = gap.intercalate lss.flatten := by
  induction lss with
  | nil => rfl
  | cons ls lss ih =>
    have hls : ls ≠ [] := h ls List.mem_cons_self
    have hlss : ∀ ls' ∈ lss, ls' ≠ [] := fun ls' h' => h ls' (List.mem_cons_of_mem _ h')
    rw [List.map_cons, List.flatten_cons]
    cases lss with
    | nil => simp
    | cons ls₂ lss =>
      have hflat : (ls₂ :: lss).flatten ≠ [] := by
        rw [List.flatten_cons, Ne, List.append_eq_nil_iff]
        exact fun hnil => hlss ls₂ List.mem_cons_self hnil.1
      rw [List.intercalate_cons_of_ne_nil (by simp), ih hlss, intercalate_append hls hflat]

/-! ## Elements -/

/-- There is no separator in a part. -/
theorem not_mem_of_mem_splitOn (h : l ∈ s.splitOn sep) : sep ∉ l := by
  induction s generalizing l with
  | nil =>
    rw [List.splitOn_nil, List.mem_singleton] at h
    rw [h]
    exact List.not_mem_nil
  | cons c s ih =>
    rw [List.splitOn_cons_eq_if_modifyHead] at h
    split_ifs at h with hc
    · rcases List.mem_cons.mp h with rfl | h
      · exact List.not_mem_nil
      · exact ih h
    · obtain ⟨x, xs, hxs⟩ := List.exists_cons_of_ne_nil (List.splitOn_ne_nil sep s)
      rw [hxs, List.modifyHead_cons] at h
      rw [hxs] at ih
      rcases List.mem_cons.mp h with rfl | h
      · rw [List.mem_cons, not_or]
        exact ⟨fun h => hc (beq_iff_eq.mpr h.symm), ih List.mem_cons_self⟩
      · exact ih (List.mem_cons_of_mem _ h)

omit [DecidableEq α] in
/-- An element of the joined parts is a separator, or is one of a part. -/
theorem mem_intercalate (h : c ∈ [sep].intercalate ls) : c = sep ∨ ∃ l ∈ ls, c ∈ l := by
  induction ls with
  | nil => cases h
  | cons l ls ih =>
    cases ls with
    | nil =>
      rw [List.intercalate_singleton] at h
      exact .inr ⟨l, List.mem_cons_self, h⟩
    | cons l₂ ls =>
      rw [List.intercalate_cons_cons, List.mem_append, List.mem_append, List.mem_singleton] at h
      rcases h with (h | h) | h
      · exact .inr ⟨l, List.mem_cons_self, h⟩
      · exact .inl h
      · rcases ih h with h | ⟨l', hl', h⟩
        · exact .inl h
        · exact .inr ⟨l', List.mem_cons_of_mem _ hl', h⟩

end Python

/-! ## Normal forms of paths

`posixpath.normpath`: the components of a path are gone through from left to right, and a component
`..` takes the one before it away. An absolute path has no such component afterwards, and is
unchanged by a second normalisation. -/

namespace Python

variable {path comp : List Char} {ls comps : List (List Char)}

/-! ## `normpath` -/

/-- One component after those that are kept. -/
def keepComponent (absolute : Bool) (comps : List (List Char)) (comp : List Char) :
    List (List Char) :=
  if comp = [] ∨ comp = ['.'] then comps
  else if comp ≠ ['.', '.'] ∨ absolute = false ∧ comps = [] ∨
      comps.getLast? = some ['.', '.'] then comps ++ [comp]
  else comps.dropLast

/-- The components that are kept. -/
def components (absolute : Bool) (path : List Char) : List (List Char) :=
  (path.splitOn '/').foldl (keepComponent absolute) []

/-- The slashes that are kept in front: two are, but of three or more only one is. -/
def initialSlashes : List Char → ℕ
  | '/' :: '/' :: '/' :: _ => 1
  | '/' :: '/' :: _ => 2
  | '/' :: _ => 1
  | _ => 0

/-- `posixpath.normpath`. -/
def normpath (path : List Char) : List Char :=
  if path = [] then ['.']
  else match List.replicate (initialSlashes path) '/' ++
      ['/'].intercalate (components (path.head? = some '/') path) with
    | [] => ['.']
    | c :: cs => c :: cs

/-- A component that stays. -/
structure IsPlain (comp : List Char) : Prop where
  ne_nil : comp ≠ []
  ne_dot : comp ≠ ['.']
  ne_dots : comp ≠ ['.', '.']
  noSlash : '/' ∉ comp

/-- A plain component is kept. -/
theorem keepComponent_of_isPlain (absolute : Bool) (comps : List (List Char)) (h : IsPlain comp) :
    keepComponent absolute comps comp = comps ++ [comp] := by
  rw [keepComponent, if_neg (not_or.mpr ⟨h.ne_nil, h.ne_dot⟩), if_pos (.inl h.ne_dots)]

theorem foldl_keepComponent_of_isPlain (absolute : Bool) (comps ls : List (List Char))
    (h : ∀ l ∈ ls, IsPlain l) : ls.foldl (keepComponent absolute) comps = comps ++ ls := by
  induction ls generalizing comps with
  | nil => exact (List.append_nil comps).symm
  | cons l ls ih =>
    obtain ⟨hl, hls⟩ := List.forall_mem_cons.mp h
    rw [List.foldl_cons, keepComponent_of_isPlain absolute comps hl, ih _ hls, List.append_assoc]
    rfl

/-- **Components of an absolute path**: those that are kept are plain parts of it. -/
theorem forall_mem_foldl_keepComponent {P : List Char → Prop} (hcomps : ∀ l ∈ comps, P l)
    (hls : ∀ l ∈ ls, l ≠ [] → l ≠ ['.'] → l ≠ ['.', '.'] → P l) (hdots : ¬ P ['.', '.']) :
    ∀ l ∈ ls.foldl (keepComponent true) comps, P l := by
  induction ls generalizing comps with
  | nil => exact hcomps
  | cons comp ls ih =>
    obtain ⟨hcomp, hls⟩ := List.forall_mem_cons.mp hls
    refine ih ?_ hls
    rw [keepComponent]
    split_ifs with hskip hkeep
    · exact hcomps
    · refine List.forall_mem_append.mpr ⟨hcomps, List.forall_mem_singleton.mpr ?_⟩
      rw [not_or] at hskip
      rcases hkeep with hkeep | ⟨habsurd, -⟩ | hlast
      · exact hcomp hskip.1 hskip.2 hkeep
      · cases habsurd
      · exact absurd (hcomps _ (List.mem_of_getLast? hlast)) hdots
    · exact fun l hl => hcomps l (List.dropLast_subset comps hl)

theorem components_absolute (path : List Char) :
    ∀ l ∈ components true path, IsPlain l ∧ l ∈ path.splitOn '/' :=
  forall_mem_foldl_keepComponent nofun
    (fun _ hl hnil hdot hdots => ⟨⟨hnil, hdot, hdots, not_mem_of_mem_splitOn hl⟩, hl⟩)
    fun h => h.1.ne_dots rfl

/-- The normal form of an absolute path. -/
theorem normpath_absolute (h : path.head? = some '/') : ∃ k, (k = 1 ∨ k = 2) ∧
    normpath path = List.replicate k '/' ++ ['/'].intercalate (components true path) := by
  obtain ⟨rest, rfl⟩ := List.head?_eq_some_iff.mp h
  have hk : initialSlashes ('/' :: rest) = 1 ∨ initialSlashes ('/' :: rest) = 2 := by
    unfold initialSlashes
    split <;> simp_all
  refine ⟨_, hk, ?_⟩
  rw [normpath, if_neg (List.cons_ne_nil _ _)]
  simp only [List.head?_cons, decide_true]
  rcases hk with hk | hk
  · rw [hk]
    rfl
  · rw [hk]
    rfl

/-- Plain components after a slash make up a path with these parts. -/
theorem splitOn_of_isPlain (h : ∀ l ∈ comps, IsPlain l) (hcomps : comps ≠ []) :
    ('/' :: ['/'].intercalate comps).splitOn '/' = [] :: comps := by
  have hpath : '/' :: ['/'].intercalate comps = ['/'].intercalate ([] :: comps) := by
    rw [List.intercalate_cons_of_ne_nil hcomps]
    rfl
  rw [hpath, List.splitOn_intercalate _ _ (List.cons_ne_nil _ _)]
  exact List.forall_mem_cons.mpr ⟨List.not_mem_nil, fun l hl => (h l hl).noSlash⟩

/-- **A normal form is normal.** -/
theorem normpath_of_isPlain (h : ∀ l ∈ comps, IsPlain l) (hcomps : comps ≠ []) :
    normpath ('/' :: ['/'].intercalate comps) = '/' :: ['/'].intercalate comps := by
  obtain ⟨l, ls, rfl⟩ := List.exists_cons_of_ne_nil hcomps
  obtain ⟨c, l, rfl⟩ := List.exists_cons_of_ne_nil (h l List.mem_cons_self).ne_nil
  have hc : c ≠ '/' := fun hslash => (h _ List.mem_cons_self).noSlash (by simp [hslash])
  have hslashes : initialSlashes ('/' :: ['/'].intercalate ((c :: l) :: ls)) = 1 := by
    rw [List.intercalate_cons_cons_left]
    unfold initialSlashes
    split <;> simp_all
  rw [normpath, if_neg (List.cons_ne_nil _ _), hslashes, components,
    splitOn_of_isPlain h hcomps, List.foldl_cons]
  have hskip : ∀ absolute, keepComponent absolute [] [] = [] := fun _ => if_pos (.inl rfl)
  rw [hskip, foldl_keepComponent_of_isPlain _ _ _ h]
  rfl

end Python
