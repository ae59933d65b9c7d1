import OpenLaunch.Python.JsonPaths
import OpenLaunch.Python.Parts

/-! # Fragments of flattened configurations

A nested configuration of API connections was flattened to rows whose keys join the path of a value
with dots. `_split_api_config_fragment` guesses where the connection ends and its fields begin. The
guess is right for numbers as connections, and where the first field starts like a known one and
none of the later ones does. -/

namespace OpenLaunch.Config

open Python

/-! ## Definitions -/

/-- `API_CONFIG_FIELDS`. -/
def API_CONFIG_FIELDS : List String :=
  ["enable", "key", "prefix_id", "tags", "model_ids", "connection_type", "provider", "auth_type",
    "headers", "azure", "api_version", "extra_params", "anthropic_version", "max_tokens"]

/-- `s.rfind(sub)`, where it is found. -/
def rfind (sub : List Char) : List Char → Option ℕ
  | [] => if sub = [] then some 0 else none
  | c :: s =>
    match rfind sub s with
    | some i => some (i + 1)
    | none => if sub <+: c :: s then some 0 else none

/-- `s.split('.')`. -/
def splitDots (s : List Char) : List String := (s.splitOn '.').map String.ofList

/-- `'.'.join(parts)`. -/
def joinDots (parts : List String) : List Char := List.intercalate ['.'] (parts.map String.toList)

/-- What is before and behind the separator in `s.partition('.')`. -/
def partitionDot : List Char → List Char × List Char
  | [] => ([], [])
  | c :: s => if c = '.' then ([], s) else (c :: (partitionDot s).1, (partitionDot s).2)

/-- `s.isdigit()`, where `digit` is the property of one character. -/
def isdigit (digit : Char → Bool) (s : List Char) : Bool := s ≠ [] ∧ s.all digit

/-- The later one of two places. -/
def later (found : Option ℕ) : Option ℕ → Option ℕ
  | none => found
  | some marker_index =>
    match found with
    | none => some marker_index
    | some i => if marker_index > i then some marker_index else found

/-- The loop of `_split_api_config_fragment` over the fields: the last place of a marker. -/
def lastMarker (fragment : List Char) : Option ℕ :=
  API_CONFIG_FIELDS.foldl (fun found field => later found (rfind ('.' :: field.toList) fragment)) none

/-- `_split_api_config_fragment`. -/
def _split_api_config_fragment (digit : Char → Bool) (fragment : List Char) :
    Option (String × List String) :=
  if fragment = [] then none
  else
    let (first, rest) := partitionDot fragment
    if isdigit digit first ∧ rest ≠ [] then some (String.ofList first, splitDots rest)
    else
      match lastMarker fragment with
      | none => none
      | some marker_index =>
        let connection_key := fragment.take marker_index
        let field_path := fragment.drop (marker_index + 1)
        if connection_key ≠ [] then some (String.ofList connection_key, splitDots field_path)
        else none

/-- The text starts like a known field. -/
def StartsKnown (part : String) : Prop := ∃ field ∈ API_CONFIG_FIELDS, field.toList <+: part.toList

instance (part : String) : Decidable (StartsKnown part) := List.decidableBEx ..

/-- **A path that can be told from its fragment.** The connection is a number, or something that
does not start with one and a dot, whose first field starts like a known one while no later field
does. No field has dots. -/
def Readable (digit : Char → Bool) : List String → Prop
  | connection :: field :: rest =>
    (∀ part ∈ field :: rest, '.' ∉ part.toList) ∧
      ((isdigit digit connection.toList ∧ '.' ∉ connection.toList ∧ (field :: rest) ≠ [""]) ∨
        (connection ≠ "" ∧ ¬ isdigit digit (partitionDot connection.toList).1 ∧
          StartsKnown field ∧ ∀ part ∈ rest, ¬ StartsKnown part))
  | _ => False

instance (digit : Char → Bool) (path : List String) : Decidable (Readable digit path) :=
  match path with
  | [] | [_] => isFalse id
  | _ :: _ :: _ => inferInstanceAs (Decidable (_ ∧ _))

/-! ## Texts with dots -/

section

variable {part : String} {parts : List String} {s t : List Char} {i j : ℕ}

theorem joinDots_cons (part : String) (h : parts ≠ []) :
    joinDots (part :: parts) = part.toList ++ '.' :: joinDots parts := by
  obtain ⟨x, xs, rfl⟩ := List.exists_cons_of_ne_nil h
  rw [joinDots, List.map_cons, List.map_cons, List.intercalate_cons_cons, List.append_assoc]
  rfl

theorem joinDots_singleton (part : String) : joinDots [part] = part.toList :=
  List.intercalate_singleton

/-- Splitting is undone by joining. -/
theorem joinDots_splitDots (s : List Char) : joinDots (splitDots s) = s := by
  rw [joinDots, splitDots, List.map_map]
  have hid : String.toList ∘ String.ofList = id := funext fun s => String.toList_ofList
  rw [hid, List.map_id, List.intercalate_splitOn]

/-- Joining is undone by splitting, if the parts have no dots. -/
theorem splitDots_joinDots (hne : parts ≠ []) (hdots : ∀ part ∈ parts, '.' ∉ part.toList) :
    splitDots (joinDots parts) = parts := by
  rw [splitDots, joinDots, List.splitOn_intercalate]
  · rw [List.map_map]
    have hid : String.ofList ∘ String.toList = id := funext fun s => String.ofList_toList
    rw [hid, List.map_id]
  · intro l hl
    obtain ⟨part, hpart, rfl⟩ := List.mem_map.mp hl
    exact hdots part hpart
  · exact fun h => hne (List.map_eq_nil_iff.mp h)

theorem splitDots_ne_nil (s : List Char) : splitDots s ≠ [] := fun h =>
  List.splitOn_ne_nil '.' s (List.map_eq_nil_iff.mp h)

theorem not_mem_splitDots (hpart : part ∈ splitDots s) : '.' ∉ part.toList := by
  obtain ⟨l, hl, rfl⟩ := List.mem_map.mp hpart
  rw [String.toList_ofList]
  exact not_mem_of_mem_splitOn hl

theorem joinDots_eq_nil (hne : parts ≠ []) : joinDots parts = [] ↔ parts = [""] := by
  constructor
  · intro h
    cases parts with
    | nil => exact absurd rfl hne
    | cons x xs =>
      by_cases hxs : xs = []
      · subst hxs
        rw [joinDots_singleton] at h
        rw [String.toList_eq_nil_iff.mp h]
      · rw [joinDots_cons x hxs] at h
        simp at h
  · rintro rfl
    rfl

/-- A part without dots and a dot. -/
theorem partitionDot_append (h : '.' ∉ s) (t : List Char) :
    partitionDot (s ++ '.' :: t) = (s, t) := by
  induction s with
  | nil => rfl
  | cons c s ih =>
    rw [List.mem_cons, not_or] at h
    rw [List.cons_append, partitionDot, if_neg (Ne.symm h.1), ih h.2]

/-- What is put behind a text and a dot does not change the text before the first dot. -/
theorem fst_partitionDot_append (s t : List Char) :
    (partitionDot (s ++ '.' :: t)).1 = (partitionDot s).1 := by
  induction s with
  | nil => rfl
  | cons c s ih =>
    rw [List.cons_append, partitionDot, partitionDot, ih]
    split_ifs <;> rfl

theorem snd_partitionDot_ne_nil (h : '.' ∈ s) (t : List Char) :
    (partitionDot (s ++ '.' :: t)).2 ≠ [] := by
  induction s with
  | nil => cases h
  | cons c s ih =>
    rw [List.cons_append, partitionDot]
    split_ifs with hc
    · exact List.append_ne_nil_of_right_ne_nil s (List.cons_ne_nil '.' t)
    · exact ih ((List.mem_cons.mp h).resolve_left (Ne.symm hc))

theorem not_mem_fst_partitionDot (s : List Char) : '.' ∉ (partitionDot s).1 := by
  induction s with
  | nil => exact List.not_mem_nil
  | cons c s ih =>
    rw [partitionDot]
    split_ifs with hc
    · exact List.not_mem_nil
    · rw [List.mem_cons, not_or]
      exact ⟨Ne.symm hc, ih⟩

/-- A text is what is before its first dot, the dot, and what is behind it. -/
theorem partitionDot_eq (h : (partitionDot s).2 ≠ []) :
    (partitionDot s).1 ++ '.' :: (partitionDot s).2 = s := by
  induction s with
  | nil => exact absurd rfl h
  | cons c s ih =>
    rw [partitionDot] at h ⊢
    split_ifs at h ⊢ with hc
    · rw [hc]
      rfl
    · exact congrArg (c :: ·) (ih h)

end

/-! ## The last marker -/

section

variable {part : String} {parts rest : List String} {sub s t : List Char} {i j : ℕ}

/-- The place is the last one with the property, if there is one. -/
def LastOf (P : ℕ → Prop) : Option ℕ → Prop
  | some i => P i ∧ ∀ j > i, ¬ P j
  | none => ∀ j, ¬ P j

theorem LastOf.later {P Q : ℕ → Prop} {found new : Option ℕ} (hP : LastOf P found)
    (hQ : LastOf Q new) : LastOf (fun j => P j ∨ Q j) (Config.later found new) := by
  cases new with
  | none =>
    cases found with
    | none => exact fun j h => h.elim (hP j) (hQ j)
    | some i => exact ⟨.inl hP.1, fun j hj h => h.elim (hP.2 j hj) (hQ j)⟩
  | some m =>
    cases found with
    | none => exact ⟨.inr hQ.1, fun j hj h => h.elim (hP j) (hQ.2 j hj)⟩
    | some i =>
      rw [Config.later]
      split_ifs with hlater
      · exact ⟨.inr hQ.1, fun j hj h => h.elim (hP.2 j (by omega)) (hQ.2 j hj)⟩
      · exact ⟨.inl hP.1, fun j hj h => h.elim (hP.2 j hj) (hQ.2 j (by omega))⟩

/-- **Where a text is found last.** -/
theorem lastOf_rfind (hsub : sub ≠ []) (s : List Char) :
    LastOf (fun i => sub <+: s.drop i) (rfind sub s) := by
  induction s with
  | nil =>
    rw [rfind, if_neg hsub]
    intro j h
    rw [List.drop_nil] at h
    exact hsub (List.prefix_nil.mp h)
  | cons c s ih =>
    rw [rfind]
    cases hfound : rfind sub s with
    | some i =>
      rw [hfound] at ih
      refine ⟨ih.1, fun j hj => ?_⟩
      cases j with
      | zero => omega
      | succ j => exact ih.2 j (by omega)
    | none =>
      rw [hfound] at ih
      dsimp only
      split_ifs with hhere
      · refine ⟨hhere, fun j hj => ?_⟩
        cases j with
        | zero => omega
        | succ j => exact ih j
      · intro j
        cases j with
        | zero => exact hhere
        | succ j => exact ih j

/-- The marker of a known field is at the place. -/
def Marked (s : List Char) (i : ℕ) : Prop :=
  ∃ field ∈ API_CONFIG_FIELDS, '.' :: field.toList <+: s.drop i

/-- **The loop over the fields finds the last marker.** -/
theorem lastOf_lastMarker (s : List Char) : LastOf (Marked s) (lastMarker s) := by
  have hloop : ∀ (fields : List String) {P : ℕ → Prop} {found : Option ℕ}, LastOf P found →
      LastOf (fun j => P j ∨ ∃ field ∈ fields, '.' :: field.toList <+: s.drop j)
        (fields.foldl (fun found field => later found (rfind ('.' :: field.toList) s)) found) := by
    intro fields
    induction fields with
    | nil => simp
    | cons field fields ih =>
      intro P found hP
      have hnext := ih (hP.later (lastOf_rfind (List.cons_ne_nil '.' field.toList) s))
      simpa only [List.foldl_cons, List.mem_cons, exists_eq_or_imp, or_assoc] using hnext
  have hnone : LastOf (fun _ => False) none := fun _ => id
  have hlast := hloop API_CONFIG_FIELDS hnone
  simp only [false_or] at hlast
  exact hlast

theorem LastOf.eq_some {P : ℕ → Prop} {found : Option ℕ} (h : LastOf P found) (hi : P i)
    (hlast : ∀ j > i, ¬ P j) : found = some i := by
  cases found with
  | none => exact absurd hi (h i)
  | some m =>
    rcases Nat.lt_trichotomy m i with hlt | rfl | hlt
    · exact absurd hi (h.2 i hlt)
    · rfl
    · exact absurd h.1 (hlast m hlt)

/-- Known fields have no dots, and none is empty. -/
theorem known_fields : ∀ field ∈ API_CONFIG_FIELDS, '.' ∉ field.toList ∧ field.toList ≠ [] := by
  decide

/-- Markers are at dots. -/
theorem marked_append (h : '.' ∉ s) (t : List Char) (i : ℕ) :
    Marked (s ++ t) i ↔ s.length ≤ i ∧ Marked t (i - s.length) := by
  by_cases hi : s.length ≤ i
  · simp only [Marked, List.drop_append, List.drop_eq_nil_of_le hi, List.nil_append, hi, true_and]
  · refine iff_of_false ?_ fun h => hi h.1
    rintro ⟨field, -, hpre⟩
    obtain ⟨c, u, hdrop⟩ : ∃ c u, s.drop i = c :: u := by
      refine List.exists_cons_of_ne_nil fun hnil => hi (List.drop_eq_nil_iff.mp hnil)
    rw [List.drop_append, hdrop, List.cons_append, List.cons_prefix_cons] at hpre
    exact h (List.mem_of_mem_drop (hpre.1 ▸ hdrop ▸ List.mem_cons_self ..))

/-- A field starts a text with dots where it starts the part before the first one. -/
theorem prefix_dot_iff {field : List Char} (h : '.' ∉ field) :
    field <+: s ++ '.' :: t ↔ field <+: s := by
  constructor
  · intro hpre
    rcases List.prefix_or_prefix_of_prefix hpre (List.prefix_append s _) with hpre' | ⟨u, rfl⟩
    · exact hpre'
    · rw [List.prefix_append_right_inj] at hpre
      cases u with
      | nil => rw [List.append_nil]
      | cons c u =>
        rw [(List.cons_prefix_cons.mp hpre).1] at h
        exact absurd (by simp) h
  · exact fun hpre => hpre.trans (List.prefix_append _ _)

theorem marked_zero (part : String) (rest : List String) :
    Marked ('.' :: joinDots (part :: rest)) 0 ↔ StartsKnown part := by
  simp only [Marked, StartsKnown, List.drop_zero, List.cons_prefix_cons, true_and]
  refine exists_congr fun field => and_congr_right fun hfield => ?_
  by_cases hrest : rest = []
  · rw [hrest, joinDots_singleton]
  · rw [joinDots_cons part hrest]
    exact prefix_dot_iff (known_fields field hfield).1

/-- **Later markers are those of later parts.** -/
theorem marked_later (hdots : ∀ x ∈ part :: rest, '.' ∉ x.toList) :
    (∃ j > 0, Marked ('.' :: joinDots (part :: rest)) j) ↔ ∃ x ∈ rest, StartsKnown x := by
  induction rest generalizing part with
  | nil =>
    rw [joinDots_singleton]
    refine iff_of_false ?_ (by simp)
    rintro ⟨j, hj, field, -, hpre⟩
    cases j with
    | zero => omega
    | succ j =>
      rw [List.drop_succ_cons] at hpre
      refine hdots part (List.mem_cons_self ..) (List.mem_of_mem_drop (i := j) ?_)
      exact hpre.subset (List.mem_cons_self ..)
  | cons next rest ih =>
    obtain ⟨hpart, hdots⟩ := List.forall_mem_cons.mp hdots
    rw [joinDots_cons part (List.cons_ne_nil next rest)]
    have hshift (j : ℕ) : Marked ('.' :: (part.toList ++ '.' :: joinDots (next :: rest))) (j + 1) ↔
        part.toList.length ≤ j ∧ Marked ('.' :: joinDots (next :: rest)) (j - part.toList.length) :=
      marked_append hpart _ j
    simp only [List.mem_cons, exists_eq_or_imp]
    rw [← ih hdots, ← marked_zero next rest]
    constructor
    · rintro ⟨j, hj, hmarked⟩
      obtain ⟨j, rfl⟩ := Nat.exists_eq_succ_of_ne_zero (Nat.pos_iff_ne_zero.mp hj)
      obtain ⟨hle, hmarked⟩ := (hshift j).mp hmarked
      rcases Nat.eq_zero_or_pos (j - part.toList.length) with hzero | hpos
      · exact .inl (hzero ▸ hmarked)
      · exact .inr ⟨_, hpos, hmarked⟩
    · rintro (hmarked | ⟨j, hj, hmarked⟩)
      · exact ⟨part.toList.length + 1, by omega, (hshift _).mpr ⟨le_rfl, by rwa [Nat.sub_self]⟩⟩
      · refine ⟨part.toList.length + j + 1, by omega, (hshift _).mpr ⟨by omega, ?_⟩⟩
        rwa [Nat.add_sub_cancel_left]

end

/-! ## Which paths can be told -/

section

variable {digit : Char → Bool} {connection field : String} {rest fields : List String}
  {s : List Char} {i : ℕ}

/-- How a fragment is split: behind a number, or at the last marker. -/
theorem split_eq_some : _split_api_config_fragment digit s = some (connection, fields) ↔
    (isdigit digit (partitionDot s).1 ∧ (partitionDot s).2 ≠ [] ∧
      String.ofList (partitionDot s).1 = connection ∧ splitDots (partitionDot s).2 = fields) ∨
    (¬ (isdigit digit (partitionDot s).1 ∧ (partitionDot s).2 ≠ []) ∧
      ∃ i, lastMarker s = some i ∧ s.take i ≠ [] ∧ String.ofList (s.take i) = connection ∧
        splitDots (s.drop (i + 1)) = fields) := by
  rw [_split_api_config_fragment]
  by_cases hnil : s = []
  · subst hnil
    simp [isdigit, partitionDot]
  rw [if_neg hnil]
  dsimp only
  split_ifs with hdigit
  · rw [Option.some.injEq, Prod.mk.injEq]
    refine ⟨fun h => .inl ⟨hdigit.1, hdigit.2, h⟩, ?_⟩
    rintro (⟨-, -, h⟩ | ⟨hnot, -⟩)
    · exact h
    · exact absurd hdigit hnot
  · rw [or_iff_right fun h => hdigit ⟨h.1, h.2.1⟩, and_iff_right hdigit]
    cases hmarker : lastMarker s with
    | none => simp
    | some i =>
      simp only [Option.some.injEq, exists_eq_left', Option.ite_none_right_eq_some, Prod.mk.injEq]

/-- The guess keeps the text. -/
theorem joinDots_of_split (h : _split_api_config_fragment digit s = some (connection, fields)) :
    joinDots (connection :: fields) = s ∧ fields ≠ [] ∧ ∀ x ∈ fields, '.' ∉ x.toList := by
  rcases split_eq_some.mp h with ⟨-, hrest, rfl, rfl⟩ | ⟨-, i, hmarker, htake, rfl, rfl⟩
  · refine ⟨?_, splitDots_ne_nil _, fun x => not_mem_splitDots⟩
    rw [joinDots_cons _ (splitDots_ne_nil _), joinDots_splitDots, String.toList_ofList]
    exact partitionDot_eq hrest
  · refine ⟨?_, splitDots_ne_nil _, fun x => not_mem_splitDots⟩
    rw [joinDots_cons _ (splitDots_ne_nil _), joinDots_splitDots, String.toList_ofList]
    have hlast := lastOf_lastMarker s
    rw [hmarker] at hlast
    obtain ⟨field, -, u, hu⟩ := hlast.1
    have hdrop : s.drop i = '.' :: s.drop (i + 1) := by
      rw [← List.tail_drop, ← hu]
      rfl
    rw [← hdrop, List.take_append_drop]

/-- Where the connection ends there is the last marker. -/
theorem lastMarker_iff (hdots : ∀ part ∈ field :: rest, '.' ∉ part.toList) :
    lastMarker (connection.toList ++ '.' :: joinDots (field :: rest)) =
        some connection.toList.length ↔
      StartsKnown field ∧ ∀ part ∈ rest, ¬ StartsKnown part := by
  set s := connection.toList ++ '.' :: joinDots (field :: rest)
  have hshift (j : ℕ) : Marked s (connection.toList.length + j) ↔
      Marked ('.' :: joinDots (field :: rest)) j := by
    simp only [Marked, s, List.drop_append, List.drop_eq_nil_of_le (Nat.le_add_right ..),
      List.nil_append, Nat.add_sub_cancel_left]
  have hhere : Marked s connection.toList.length ↔ StartsKnown field :=
    (hshift 0).trans (marked_zero field rest)
  have hlater : (∃ j > connection.toList.length, Marked s j) ↔ ∃ part ∈ rest, StartsKnown part := by
    rw [← marked_later hdots]
    constructor
    · rintro ⟨j, hj, hmarked⟩
      refine ⟨j - connection.toList.length, by omega, (hshift _).mp ?_⟩
      rwa [Nat.add_sub_cancel' (by omega)]
    · rintro ⟨j, hj, hmarked⟩
      exact ⟨connection.toList.length + j, by omega, (hshift j).mpr hmarked⟩
  have hlast := lastOf_lastMarker s
  constructor
  · intro hfound
    rw [hfound] at hlast
    refine ⟨hhere.mp hlast.1, fun part hpart hknown => ?_⟩
    obtain ⟨j, hj, hmarked⟩ := hlater.mpr ⟨part, hpart, hknown⟩
    exact hlast.2 j hj hmarked
  · rintro ⟨hknown, hrest⟩
    refine hlast.eq_some (hhere.mpr hknown) fun j hj hmarked => ?_
    obtain ⟨part, hpart, hknown'⟩ := hlater.mp ⟨j, hj, hmarked⟩
    exact hrest part hpart hknown'

/-- **The fragment of a path is split where the connection ends exactly if the path is readable.**
-/
theorem split_joinDots_iff (digit : Char → Bool) (connection : String) (fields : List String) :
    _split_api_config_fragment digit (joinDots (connection :: fields)) = some (connection, fields) ↔
      Readable digit (connection :: fields) := by
  cases fields with
  | nil =>
    refine iff_of_false (fun h => ?_) id
    exact (joinDots_of_split h).2.1 rfl
  | cons field rest =>
    have hne : field :: rest ≠ [] := List.cons_ne_nil field rest
    rw [joinDots_cons connection hne]
    constructor
    · intro h
      have hdots := (joinDots_of_split h).2.2
      refine ⟨hdots, ?_⟩
      rcases split_eq_some.mp h with ⟨hdigit, hrest, hconnection, hfields⟩ |
        ⟨hdigit, i, hmarker, htake, hconnection, hfields⟩
      · have htext := (congrArg String.toList hconnection).symm
        rw [String.toList_ofList] at htext
        have hdot : '.' ∉ connection.toList := htext ▸ not_mem_fst_partitionDot _
        refine .inl ⟨htext ▸ hdigit, hdot, fun hempty => hrest ?_⟩
        rw [partitionDot_append hdot, hempty]
        rfl
      · have htext := (congrArg String.toList hconnection).symm
        rw [String.toList_ofList] at htext
        have hmarked := lastOf_lastMarker (connection.toList ++ '.' :: joinDots (field :: rest))
        rw [hmarker] at hmarked
        have hlength : connection.toList.length = i := by
          rw [htext, List.length_take, Nat.min_eq_left]
          by_contra hlt
          obtain ⟨known, -, hpre⟩ := hmarked.1
          rw [List.drop_eq_nil_of_le (Nat.le_of_not_le hlt)] at hpre
          cases List.prefix_nil.mp hpre
        obtain ⟨hknown, hlater⟩ := (lastMarker_iff hdots).mp (hlength ▸ hmarker)
        refine .inr ⟨?_, fun hd => hdigit ⟨?_, ?_⟩, hknown, hlater⟩
        · rintro rfl
          exact htake htext.symm
        · rwa [fst_partitionDot_append]
        · by_cases hdot : '.' ∈ connection.toList
          · exact snd_partitionDot_ne_nil hdot _
          · rw [partitionDot_append hdot]
            intro hnil
            -- a known field is not empty
            obtain ⟨known, hmem, hpre⟩ := hknown
            cases (joinDots_eq_nil hne).mp hnil
            exact (known_fields known hmem).2 (List.prefix_nil.mp hpre)
    · rintro ⟨hdots, ⟨hdigit, hdot, hempty⟩ | ⟨hnonempty, hdigit, hknown, hlater⟩⟩
      · refine split_eq_some.mpr (.inl ?_)
        rw [partitionDot_append hdot]
        refine ⟨hdigit, fun hnil => hempty ((joinDots_eq_nil hne).mp hnil), ?_, ?_⟩
        · exact String.ofList_toList
        · exact splitDots_joinDots hne hdots
      · refine split_eq_some.mpr (.inr ⟨?_, connection.toList.length, ?_, ?_, ?_, ?_⟩)
        · rw [fst_partitionDot_append]
          exact fun h => hdigit h.1
        · exact (lastMarker_iff hdots).mpr ⟨hknown, hlater⟩
        · rw [List.take_left]
          exact fun h => hnonempty (String.toList_eq_nil_iff.mp h)
        · rw [List.take_left, String.ofList_toList]
        · have hdrop : (connection.toList ++ '.' :: joinDots (field :: rest)).drop
              (connection.toList.length + 1) = joinDots (field :: rest) := by
            rw [← List.drop_drop, List.drop_left]
            rfl
          rw [hdrop, splitDots_joinDots hne hdots]

end

end OpenLaunch.Config
