import OpenLaunch.Storage.Sanitize

/-! # What cleaning leaves

Cleaning a value is cleaning each of its strings that is no key: where the text of the value shows no
NUL there is nothing to clean. A string without a NUL is kept, also one with lone surrogates. -/

namespace OpenLaunch.Storage

open Python

/-- The text can be stored. -/
def Clean (s : List CodePoint) : Prop := nul ∉ s ∧ ∀ n, CodePoint.surrogate n ∉ s

/-- The same value with other strings, in which the strings that could be stored are the same, and
all can be. -/
structure SanitizedTo (v v' : DbValue) : Prop where
  shape : v'.mapStrings (fun _ => []) (fun _ => []) = v.mapStrings (fun _ => []) (fun _ => [])
  clean : (∀ k ∈ v'.keys, Clean k) ∧ ∀ s ∈ v'.strings, Clean s
  kept : List.Forall₂ (fun s s' => Clean s → s' = s) v.keys v'.keys ∧
    List.Forall₂ (fun s s' => Clean s → s' = s) v.strings v'.strings

/-! ## One string -/

section Text

variable {s : List CodePoint}

theorem sanitize_text_of_not_mem (h : nul ∉ s) : sanitize_text_for_db s = s := if_pos h

/-- A string with a NUL keeps its other characters. -/
theorem sanitize_text_of_mem (h : nul ∈ s) :
    sanitize_text_for_db s = ((s.filter fun c => c ≠ nul).filterMap CodePoint.char?).map .char := by
  rw [sanitize_text_for_db, if_neg (not_not_intro h)]
  dsimp only
  rw [decode_encodePass, replace_singleton_nil, replace_singleton_nil, List.filter_filter]
  simp only [Bool.and_self]

theorem clean_sanitize_text (h : nul ∈ s) : Clean (sanitize_text_for_db s) := by
  rw [sanitize_text_of_mem h]
  constructor
  · intro hnul
    obtain ⟨c, hc, hchar⟩ := List.mem_map.mp hnul
    obtain ⟨p, hp, hpc⟩ := List.mem_filterMap.mp hc
    cases p with
    | char c' =>
      cases hpc
      rw [hchar] at hp
      simp at hp
    | surrogate n => cases hpc
  · intro n hn
    obtain ⟨c, -, hchar⟩ := List.mem_map.mp hn
    cases hchar

/-- A string is clean after it was cleaned unless it holds a lone surrogate and no NUL. -/
theorem clean_sanitize_text_iff :
    Clean (sanitize_text_for_db s) ↔ ((∃ n, CodePoint.surrogate n ∈ s) → nul ∈ s) := by
  by_cases h : nul ∈ s
  · exact iff_of_true (clean_sanitize_text h) fun _ => h
  · rw [sanitize_text_of_not_mem h, Clean, and_iff_right h]
    constructor
    · rintro hnone ⟨n, hn⟩
      exact absurd hn (hnone n)
    · intro hall n hn
      exact h (hall ⟨n, hn⟩)

theorem sanitize_text_sanitize_text (s : List CodePoint) :
    sanitize_text_for_db (sanitize_text_for_db s) = sanitize_text_for_db s := by
  by_cases h : nul ∈ s
  · exact sanitize_text_of_not_mem (clean_sanitize_text h).1
  · rw [sanitize_text_of_not_mem h, sanitize_text_of_not_mem h]

end Text

/-! ## Other strings in a value -/

namespace DbValue

variable {key str key' str' : List CodePoint → List CodePoint}

theorem mapItems_eq (xs : List DbValue) : mapItems key str xs = xs.map (mapStrings key str) := by
  induction xs with
  | nil => rfl
  | cons x xs ih => rw [mapItems, ih, List.map_cons]

theorem mapEntries_eq (kvs : List (List CodePoint × DbValue)) :
    mapEntries key str kvs = kvs.map fun e => (key e.1, mapStrings key str e.2) := by
  induction kvs with
  | nil => rfl
  | cons e kvs ih => rw [mapEntries, ih, List.map_cons]

/-- Other strings twice. -/
theorem mapStrings_mapStrings (v : DbValue) :
    (v.mapStrings key str).mapStrings key' str' = v.mapStrings (key' ∘ key) (str' ∘ str) := by
  induction v with
  | list xs ih =>
    simp only [mapStrings, mapItems_eq, List.map_map]
    exact congrArg list (List.map_congr_left ih)
  | dict kvs ih =>
    simp only [mapStrings, mapEntries_eq, List.map_map]
    refine congrArg dict (List.map_congr_left fun e he => ?_)
    show (key' (key e.1), (e.2.mapStrings key str).mapStrings key' str') = _
    rw [ih e he]
    rfl
  | _ => rfl

theorem keysOfItems_eq (xs : List DbValue) : keysOfItems xs = xs.flatMap keys := by
  induction xs with
  | nil => rfl
  | cons x xs ih => rw [keysOfItems, ih, List.flatMap_cons]

theorem keysOfEntries_eq (kvs : List (List CodePoint × DbValue)) :
    keysOfEntries kvs = kvs.flatMap fun e => e.1 :: e.2.keys := by
  induction kvs with
  | nil => rfl
  | cons e kvs ih => rw [keysOfEntries, ih, List.flatMap_cons, List.cons_append]

theorem stringsOfItems_eq (xs : List DbValue) : stringsOfItems xs = xs.flatMap strings := by
  induction xs with
  | nil => rfl
  | cons x xs ih => rw [stringsOfItems, ih, List.flatMap_cons]

theorem stringsOfEntries_eq (kvs : List (List CodePoint × DbValue)) :
    stringsOfEntries kvs = kvs.flatMap fun e => e.2.strings := by
  induction kvs with
  | nil => rfl
  | cons e kvs ih => rw [stringsOfEntries, ih, List.flatMap_cons]

theorem flatMap_congr_map {α β γ : Type} {xs : List α} {f : α → α} {g : α → List β} {h : β → γ}
    {g' : α → List γ} (hg : ∀ x ∈ xs, g' (f x) = (g x).map h) :
    (xs.map f).flatMap g' = (xs.flatMap g).map h := by
  rw [List.flatMap_map, List.map_flatMap]
  exact List.flatMap_congr hg

theorem keys_mapStrings (v : DbValue) : (v.mapStrings key str).keys = v.keys.map key := by
  induction v with
  | list xs ih =>
    simp only [mapStrings, mapItems_eq, keys, keysOfItems_eq]
    exact flatMap_congr_map ih
  | dict kvs ih =>
    simp only [mapStrings, mapEntries_eq, keys, keysOfEntries_eq, List.flatMap_map,
      List.map_flatMap]
    refine List.flatMap_congr fun e he => ?_
    rw [ih e he, List.map_cons]
  | _ => rfl

theorem strings_mapStrings (v : DbValue) : (v.mapStrings key str).strings = v.strings.map str := by
  induction v with
  | list xs ih =>
    simp only [mapStrings, mapItems_eq, strings, stringsOfItems_eq]
    exact flatMap_congr_map ih
  | dict kvs ih =>
    simp only [mapStrings, mapEntries_eq, strings, stringsOfEntries_eq, List.flatMap_map,
      List.map_flatMap]
    exact List.flatMap_congr ih
  | _ => rfl

/-- Strings that stay the same make the same value. -/
theorem mapStrings_eq_self (v : DbValue) (h : ∀ s ∈ v.strings, str s = s) :
    v.mapStrings id str = v := by
  induction v with
  | str s => exact congrArg DbValue.str (h s (List.mem_singleton_self s))
  | list xs ih =>
    simp only [strings, stringsOfItems_eq] at h
    simp only [mapStrings, mapItems_eq]
    refine congrArg list ((List.map_congr_left fun x hx => ?_).trans (List.map_id xs))
    exact ih x hx fun s hs => h s (List.mem_flatMap.mpr ⟨x, hx, hs⟩)
  | dict kvs ih =>
    simp only [strings, stringsOfEntries_eq] at h
    simp only [mapStrings, mapEntries_eq]
    refine congrArg dict ((List.map_congr_left fun e he => ?_).trans (List.map_id kvs))
    show (e.1, e.2.mapStrings id str) = e
    rw [ih e he fun s hs => h s (List.mem_flatMap.mpr ⟨e, he, hs⟩)]
  | _ => rfl

end DbValue

/-! ## The walk -/

/-- The walk cleans the strings that are no keys. -/
theorem strip_eq_mapStrings (v : DbValue) :
    strip_null_bytes_deep v = v.mapStrings id sanitize_text_for_db := by
  induction v with
  | list xs ih =>
    have hitems : ∀ ys ⊆ xs, stripItems ys = DbValue.mapItems id sanitize_text_for_db ys := by
      intro ys hys
      induction ys with
      | nil => rfl
      | cons y ys ihys =>
        rw [List.cons_subset] at hys
        rw [stripItems, DbValue.mapItems, ih y hys.1, ihys hys.2]
    rw [strip_null_bytes_deep, DbValue.mapStrings, hitems xs (List.Subset.refl xs)]
  | dict kvs ih =>
    have hentries : ∀ es ⊆ kvs,
        stripEntries es = DbValue.mapEntries id sanitize_text_for_db es := by
      intro es hes
      induction es with
      | nil => rfl
      | cons e es ihes =>
        rw [List.cons_subset] at hes
        rw [stripEntries, DbValue.mapEntries, ih e hes.1, ihes hes.2]
        rfl
    rw [strip_null_bytes_deep, DbValue.mapStrings, hentries kvs (List.Subset.refl kvs)]
  | _ => rfl

/-! ## The text of a value -/

theorem escapedNul_infix_literal {s : List CodePoint} (h : nul ∈ s) : escapedNul <:+: literal s := by
  have hescape : escapedNul = escapePoint nul := by decide
  have hpart : escapePoint nul <:+: s.flatMap escapePoint := by
    obtain ⟨before, after, rfl⟩ := List.append_of_mem h
    rw [List.flatMap_append, List.flatMap_cons]
    exact ⟨_, _, List.append_assoc _ _ _⟩
  rw [hescape]
  exact (List.infix_append_of_infix_right hpart).trans (List.prefix_append _ _).isInfix

/-- The text of each item is a part of the text of the list. -/
theorem dumps_infix_items {x : DbValue} {xs : List DbValue} (h : x ∈ xs) :
    dumpsPoints x <:+: dumpsItemsPoints xs := by
  induction xs with
  | nil => exact absurd h List.not_mem_nil
  | cons y xs ih =>
    rw [dumpsItemsPoints]
    rcases List.mem_cons.mp h with rfl | hmem
    · exact ⟨_, _, rfl⟩
    · exact (ih hmem).trans (List.suffix_append _ _).isInfix

/-- The texts of each entry are parts of the text of the dictionary. -/
theorem dumps_infix_entries {e : List CodePoint × DbValue} {kvs : List (List CodePoint × DbValue)}
    (h : e ∈ kvs) : dumpsPoints e.2 <:+: dumpsEntriesPoints kvs := by
  induction kvs with
  | nil => exact absurd h List.not_mem_nil
  | cons e' kvs ih =>
    rw [dumpsEntriesPoints]
    rcases List.mem_cons.mp h with rfl | hmem
    · exact ⟨_, _, rfl⟩
    · exact (ih hmem).trans (List.suffix_append _ _).isInfix

/-- A NUL in a string of a value is seen in the text of the value. -/
theorem escapedNul_infix_dumps {v : DbValue} {s : List CodePoint} (hs : s ∈ v.strings)
    (h : nul ∈ s) : escapedNul <:+: dumpsPoints v := by
  induction v with
  | str t =>
    rw [DbValue.strings, List.mem_singleton] at hs
    subst hs
    exact escapedNul_infix_literal h
  | list xs ih =>
    rw [DbValue.strings, DbValue.stringsOfItems_eq, List.mem_flatMap] at hs
    obtain ⟨x, hx, hs⟩ := hs
    refine (ih x hx hs).trans ?_
    cases xs with
    | nil => exact absurd hx List.not_mem_nil
    | cons y xs =>
      rw [dumpsPoints]
      rcases List.mem_cons.mp hx with rfl | hmem
      · exact ⟨_, _, rfl⟩
      · exact (dumps_infix_items hmem).trans (List.suffix_append _ _).isInfix
  | dict kvs ih =>
    rw [DbValue.strings, DbValue.stringsOfEntries_eq, List.mem_flatMap] at hs
    obtain ⟨e, he, hs⟩ := hs
    refine (ih e he hs).trans ?_
    cases kvs with
    | nil => exact absurd he List.not_mem_nil
    | cons e' kvs =>
      rw [dumpsPoints]
      rcases List.mem_cons.mp he with rfl | hmem
      · exact ⟨_, _, rfl⟩
      · exact (dumps_infix_entries hmem).trans (List.suffix_append _ _).isInfix
  | _ => exact absurd hs List.not_mem_nil

/-- **The fast path leaves nothing out**: cleaning a value is the walk through it. -/
theorem sanitize_eq_strip (v : DbValue) : sanitize_data_for_db v = strip_null_bytes_deep v := by
  unfold sanitize_data_for_db
  split
  · rfl
  · split
    · next hnone =>
      rw [strip_eq_mapStrings]
      refine (DbValue.mapStrings_eq_self v fun s hs => ?_).symm
      exact sanitize_text_of_not_mem fun hnul => hnone (escapedNul_infix_dumps hs hnul)
    · rfl

/-- **Cleaning twice.** -/
theorem sanitize_sanitize (v : DbValue) :
    sanitize_data_for_db (sanitize_data_for_db v) = sanitize_data_for_db v := by
  simp only [sanitize_eq_strip, strip_eq_mapStrings, DbValue.mapStrings_mapStrings]
  have htwice : sanitize_text_for_db ∘ sanitize_text_for_db = sanitize_text_for_db := by
    funext s
    exact sanitize_text_sanitize_text s
  rw [htwice]
  rfl

/-- **What is cleaned.** A value is cleaned into one of the same shape that can be stored, with the
strings that could be stored, exactly if its keys can be stored and each of its strings that holds a
lone surrogate holds a NUL; cleaning it again changes nothing. -/
theorem sanitized_iff (v : DbValue) :
    (SanitizedTo v (sanitize_data_for_db v) ∧
      sanitize_data_for_db (sanitize_data_for_db v) = sanitize_data_for_db v) ↔
    (∀ k ∈ v.keys, Clean k) ∧
      ∀ s ∈ v.strings, (∃ n, CodePoint.surrogate n ∈ s) → nul ∈ s := by
  rw [and_iff_left (sanitize_sanitize v), sanitize_eq_strip, strip_eq_mapStrings]
  have hkeys : (v.mapStrings id sanitize_text_for_db).keys = v.keys := by
    rw [DbValue.keys_mapStrings, List.map_id]
  constructor
  · rintro ⟨-, ⟨hcleanKeys, hclean⟩, -⟩
    rw [hkeys] at hcleanKeys
    refine ⟨hcleanKeys, fun s hs => clean_sanitize_text_iff.mp (hclean _ ?_)⟩
    rw [DbValue.strings_mapStrings]
    exact List.mem_map_of_mem hs
  · rintro ⟨hcleanKeys, hclean⟩
    refine ⟨?_, ⟨?_, ?_⟩, ?_, ?_⟩
    · rw [DbValue.mapStrings_mapStrings]
      rfl
    · rwa [hkeys]
    · rw [DbValue.strings_mapStrings]
      intro s hs
      obtain ⟨t, ht, rfl⟩ := List.mem_map.mp hs
      exact clean_sanitize_text_iff.mpr (hclean t ht)
    · rw [hkeys, List.forall₂_same]
      exact fun _ _ _ => rfl
    · rw [DbValue.strings_mapStrings, List.forall₂_map_right_iff, List.forall₂_same]
      exact fun s _ hs => sanitize_text_of_not_mem hs.1

/-! ## Strings that are not cleaned -/

/-- **What stays**: a NUL in a key, and a lone surrogate in a string without a NUL. -/
theorem sanitize_counterexample :
    (sanitize_data_for_db (.dict [([nul], .null)]) = .dict [([nul], .null)] ∧
      ¬ SanitizedTo (.dict [([nul], .null)])
        (sanitize_data_for_db (.dict [([nul], .null)]))) ∧
    (sanitize_data_for_db (.str [.surrogate 0]) = .str [.surrogate 0] ∧
      ¬ SanitizedTo (.str [.surrogate 0]) (sanitize_data_for_db (.str [.surrogate 0]))) := by
  refine ⟨⟨?_, fun h => ?_⟩, rfl, fun h => ?_⟩
  · rw [sanitize_eq_strip]
    rfl
  · rw [sanitize_eq_strip] at h
    exact (h.clean.1 [nul] (List.mem_singleton_self _)).1 (List.mem_singleton_self nul)
  · exact (h.clean.2 [.surrogate 0] (List.mem_singleton_self _)).2 0 (List.mem_singleton_self _)

end OpenLaunch.Storage
