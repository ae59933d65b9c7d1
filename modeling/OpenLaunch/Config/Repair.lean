import OpenLaunch.Config.Fragments

/-! # The repair of flattened configurations

`repair_flattened_dict_configs` looks for rows whose keys are those of dictionaries with more behind
a dot, and puts their values back into the dictionaries. The rows that it has put back are deleted
in the end. -/

namespace OpenLaunch.Config

open Python Json

/-! ## Tables -/

/-- A row of `config`, without its key. -/
structure Row where
  value : Json
  updated_at : Option ℤ
  deriving DecidableEq

/-- The rows, by their keys. -/
abbrev Table := Dict String Row

/-- `Config.key.like(f'{key_prefix}.%')`: the database finds every row whose key begins with the
prefix and a dot, in any order, and may find more, where an underscore or the case of letters makes
no difference to it. -/
structure Like where
  select : String → List (String × Row) → List (String × Row)
  subset ( key_prefix : String) (rows : List (String × Row)) : select key_prefix rows ⊆ rows
  complete ( key_prefix : String) (rows : List (String × Row)) :
    ∀ e ∈ rows, key_prefix.toList ++ ['.'] <+: e.1.toList → e ∈ select key_prefix rows

/-- `API_CONFIG_KEYS`. -/
def API_CONFIG_KEYS : List String :=
  ["openai.api_configs", "anthropic.api_configs", "ollama.api_configs"]

/-- `DICT_CONFIG_KEY_ALIASES`. -/
def DICT_CONFIG_KEY_ALIASES : List (String × List String) :=
  [("openai.api_configs", ["OPENAI_API_CONFIGS"]),
    ("anthropic.api_configs", ["ANTHROPIC_API_CONFIGS"]),
    ("ollama.api_configs", ["OLLAMA_API_CONFIGS"]),
    ("rag.mineru_params", ["MINERU_PARAMS"]),
    ("rag.docling_params", ["DOCLING_PARAMS"]),
    ("web.search.linkup_search_params", ["LINKUP_SEARCH_PARAMS"]),
    ("image_generation.automatic1111.api_params", ["AUTOMATIC1111_PARAMS"]),
    ("image_generation.openai.params", ["IMAGES_OPENAI_API_PARAMS"]),
    ("audio.tts.openai.params", ["AUDIO_TTS_OPENAI_PARAMS"]),
    ("models.default_metadata", ["DEFAULT_MODEL_METADATA"]),
    ("models.default_params", ["DEFAULT_MODEL_PARAMS"]),
    ("user.permissions", ["USER_PERMISSIONS"])]

/-! ## The repair -/

/-- What is behind the first of the prefixes that the key begins with. -/
def fragmentOf (prefixes : List String) (key : String) : Option (List Char) :=
  prefixes.findSome? fun key_prefix =>
    if key_prefix.toList ++ ['.'] <+: key.toList then
      some (key.toList.drop (String.length key_prefix + 1))
    else none

/-- Where a row is put: at a connection and its fields, or at the fields alone. -/
def placeOf (digit : Char → Bool) (config_key : String) (fragment : List Char) :
    Option (List String) :=
  if config_key ∈ API_CONFIG_KEYS then
    (_split_api_config_fragment digit fragment).map fun split => split.1 :: split.2
  else some (splitDots fragment)

/-- The connection is there and no dictionary. -/
def blocked (config_key : String) (repaired : List (String × Json)) (path : List String) : Bool :=
  config_key ∈ API_CONFIG_KEYS ∧ ((path.head?.bind (Assoc.get? repaired)).bind leaf?).isSome

/-- The variables of the loop over the rows. -/
structure Repair where
  repaired : List (String × Json)
  orphan_keys : List String

/-- The body of the loop over the rows. -/
def repairRow (digit : Char → Bool) (config_key : String) (prefixes : List String) (st : Repair)
    (row : String × Row) : Repair :=
  match (fragmentOf prefixes row.1).bind (placeOf digit config_key) with
  | none => st
  | some path =>
    if blocked config_key st.repaired path then st
    else ⟨assignPath path st.repaired row.2.value, st.orphan_keys ++ [row.1]⟩

/-- The dictionary that is repaired: the one that is stored, or a new one. -/
def start (existing : Option Row) : List (String × Json) :=
  match existing.map Row.value with
  | some (.dict kvs) => kvs
  | _ => []

/-- What is stored after `existing.value = repaired`. A dictionary that was stored has been changed
in place: it is the object that was loaded, so that no change is found and nothing written. -/
def saved (existing : Option Row) (repaired : List (String × Json)) : Json :=
  match existing.map Row.value with
  | some (.dict kvs) => .dict kvs
  | _ => .dict repaired

/-- The body of the loop over the keys of dictionaries: the table, and the keys of the rows that
have been put back. -/
def repairKey (like : Like) (digit : Char → Bool) (now : ℤ) (T : Table)
    (entry : String × List String) : Table × List String :=
  let (config_key, aliases) := entry
  let prefixes := config_key :: aliases
  let rows := prefixes.flatMap fun key_prefix => like.select key_prefix T.entries
  let existing := T.get? config_key
  let st := rows.foldl (repairRow digit config_key prefixes) ⟨start existing, []⟩
  if st.orphan_keys = [] then (T, [])
  else (T.set config_key ⟨saved existing st.repaired, some now⟩, st.orphan_keys)

/-- The loop over the keys of dictionaries. -/
def repairKeys (like : Like) (digit : Char → Bool) (now : ℤ) :
    Table × List String → List (String × List String) → Table × List String :=
  List.foldl fun (T, orphan_keys) entry =>
    ((repairKey like digit now T entry).1, orphan_keys ++ (repairKey like digit now T entry).2)

/-- `repair_flattened_dict_configs`. -/
def repair_flattened_dict_configs (like : Like) (digit : Char → Bool) (PERSISTENT_ENABLED : Bool)
    (now : ℤ) (T : Table) : Table :=
  if PERSISTENT_ENABLED then
    let (T, orphan_keys) := repairKeys like digit now (T, []) DICT_CONFIG_KEY_ALIASES
    T.filter fun key _ => key ∉ orphan_keys
  else T

end OpenLaunch.Config

/-! ## What the repair keeps of a flattened configuration

A configuration that was flattened is rebuilt exactly where all its paths can be told from their
fragments, none of its dictionaries is empty, and no dictionary is stored under its key. What was
not flattened stays, and a second repair changes nothing. -/

namespace OpenLaunch.Config

open Python Json

/-! ## Rows that are put back -/

section

variable {digit : Char → Bool} {config_key key : String} {prefixes : List String}
  {d : List (String × Json)} {path path' : List String} {v : Json} {row : String × Row}
  {rows : List (String × Row)}

/-- The row is one of a flattened dictionary. -/
def Under (prefixes : List String) (key : String) : Prop :=
  ∃ key_prefix ∈ prefixes, key_prefix.toList ++ ['.'] <+: key.toList

theorem under_iff : Under prefixes key ↔ ∃ fragment, fragmentOf prefixes key = some fragment := by
  rw [← Option.isSome_iff_exists, fragmentOf, List.findSome?_isSome_iff]
  refine exists_congr fun key_prefix => and_congr_right fun _ => ?_
  split_ifs with h
  · simp [h]
  · simp [h]

/-- Where the row is put, if it can be told. -/
def placed (digit : Char → Bool) (config_key : String) (prefixes : List String) (key : String) :
    Option (List String) :=
  (fragmentOf prefixes key).bind (placeOf digit config_key)

/-- The rows that are put back into a dictionary, with their places. -/
def moved (digit : Char → Bool) (config_key : String) (prefixes : List String)
    (d : List (String × Json)) (rows : List (String × Row)) :
    List (List String × (String × Row)) :=
  rows.filterMap fun row => (placed digit config_key prefixes row.1).bind fun path =>
    if blocked config_key d path then none else some (path, row)

theorem mem_moved {e : List String × (String × Row)} :
    e ∈ moved digit config_key prefixes d rows ↔ e.2 ∈ rows ∧
      placed digit config_key prefixes e.2.1 = some e.1 ∧ blocked config_key d e.1 = false := by
  rw [moved, List.mem_filterMap]
  simp only [Option.bind_eq_some_iff, Option.ite_none_left_eq_some, Option.some.injEq]
  constructor
  · rintro ⟨row, hrow, path, hplaced, hfree, rfl⟩
    exact ⟨hrow, hplaced, Bool.eq_false_iff.mpr hfree⟩
  · rintro ⟨hrow, hplaced, hfree⟩
    exact ⟨e.2, hrow, e.1, hplaced, Bool.eq_false_iff.mp hfree, rfl⟩

theorem moved_cons : moved digit config_key prefixes d (row :: rows) =
    ((placed digit config_key prefixes row.1).bind fun path =>
      if blocked config_key d path then none else some (path, row)).toList ++
        moved digit config_key prefixes d rows := by
  rw [moved, List.filterMap_cons]
  cases (placed digit config_key prefixes row.1).bind fun path =>
    if blocked config_key d path then none else some (path, row) <;> rfl

/-- In an empty dictionary nothing is in the way. -/
theorem not_blocked_nil : ¬ blocked config_key [] path = true := by
  cases path <;> simp [blocked]

/-- What is put back blocks and frees no other place. -/
theorem blocked_assignPath (hplaced : placed digit config_key prefixes key = some path)
    (hfree : blocked config_key d path = false) (path' : List String) (v : Json) :
    blocked config_key (assignPath path d v) path' = blocked config_key d path' := by
  by_cases hapi : config_key ∈ API_CONFIG_KEYS
  · obtain ⟨fragment, -, hplace⟩ := Option.bind_eq_some_iff.mp hplaced
    rw [placeOf, if_pos hapi] at hplace
    obtain ⟨⟨k, fields⟩, hsplit, rfl⟩ := Option.map_eq_some_iff.mp hplace
    obtain ⟨f, fs, rfl⟩ := List.exists_cons_of_ne_nil (joinDots_of_split hsplit).2.1
    cases path' with
    | nil => simp [blocked]
    | cons k' path' =>
      simp only [blocked, hapi, true_and, List.head?_cons, Option.bind_some] at hfree ⊢
      by_cases hk : k' = k
      · subst hk
        rw [hfree, assignPath_cons, Assoc.get?_set_self]
        rfl
      · rw [assignPath_cons, Assoc.get?_set_ne _ hk]
  · simp [blocked, hapi]

theorem repairRow_eq (st : Repair) : repairRow digit config_key prefixes st row =
    match placed digit config_key prefixes row.1 with
    | none => st
    | some path =>
      if blocked config_key st.repaired path then st
      else ⟨assignPath path st.repaired row.2.value, st.orphan_keys ++ [row.1]⟩ := rfl

/-- **The loop over the rows** puts back the rows that can be, one after the other. -/
theorem foldl_repairRow (rows : List (String × Row)) (st : Repair) :
    rows.foldl (repairRow digit config_key prefixes) st =
      ⟨assignAll st.repaired ((moved digit config_key prefixes st.repaired rows).map fun e =>
          (e.1, e.2.2.value)),
        st.orphan_keys ++ (moved digit config_key prefixes st.repaired rows).map fun e => e.2.1⟩ := by
  induction rows generalizing st with
  | nil => exact congrArg (Repair.mk st.repaired) (List.append_nil _).symm
  | cons row rows ih =>
    rw [List.foldl_cons, ih]
    cases hplaced : placed digit config_key prefixes row.1 with
    | none =>
      have hrow : repairRow digit config_key prefixes st row = st := by
        rw [repairRow_eq, hplaced]
      rw [hrow, moved_cons, hplaced]
      rfl
    | some path =>
      cases hfree : blocked config_key st.repaired path with
      | true =>
        have hrow : repairRow digit config_key prefixes st row = st := by
          rw [repairRow_eq, hplaced]
          exact if_pos hfree
        rw [hrow, moved_cons, hplaced, Option.bind_some, if_pos hfree]
        rfl
      | false =>
        have hrow : repairRow digit config_key prefixes st row =
            ⟨assignPath path st.repaired row.2.value, st.orphan_keys ++ [row.1]⟩ := by
          rw [repairRow_eq, hplaced]
          exact if_neg (Bool.eq_false_iff.mp hfree)
        have hrest : moved digit config_key prefixes (assignPath path st.repaired row.2.value) rows =
            moved digit config_key prefixes st.repaired rows :=
          List.filterMap_congr fun x _ => by
            simp only [blocked_assignPath hplaced hfree]
        rw [hrow, hrest, moved_cons, hplaced, Option.bind_some, if_neg (Bool.eq_false_iff.mp hfree)]
        simp [assignAll]

end

/-! ## One dictionary -/

section

variable {like : Like} {digit : Char → Bool} {now : ℤ} {T T' : Table} {config_key key : String}
  {aliases : List String} {row : Row}

/-- The rows that the loop looks at. -/
def found (like : Like) (T : Table) (prefixes : List String) : List (String × Row) :=
  prefixes.flatMap fun key_prefix => like.select key_prefix T.entries

theorem mem_found_of_under {prefixes : List String} (hunder : Under prefixes key)
    (hrow : T.get? key = some row) : (key, row) ∈ found like T prefixes := by
  obtain ⟨ key_prefix, hmem, hpre⟩ := hunder
  refine List.mem_flatMap.mpr ⟨ key_prefix, hmem, ?_⟩
  exact like.complete key_prefix _ _ (Dict.mem_entries_iff.mpr hrow) hpre

theorem get?_of_mem_found {prefixes : List String} {e : String × Row}
    (h : e ∈ found like T prefixes) : T.get? e.1 = some e.2 := by
  obtain ⟨ key_prefix, -, hselect⟩ := List.mem_flatMap.mp h
  exact Dict.mem_entries_iff.mp (like.subset key_prefix _ hselect)

/-- The rows that are put back into the dictionary of a table. -/
def movedIn (like : Like) (digit : Char → Bool) (T : Table) (config_key : String)
    (aliases : List String) : List (List String × (String × Row)) :=
  moved digit config_key (config_key :: aliases) (start (T.get? config_key))
    (found like T (config_key :: aliases))

/-- The dictionary that they make. -/
def rebuilt (like : Like) (digit : Char → Bool) (T : Table) (config_key : String)
    (aliases : List String) : List (String × Json) :=
  assignAll (start (T.get? config_key))
    ((movedIn like digit T config_key aliases).map fun e => (e.1, e.2.2.value))

/-- **The body of the loop over the keys.** -/
theorem repairKey_eq : repairKey like digit now T (config_key, aliases) =
    if movedIn like digit T config_key aliases = [] then (T, [])
    else (T.set config_key
        ⟨saved (T.get? config_key) (rebuilt like digit T config_key aliases), some now⟩,
      (movedIn like digit T config_key aliases).map fun e => e.2.1) := by
  have hst : (found like T (config_key :: aliases)).foldl (repairRow digit config_key
      (config_key :: aliases)) ⟨start (T.get? config_key), []⟩ =
      ⟨rebuilt like digit T config_key aliases,
        (movedIn like digit T config_key aliases).map fun e => e.2.1⟩ := by
    rw [foldl_repairRow]
    exact congrArg (Repair.mk _) (List.nil_append _)
  have hbody : repairKey like digit now T (config_key, aliases) =
      (fun st : Repair => if st.orphan_keys = [] then (T, [])
        else (T.set config_key ⟨saved (T.get? config_key) st.repaired, some now⟩, st.orphan_keys))
      ((found like T (config_key :: aliases)).foldl (repairRow digit config_key
        (config_key :: aliases)) ⟨start (T.get? config_key), []⟩) := rfl
  rw [hbody, hst]
  by_cases hnone : movedIn like digit T config_key aliases = []
  · rw [if_pos hnone]
    exact if_pos (List.map_eq_nil_iff.mpr hnone)
  · rw [if_neg hnone]
    exact if_neg fun h => hnone (List.map_eq_nil_iff.mp h)

/-- Rows that are put back are rows of the dictionary. -/
theorem mem_movedIn {e : List String × (String × Row)}
    (h : e ∈ movedIn like digit T config_key aliases) :
    T.get? e.2.1 = some e.2.2 ∧ Under (config_key :: aliases) e.2.1 ∧
      placed digit config_key (config_key :: aliases) e.2.1 = some e.1 := by
  obtain ⟨hfound, hplaced, -⟩ := mem_moved.mp h
  obtain ⟨fragment, hfragment, -⟩ := Option.bind_eq_some_iff.mp hplaced
  exact ⟨get?_of_mem_found hfound, under_iff.mpr ⟨fragment, hfragment⟩, hplaced⟩

/-- Another key keeps its row. -/
theorem get?_repairKey (hkey : key ≠ config_key) :
    (repairKey like digit now T (config_key, aliases)).1.get? key = T.get? key := by
  rw [repairKey_eq]
  split_ifs
  · rfl
  · exact Dict.get?_set_ne _ hkey _

/-- Only rows of the dictionary are deleted. -/
theorem under_of_mem_repairKey
    (h : key ∈ (repairKey like digit now T (config_key, aliases)).2) :
    Under (config_key :: aliases) key := by
  rw [repairKey_eq] at h
  split_ifs at h
  · cases h
  · obtain ⟨e, he, rfl⟩ := List.mem_map.mp h
    exact (mem_movedIn he).2.1

end

/-! ## All dictionaries -/

/-- No row of the one is a row or the dictionary of the other. -/
def Apart (entry entry' : String × List String) : Prop :=
  entry.1 ≠ entry'.1 ∧ ∀ key_prefix ∈ entry.1 :: entry.2, ∀ key_prefix' ∈ entry'.1 :: entry'.2,
    ¬ key_prefix.toList ++ ['.'] <+: key_prefix'.toList ++ ['.']

instance (entry entry' : String × List String) : Decidable (Apart entry entry') :=
  inferInstanceAs (Decidable (_ ∧ _))

theorem apart_aliases : ∀ entry ∈ DICT_CONFIG_KEY_ALIASES, ∀ entry' ∈ DICT_CONFIG_KEY_ALIASES,
    entry ≠ entry' → Apart entry entry' := by
  decide +kernel

theorem not_under_self : ∀ entry ∈ DICT_CONFIG_KEY_ALIASES,
    fragmentOf (entry.1 :: entry.2) entry.1 = none := by
  decide

section

variable {like : Like} {digit : Char → Bool} {now : ℤ} {T T' : Table} {key : String}
  {entry entry' : String × List String} {entries : List (String × List String)}
  {orphan_keys : List String}

theorem Apart.not_under (h : Apart entry entry') (hkey : Under (entry'.1 :: entry'.2) key)
    (h' : Apart entry' entry) : ¬ Under (entry.1 :: entry.2) key := by
  rintro ⟨p, hp, hpre⟩
  obtain ⟨q, hq, hpre'⟩ := hkey
  rcases List.prefix_or_prefix_of_prefix hpre hpre' with hsame | hsame
  · exact h.2 p hp q hq hsame
  · exact h'.2 q hq p hp hsame

theorem Apart.not_under_key (h : Apart entry entry') : ¬ Under (entry.1 :: entry.2) entry'.1 := by
  rintro ⟨p, hp, hpre⟩
  exact h.2 p hp entry'.1 (List.mem_cons_self ..) (hpre.trans (List.prefix_append _ _))

theorem get?_filter_keys (T : Table) (keys : List String) (key : String) :
    (T.filter fun key _ => key ∉ keys).get? key = if key ∈ keys then none else T.get? key := by
  rw [Dict.get?_filter]
  cases T.get? key <;> by_cases hkey : key ∈ keys <;> simp [hkey]

theorem filter_keys_nil (T : Table) : (T.filter fun key _ => key ∉ ([] : List String)) = T := by
  obtain ⟨rows, hrows⟩ := T
  have hall : rows.filter (fun e => e.1 ∉ ([] : List String)) = rows :=
    List.filter_eq_self.mpr fun e _ => decide_eq_true List.not_mem_nil
  simp only [Dict.filter, hall]

/-- The tables have the same dictionary under the key, and the same rows of it. -/
structure SameFor (entry : String × List String) (T T' : Table) : Prop where
  dictionary : T'.get? entry.1 = T.get? entry.1
  rows : ∀ key, Under (entry.1 :: entry.2) key → T'.get? key = T.get? key

/-- **The loop for other dictionaries** does not touch a dictionary and its rows. -/
theorem repairKeys_apart (like : Like) (digit : Char → Bool) (now : ℤ)
    (hapart : ∀ entry' ∈ entries, Apart entry entry' ∧ Apart entry' entry) (T : Table)
    (orphan_keys : List String) :
    SameFor entry T (repairKeys like digit now (T, orphan_keys) entries).1 ∧
      ∃ more, (repairKeys like digit now (T, orphan_keys) entries).2 = orphan_keys ++ more ∧
        ∀ key ∈ more, ¬ Under (entry.1 :: entry.2) key ∧ key ≠ entry.1 := by
  induction entries generalizing T orphan_keys with
  | nil => exact ⟨⟨rfl, fun _ _ => rfl⟩, [], (List.append_nil _).symm, List.forall_mem_nil _⟩
  | cons entry' entries ih =>
    obtain ⟨⟨hab, hba⟩, hrest⟩ := List.forall_mem_cons.mp hapart
    obtain ⟨hsame, more, hmore, hnot⟩ := ih hrest (repairKey like digit now T entry').1
      (orphan_keys ++ (repairKey like digit now T entry').2)
    refine ⟨⟨?_, fun key hkey => ?_⟩, (repairKey like digit now T entry').2 ++ more, ?_, ?_⟩
    · exact hsame.dictionary.trans (get?_repairKey hab.1)
    · refine (hsame.rows key hkey).trans (get?_repairKey ?_)
      rintro rfl
      exact hab.not_under_key hkey
    · exact hmore.trans (List.append_assoc ..)
    · intro key hkey
      rcases List.mem_append.mp hkey with hkey | hkey
      · have hunder := under_of_mem_repairKey hkey
        refine ⟨hab.not_under hunder hba, ?_⟩
        rintro rfl
        exact hba.not_under_key hunder
      · exact hnot key hkey

/-- **What the repair makes of one dictionary and its rows** is what one pass of its loop makes of
them. -/
theorem exists_repairKey (like : Like) (digit : Char → Bool) (now : ℤ) (T : Table)
    (hentry : entry ∈ DICT_CONFIG_KEY_ALIASES) :
    ∃ T₁, SameFor entry T T₁ ∧
      (repair_flattened_dict_configs like digit true now T).get? entry.1 =
        (repairKey like digit now T₁ entry).1.get? entry.1 ∧
      ∀ key, Under (entry.1 :: entry.2) key →
        (repair_flattened_dict_configs like digit true now T).get? key =
          if key ∈ (repairKey like digit now T₁ entry).2 then none else T.get? key := by
  have hnodup : DICT_CONFIG_KEY_ALIASES.Nodup := by decide
  obtain ⟨front, back, hsplit⟩ := List.append_of_mem hentry
  have hapart : ∀ entry' ∈ front ++ back, Apart entry entry' ∧ Apart entry' entry := by
    intro entry' hmem
    have hmem' : entry' ∈ DICT_CONFIG_KEY_ALIASES := by
      rw [hsplit]
      simp only [List.mem_append, List.mem_cons] at hmem ⊢
      tauto
    have hne : entry ≠ entry' := by
      rintro rfl
      rw [hsplit, List.nodup_middle] at hnodup
      exact (List.nodup_cons.mp hnodup).1 hmem
    exact ⟨apart_aliases entry hentry entry' hmem' hne,
      apart_aliases entry' hmem' entry hentry hne.symm⟩
  obtain ⟨hfront, more, hmore, hmorenot⟩ := repairKeys_apart like digit now
    (fun entry' h => hapart entry' (List.mem_append_left _ h)) T []
  set T₁ := (repairKeys like digit now (T, []) front).1
  set r := repairKey like digit now T₁ entry
  obtain ⟨hback, more', hmore', hmorenot'⟩ := repairKeys_apart like digit now
    (fun entry' h => hapart entry' (List.mem_append_right _ h)) r.1
    ((repairKeys like digit now (T, []) front).2 ++ r.2)
  have hwhole : repairKeys like digit now (T, []) DICT_CONFIG_KEY_ALIASES =
      repairKeys like digit now (r.1, (repairKeys like digit now (T, []) front).2 ++ r.2) back := by
    rw [hsplit, repairKeys, List.foldl_append]
    rfl
  have hfinal (key : String) : (repair_flattened_dict_configs like digit true now T).get? key =
      if key ∈ more ++ r.2 ++ more' then none
      else (repairKeys like digit now (r.1, (repairKeys like digit now (T, []) front).2 ++ r.2)
        back).1.get? key := by
    rw [repair_flattened_dict_configs, if_pos rfl, hwhole]
    dsimp only
    rw [get?_filter_keys, hmore', hmore, List.nil_append]
  have hself : ¬ Under (entry.1 :: entry.2) entry.1 := by
    rw [under_iff, not_under_self entry hentry]
    nofun
  refine ⟨T₁, hfront, ?_, fun key hkey => ?_⟩
  · rw [hfinal, if_neg, hback.dictionary]
    simp only [List.mem_append]
    rintro ((h | h) | h)
    · exact (hmorenot _ h).2 rfl
    · exact hself (under_of_mem_repairKey h)
    · exact (hmorenot' _ h).2 rfl
  · have hne : key ≠ entry.1 := by
      rintro rfl
      exact hself hkey
    rw [hfinal, hback.rows key hkey, get?_repairKey hne, hfront.rows key hkey]
    have hmem : key ∈ more ++ r.2 ++ more' ↔ key ∈ r.2 := by
      simp only [List.mem_append]
      constructor
      · rintro ((h | h) | h)
        · exact absurd hkey (hmorenot key h).1
        · exact h
        · exact absurd hkey (hmorenot' key h).1
      · exact fun h => .inl (.inr h)
    simp only [hmem]
    rfl

/-- A row that has a place, and nothing in its way, is put back. -/
theorem mem_movedIn_of_placed {T : Table} {path : List String} {row : Row}
    (hrow : T.get? key = some row)
    (hplaced : placed digit entry.1 (entry.1 :: entry.2) key = some path)
    (hfree : blocked entry.1 (start (T.get? entry.1)) path = false) :
    (path, (key, row)) ∈ movedIn like digit T entry.1 entry.2 := by
  obtain ⟨fragment, hfragment, -⟩ := Option.bind_eq_some_iff.mp hplaced
  exact mem_moved.mpr
    ⟨mem_found_of_under (under_iff.mpr ⟨fragment, hfragment⟩) hrow, hplaced, hfree⟩

/-- The key of a row that is put back. -/
theorem mem_repairKey {T : Table} {path : List String} {row : Row} (hrow : T.get? key = some row)
    (hplaced : placed digit entry.1 (entry.1 :: entry.2) key = some path)
    (hfree : blocked entry.1 (start (T.get? entry.1)) path = false) :
    key ∈ (repairKey like digit now T entry).2 := by
  have hmem : (path, (key, row)) ∈ movedIn like digit T entry.1 entry.2 :=
    mem_movedIn_of_placed hrow hplaced hfree
  obtain ⟨config_key, aliases⟩ := entry
  rw [repairKey_eq, if_neg (List.ne_nil_of_mem hmem)]
  exact List.mem_map_of_mem hmem

theorem repairKeys_of_none (h : ∀ entry ∈ entries, repairKey like digit now T entry = (T, []))
    (orphan_keys : List String) :
    repairKeys like digit now (T, orphan_keys) entries = (T, orphan_keys) := by
  induction entries with
  | nil => rfl
  | cons entry entries ih =>
    obtain ⟨hentry, hrest⟩ := List.forall_mem_cons.mp h
    have hcons : repairKeys like digit now (T, orphan_keys) (entry :: entries) =
        repairKeys like digit now ((repairKey like digit now T entry).1,
          orphan_keys ++ (repairKey like digit now T entry).2) entries := rfl
    rw [hcons, hentry, List.append_nil]
    exact ih hrest

theorem repair_disabled (T : Table) :
    repair_flattened_dict_configs like digit false now T = T := by
  rw [repair_flattened_dict_configs, if_neg Bool.false_ne_true]

/-- Where nothing is put back, nothing changes. -/
theorem repair_of_none
    (h : ∀ entry ∈ DICT_CONFIG_KEY_ALIASES, movedIn like digit T entry.1 entry.2 = [])
    (PERSISTENT_ENABLED : Bool) :
    repair_flattened_dict_configs like digit PERSISTENT_ENABLED now T = T := by
  have hnone : ∀ entry ∈ DICT_CONFIG_KEY_ALIASES, repairKey like digit now T entry = (T, []) := by
    intro entry hentry
    obtain ⟨config_key, aliases⟩ := entry
    rw [repairKey_eq, if_pos (h _ hentry)]
  have hkeys := repairKeys_of_none hnone []
  cases PERSISTENT_ENABLED with
  | false => exact repair_disabled T
  | true =>
    rw [repair_flattened_dict_configs, if_pos rfl, hkeys]
    exact filter_keys_nil T

/-- **A configuration that is not flattened is unchanged.** -/
theorem get?_repair_of_not_flattened (hentry : entry ∈ DICT_CONFIG_KEY_ALIASES)
    (hrows : ∀ key row, T.get? key = some row → ¬ Under (entry.1 :: entry.2) key)
    (PERSISTENT_ENABLED : Bool) :
    (repair_flattened_dict_configs like digit PERSISTENT_ENABLED now T).get? entry.1 =
      T.get? entry.1 := by
  cases PERSISTENT_ENABLED with
  | false => rw [repair_disabled]
  | true =>
    obtain ⟨T₁, hsame, hdictionary, -⟩ := exists_repairKey like digit now T hentry
    have hnone : movedIn like digit T₁ entry.1 entry.2 = [] := by
      refine List.eq_nil_iff_forall_not_mem.mpr fun e he => ?_
      obtain ⟨hrow, hunder, -⟩ := mem_movedIn he
      rw [hsame.rows _ hunder] at hrow
      exact hrows _ _ hrow hunder
    obtain ⟨config_key, aliases⟩ := entry
    rw [hdictionary, repairKey_eq, if_pos hnone, hsame.dictionary]

theorem start_eq_or (existing : Option Row) (repaired : List (String × Json)) (updated : Option ℤ) :
    start existing = [] ∨ start (some ⟨saved existing repaired, updated⟩) = start existing := by
  rcases existing with _ | ⟨value, -⟩
  · exact .inl rfl
  · cases value with
    | dict kvs => exact .inr rfl
    | _ => exact .inl rfl

/-- **The repair is idempotent.** -/
theorem repair_repair (like : Like) (digit : Char → Bool) (PERSISTENT_ENABLED : Bool) (now now' : ℤ)
    (T : Table) :
    repair_flattened_dict_configs like digit PERSISTENT_ENABLED now'
        (repair_flattened_dict_configs like digit PERSISTENT_ENABLED now T) =
      repair_flattened_dict_configs like digit PERSISTENT_ENABLED now T := by
  cases PERSISTENT_ENABLED with
  | false => exact repair_disabled _
  | true =>
    suffices hnone : ∀ entry ∈ DICT_CONFIG_KEY_ALIASES, movedIn like digit
        (repair_flattened_dict_configs like digit true now T) entry.1 entry.2 = [] from
      repair_of_none hnone true
    intro entry hentry
    refine List.eq_nil_iff_forall_not_mem.mpr fun e he => ?_
    obtain ⟨hrow, hunder, hplaced⟩ := mem_movedIn he
    have hfree := (mem_moved.mp he).2.2
    obtain ⟨T₁, hsame, hdictionary, hrows⟩ := exists_repairKey like digit now T hentry
    rw [hrows _ hunder] at hrow
    split_ifs at hrow with hdeleted
    rw [← hsame.rows _ hunder] at hrow
    -- the row was not put back by the first repair, because its connection is no dictionary
    have hblocked : blocked entry.1 (start (T₁.get? entry.1)) e.1 = true := by
      rw [← Bool.not_eq_false]
      exact fun hfree₁ => hdeleted (mem_repairKey hrow hplaced hfree₁)
    have hne : start (T₁.get? entry.1) ≠ [] := by
      intro hnil
      rw [hnil] at hblocked
      exact not_blocked_nil hblocked
    -- and is none yet
    have hstart : start ((repairKey like digit now T₁ entry).1.get? entry.1) =
        start (T₁.get? entry.1) := by
      obtain ⟨config_key, aliases⟩ := entry
      rw [repairKey_eq]
      split_ifs
      · rfl
      · rw [Dict.get?_set_self]
        exact (start_eq_or _ _ _).resolve_left hne
    rw [hdictionary, hstart, hblocked] at hfree
    cases hfree

end

/-! ## Configurations of connections -/

section

variable {like : Like} {digit : Char → Bool} {now : ℤ} {T : Table} {entry : String × List String}
  {c : List (String × Json)} {p : List String} {v : Json}

/-- A value of the configuration that is no dictionary. -/
def LeafAt (c : List (String × Json)) (p : List String) (v : Json) : Prop :=
  at? p (.dict c) = some v ∧ leaf? v = some v

/-- **The configuration is flattened**: the rows of the dictionary are those of its values that are
no dictionaries, under fragments that join their paths with dots. -/
structure Flattened (entry : String × List String) (T : Table) (c : List (String × Json)) :
    Prop where
  rows : ∀ key row fragment, T.get? key = some row →
    fragmentOf (entry.1 :: entry.2) key = some fragment →
      ∃ p, LeafAt c p row.value ∧ fragment = joinDots p
  leaves : ∀ p v, LeafAt c p v →
    ∃ key row, T.get? key = some row ∧ fragmentOf (entry.1 :: entry.2) key = some (joinDots p)

/-- The configuration is stored under its key. -/
def Stored (config_key : String) (T : Table) (c : List (String × Json)) : Prop :=
  ∃ row, T.get? config_key = some row ∧ DictEq row.value (.dict c)

/-- **The configuration can be told from its fragments**: every path can, and no dictionary is
empty. -/
structure Distinct (digit : Char → Bool) (c : List (String × Json)) : Prop where
  filled : Filled (.dict c)
  readable : ∀ p v, LeafAt c p v → Readable digit p

theorem LeafAt.ne_nil (h : LeafAt c p v) : p ≠ [] := by
  rintro rfl
  cases h.1
  cases h.2

theorem Flattened.same {T₁ : Table} (h : Flattened entry T c) (hsame : SameFor entry T T₁) :
    Flattened entry T₁ c := by
  have hrow {key : String} {row : Row} {fragment : List Char}
      (hfragment : fragmentOf (entry.1 :: entry.2) key = some fragment) :
      T₁.get? key = some row ↔ T.get? key = some row := by
    rw [hsame.rows key (under_iff.mpr ⟨fragment, hfragment⟩)]
  refine ⟨fun key row fragment hget hfragment => ?_, fun p v hleaf => ?_⟩
  · exact h.rows key row fragment ((hrow hfragment).mp hget) hfragment
  · obtain ⟨key, row, hget, hfragment⟩ := h.leaves p v hleaf
    exact ⟨key, row, (hrow hfragment).mpr hget, hfragment⟩

/-- What is built from leaves, one at least, has no empty dictionary. -/
theorem filled_assignAll {leaves : List (List String × Json)} (hleaves : Leaves leaves)
    (hne : leaves ≠ []) : Filled (.dict (assignAll [] leaves)) := by
  obtain ⟨e, leaves, rfl⟩ := List.exists_cons_of_ne_nil hne
  obtain ⟨he, hrest⟩ := List.forall_mem_cons.mp hleaves
  obtain ⟨k, r, hk⟩ := List.exists_cons_of_ne_nil he.1
  intro q kvs hq
  refine ne_nil_assignAll hrest (fun kvs hkvs => ?_) hq
  cases q with
  | nil =>
    obtain ⟨kvs', hdict, hfull⟩ := at?_assignPath_above [] k r [] (v := e.2)
    rw [List.nil_append, ← hk] at hdict
    cases hdict.symm.trans hkvs
    exact hfull
  | cons k' q =>
    refine ne_nil_assignPath he.1 he.2 (fun kvs hnone => ?_) hkvs
    cases hnone

/-- What is put back: leaves of the configuration, at the places that are guessed for them. -/
theorem exists_leaf_of_movedIn (hapi : entry.1 ∈ API_CONFIG_KEYS) (hflat : Flattened entry T c)
    {e : List String × (String × Row)} (he : e ∈ movedIn like digit T entry.1 entry.2) :
    ∃ p connection fields, LeafAt c p e.2.2.value ∧ e.1 = connection :: fields ∧
      _split_api_config_fragment digit (joinDots p) = some (connection, fields) := by
  obtain ⟨hrow, -, hplaced⟩ := mem_movedIn he
  obtain ⟨fragment, hfragment, hplace⟩ := Option.bind_eq_some_iff.mp hplaced
  obtain ⟨p, hleaf, rfl⟩ := hflat.rows _ _ _ hrow hfragment
  rw [placeOf, if_pos hapi] at hplace
  obtain ⟨⟨connection, fields⟩, hsplit, hpath⟩ := Option.map_eq_some_iff.mp hplace
  exact ⟨p, connection, fields, hleaf, hpath.symm, hsplit⟩

/-- A leaf whose path can be told is put back at its path. -/
theorem mem_movedIn_of_readable (hapi : entry.1 ∈ API_CONFIG_KEYS) (hflat : Flattened entry T c)
    (hstart : start (T.get? entry.1) = []) (hleaf : LeafAt c p v) (hread : Readable digit p) :
    ∃ e ∈ movedIn like digit T entry.1 entry.2, e.1 = p := by
  obtain ⟨key, row, hrow, hfragment⟩ := hflat.leaves p v hleaf
  obtain ⟨connection, fields, rfl⟩ := List.exists_cons_of_ne_nil hleaf.ne_nil
  have hplaced : placed digit entry.1 (entry.1 :: entry.2) key = some (connection :: fields) := by
    rw [placed, hfragment, Option.bind_some, placeOf, if_pos hapi,
      (split_joinDots_iff digit connection fields).mpr hread]
    rfl
  refine ⟨_, mem_movedIn_of_placed hrow hplaced ?_, rfl⟩
  rw [hstart]
  exact Bool.eq_false_iff.mpr not_blocked_nil

/-- **One dictionary is rebuilt where its configuration can be told from the fragments.** -/
theorem dictEq_rebuilt_iff (hapi : entry.1 ∈ API_CONFIG_KEYS) (hflat : Flattened entry T c)
    (hstart : start (T.get? entry.1) = []) :
    movedIn like digit T entry.1 entry.2 ≠ [] ∧
        DictEq (.dict (rebuilt like digit T entry.1 entry.2)) (.dict c) ↔ Distinct digit c := by
  set leaves := (movedIn like digit T entry.1 entry.2).map fun e => (e.1, e.2.2.value) with hdef
  have hrebuilt : rebuilt like digit T entry.1 entry.2 = assignAll [] leaves := by
    rw [rebuilt, hstart]
  have hleaves : Leaves leaves := by
    intro x hx
    obtain ⟨e, he, rfl⟩ := List.mem_map.mp hx
    obtain ⟨p, connection, fields, hleaf, hpath, -⟩ := exists_leaf_of_movedIn hapi hflat he
    exact ⟨hpath ▸ List.cons_ne_nil connection fields, hleaf.2⟩
  rw [hrebuilt]
  constructor
  · rintro ⟨hne, heq⟩
    refine ⟨heq.filled (filled_assignAll hleaves fun h => hne (List.map_eq_nil_iff.mp h)), ?_⟩
    intro p v hleaf
    rcases leaf_assignAll hleaves hleaf.2 (heq.symm.leaf hleaf.1 hleaf.2) with hmem | hnone
    · obtain ⟨e, he, hpv⟩ := List.mem_map.mp hmem
      obtain ⟨q, connection, fields, -, hpath, hsplit⟩ := exists_leaf_of_movedIn hapi hflat he
      have hp : p = connection :: fields := (Prod.mk.inj hpv).1.symm.trans hpath
      rw [← (joinDots_of_split hsplit).1] at hsplit
      rw [hp]
      exact (split_joinDots_iff digit connection fields).mp hsplit
    · obtain ⟨k, q, rfl⟩ := List.exists_cons_of_ne_nil hleaf.ne_nil
      cases hnone
  · rintro ⟨hfilled, hread⟩
    have hat : ∀ x ∈ leaves, at? x.1 (.dict c) = some x.2 := by
      intro x hx
      obtain ⟨e, he, rfl⟩ := List.mem_map.mp hx
      obtain ⟨p, connection, fields, hleaf, hpath, hsplit⟩ := exists_leaf_of_movedIn hapi hflat he
      obtain ⟨k, q, rfl⟩ := List.exists_cons_of_ne_nil hleaf.ne_nil
      rw [(split_joinDots_iff digit k q).mpr (hread _ _ hleaf)] at hsplit
      cases hsplit
      exact hpath ▸ hleaf.1
    have hnil : PartOf (.dict []) (.dict c) := by
      intro p w hw
      cases p with
      | nil =>
        cases hw
        rfl
      | cons k p => cases hw
    obtain ⟨hpart, -, hall⟩ := partOf_assignAll hleaves hat hnil
    refine ⟨?_, hpart.dictEq hfilled fun p v hp hv => ?_⟩
    · obtain ⟨p, v, hp, hv⟩ := hfilled.exists_leaf
      have hmoved : ∃ e ∈ movedIn like digit T entry.1 entry.2, e.1 = p :=
        mem_movedIn_of_readable hapi hflat hstart ⟨hp, hv⟩ (hread p v ⟨hp, hv⟩)
      obtain ⟨e, he, -⟩ := hmoved
      exact List.ne_nil_of_mem he
    · have hmoved : ∃ e ∈ movedIn like digit T entry.1 entry.2, e.1 = p :=
        mem_movedIn_of_readable hapi hflat hstart ⟨hp, hv⟩ (hread p v ⟨hp, hv⟩)
      obtain ⟨e, he, rfl⟩ := hmoved
      rw [hall (e.1, e.2.2.value) (List.mem_map_of_mem he)]
      rfl

/-- A configuration that is stored is a dictionary. -/
theorem Stored.exists_dict {config_key : String} (h : Stored config_key T c) :
    ∃ row kvs, T.get? config_key = some row ∧ row.value = .dict kvs := by
  obtain ⟨row, hrow, heq⟩ := h
  obtain ⟨kvs, hkvs⟩ := heq.symm.dict (at?_nil (.dict c))
  rw [at?_nil] at hkvs
  exact ⟨row, kvs, hrow, Option.some.inj hkvs⟩

/-- A dictionary that is stored stays as it is. -/
theorem stored_repairKey_of_dict {row : Row} {kvs : List (String × Json)}
    (hrow : T.get? entry.1 = some row) (hdict : row.value = .dict kvs) :
    Stored entry.1 (repairKey like digit now T entry).1 c ↔ Stored entry.1 T c := by
  obtain ⟨config_key, aliases⟩ := entry
  rw [repairKey_eq]
  split_ifs
  · exact Iff.rfl
  · have hsaved (repaired : List (String × Json)) : saved (some row) repaired = row.value := by
      rw [saved, Option.map_some, hdict]
    simp only [Stored, Dict.get?_set_self, Option.some.injEq, exists_eq_left', hsaved, hrow]

/-- Where no dictionary is stored, the one that is rebuilt is. -/
theorem stored_repairKey_of_start
    (hnone : ∀ row kvs, T.get? entry.1 = some row → row.value ≠ .dict kvs) :
    Stored entry.1 (repairKey like digit now T entry).1 c ↔
      movedIn like digit T entry.1 entry.2 ≠ [] ∧
        DictEq (.dict (rebuilt like digit T entry.1 entry.2)) (.dict c) := by
  obtain ⟨config_key, aliases⟩ := entry
  rw [repairKey_eq]
  split_ifs with hmoved
  · refine iff_of_false (fun h => ?_) fun h => h.1 hmoved
    obtain ⟨row, kvs, hrow, hdict⟩ := h.exists_dict
    exact hnone row kvs hrow hdict
  · have hsaved (repaired : List (String × Json)) : saved (T.get? config_key) repaired =
        .dict repaired := by
      cases hrow : T.get? config_key with
      | none => rfl
      | some row =>
        rw [saved, Option.map_some]
        split
        · rename_i kvs hdict
          exact absurd (Option.some.inj hdict) (hnone row kvs hrow)
        · rfl
    simp only [Stored, Dict.get?_set_self, Option.some.injEq, exists_eq_left', hsaved, ne_eq, hmoved,
      not_false_eq_true, true_and]

theorem start_eq_nil {existing : Option Row}
    (hnone : ∀ row kvs, existing = some row → row.value ≠ .dict kvs) : start existing = [] := by
  cases existing with
  | none => rfl
  | some row =>
    rw [start, Option.map_some]
    split
    · rename_i kvs hdict
      exact absurd (Option.some.inj hdict) (hnone row kvs rfl)
    · rfl

end

/-! ## Main result -/

/-- **What the repair keeps.** A flattened configuration of API connections is stored afterwards
exactly if it was stored before, or if the configuration is persistent, no dictionary is stored
under its key, and it can be told from its fragments. Dictionaries without flattened rows are
unchanged, and a second repair changes nothing. -/
theorem repair_lossless (like : Like) (digit : Char → Bool) (PERSISTENT_ENABLED : Bool) (now : ℤ)
    (T : Table) :
    (∀ entry ∈ DICT_CONFIG_KEY_ALIASES, entry.1 ∈ API_CONFIG_KEYS → ∀ c, Flattened entry T c →
      (Stored entry.1 (repair_flattened_dict_configs like digit PERSISTENT_ENABLED now T) c ↔
        Stored entry.1 T c ∨ PERSISTENT_ENABLED = true ∧
          (∀ row kvs, T.get? entry.1 = some row → row.value ≠ .dict kvs) ∧ Distinct digit c)) ∧
    (∀ entry ∈ DICT_CONFIG_KEY_ALIASES,
      (∀ key row, T.get? key = some row → ¬ Under (entry.1 :: entry.2) key) →
        (repair_flattened_dict_configs like digit PERSISTENT_ENABLED now T).get? entry.1 =
          T.get? entry.1) ∧
    ∀ now', repair_flattened_dict_configs like digit PERSISTENT_ENABLED now'
        (repair_flattened_dict_configs like digit PERSISTENT_ENABLED now T) =
      repair_flattened_dict_configs like digit PERSISTENT_ENABLED now T := by
  refine ⟨fun entry hentry hapi c hflat => ?_, fun entry hentry hrows =>
    get?_repair_of_not_flattened hentry hrows PERSISTENT_ENABLED, fun now' =>
    repair_repair like digit PERSISTENT_ENABLED now now' T⟩
  cases PERSISTENT_ENABLED with
  | false =>
    rw [repair_disabled]
    simp
  | true =>
    obtain ⟨T₁, hsame, hdictionary, -⟩ := exists_repairKey like digit now T hentry
    have hstored : Stored entry.1 (repair_flattened_dict_configs like digit true now T) c ↔
        Stored entry.1 (repairKey like digit now T₁ entry).1 c := by
      rw [Stored, hdictionary]
      rfl
    have hbefore : Stored entry.1 T₁ c ↔ Stored entry.1 T c := by
      rw [Stored, hsame.dictionary]
      rfl
    rw [hstored]
    by_cases hdict : ∃ row kvs, T.get? entry.1 = some row ∧ row.value = .dict kvs
    · obtain ⟨row, kvs, hrow, hvalue⟩ := hdict
      rw [stored_repairKey_of_dict (hsame.dictionary.trans hrow) hvalue, hbefore]
      exact (or_iff_left fun h => h.2.1 row kvs hrow hvalue).symm
    · have hnone : ∀ row kvs, T.get? entry.1 = some row → row.value ≠ .dict kvs :=
        fun row kvs hrow hvalue => hdict ⟨row, kvs, hrow, hvalue⟩
      have hnone₁ : ∀ row kvs, T₁.get? entry.1 = some row → row.value ≠ .dict kvs :=
        hsame.dictionary ▸ hnone
      rw [stored_repairKey_of_start hnone₁,
        dictEq_rebuilt_iff hapi (hflat.same hsame) (start_eq_nil hnone₁)]
      refine ⟨fun h => .inr ⟨rfl, hnone, h⟩, ?_⟩
      rintro (h | ⟨-, -, h⟩)
      · exact absurd h.exists_dict hdict
      · exact h

/-! ## Configurations with one value -/

/-- Dictionaries in one another, with a value in the innermost. -/
def nest : List String → Json → Json
  | [], v => v
  | k :: p, v => .dict [(k, nest p v)]

/-- A database whose patterns find the rows with the prefix and no others. -/
def prefixLike : Like where
  select key_prefix rows := rows.filter fun e => key_prefix.toList ++ ['.'] <+: e.1.toList
  subset _ _ := List.filter_subset_self _
  complete _ _ _ he hpre := List.mem_filter.mpr ⟨he, decide_eq_true hpre⟩

section

variable {p q : List String} {k : String} {v w : Json}

theorem at?_nest (hv : leaf? v = some v) (h : at? q (nest p v) = some w) :
    (q = p ∧ w = v) ∨ ∃ kvs, w = .dict kvs ∧ kvs ≠ [] := by
  induction p generalizing q with
  | nil =>
    cases q with
    | nil => exact .inl ⟨rfl, (Option.some.inj ((at?_nil v).symm.trans h)).symm⟩
    | cons k q =>
      rw [nest, at?_cons_of_leaf hv] at h
      cases h
  | cons k p ih =>
    cases q with
    | nil =>
      cases h
      exact .inr ⟨_, rfl, List.cons_ne_nil _ _⟩
    | cons k' q =>
      rw [nest, at?_dict_cons] at h
      by_cases hk : k = k'
      · subst hk
        rw [Assoc.get?_cons_self, Option.bind_some] at h
        exact (ih h).imp_left fun ⟨hq, hw⟩ => ⟨hq ▸ rfl, hw⟩
      · rw [Assoc.get?_cons_ne hk] at h
        cases h

theorem at?_nest_self (p : List String) (v : Json) : at? p (nest p v) = some v := by
  induction p with
  | nil => exact at?_nil v
  | cons k p ih => rw [nest, at?_dict_cons, Assoc.get?_cons_self, Option.bind_some, ih]

theorem leafAt_nest_iff (hv : leaf? v = some v) :
    LeafAt [(k, nest p v)] q w ↔ q = k :: p ∧ w = v := by
  constructor
  · rintro ⟨hat, hw⟩
    rcases at?_nest (p := k :: p) hv hat with h | ⟨kvs, rfl, -⟩
    · exact h
    · cases hw
  · rintro ⟨rfl, rfl⟩
    exact ⟨at?_nest_self (k :: p) w, hv⟩

theorem filled_nest (hv : leaf? v = some v) (k : String) (p : List String) :
    Filled (.dict [(k, nest p v)]) := by
  intro q kvs hq
  rcases at?_nest (p := k :: p) hv hq with ⟨-, rfl⟩ | ⟨kvs', hkvs, hne⟩
  · cases hv
  · cases hkvs
    exact hne

/-- The only row of the dictionary is that of the value. -/
theorem flattened_nest {entry : String × List String} {T : Table} {key : String} {row : Row}
    (hv : leaf? row.value = some row.value) (hrow : T.get? key = some row)
    (hfragment : fragmentOf (entry.1 :: entry.2) key = some (joinDots (k :: p)))
    (honly : ∀ e ∈ T.entries, e.1 ≠ key → fragmentOf (entry.1 :: entry.2) e.1 = none) :
    Flattened entry T [(k, nest p row.value)] := by
  refine ⟨fun key' row' fragment hrow' hfragment' => ?_, fun q w hleaf => ?_⟩
  · by_cases hkey : key' = key
    · subst hkey
      cases hrow.symm.trans hrow'
      cases hfragment.symm.trans hfragment'
      exact ⟨k :: p, (leafAt_nest_iff hv).mpr ⟨rfl, rfl⟩, rfl⟩
    · rw [honly _ (Dict.mem_entries_iff.mpr hrow') hkey] at hfragment'
      cases hfragment'
  · obtain ⟨rfl, rfl⟩ := (leafAt_nest_iff hv).mp hleaf
    exact ⟨key, row, hrow, hfragment⟩

/-- What is stored differs where something is found in one and not in the other. -/
theorem not_stored_of_at? {config_key : String} {T : Table} {c : List (String × Json)} {row : Row}
    (hrow : T.get? config_key = some row)
    (hp : (at? p row.value).isSome ≠ (at? p (.dict c)).isSome) : ¬ Stored config_key T c := by
  rintro ⟨row', hrow', heq⟩
  cases hrow.symm.trans hrow'
  exact hp (heq.isSome p)

end

/-- The configurations of `openai`. -/
def openai : String × List String := ("openai.api_configs", ["OPENAI_API_CONFIGS"])

/-- A table with the one row of a flattened configuration. -/
def flatTable (p : List String) : Table :=
  Dict.empty.set (String.ofList (joinDots ("openai.api_configs" :: p))) ⟨.str "x", none⟩

theorem get?_flatTable (p : List String) :
    (flatTable p).get? (String.ofList (joinDots ("openai.api_configs" :: p))) =
      some ⟨.str "x", none⟩ :=
  Dict.get?_set_self ..

/-- The table after the repair. -/
def repairTable (T : Table) : Table :=
  repair_flattened_dict_configs prefixLike Char.isDigit true 0 T

/-- A connection with a number is rebuilt. -/
theorem stored_numbered :
    Stored "openai.api_configs" (repairTable (flatTable ["0", "enable"]))
      [("0", nest ["enable"] (.str "x"))] := by
  have hrow := get?_flatTable ["0", "enable"]
  have hflat : Flattened openai (flatTable ["0", "enable"]) [("0", nest ["enable"] (.str "x"))] :=
    flattened_nest rfl hrow (by decide) (by decide)
  refine ((repair_lossless prefixLike Char.isDigit true 0 (flatTable ["0", "enable"])).1 openai
    (by decide) (by decide) _ hflat).mpr (.inr ⟨rfl, ?_, filled_nest rfl "0" ["enable"], ?_⟩)
  · intro row kvs hrow
    cases (show (flatTable ["0", "enable"]).get? "openai.api_configs" = none by
      decide).symm.trans hrow
  · intro p v hleaf
    obtain ⟨rfl, rfl⟩ := (leafAt_nest_iff rfl).mp hleaf
    decide

/-- A nested key that is the name of a field, and an address that begins with a number, are put
where they were not. A connection that is repaired into a dictionary that is stored already is
lost. -/
theorem repair_loses :
    (Flattened openai (flatTable ["http://h", "extra_params", "headers"])
        [("http://h", nest ["extra_params", "headers"] (.str "x"))] ∧
      ¬ Stored "openai.api_configs"
        (repairTable (flatTable ["http://h", "extra_params", "headers"]))
        [("http://h", nest ["extra_params", "headers"] (.str "x"))]) ∧
    (Flattened openai (flatTable ["10.0.0.1", "enable"])
        [("10.0.0.1", nest ["enable"] (.str "x"))] ∧
      ¬ Stored "openai.api_configs" (repairTable (flatTable ["10.0.0.1", "enable"]))
        [("10.0.0.1", nest ["enable"] (.str "x"))]) ∧
    Flattened openai ((flatTable ["0", "enable"]).set "openai.api_configs" ⟨.dict [], none⟩)
        [("0", nest ["enable"] (.str "x"))] ∧
      repairTable ((flatTable ["0", "enable"]).set "openai.api_configs" ⟨.dict [], none⟩) =
        Dict.empty.set "openai.api_configs" ⟨.dict [], some 0⟩ := by
  refine ⟨⟨?_, ?_⟩, ⟨?_, ?_⟩, ?_, ?_⟩
  · exact flattened_nest rfl (get?_flatTable ["http://h", "extra_params", "headers"])
      (by decide) (by decide)
  · have hrow : (repairTable (flatTable ["http://h", "extra_params", "headers"])).get?
        "openai.api_configs" =
          some ⟨nest ["http://h.extra_params", "headers"] (.str "x"), some 0⟩ := by
      decide +kernel
    exact not_stored_of_at? (p := ["http://h"]) hrow (by decide)
  · exact flattened_nest rfl (get?_flatTable ["10.0.0.1", "enable"]) (by decide)
      (by decide)
  · have hrow : (repairTable (flatTable ["10.0.0.1", "enable"])).get? "openai.api_configs" =
        some ⟨nest ["10", "0", "0", "1", "enable"] (.str "x"), some 0⟩ := by
      decide +kernel
    exact not_stored_of_at? (p := ["10.0.0.1"]) hrow (by decide)
  · have hrow : ((flatTable ["0", "enable"]).set "openai.api_configs" ⟨.dict [], none⟩).get?
        (String.ofList (joinDots ["openai.api_configs", "0", "enable"])) =
          some ⟨.str "x", none⟩ := by
      decide +kernel
    exact flattened_nest rfl hrow (by decide) (by decide)
  · decide

end OpenLaunch.Config
