import OpenLaunch.Responses.ApiEvents
import OpenLaunch.Interleaving

/-! # What a proper event does

A proper event is handled without an exception, and changes no more than one item of the output: it
appends an item, or it changes the item it is about in the place it is about. -/

namespace OpenLaunch.Responses

open Python

/-! ## Changes of an item -/

/-- An update of an object. -/
def onObject (update : Item → Item) : Json → Json
  | .dict fields => .dict (update fields)
  | v => v

/-- The list in a field is changed, if there is one. -/
def changeField (field : String) (change : List Json → List Json) (item : Item) : Item :=
  match Assoc.get? item field with
  | some (.list parts) => Assoc.set item field (.list (change parts))
  | _ => item

/-- The part at a position is updated; parts up to it are made first. -/
def changeAt (k : ℕ) (padding : Item) (update : Item → Item) (parts : List Json) : List Json :=
  (parts ++ List.replicate (k + 1 - parts.length) (Json.dict padding)).modify k (onObject update)

/-- Text is appended to a field. -/
def appendText (key text : String) (fields : Item) : Item :=
  Assoc.set fields key (.str (textAt fields key ++ text))

/-- Parts are appended to the list in a field. -/
def addTo (field : String) (added : List Json) (item : Item) : Item :=
  Assoc.set item field (.list (listAt item field ++ added))

/-- The fields of an empty part. -/
def emptyFields (type : String) : Item := [("type", .str type), ("text", .str "")]

/-- What a delta does to its item. -/
def deltaChange (data : Event) (delta_type : String) : Item → Item :=
  match data.place delta_type with
  | some (.content k) =>
    changeField "content"
      (changeAt k (emptyFields "text") (appendText (doneKey delta_type) data.text))
  | some (.summary k) =>
    changeField "summary"
      (changeAt k (emptyFields "summary_text") (appendText (doneKey delta_type) data.text))
  | some .whole => appendText (doneKey delta_type) data.text
  | none => id

/-- What a done event with a final value does to its item. -/
def finalChange (data : Event) (type_name : String) (final_value : Json) (item : Item) : Item :=
  if itemType item = .str "reasoning" then Assoc.set item "status" (.str "completed")
  else
    match data.place type_name with
    | some (.content k) =>
      changeField "content" (fun parts => parts.modify k (onObject fun part =>
        Assoc.set part (doneKey type_name) final_value)) item
    | some .whole => Assoc.set item (doneKey type_name) final_value
    | _ => item

/-- The part at a position is replaced. -/
def replacePart (field indexKey : String) (data : Event) : Item → Item :=
  match data.position indexKey, data.object "part" with
  | some k, some part => changeField field fun parts => parts.set k (.dict part)
  | _, _ => id

/-- What a done event does to its item. -/
def doneChange (data : Event) (type_name : String) : Item → Item :=
  if type_name ∈ ["output_item", "completed", "failed"] then id
  else if type_name = "content_part" then replacePart "content" "content_index" data
  else if type_name = "reasoning_summary_part" then replacePart "summary" "summary_index" data
  else
    match Assoc.get? data.fields (doneKey type_name) with
    | some final_value => finalChange data type_name final_value
    | none => id

/-- The part that an event adds. -/
def Event.added (data : Event) : List Json := ((data.object "part").map Json.dict).toList

/-- What an event does to the item it is about. -/
def change (data : Event) : Item → Item :=
  match kind data.event_type with
  | .contentPartAdded => fun item =>
    addTo "content" (if itemType item = .str "reasoning" then [] else data.added) item
  | .summaryPartAdded => addTo "summary" data.added
  | .delta (some delta_type) => deltaChange data delta_type
  | .done (some type_name) => doneChange data type_name
  | _ => id

/-- What an event does to the output. -/
def effect (data : Event) (output : List Item) : List Item :=
  match kind data.event_type with
  | .itemAdded => output ++ (data.object "item").toList
  | .completed => (data.finalOutput.getD output).map markCompleted
  | _ =>
    match data.position "output_index" with
    | some i => output.modify i (change data)
    | none => output

/-! ## Fields -/

theorem listAt_of_get? {item : Item} {field : String} {parts : List Json}
    (h : Assoc.get? item field = some (.list parts)) : listAt item field = parts := by
  unfold listAt
  rw [h]
  rfl

theorem listAt_set_ne {item : Item} {field key : String} (h : field ≠ key) (v : Json) :
    listAt (Assoc.set item key v) field = listAt item field := by
  unfold listAt
  rw [Assoc.get?_set_ne _ h]

@[simp] theorem listAt_set_self (item : Item) (field : String) (parts : List Json) :
    listAt (Assoc.set item field (.list parts)) field = parts :=
  listAt_of_get? (Assoc.get?_set_self item field (.list parts))

theorem textAt_set_ne {item : Item} {field key : String} (h : field ≠ key) (v : Json) :
    textAt (Assoc.set item key v) field = textAt item field := by
  unfold textAt
  rw [Assoc.get?_set_ne _ h]

@[simp] theorem textAt_appendText_self (key text : String) (fields : Item) :
    textAt (appendText key text fields) key = textAt fields key ++ text := by
  unfold appendText
  conv_lhs => unfold textAt
  rw [Assoc.get?_set_self]
  rfl

theorem itemType_set_ne {item : Item} {key : String} (h : key ≠ "type") (v : Json) :
    itemType (Assoc.set item key v) = itemType item := by
  unfold itemType
  rw [Assoc.get?_set_ne _ h.symm]

theorem changeField_of_list {item : Item} {field : String} {parts : List Json}
    (h : Assoc.get? item field = some (.list parts)) (change : List Json → List Json) :
    changeField field change item = Assoc.set item field (.list (change parts)) := by
  unfold changeField
  rw [h]

theorem changeField_of_none {item : Item} {field : String} (h : Assoc.get? item field = none)
    (change : List Json → List Json) : changeField field change item = item := by
  unfold changeField
  rw [h]

theorem get?_changeField_ne {item : Item} {field key : String} (h : key ≠ field)
    (change : List Json → List Json) :
    Assoc.get? (changeField field change item) key = Assoc.get? item key := by
  unfold changeField
  split
  · exact Assoc.get?_set_ne _ h _
  · rfl

theorem length_changeAt (k : ℕ) (padding : Item) (update : Item → Item) (parts : List Json) :
    (changeAt k padding update parts).length = max parts.length (k + 1) := by
  unfold changeAt
  rw [List.length_modify, List.length_append, List.length_replicate]
  omega

/-- An update in place keeps a list of objects. -/
theorem isDict_onObject (update : Item → Item) (v : Json) :
    (onObject update v).isDict = v.isDict := by
  cases v <;> rfl

/-- The part at a position after an update. -/
theorem getElem?_changeAt (k : ℕ) (padding : Item) (update : Item → Item) (parts : List Json)
    (j : ℕ) :
    (changeAt k padding update parts)[j]? =
      if j = k then some (onObject update (parts[k]?.getD (.dict padding)))
      else if j < parts.length then parts[j]?
      else if j < k then some (.dict padding) else none := by
  unfold changeAt
  rw [List.getElem?_modify, List.getElem?_append, List.getElem?_replicate]
  by_cases hj : j = k
  · subst hj
    simp only [if_true]
    by_cases hlt : j < parts.length
    · rw [if_pos hlt, List.getElem?_eq_getElem hlt]
      rfl
    · rw [if_neg hlt, if_pos (by omega), List.getElem?_eq_none (by omega)]
      rfl
  · simp only [hj, Ne.symm hj, if_false]
    by_cases hlt : j < parts.length
    · rw [if_pos hlt, if_pos hlt]
      cases parts[j]? <;> rfl
    · rw [if_neg hlt, if_neg hlt]
      by_cases hk : j < k
      · rw [if_pos hk, if_pos (by omega)]
        rfl
      · rw [if_neg hk, if_neg (by omega)]
        rfl

/-- **Parts at different positions are updated independently.** -/
theorem changeAt_comm {k k' : ℕ} (h : k ≠ k') (padding : Item) (update update' : Item → Item)
    (parts : List Json) :
    changeAt k padding update (changeAt k' padding update' parts) =
      changeAt k' padding update' (changeAt k padding update parts) := by
  refine List.ext_getElem? fun j => ?_
  simp only [getElem?_changeAt, length_changeAt]
  grind

/-! ## Items that fit a shape -/

/-- An item as it is after events of the API: of a message every part that has been added is there;
of a reasoning item the summary is, and the list that its parts are made in. -/
structure Fit (shape : Shape) (item : Item) : Prop where
  type : itemType item = shape.type
  shaped : Shaped item
  content : shape.type = .str "message" → (listAt item "content").length = shape.content
  made : shape.type = .str "reasoning" → (listAt item "content").length ≤ shape.content ∧
    (0 < shape.content → Assoc.get? item "content" ≠ none)
  summary : shape.type = .str "reasoning" → (listAt item "summary").length = shape.summary

/-- Every item of the output fits its shape. -/
structure Fits (shapes : List Shape) (output : List Item) : Prop where
  length : shapes.length = output.length
  fit : ∀ (i : ℕ) shape item, shapes[i]? = some shape → output[i]? = some item → Fit shape item

/-- There is an item for every shape. -/
theorem Fits.exists_item {shapes : List Shape} {output : List Item} (h : Fits shapes output) {i : ℕ}
    {shape : Shape} (hshape : shapes[i]? = some shape) :
    ∃ item, output[i]? = some item ∧ Fit shape item := by
  have hlt : i < output.length := h.length ▸ (List.getElem?_eq_some_iff.mp hshape).1
  exact ⟨_, List.getElem?_eq_getElem hlt, h.fit i shape _ hshape (List.getElem?_eq_getElem hlt)⟩

theorem isObjects_list {parts : List Json} :
    isObjects (.list parts) = true ↔ ∀ part ∈ parts, part.isDict = true := List.all_eq_true

/-- The parts of an item are missing or a list of objects. -/
theorem Shaped.list {item : Item} (h : Shaped item) (htype : HasParts (itemType item))
    {field : String} (hfield : field ∈ ["content", "summary"]) {v : Json}
    (hget : Assoc.get? item field = some v) :
    ∃ parts, v = .list parts ∧ ∀ part ∈ parts, part.isDict = true := by
  have hobjects := h.parts htype field hfield
  rw [hget, Option.getD_some] at hobjects
  cases v with
  | list parts => exact ⟨parts, rfl, isObjects_list.mp hobjects⟩
  | _ => cases hobjects

/-- A field with a part has a list. -/
theorem Shaped.list_of_lt {item : Item} (h : Shaped item) (htype : HasParts (itemType item))
    {field : String} (hfield : field ∈ ["content", "summary"]) {k : ℕ}
    (hlt : k < (listAt item field).length) :
    Assoc.get? item field = some (.list (listAt item field)) ∧
      ∀ part ∈ listAt item field, part.isDict = true := by
  cases hget : Assoc.get? item field with
  | none =>
    unfold listAt at hlt
    rw [hget] at hlt
    cases hlt
  | some v =>
    obtain ⟨parts, rfl, hparts⟩ := h.list htype hfield hget
    rw [listAt_of_get? hget]
    exact ⟨rfl, hparts⟩

/-- The part that an event is about can be changed: there is a list of objects. -/
theorem Fit.content_list {shape : Shape} {item : Item} (h : Fit shape item)
    (htype : HasParts shape.type) {k : ℕ} (hlt : k < shape.content) :
    Assoc.get? item "content" = some (.list (listAt item "content")) ∧
      ∀ part ∈ listAt item "content", part.isDict = true := by
  rw [← h.type] at htype
  rcases h.type ▸ htype with hmessage | hreasoning
  · rw [← h.content hmessage] at hlt
    exact h.shaped.list_of_lt htype (by simp) hlt
  · cases hget : Assoc.get? item "content" with
    | none => exact absurd hget ((h.made hreasoning).2 (by omega))
    | some v =>
      obtain ⟨parts, rfl, hparts⟩ := h.shaped.list htype (by simp) hget
      rw [listAt_of_get? hget]
      exact ⟨rfl, hparts⟩

theorem Fit.summary_list {shape : Shape} {item : Item} (h : Fit shape item)
    (htype : shape.type = .str "reasoning") {k : ℕ} (hlt : k < shape.summary) :
    Assoc.get? item "summary" = some (.list (listAt item "summary")) ∧
      ∀ part ∈ listAt item "summary", part.isDict = true := by
  rw [← h.summary htype] at hlt
  refine h.shaped.list_of_lt ?_ (by simp) hlt
  rw [h.type]
  exact Or.inr htype

/-! ## The handler on proper events -/

theorem index_of_position {data : Event} {key : String} {k : ℕ} (h : data.position key = some k)
    (default : ℤ) : data.index key default = k := by
  unfold Event.position at h
  unfold Event.index Event.get
  split at h
  · next n hget =>
    rw [hget]
    split at h
    · cases h
      simp only [Option.getD_some]
      omega
    · cases h
  · cases h

theorem object_eq_some {data : Event} {key : String} {fields : Item}
    (h : data.object key = some fields) (default : Json) : data.get key default = .dict fields := by
  unfold Event.object at h
  unfold Event.get
  split at h
  · next hget =>
    cases h
    rw [hget]
    rfl
  · cases h

/-- A replacement at a position is an update there. -/
theorem set_eq_modify {α : Type} {xs : List α} {i : ℕ} {x : α} (h : xs[i]? = some x) (f : α → α) :
    xs.set i (f x) = xs.modify i f := by
  refine List.ext_getElem? fun j => ?_
  rw [List.getElem?_set, List.getElem?_modify]
  by_cases hij : i = j
  · subst hij
    obtain ⟨hlt, rfl⟩ := List.getElem?_eq_some_iff.mp h
    simp [hlt]
  · simp [hij]

/-- The item that a proper event is about. -/
theorem located_eq {data : Event} {output : List Item} {i : ℕ} {item : Item}
    (hi : data.position "output_index" = some i) (hitem : output[i]? = some item) :
    located data output = some (i, item) := by
  unfold located
  dsimp only
  rw [index_of_position hi, if_pos (by omega), Int.toNat_natCast, hitem]
  rfl

/-- Merging text into a field appends it. -/
theorem mergeField_str (key text : String) (fields : Item) :
    mergeField key (.str text) fields = appendText key text fields := by
  unfold mergeField appendText
  congr 1
  unfold currentVal textAt
  cases (Assoc.get? fields key).getD .null with
  | str t => simp [deep_merge, Json.str?]
  | null => simp [deep_merge, Json.str?, Json.isDict]
  | _ => simp [deep_merge, Json.str?]

theorem mergeText_str (text : String) (part : Item) :
    mergeText (.str text) part = appendText "text" text part := by
  unfold mergeText appendText
  congr 1
  unfold textAt
  cases Assoc.get? part "text" with
  | none => simp [deep_merge, Json.str?]
  | some v => cases v <;> simp [deep_merge, Json.str?]

/-- A delta to a part, where there is a list of objects. -/
theorem deltaPart_eq {field : String} {k : ℕ} {padding : Item} {update : Item → Item} {item : Item}
    {parts : List Json} (hget : Assoc.get? item field = some (.list parts))
    (hdict : ∀ part ∈ parts, part.isDict = true) :
    deltaPart field k (.dict padding) update item =
      .ok (changeField field (changeAt k padding update) item) := by
  have hpad : ((k : ℤ) + 1 - parts.length).toNat = k + 1 - parts.length := by omega
  have hlist : copiedList item field = .ok parts := by
    unfold copiedList
    rw [hget]
    rfl
  rw [changeField_of_list hget]
  refine bind_eq_ok.mpr ⟨parts, hlist, bind_eq_ok.mpr ⟨_, ?_, rfl⟩⟩
  rw [hpad]
  unfold editPart changeAt
  have hlength :
      k < (parts ++ List.replicate (k + 1 - parts.length) (Json.dict padding)).length := by
    rw [List.length_append, List.length_replicate]
    omega
  have hpart := List.getElem?_eq_getElem hlength
  obtain ⟨fields, hfields⟩ : ∃ fields,
      (parts ++ List.replicate (k + 1 - parts.length) (Json.dict padding))[k] = .dict fields := by
    apply Json.isDict_eq_true.mp
    rcases List.mem_append.mp (List.getElem_mem hlength) with hmem | hmem
    · exact hdict _ hmem
    · rw [List.eq_of_mem_replicate hmem]
      rfl
  rw [hfields] at hpart
  have hindex : pyIndex (parts ++ List.replicate (k + 1 - parts.length) (Json.dict padding)).length
      k = some k := if_pos ⟨by omega, by exact_mod_cast hlength⟩
  simp only [hindex, hpart]
  rw [← set_eq_modify hpart]
  rfl

/-- An event about a content part has its position, and is not about arguments or a summary. -/
theorem place_eq_content {data : Event} {type_name : String} {k : ℕ} :
    data.place type_name = some (.content k) ↔ type_name ≠ "function_call_arguments" ∧
      type_name ≠ "reasoning_summary_text" ∧ data.position "content_index" = some k := by
  unfold Event.place
  by_cases harguments : type_name = "function_call_arguments"
  · simp [harguments]
  · by_cases hsummary : type_name = "reasoning_summary_text"
    · simp [hsummary]
    · simp only [ne_eq, harguments, hsummary, not_false_eq_true, true_and, if_false]
      cases data.position "content_index" <;> simp

theorem place_eq_summary {data : Event} {type_name : String} {k : ℕ} :
    data.place type_name = some (.summary k) ↔
      type_name = "reasoning_summary_text" ∧ data.position "summary_index" = some k := by
  unfold Event.place
  by_cases harguments : type_name = "function_call_arguments"
  · simp [harguments]
  · by_cases hsummary : type_name = "reasoning_summary_text"
    · simp [hsummary]
    · simp only [harguments, hsummary, false_and, iff_false, if_false]
      cases data.position "content_index" <;> simp

/-- The fields of deltas and of final values agree, apart from the arguments of a call and the text
of reasoning. -/
theorem deltaKey_eq {type_name : String} (harguments : type_name ≠ "function_call_arguments")
    (hreasoning : type_name ≠ "reasoning_text") (hsummary : type_name ≠ "reasoning_summary_text") :
    deltaKey type_name = doneKey type_name := by
  unfold deltaKey doneKey
  simp [harguments, hreasoning, hsummary]

theorem get_delta_eq {data : Event} (h : (data.get "delta" (.str "")).isStr = true) :
    data.get "delta" (.str "") = .str data.text := by
  unfold Event.text
  cases hdelta : data.get "delta" (.str "") with
  | str text => rfl
  | _ =>
    rw [hdelta] at h
    cases h

theorem itemType_ne_of_not_hasParts {type : Json} (h : ¬ HasParts type) :
    type ≠ .str "message" ∧ type ≠ .str "reasoning" := not_or.mp h

/-- **Deltas of the API change the slot that they are about.** -/
theorem deltaItem_eq {conv : Conversions} {data : Event} {delta_type : String} {shape : Shape}
    {item : Item} {place : Place} (hfit : Fit shape item)
    (hplace : data.place delta_type = some place) (haddressed : Addressed shape delta_type place)
    (hdelta : (data.get "delta" (.str "")).isStr = true) :
    deltaItem conv data delta_type item = .ok (deltaChange data delta_type item) := by
  unfold deltaItem deltaChange
  rw [hplace, get_delta_eq hdelta, hfit.type]
  dsimp only
  cases place with
  | content k =>
    obtain ⟨harguments, hsummary, hk⟩ := place_eq_content.mp hplace
    obtain ⟨hlt, htype⟩ := haddressed
    rw [if_neg harguments]
    rcases htype with ⟨htype, htext⟩ | ⟨htype, rfl⟩
    · obtain ⟨hget, hdict⟩ := hfit.content_list (Or.inl htype) hlt
      rw [if_pos htype, if_neg (by simp [htext, hsummary]), index_of_position hk,
        deltaKey_eq harguments htext hsummary, funext (mergeField_str _ _)]
      exact deltaPart_eq hget hdict
    · obtain ⟨hget, hdict⟩ := hfit.content_list (Or.inr htype) hlt
      rw [if_neg (by simp [htype]), if_pos htype, if_neg (by simp), if_pos rfl, index_of_position hk,
        funext (mergeText_str _)]
      exact deltaPart_eq hget hdict
  | summary k =>
    obtain ⟨rfl, hk⟩ := place_eq_summary.mp hplace
    obtain ⟨hlt, htype⟩ := haddressed
    obtain ⟨hget, hdict⟩ := hfit.summary_list htype hlt
    rw [if_neg (by simp), if_neg (by simp [htype]), if_pos htype, if_pos rfl, index_of_position hk,
      funext (mergeText_str _)]
    exact deltaPart_eq hget hdict
  | whole =>
    obtain ⟨hparts, -, htext, hcall⟩ := haddressed
    obtain ⟨hmessage, hreasoning⟩ := itemType_ne_of_not_hasParts hparts
    by_cases harguments : delta_type = "function_call_arguments"
    · subst harguments
      have htype := hcall rfl
      have hstr := hfit.shaped.arguments (hfit.type.trans htype)
      rw [if_pos rfl, if_pos htype]
      unfold appendText textAt doneKey
      rw [if_pos rfl]
      cases hget : Assoc.get? item "arguments" with
      | none => simp [hget, Conversions.str, Json.str?]
      | some v =>
        rw [hget, Option.getD_some] at hstr
        cases v with
        | str arguments => simp [hget, Conversions.str, Json.str?]
        | _ => cases hstr
    · rw [if_neg harguments, if_neg hmessage, if_neg hreasoning, mergeField_str]
      unfold Event.place at hplace
      rw [if_neg harguments] at hplace
      split at hplace
      · obtain ⟨k, -, hk⟩ := Option.map_eq_some_iff.mp hplace
        cases hk
      · next hsummary => rw [deltaKey_eq harguments htext hsummary]

/-- **Final values of the API change the slot that they are about**, or the status of a reasoning
item. -/
theorem doneItem_eq {data : Event} {type_name : String} {final_value : Json} {shape : Shape}
    {item : Item} {place : Place} (hfit : Fit shape item)
    (hplace : data.place type_name = some place) (haddressed : Addressed shape type_name place) :
    doneItem data type_name final_value item =
      .ok (finalChange data type_name final_value item) := by
  unfold doneItem finalChange
  rw [hplace, hfit.type]
  cases place with
  | content k =>
    obtain ⟨harguments, hsummary, hk⟩ := place_eq_content.mp hplace
    obtain ⟨hlt, htype⟩ := haddressed
    rw [if_neg harguments]
    rcases htype with ⟨htype, -⟩ | ⟨htype, -⟩
    · obtain ⟨hget, hdict⟩ := hfit.content_list (Or.inl htype) hlt
      have hlength : k < (listAt item "content").length := by
        rw [hfit.content htype]
        exact hlt
      obtain ⟨fields, hfields⟩ := Json.isDict_eq_true.mp (hdict _ (List.getElem_mem hlength))
      have hpart := List.getElem?_eq_getElem hlength
      rw [hfields] at hpart
      rw [if_pos htype, if_neg (by simp [htype]), index_of_position hk, hget]
      dsimp only
      rw [changeField_of_list hget]
      refine bind_eq_ok.mpr ⟨_, rfl, ?_⟩
      rw [if_pos (by exact_mod_cast hlength)]
      refine bind_eq_ok.mpr ⟨_, ?_, rfl⟩
      have hindex : pyIndex (listAt item "content").length k = some k :=
        if_pos ⟨by omega, by exact_mod_cast hlength⟩
      unfold editPart
      simp only [hindex, hpart]
      rw [← set_eq_modify hpart]
      rfl
    · rw [if_neg (by simp [htype]), if_pos htype, if_pos htype]
  | summary k =>
    obtain ⟨rfl, -⟩ := place_eq_summary.mp hplace
    obtain ⟨-, htype⟩ := haddressed
    rw [if_neg (by simp), if_neg (by simp [htype]), if_pos htype, if_pos htype]
  | whole =>
    obtain ⟨hparts, -, -, hcall⟩ := haddressed
    obtain ⟨hmessage, hreasoning⟩ := itemType_ne_of_not_hasParts hparts
    by_cases harguments : type_name = "function_call_arguments"
    · rw [if_pos harguments, if_pos (hcall harguments), if_neg hreasoning, harguments]
      rfl
    · rw [if_neg harguments, if_neg hmessage, if_neg hreasoning, if_neg hreasoning]

/-- A change of an item that changes nothing. -/
theorem modify_eq_self {output : List Item} {i : ℕ} {item : Item} {f : Item → Item}
    (hitem : output[i]? = some item) (h : f item = item) : output.modify i f = output := by
  rw [← set_eq_modify hitem, h]
  obtain ⟨hlt, rfl⟩ := List.getElem?_eq_some_iff.mp hitem
  exact List.set_getElem_self hlt

/-- A part that is done replaces the one at its position. -/
theorem partDone_eq {field indexKey : String} {data : Event} {output : List Item} {i k : ℕ}
    {item part : Item} (hshaped : Shaped item) (htype : HasParts (itemType item))
    (hfield : field ∈ ["content", "summary"]) (hlocated : located data output = some (i, item))
    (hitem : output[i]? = some item) (hk : data.position indexKey = some k)
    (hpart : data.object "part" = some part) (hne : part ≠ []) :
    ∃ metadata, partDone field indexKey data output =
      .ok (ofItems (output.modify i (replacePart field indexKey data)), metadata) := by
  unfold partDone replacePart
  rw [hlocated, hk, hpart, object_eq_some hpart]
  dsimp only
  rw [if_pos (by simp [hne])]
  cases hget : Assoc.get? item field with
  | none =>
    refine ⟨none, ?_⟩
    rw [modify_eq_self hitem (changeField_of_none hget _)]
    rfl
  | some v =>
    obtain ⟨parts, rfl, -⟩ := hshaped.list htype hfield hget
    dsimp only
    by_cases hlt : k < parts.length
    · refine ⟨some [], bind_eq_ok.mpr ⟨parts, rfl, ?_⟩⟩
      rw [index_of_position hk, if_pos ⟨by omega, by exact_mod_cast hlt⟩, ← set_eq_modify hitem,
        changeField_of_list hget]
      rfl
    · refine ⟨none, bind_eq_ok.mpr ⟨parts, rfl, ?_⟩⟩
      rw [index_of_position hk, if_neg (by omega), modify_eq_self hitem]
      · rfl
      · rw [changeField_of_list hget, List.set_eq_of_length_le (by omega), Assoc.set_of_get? hget]

/-- Only an added item and a completed response change more than one item. -/
theorem effect_eq_modify {data : Event} (hadded : kind data.event_type ≠ .itemAdded)
    (hcompleted : kind data.event_type ≠ .completed) (output : List Item) :
    effect data output = match data.position "output_index" with
      | some i => output.modify i (change data)
      | none => output := by
  unfold effect
  split <;> first | contradiction | rfl

/-- An event that changes no item. -/
theorem effect_eq_self {data : Event} (hadded : kind data.event_type ≠ .itemAdded)
    (hcompleted : kind data.event_type ≠ .completed) (hchange : change data = id)
    (output : List Item) : effect data output = output := by
  rw [effect_eq_modify hadded hcompleted, hchange]
  split
  · exact List.modify_id _ _
  · rfl

/-- Events that change nothing. -/
theorem effect_of_idle {data : Event}
    (h : kind data.event_type ∈ [.done none, .inProgress, .failed, .other]) (output : List Item) :
    effect data output = output := by
  have hchange : change data = id := by
    unfold change
    split <;> simp_all
  refine effect_eq_self ?_ ?_ hchange output
  · intro hkind
    simp [hkind] at h
  · intro hkind
    simp [hkind] at h

theorem change_of_delta {data : Event} {delta_type : String}
    (hkind : kind data.event_type = .delta (some delta_type)) :
    change data = deltaChange data delta_type := by
  unfold change
  rw [hkind]

theorem change_of_done {data : Event} {type_name : String}
    (hkind : kind data.event_type = .done (some type_name)) :
    change data = doneChange data type_name := by
  unfold change
  rw [hkind]

/-- An event that is about an item changes it. -/
theorem effect_of_position {data : Event} (hadded : kind data.event_type ≠ .itemAdded)
    (hcompleted : kind data.event_type ≠ .completed) {i : ℕ}
    (hi : data.position "output_index" = some i) (output : List Item) :
    effect data output = output.modify i (change data) := by
  rw [effect_eq_modify hadded hcompleted, hi]

theorem finalOutput_of_list {data : Event} {response : Item} {values : List Json}
    (hresponse : data.object "response" = some response)
    (hget : Assoc.get? response "output" = some (.list values)) :
    data.finalOutput = some (objects values) := by
  unfold Event.finalOutput
  rw [hresponse, Option.bind_some, hget]

theorem finalOutput_of_null {data : Event} {response : Item}
    (hresponse : data.object "response" = some response)
    (hget : (Assoc.get? response "output").getD .null = .null) : data.finalOutput = none := by
  unfold Event.finalOutput
  rw [hresponse, Option.bind_some]
  split
  · next values hvalues =>
    rw [hvalues] at hget
    cases hget
  · rfl

/-- A completed response gives its own output, or marks the items. -/
theorem complete_eq {data : Event} {shapes : List Shape} {output : List Item}
    (hkind : kind data.event_type = .completed) (hproper : Proper shapes data) :
    ∃ metadata, (complete data output).1 = .ok (ofItems (effect data output), metadata) := by
  unfold Proper at hproper
  unfold effect
  rw [hkind] at hproper ⊢
  obtain ⟨response, hresponse, houtput⟩ := hproper
  unfold complete
  rw [object_eq_some hresponse]
  dsimp only
  rcases houtput with hnull | ⟨v, hv, hobjects, -⟩
  · rw [hnull, finalOutput_of_null hresponse hnull]
    exact ⟨_, rfl⟩
  · cases v with
    | list values =>
      rw [finalOutput_of_list hresponse hv, Option.mem_def.mp hv]
      dsimp only [Option.getD_some]
      rw [← ofItems_objects (isObjects_list.mp hobjects), markAll_ofItems]
      exact ⟨_, rfl⟩
    | _ => cases hobjects

/-- An item that is replaced by a change of it. -/
theorem bind_set_eq {r : Except Raised Item} {f : Item → Item} {output : List Item} {i : ℕ}
    {item : Item} (hitem : output[i]? = some item) (hr : r = .ok (f item))
    (metadata : Option Item) :
    (r >>= fun item' => .ok (ofItems (output.set i item'), metadata)) =
      (.ok (ofItems (output.modify i f), metadata) : Except Raised Returned) := by
  rw [hr, ← set_eq_modify hitem]
  rfl

/-- The list that an event adds a part to. -/
theorem copiedList_eq {item : Item} (hshaped : Shaped item) (htype : HasParts (itemType item))
    {field : String} (hfield : field ∈ ["content", "summary"]) :
    copiedList item field = .ok (listAt item field) := by
  unfold copiedList listAt
  cases hget : Assoc.get? item field with
  | none => rfl
  | some v =>
    obtain ⟨parts, rfl, -⟩ := hshaped.list htype hfield hget
    rfl

/-- Added parts. -/
theorem addPart_eq {field : String} {appends : Item → Bool} {data : Event} {output : List Item}
    {i : ℕ} {item : Item} (hshaped : Shaped item) (htype : HasParts (itemType item))
    (hfield : field ∈ ["content", "summary"]) (hlocated : located data output = some (i, item))
    (hitem : output[i]? = some item) (hpart : (data.object "part").isSome = true) :
    addPart field appends data output = .ok (ofItems (output.modify i fun item =>
      addTo field (if appends item then data.added else []) item), none) := by
  obtain ⟨part, hpart⟩ := Option.isSome_iff_exists.mp hpart
  unfold addPart
  rw [hlocated]
  refine bind_eq_ok.mpr ⟨_, copiedList_eq hshaped htype hfield, ?_⟩
  rw [← set_eq_modify hitem]
  unfold Event.added addTo
  rw [object_eq_some hpart, hpart]
  dsimp only
  split
  · rfl
  · rw [List.append_nil]
    rfl

theorem done_eq_same {data : Event} {type_name : String} {output : List Item}
    (h : type_name ∈ ["output_item", "completed", "failed"]) :
    done data type_name output = .ok (same output) := by
  unfold done
  have hcontent : type_name ≠ "content_part" := by
    rintro rfl
    simp at h
  have hsummary : type_name ≠ "reasoning_summary_part" := by
    rintro rfl
    simp at h
  rw [if_neg hcontent, if_neg hsummary, if_pos h]

/-- Done events. -/
theorem done_eq {data : Event} {type_name : String} {shape : Shape} {output : List Item} {i : ℕ}
    {item : Item} (hskip : type_name ∉ ["output_item", "completed", "failed"])
    (hfit : Fit shape item) (hproper : DoneAddressed shape data type_name)
    (hlocated : located data output = some (i, item)) (hitem : output[i]? = some item) :
    ∃ metadata, done data type_name output =
      .ok (ofItems (output.modify i (doneChange data type_name)), metadata) := by
  unfold DoneAddressed at hproper
  unfold done doneChange
  simp only [if_neg hskip]
  by_cases hcontent : type_name = "content_part"
  · rw [if_pos hcontent] at hproper ⊢
    obtain ⟨htype, hk, part, hpart, hne⟩ := hproper
    obtain ⟨k, hk⟩ := Option.isSome_iff_exists.mp hk
    rw [← hfit.type] at htype
    rw [if_pos hcontent]
    have hfield : "content" ∈ ["content", "summary"] := by simp
    exact partDone_eq hfit.shaped htype hfield hlocated hitem hk hpart hne
  · rw [if_neg hcontent] at hproper ⊢
    rw [if_neg hcontent]
    by_cases hsummary : type_name = "reasoning_summary_part"
    · rw [if_pos hsummary] at hproper ⊢
      obtain ⟨htype, hk, part, hpart, hne⟩ := hproper
      obtain ⟨k, hk⟩ := Option.isSome_iff_exists.mp hk
      rw [← hfit.type] at htype
      rw [if_pos hsummary]
      have hfield : "summary" ∈ ["content", "summary"] := by simp
      exact partDone_eq hfit.shaped (Or.inr htype) hfield hlocated hitem hk hpart hne
    · rw [if_neg hsummary] at hproper ⊢
      rw [if_neg hsummary]
      obtain ⟨⟨place, hplace, haddressed⟩, -⟩ := hproper
      unfold fieldDone
      rw [hlocated]
      dsimp only
      cases Assoc.get? data.fields (doneKey type_name) with
      | none => exact ⟨none, by rw [List.modify_id]; rfl⟩
      | some final_value =>
        exact ⟨some [], bind_set_eq hitem (doneItem_eq hfit hplace haddressed) (some [])⟩

/-- **A proper event is handled.** -/
theorem handle_eq {conv : Conversions} {data : Event} {shapes : List Shape} {output : List Item}
    (hproper : Proper shapes data) (hfits : Fits shapes output) :
    ∃ metadata, (handle_responses_streaming_event conv data output).1 =
      .ok (some (ofItems (effect data output), metadata)) := by
  have hproper' := hproper
  unfold Proper at hproper
  unfold handle_responses_streaming_event
  cases hkind : kind data.event_type with
  | itemAdded =>
    rw [hkind] at hproper
    obtain ⟨-, item, hitem, hne, -⟩ := hproper
    refine ⟨none, ?_⟩
    unfold addItem effect
    rw [object_eq_some hitem, if_pos (by simp [hne]), hkind, Option.mem_def.mp hitem]
    simp [ofItems]
  | contentPartAdded =>
    rw [hkind] at hproper
    obtain ⟨i, hi, shape, hshape, htype, -, hpart⟩ := hproper
    obtain ⟨item, hitem, hfit⟩ := hfits.exists_item hshape
    rw [← hfit.type] at htype
    refine ⟨none, ?_⟩
    dsimp only
    rw [addPart_eq hfit.shaped htype (by simp) (located_eq hi hitem) hitem hpart,
      effect_of_position (by simp [hkind]) (by simp [hkind]) hi]
    unfold change
    rw [hkind]
    simp [Except.map]
  | summaryPartAdded =>
    rw [hkind] at hproper
    obtain ⟨i, hi, shape, hshape, htype, -, hpart⟩ := hproper
    obtain ⟨item, hitem, hfit⟩ := hfits.exists_item hshape
    rw [← hfit.type] at htype
    refine ⟨none, ?_⟩
    dsimp only
    rw [addPart_eq hfit.shaped (Or.inr htype) (by simp) (located_eq hi hitem) hitem hpart,
      effect_of_position (by simp [hkind]) (by simp [hkind]) hi]
    unfold change
    rw [hkind]
    rfl
  | delta delta_type =>
    rw [hkind] at hproper
    cases delta_type with
    | none => exact hproper.elim
    | some delta_type =>
      obtain ⟨i, hi, shape, hshape, ⟨place, hplace, haddressed⟩, hdelta⟩ := hproper
      obtain ⟨item, hitem, hfit⟩ := hfits.exists_item hshape
      refine ⟨none, ?_⟩
      dsimp only
      unfold delta
      rw [located_eq hi hitem]
      dsimp only
      rw [effect_of_position (by simp [hkind]) (by simp [hkind]) hi, change_of_delta hkind]
      exact congrArg (Except.map some)
        (bind_set_eq hitem (deltaItem_eq hfit hplace haddressed hdelta) none)
  | done type_name =>
    rw [hkind] at hproper
    cases type_name with
    | none =>
      refine ⟨none, ?_⟩
      rw [effect_of_idle (by simp [hkind])]
      rfl
    | some type_name =>
      have hchange := change_of_done hkind
      obtain ⟨metadata, h⟩ : ∃ metadata, done data type_name output =
          .ok (ofItems (effect data output), metadata) := by
        by_cases hskip : type_name ∈ ["output_item", "completed", "failed"]
        · have hid : change data = id := by
            rw [hchange]
            exact if_pos hskip
          rw [effect_eq_self (by simp [hkind]) (by simp [hkind]) hid]
          exact ⟨none, done_eq_same hskip⟩
        · obtain ⟨i, hi, shape, hshape, hproper⟩ := hproper.resolve_left hskip
          obtain ⟨item, hitem, hfit⟩ := hfits.exists_item hshape
          rw [effect_of_position (by simp [hkind]) (by simp [hkind]) hi, hchange]
          exact done_eq hskip hfit hproper (located_eq hi hitem) hitem
      exact ⟨metadata, by dsimp only; rw [h]; rfl⟩
  | itemDone =>
    rw [hkind] at hproper
    exact hproper.elim
  | completed =>
    obtain ⟨metadata, h⟩ := @complete_eq data shapes output hkind hproper'
    exact ⟨metadata, by dsimp only; rw [h]; rfl⟩
  | inProgress =>
    refine ⟨none, ?_⟩
    rw [effect_of_idle (by simp [hkind])]
    rfl
  | failed =>
    rw [hkind] at hproper
    obtain ⟨response, hresponse⟩ := Option.isSome_iff_exists.mp hproper
    unfold fail
    rw [object_eq_some hresponse, effect_of_idle (by simp [hkind])]
    exact ⟨_, rfl⟩
  | other =>
    refine ⟨none, ?_⟩
    rw [effect_of_idle (by simp [hkind])]
    rfl

theorem next_eq {conv : Conversions} {data : Event} {shapes : List Shape} {output : List Item}
    (hproper : Proper shapes data) (hfits : Fits shapes output) :
    next conv output data = some (effect data output) := by
  obtain ⟨metadata, h⟩ := @handle_eq conv data shapes output hproper hfits
  unfold next
  rw [h]
  have hobjects : isObjects (ofItems (effect data output)) = true := by
    refine isObjects_list.mpr fun v hv => ?_
    obtain ⟨item, -, rfl⟩ := List.mem_map.mp hv
    rfl
  dsimp only
  rw [if_pos hobjects]
  exact congrArg some (objects_map _)

/-! ## The output keeps fitting -/

theorem Fit.hasParts {shape : Shape} {item : Item} (h : Fit shape item) :
    HasParts (itemType item) ↔ HasParts shape.type := by rw [h.type]

/-- A field that is not about the shape. -/
theorem Fit.set_other {shape : Shape} {item : Item} (h : Fit shape item) {key : String} {v : Json}
    (hkey : key ∉ ["type", "content", "summary"])
    (hcall : shape.type = .str "function_call" → key = "arguments" → v.isStr = true) :
    Fit shape (Assoc.set item key v) := by
  simp only [List.mem_cons, List.not_mem_nil, or_false, not_or] at hkey
  obtain ⟨htype, hcontent, hsummary⟩ := hkey
  have hitem : itemType (Assoc.set item key v) = itemType item := itemType_set_ne htype v
  refine ⟨hitem.trans h.type, ⟨?_, ?_⟩, ?_, ?_, ?_⟩
  · intro hparts field hfield
    rw [hitem] at hparts
    have hne : field ≠ key := by
      rintro rfl
      simp_all
    rw [Assoc.get?_set_ne _ hne]
    exact h.shaped.parts hparts field hfield
  · intro hfunction
    rw [hitem] at hfunction
    rw [Assoc.get?_set]
    split
    · next hkey => exact hcall (h.type.symm.trans hfunction) hkey.symm
    · exact h.shaped.arguments hfunction
  · rw [listAt_set_ne (Ne.symm hcontent)]
    exact h.content
  · rw [listAt_set_ne (Ne.symm hcontent), Assoc.get?_set_ne _ (Ne.symm hcontent)]
    exact h.made
  · rw [listAt_set_ne (Ne.symm hsummary)]
    exact h.summary

/-- Writing the parts keeps the item shaped. -/
theorem Shaped.set_list {item : Item} (h : Shaped item) {field : String}
    (hfield : field ∈ ["content", "summary"]) {parts : List Json}
    (hdict : ∀ part ∈ parts, part.isDict = true) :
    Shaped (Assoc.set item field (.list parts)) := by
  have hne : field ≠ "type" ∧ field ≠ "arguments" := by
    constructor
    · rintro rfl
      simp at hfield
    · rintro rfl
      simp at hfield
  constructor
  · intro hparts field' hfield'
    rw [itemType_set_ne hne.1] at hparts
    rw [Assoc.get?_set]
    split
    · exact isObjects_list.mpr hdict
    · exact h.parts hparts field' hfield'
  · intro hfunction
    rw [itemType_set_ne hne.1] at hfunction
    rw [Assoc.get?_set_ne _ hne.2.symm]
    exact h.arguments hfunction

theorem Fit.set_content {shape : Shape} {item : Item} (h : Fit shape item) {parts : List Json}
    {n : ℕ} (hdict : ∀ part ∈ parts, part.isDict = true)
    (hmessage : shape.type = .str "message" → parts.length = n)
    (hreasoning : shape.type = .str "reasoning" → parts.length ≤ n) :
    Fit { shape with content := n } (Assoc.set item "content" (.list parts)) where
  type := (itemType_set_ne (by simp) _).trans h.type
  shaped := h.shaped.set_list (by simp) hdict
  content htype := by
    rw [listAt_set_self]
    exact hmessage htype
  made htype := by
    rw [listAt_set_self, Assoc.get?_set_self]
    exact ⟨hreasoning htype, by simp⟩
  summary htype := by
    rw [listAt_set_ne (by simp)]
    exact h.summary htype

theorem Fit.set_summary {shape : Shape} {item : Item} (h : Fit shape item) {parts : List Json}
    {n : ℕ} (hdict : ∀ part ∈ parts, part.isDict = true)
    (hreasoning : shape.type = .str "reasoning" → parts.length = n) :
    Fit { shape with summary := n } (Assoc.set item "summary" (.list parts)) where
  type := (itemType_set_ne (by simp) _).trans h.type
  shaped := h.shaped.set_list (by simp) hdict
  content htype := by
    rw [listAt_set_ne (by simp)]
    exact h.content htype
  made htype := by
    rw [listAt_set_ne (by simp), Assoc.get?_set_ne _ (by simp)]
    exact h.made htype
  summary htype := by
    rw [listAt_set_self]
    exact hreasoning htype

theorem Shaped.isDict_of_mem {item : Item} (h : Shaped item) (htype : HasParts (itemType item))
    {field : String} (hfield : field ∈ ["content", "summary"]) :
    ∀ part ∈ listAt item field, part.isDict = true := by
  intro part hpart
  have hlt : 0 < (listAt item field).length := List.length_pos_of_mem hpart
  exact (h.list_of_lt htype hfield hlt).2 part hpart

theorem isDict_modify {parts : List Json} (h : ∀ part ∈ parts, part.isDict = true) (k : ℕ)
    (update : Item → Item) : ∀ part ∈ parts.modify k (onObject update), part.isDict = true := by
  intro part hpart
  obtain ⟨j, hj, rfl⟩ := List.getElem_of_mem hpart
  rw [List.getElem_modify]
  split
  · rw [isDict_onObject]
    exact h _ (List.getElem_mem _)
  · exact h _ (List.getElem_mem _)

theorem isDict_changeAt {parts : List Json} (h : ∀ part ∈ parts, part.isDict = true) (k : ℕ)
    (padding : Item) (update : Item → Item) :
    ∀ part ∈ changeAt k padding update parts, part.isDict = true := by
  refine isDict_modify (fun part hpart => ?_) k update
  rcases List.mem_append.mp hpart with hmem | hmem
  · exact h part hmem
  · rw [List.eq_of_mem_replicate hmem]
    rfl

theorem isDict_added (data : Event) : ∀ part ∈ data.added, part.isDict = true := by
  intro part hpart
  unfold Event.added at hpart
  rw [Option.mem_toList, Option.map_eq_some_iff] at hpart
  obtain ⟨fields, -, rfl⟩ := hpart
  rfl

/-- **Deltas keep the shape.** -/
theorem Fit.deltaChange {data : Event} {delta_type : String} {shape : Shape} {item : Item}
    {place : Place} (h : Fit shape item) (hplace : data.place delta_type = some place)
    (haddressed : Addressed shape delta_type place) :
    Fit shape (deltaChange data delta_type item) := by
  unfold Responses.deltaChange
  rw [hplace]
  cases place with
  | content k =>
    obtain ⟨hlt, htype⟩ := haddressed
    have hparts : HasParts shape.type := htype.imp And.left And.left
    obtain ⟨hget, hdict⟩ := h.content_list hparts hlt
    dsimp only
    rw [changeField_of_list hget]
    refine h.set_content (isDict_changeAt hdict _ _ _) (fun hmessage => ?_) fun hreasoning => ?_
    · rw [length_changeAt]
      have := h.content hmessage
      omega
    · rw [length_changeAt]
      have := (h.made hreasoning).1
      omega
  | summary k =>
    obtain ⟨hlt, htype⟩ := haddressed
    obtain ⟨hget, hdict⟩ := h.summary_list htype hlt
    dsimp only
    rw [changeField_of_list hget]
    refine h.set_summary (isDict_changeAt hdict _ _ _) fun hreasoning => ?_
    rw [length_changeAt]
    have := h.summary hreasoning
    omega
  | whole =>
    obtain ⟨-, hkey, -⟩ := haddressed
    exact h.set_other hkey fun _ _ => rfl

/-- A field of parts whose number does not change. -/
theorem Fit.changeField {shape : Shape} {item : Item} (h : Fit shape item)
    (htype : HasParts shape.type) {field : String} (hfield : field ∈ ["content", "summary"])
    {g : List Json → List Json} (hlength : ∀ parts, (g parts).length = parts.length)
    (hdict : ∀ parts, (∀ part ∈ parts, part.isDict = true) → ∀ part ∈ g parts, part.isDict = true) :
    Fit shape (changeField field g item) := by
  cases hget : Assoc.get? item field with
  | none => rwa [changeField_of_none hget]
  | some v =>
    obtain ⟨parts, rfl, hparts⟩ := h.shaped.list (h.hasParts.mpr htype) hfield hget
    have hlist := listAt_of_get? hget
    rw [changeField_of_list hget]
    simp only [List.mem_cons, List.not_mem_nil, or_false] at hfield
    rcases hfield with rfl | rfl
    · refine h.set_content (hdict _ hparts) (fun hmessage => ?_) fun hreasoning => ?_
      · rw [hlength, ← hlist, h.content hmessage]
      · rw [hlength, ← hlist]
        exact (h.made hreasoning).1
    · refine h.set_summary (hdict _ hparts) fun hreasoning => ?_
      rw [hlength, ← hlist, h.summary hreasoning]

theorem Fit.replacePart {data : Event} {field indexKey : String} {shape : Shape} {item : Item}
    (h : Fit shape item) (htype : HasParts shape.type) (hfield : field ∈ ["content", "summary"]) :
    Fit shape (replacePart field indexKey data item) := by
  unfold Responses.replacePart
  cases data.position indexKey with
  | none => exact h
  | some k =>
    cases data.object "part" with
    | none => exact h
    | some part =>
      refine h.changeField htype hfield (fun parts => List.length_set) fun parts hparts v hv => ?_
      rcases List.mem_or_eq_of_mem_set hv with hmem | rfl
      · exact hparts v hmem
      · rfl

/-- **Done events keep the shape.** -/
theorem Fit.doneChange {data : Event} {type_name : String} {shape : Shape} {item : Item}
    (h : Fit shape item) (hproper : DoneAddressed shape data type_name) :
    Fit shape (doneChange data type_name item) := by
  unfold DoneAddressed at hproper
  unfold Responses.doneChange
  split_ifs with hskip hcontent hsummary
  · exact h
  · rw [if_pos hcontent] at hproper
    exact h.replacePart hproper.1 (by simp)
  · rw [if_neg hcontent, if_pos hsummary] at hproper
    exact h.replacePart (Or.inr hproper.1) (by simp)
  · rw [if_neg hcontent, if_neg hsummary] at hproper
    obtain ⟨⟨place, hplace, haddressed⟩, hstr⟩ := hproper
    cases hfinal : Assoc.get? data.fields (doneKey type_name) with
    | none => exact h
    | some final_value =>
      unfold finalChange
      dsimp only
      rw [Option.mem_def.mp hplace]
      split_ifs with hreasoning
      · refine h.set_other (by simp) fun hcall => ?_
        rw [h.type, hcall] at hreasoning
        simp at hreasoning
      · cases place with
        | content k =>
          exact h.changeField (haddressed.2.imp And.left And.left) (by simp)
            (fun parts => List.length_modify ..) fun parts hparts => isDict_modify hparts k _
        | summary k => exact h
        | whole => exact h.set_other haddressed.2.1 fun _ _ => hstr _ hfinal

/-- Added parts are counted. -/
theorem Fit.addContent {data : Event} {shape : Shape} {item : Item} (h : Fit shape item)
    (htype : HasParts shape.type) (hpart : (data.object "part").isSome = true) :
    Fit { shape with content := shape.content + 1 }
      (addTo "content" (if itemType item = .str "reasoning" then [] else data.added) item) := by
  have hdict := h.shaped.isDict_of_mem (h.hasParts.mpr htype)
    (show "content" ∈ ["content", "summary"] by simp)
  obtain ⟨part, hpart⟩ := Option.isSome_iff_exists.mp hpart
  unfold addTo
  refine h.set_content ?_ (fun hmessage => ?_) fun hreasoning => ?_
  · refine List.forall_mem_append.mpr ⟨hdict, fun v hv => ?_⟩
    split at hv
    · cases hv
    · exact isDict_added data v hv
  · rw [h.type, if_neg (by simp [hmessage]), List.length_append, h.content hmessage]
    simp [Event.added, hpart]
  · rw [h.type, if_pos hreasoning, List.append_nil]
    have := (h.made hreasoning).1
    omega

theorem Fit.addSummary {data : Event} {shape : Shape} {item : Item} (h : Fit shape item)
    (htype : shape.type = .str "reasoning") (hpart : (data.object "part").isSome = true) :
    Fit { shape with summary := shape.summary + 1 } (addTo "summary" data.added item) := by
  have hdict := h.shaped.isDict_of_mem (h.hasParts.mpr (Or.inr htype))
    (show "summary" ∈ ["content", "summary"] by simp)
  obtain ⟨part, hpart⟩ := Option.isSome_iff_exists.mp hpart
  unfold addTo
  refine h.set_summary (List.forall_mem_append.mpr ⟨hdict, isDict_added data⟩) fun hreasoning => ?_
  rw [List.length_append, h.summary hreasoning]
  simp [Event.added, hpart]

theorem fit_shapeOf {item : Item} (h : Shaped item) : Fit (shapeOf item) item where
  type := rfl
  shaped := h
  content _ := rfl
  made _ := by
    refine ⟨Nat.le_refl _, fun hpos hnone => ?_⟩
    unfold shapeOf listAt at hpos
    rw [hnone] at hpos
    exact absurd hpos (Nat.lt_irrefl 0)
  summary _ := rfl

theorem fits_map_shapeOf {items : List Item} (h : ∀ item ∈ items, Shaped item) :
    Fits (items.map shapeOf) items where
  length := List.length_map _
  fit i shape item hshape hitem := by
    rw [List.getElem?_map, hitem] at hshape
    cases hshape
    exact fit_shapeOf (h item (List.mem_of_getElem? hitem))

/-- Marking a reasoning item keeps its shape. -/
theorem Fit.markCompleted {shape : Shape} {item : Item} (h : Fit shape item) :
    Fit shape (markCompleted item) := by
  unfold Responses.markCompleted
  split
  · next hreasoning =>
    refine h.set_other (by simp) fun hcall => ?_
    rw [h.type, hcall] at hreasoning
    simp at hreasoning
  · exact h

/-- One item changes with its shape. -/
theorem Fits.modify {shapes : List Shape} {output : List Item} (h : Fits shapes output) (i : ℕ)
    {f : Shape → Shape} {g : Item → Item}
    (hfit : ∀ shape item, shapes[i]? = some shape → Fit shape item → Fit (f shape) (g item)) :
    Fits (shapes.modify i f) (output.modify i g) where
  length := by rw [List.length_modify, List.length_modify, h.length]
  fit j shape item hshape hitem := by
    by_cases hij : i = j
    · subst hij
      rw [List.getElem?_modify_eq] at hshape hitem
      obtain ⟨shape', hshape', rfl⟩ := Option.map_eq_some_iff.mp hshape
      obtain ⟨item', hitem', rfl⟩ := Option.map_eq_some_iff.mp hitem
      exact hfit shape' item' hshape' (h.fit i shape' item' hshape' hitem')
    · rw [List.getElem?_modify_ne _ _ hij] at hshape hitem
      exact h.fit j shape item hshape hitem

/-- One item changes, and keeps its shape. -/
theorem Fits.modify_item {shapes : List Shape} {output : List Item} (h : Fits shapes output) (i : ℕ)
    {g : Item → Item} (hfit : ∀ shape item, shapes[i]? = some shape → Fit shape item →
      Fit shape (g item)) : Fits shapes (output.modify i g) := by
  have := h.modify i (f := id) hfit
  rwa [List.modify_id] at this

/-- Only what is added, and a completed response, changes the layout. -/
theorem track_eq_self {data : Event} (hadded : kind data.event_type ≠ .itemAdded)
    (hcontent : kind data.event_type ≠ .contentPartAdded)
    (hsummary : kind data.event_type ≠ .summaryPartAdded)
    (hcompleted : kind data.event_type ≠ .completed) (shapes : List Shape) :
    track shapes data = shapes := by
  unfold track
  split <;> first | contradiction | rfl

/-- **A proper event keeps the output fitting to the layout.** -/
theorem fits_effect {data : Event} {shapes : List Shape} {output : List Item}
    (hproper : Proper shapes data) (h : Fits shapes output) :
    Fits (track shapes data) (effect data output) := by
  unfold Proper at hproper
  cases hkind : kind data.event_type with
  | itemAdded =>
    rw [hkind] at hproper
    obtain ⟨-, item, hitem, -, hshaped⟩ := hproper
    unfold track effect
    rw [hkind, Option.mem_def.mp hitem]
    dsimp only [Option.map_some, Option.toList_some]
    constructor
    · rw [List.length_append, List.length_append, h.length]
      rfl
    · intro i shape item' hshape hitem'
      by_cases hlt : i < output.length
      · rw [List.getElem?_append_left (by rw [h.length]; exact hlt)] at hshape
        rw [List.getElem?_append_left hlt] at hitem'
        exact h.fit i shape item' hshape hitem'
      · rw [List.getElem?_append_right (by rw [h.length]; omega), h.length] at hshape
        rw [List.getElem?_append_right (by omega)] at hitem'
        have hzero : i - output.length = 0 := by
          have := (List.getElem?_eq_some_iff.mp hitem').1
          simp only [List.length_singleton] at this
          omega
        rw [hzero] at hshape hitem'
        cases hshape
        cases hitem'
        exact fit_shapeOf hshaped
  | contentPartAdded =>
    rw [hkind] at hproper
    obtain ⟨i, hi, shape, hshape, htype, -, hpart⟩ := hproper
    rw [effect_of_position (by simp [hkind]) (by simp [hkind]) hi]
    unfold track change
    rw [hkind, Option.mem_def.mp hi]
    refine h.modify i fun shape' item hshape' hfit => ?_
    obtain rfl := Option.some.inj (hshape'.symm.trans hshape)
    exact hfit.addContent htype hpart
  | summaryPartAdded =>
    rw [hkind] at hproper
    obtain ⟨i, hi, shape, hshape, htype, -, hpart⟩ := hproper
    rw [effect_of_position (by simp [hkind]) (by simp [hkind]) hi]
    unfold track change
    rw [hkind, Option.mem_def.mp hi]
    refine h.modify i fun shape' item hshape' hfit => ?_
    obtain rfl := Option.some.inj (hshape'.symm.trans hshape)
    exact hfit.addSummary htype hpart
  | delta delta_type =>
    rw [hkind] at hproper
    cases delta_type with
    | none => exact hproper.elim
    | some delta_type =>
      obtain ⟨i, hi, shape, hshape, ⟨place, hplace, haddressed⟩, -⟩ := hproper
      rw [effect_of_position (by simp [hkind]) (by simp [hkind]) hi, track_eq_self] <;>
        try simp [hkind]
      refine h.modify_item i fun shape' item hshape' hfit => ?_
      obtain rfl := Option.some.inj (hshape'.symm.trans hshape)
      rw [change_of_delta hkind]
      exact hfit.deltaChange hplace haddressed
  | done type_name =>
    rw [hkind] at hproper
    rw [track_eq_self] <;> try simp [hkind]
    cases type_name with
    | none =>
      rw [effect_of_idle (by simp [hkind])]
      exact h
    | some type_name =>
      have hchange := change_of_done hkind
      by_cases hskip : type_name ∈ ["output_item", "completed", "failed"]
      · rw [effect_eq_self (by simp [hkind]) (by simp [hkind]) (hchange.trans (if_pos hskip))]
        exact h
      · obtain ⟨i, hi, shape, hshape, haddressed⟩ := hproper.resolve_left hskip
        rw [effect_of_position (by simp [hkind]) (by simp [hkind]) hi, hchange]
        refine h.modify_item i fun shape' item hshape' hfit => ?_
        obtain rfl := Option.some.inj (hshape'.symm.trans hshape)
        exact hfit.doneChange haddressed
  | itemDone =>
    rw [hkind] at hproper
    exact hproper.elim
  | completed =>
    rw [hkind] at hproper
    obtain ⟨response, hresponse, houtput⟩ := hproper
    have hmarked {shapes' : List Shape} {output' : List Item} (h' : Fits shapes' output') :
        Fits shapes' (output'.map markCompleted) := by
      refine ⟨by rw [List.length_map, h'.length], fun i shape item hshape hitem => ?_⟩
      rw [List.getElem?_map, Option.map_eq_some_iff] at hitem
      obtain ⟨item', hitem', rfl⟩ := hitem
      exact (h'.fit i shape item' hshape hitem').markCompleted
    unfold track effect
    rw [hkind]
    rcases houtput with hnull | ⟨v, hv, hobjects, hshaped⟩
    · rw [finalOutput_of_null hresponse hnull]
      exact hmarked h
    · cases v with
      | list values =>
        rw [finalOutput_of_list hresponse hv]
        exact hmarked (fits_map_shapeOf hshaped)
      | _ => cases hobjects
  | inProgress =>
    rw [track_eq_self, effect_of_idle (by simp [hkind])] <;> first | exact h | simp [hkind]
  | failed =>
    rw [track_eq_self, effect_of_idle (by simp [hkind])] <;> first | exact h | simp [hkind]
  | other =>
    rw [track_eq_self, effect_of_idle (by simp [hkind])] <;> first | exact h | simp [hkind]

end OpenLaunch.Responses
