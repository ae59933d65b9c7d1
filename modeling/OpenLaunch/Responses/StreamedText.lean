import OpenLaunch.Responses.Interleaved

/-! # The text that a stream adds up to

The text of a part, and the arguments of a call, are the deltas of its slot in order. A done event
that carries this text leaves it. -/

namespace OpenLaunch.Responses

open Python

/-! ## Texts -/

/-- The fields of an object. -/
def fieldsOf : Json → Item
  | .dict fields => fields
  | _ => []

/-- The text of a part. -/
def partText (parts : List Json) (k : ℕ) : String := textAt (fieldsOf (parts[k]?.getD .null)) "text"

/-- The field that has the text of a place. -/
def Place.key : Place → String
  | .content _ | .summary _ => "text"
  | .whole => "arguments"

/-- The text at a place of an item. -/
def placeText (item : Item) : Place → String
  | .content k => partText (listAt item "content") k
  | .summary k => partText (listAt item "summary") k
  | .whole => textAt item "arguments"

/-- The text of a slot. -/
def textOf (output : List Item) (slot : Slot) : String :=
  match output[slot.output_index]? with
  | some item => placeText item slot.place
  | none => ""

/-- The text that an event adds to a slot. -/
def Event.deltaTo (slot : Slot) (data : Event) : Option String :=
  match kind data.event_type with
  | .delta (some delta_type) =>
    if data.slot = some slot ∧ doneKey delta_type = slot.place.key then some data.text else none
  | _ => none

/-- The deltas of a slot. -/
def deltasTo (slot : Slot) (events : List Event) : List String :=
  events.filterMap (Event.deltaTo slot)

/-- The place that a done event is about. -/
def Event.donePlace (data : Event) (type_name : String) : Option Place :=
  if type_name = "content_part" then (data.position "content_index").map .content
  else if type_name = "reasoning_summary_part" then (data.position "summary_index").map .summary
  else data.place type_name

/-- The text that a done event carries for a place. -/
def Event.doneText (data : Event) (type_name : String) (place : Place) : Option String :=
  if type_name ∈ ["content_part", "reasoning_summary_part"] then
    (data.object "part").map fun part => textAt part "text"
  else if doneKey type_name = place.key then
    (Assoc.get? data.fields (doneKey type_name)).map fun v => v.str?.getD ""
  else none

/-- The text that an event carries for a slot: a done event that is about it, or a completed
response with an output. -/
def Event.carried (slot : Slot) (data : Event) : Option String :=
  match kind data.event_type with
  | .done (some type_name) =>
    if data.position "output_index" = some slot.output_index ∧
        data.donePlace type_name = some slot.place then
      data.doneText type_name slot.place
    else none
  | .completed => data.finalOutput.map fun output => textOf output slot
  | _ => none

/-- The event adds no text: the item or part that it adds is empty, as the API adds them. -/
def AddsNoText (data : Event) : Prop :=
  match kind data.event_type with
  | .itemAdded => ∀ item ∈ data.object "item", textAt item "arguments" = "" ∧
    ∀ part ∈ listAt item "content" ++ listAt item "summary", textAt (fieldsOf part) "text" = ""
  | .contentPartAdded | .summaryPartAdded => ∀ part ∈ data.object "part", textAt part "text" = ""
  | _ => True

instance (data : Event) : Decidable (AddsNoText data) := by
  unfold AddsNoText
  exact match kind data.event_type with
    | .itemAdded | .contentPartAdded | .summaryPartAdded | .delta _ | .done _ | .itemDone
    | .completed | .failed | .inProgress | .other => inferInstance

/-- Every done event of a slot carries the deltas before it, after an initial text. -/
def Agree (slot : Slot) : String → List Event → Prop
  | _, [] => True
  | text, data :: events => (∀ carried ∈ data.carried slot, carried = text) ∧
    Agree slot (text ++ (data.deltaTo slot).getD "") events

instance Agree.decidable (slot : Slot) :
    (text : String) → (events : List Event) → Decidable (Agree slot text events)
  | _, [] => isTrue trivial
  | text, data :: events =>
    have := Agree.decidable slot (text ++ (data.deltaTo slot).getD "") events
    inferInstanceAs (Decidable (_ ∧ _))

/-! ## Texts of changed items -/

@[simp] theorem placeText_content (item : Item) (k : ℕ) :
    placeText item (.content k) = partText (listAt item "content") k := rfl

@[simp] theorem placeText_summary (item : Item) (k : ℕ) :
    placeText item (.summary k) = partText (listAt item "summary") k := rfl

@[simp] theorem placeText_whole (item : Item) :
    placeText item .whole = textAt item "arguments" := rfl

theorem placeText_set_ne {item : Item} {key : String}
    (h : key ∉ ["content", "summary", "arguments"]) (v : Json) (place : Place) :
    placeText (Assoc.set item key v) place = placeText item place := by
  simp only [List.mem_cons, List.not_mem_nil, or_false, not_or] at h
  cases place with
  | content k => rw [placeText_content, placeText_content, listAt_set_ne (Ne.symm h.1)]
  | summary k => rw [placeText_summary, placeText_summary, listAt_set_ne (Ne.symm h.2.1)]
  | whole => exact textAt_set_ne (Ne.symm h.2.2) v

theorem textAt_set_self (fields : Item) (key : String) (v : Json) :
    textAt (Assoc.set fields key v) key = v.str?.getD "" := by
  unfold textAt
  rw [Assoc.get?_set_self]
  rfl

theorem partText_eq {parts : List Json} {k : ℕ} {fields : Item}
    (h : parts[k]? = some (.dict fields)) : partText parts k = textAt fields "text" := by
  unfold partText
  rw [h]
  rfl

theorem partText_of_none {parts : List Json} {k : ℕ} (h : parts[k]? = none) :
    partText parts k = "" := by
  unfold partText
  rw [h]
  rfl

theorem partText_congr {parts parts' : List Json} {k : ℕ} (h : parts[k]? = parts'[k]?) :
    partText parts k = partText parts' k := by
  unfold partText
  rw [h]

/-- The text of a part after a delta to a part of the list. -/
theorem partText_changeAt {parts : List Json} (hdict : ∀ part ∈ parts, part.isDict = true) (k : ℕ)
    (type key text : String) (j : ℕ) :
    partText (changeAt k (emptyFields type) (appendText key text) parts) j =
      partText parts j ++ if j = k ∧ key = "text" then text else "" := by
  by_cases hj : j = k
  · subst hj
    obtain ⟨fields, hfields, htext⟩ : ∃ fields,
        parts[j]?.getD (.dict (emptyFields type)) = .dict fields ∧
          textAt fields "text" = partText parts j := by
      cases hpart : parts[j]? with
      | none => exact ⟨_, rfl, by rw [partText_of_none hpart]; rfl⟩
      | some v =>
        obtain ⟨fields, rfl⟩ := Json.isDict_eq_true.mp (hdict v (List.mem_of_getElem? hpart))
        exact ⟨fields, rfl, (partText_eq hpart).symm⟩
    have hget : (changeAt j (emptyFields type) (appendText key text) parts)[j]? =
        some (.dict (appendText key text fields)) := by
      rw [getElem?_changeAt, if_pos rfl, hfields]
      rfl
    rw [partText_eq hget, ← htext]
    by_cases hkey : key = "text"
    · subst hkey
      simp
    · rw [if_neg (by simp [hkey]), String.append_empty]
      exact textAt_set_ne (Ne.symm hkey) _
  · rw [if_neg (by simp [hj]), String.append_empty]
    by_cases hlt : j < parts.length
    · apply partText_congr
      rw [getElem?_changeAt, if_neg hj, if_pos hlt]
    · rw [partText_of_none (List.getElem?_eq_none (Nat.le_of_not_lt hlt))]
      by_cases hpad : j < k
      · have hget : (changeAt k (emptyFields type) (appendText key text) parts)[j]? =
            some (.dict (emptyFields type)) := by
          rw [getElem?_changeAt, if_neg hj, if_neg hlt, if_pos hpad]
        rw [partText_eq hget]
        rfl
      · apply partText_of_none
        rw [getElem?_changeAt, if_neg hj, if_neg hlt, if_neg hpad]

/-- Writing the parts leaves the other texts. -/
theorem placeText_set_content {item : Item} (parts : List Json) (place : Place) :
    placeText (Assoc.set item "content" (.list parts)) place =
      match place with
      | .content k => partText parts k
      | _ => placeText item place := by
  cases place with
  | content k => rw [placeText_content, listAt_set_self]
  | summary k =>
    rw [placeText_summary, listAt_set_ne (show "summary" ≠ "content" by simp)]
    rfl
  | whole => exact textAt_set_ne (by simp) _

theorem placeText_set_summary {item : Item} (parts : List Json) (place : Place) :
    placeText (Assoc.set item "summary" (.list parts)) place =
      match place with
      | .summary k => partText parts k
      | _ => placeText item place := by
  cases place with
  | content k =>
    rw [placeText_content, listAt_set_ne (show "content" ≠ "summary" by simp)]
    rfl
  | summary k => rw [placeText_summary, listAt_set_self]
  | whole => exact textAt_set_ne (by simp) _

/-- **The text after a delta.** -/
theorem placeText_deltaChange {data : Event} {delta_type : String} {shape : Shape} {item : Item}
    {place : Place} (hfit : Fit shape item) (hplace : data.place delta_type = some place)
    (haddressed : Addressed shape delta_type place) (place' : Place) :
    placeText (deltaChange data delta_type item) place' = placeText item place' ++
      if place' = place ∧ doneKey delta_type = place.key then data.text else "" := by
  unfold deltaChange
  rw [hplace]
  cases place with
  | content k =>
    obtain ⟨hget, hdict⟩ := hfit.content_list (haddressed.2.imp And.left And.left) haddressed.1
    dsimp only
    rw [changeField_of_list hget, placeText_set_content]
    cases place' with
    | content j => simp [partText_changeAt hdict, Place.key]
    | _ => simp
  | summary k =>
    obtain ⟨hget, hdict⟩ := hfit.summary_list haddressed.2 haddressed.1
    dsimp only
    rw [changeField_of_list hget, placeText_set_summary]
    cases place' with
    | summary j => simp [partText_changeAt hdict, Place.key]
    | _ => simp
  | whole =>
    obtain ⟨-, hkey, -⟩ := haddressed
    simp only [List.mem_cons, List.not_mem_nil, or_false, not_or] at hkey
    dsimp only
    unfold appendText
    by_cases hargs : doneKey delta_type = "arguments"
    · rw [hargs]
      cases place' with
      | whole => simp [textAt_set_self, Place.key, Json.str?]
      | content j => simp [listAt_set_ne (show "content" ≠ "arguments" by simp)]
      | summary j => simp [listAt_set_ne (show "summary" ≠ "arguments" by simp)]
    · rw [placeText_set_ne (by simp [hkey, hargs]), if_neg (fun h => hargs h.2),
        String.append_empty]

/-- Parts without text are added behind the others. -/
theorem partText_append {parts added : List Json}
    (h : ∀ part ∈ added, textAt (fieldsOf part) "text" = "") (k : ℕ) :
    partText (parts ++ added) k = partText parts k := by
  by_cases hlt : k < parts.length
  · exact partText_congr (List.getElem?_append_left hlt)
  · rw [partText_of_none (List.getElem?_eq_none (Nat.le_of_not_lt hlt))]
    unfold partText
    rw [List.getElem?_append_right (Nat.le_of_not_lt hlt)]
    cases hpart : added[k - parts.length]? with
    | none => rfl
    | some part => exact h part (List.mem_of_getElem? hpart)

theorem placeText_addTo {field : String} (hfield : field ∈ ["content", "summary"])
    {added : List Json} (h : ∀ part ∈ added, textAt (fieldsOf part) "text" = "") (item : Item)
    (place : Place) : placeText (addTo field added item) place = placeText item place := by
  unfold addTo
  simp only [List.mem_cons, List.not_mem_nil, or_false] at hfield
  rcases hfield with rfl | rfl
  · rw [placeText_set_content]
    cases place with
    | content k => exact partText_append h k
    | _ => rfl
  · rw [placeText_set_summary]
    cases place with
    | summary k => exact partText_append h k
    | _ => rfl

/-- A part that is written has its text. -/
theorem partText_set (parts : List Json) (k : ℕ) (part : Item) (j : ℕ)
    (h : j = k → textAt part "text" = partText parts k) :
    partText (parts.set k (.dict part)) j = partText parts j := by
  by_cases hj : j = k
  · subst hj
    by_cases hlt : j < parts.length
    · rw [partText_eq (List.getElem?_set_self hlt), h rfl]
    · rw [List.set_eq_of_length_le (Nat.le_of_not_lt hlt)]
  · exact partText_congr (List.getElem?_set_ne (Ne.symm hj))

/-- A final value that is the text already. -/
theorem partText_modify {parts : List Json} (hdict : ∀ part ∈ parts, part.isDict = true) (k : ℕ)
    (key : String) (v : Json) (j : ℕ)
    (h : j = k → key = "text" → v.str?.getD "" = partText parts k) :
    partText (parts.modify k (onObject fun part => Assoc.set part key v)) j = partText parts j := by
  by_cases hj : j = k
  · subst hj
    cases hpart : parts[j]? with
    | none => rw [List.modify_eq_self (List.getElem?_eq_none_iff.mp hpart)]
    | some part =>
      obtain ⟨fields, rfl⟩ := Json.isDict_eq_true.mp (hdict part (List.mem_of_getElem? hpart))
      have hget : (parts.modify j (onObject fun part => Assoc.set part key v))[j]? =
          some (.dict (Assoc.set fields key v)) := by
        rw [List.getElem?_modify_eq, hpart]
        rfl
      rw [partText_eq hget, partText_eq hpart]
      by_cases hkey : key = "text"
      · rw [hkey, textAt_set_self, h rfl hkey, partText_eq hpart]
      · exact textAt_set_ne (Ne.symm hkey) v
  · exact partText_congr (List.getElem?_modify_ne _ _ (Ne.symm hj))

/-- Where the texts of a list stay, those of the item do. -/
theorem placeText_changeField {item : Item} {field : String}
    (hfield : field ∈ ["content", "summary"]) {g : List Json → List Json} (place : Place)
    (h : ∀ parts k, Assoc.get? item field = some (.list parts) →
      place = (if field = "content" then .content k else .summary k) →
      partText (g parts) k = partText parts k) :
    placeText (changeField field g item) place = placeText item place := by
  rcases list_or_same item field with ⟨parts, hparts⟩ | hsame
  · rw [changeField_of_list hparts]
    simp only [List.mem_cons, List.not_mem_nil, or_false] at hfield
    rcases hfield with rfl | rfl
    · rw [placeText_set_content]
      cases place with
      | content k =>
        rw [placeText_content, listAt_of_get? hparts]
        exact h parts k hparts rfl
      | _ => rfl
    · rw [placeText_set_summary]
      cases place with
      | summary k =>
        rw [placeText_summary, listAt_of_get? hparts]
        exact h parts k hparts rfl
      | _ => rfl
  · rw [hsame item rfl]

/-- **The text after a done event that carries it.** -/
theorem placeText_doneChange {data : Event} {type_name : String} {shape : Shape} {item : Item}
    (hfit : Fit shape item) (hproper : DoneAddressed shape data type_name) (place : Place)
    (h : data.donePlace type_name = some place →
      ∀ text ∈ data.doneText type_name place, text = placeText item place) :
    placeText (doneChange data type_name item) place = placeText item place := by
  unfold DoneAddressed at hproper
  unfold Event.donePlace Event.doneText at h
  unfold doneChange
  split_ifs with hskip hcontent hsummary
  · rfl
  · rw [if_pos hcontent] at hproper h
    obtain ⟨-, hk, part, hpart, -⟩ := hproper
    obtain ⟨k, hk⟩ := Option.isSome_iff_exists.mp hk
    unfold replacePart
    rw [hk, Option.mem_def.mp hpart] at h ⊢
    refine placeText_changeField (by simp) place fun parts j hget hplace => ?_
    refine partText_set parts k part j fun hj => ?_
    subst hplace hj
    have := h rfl (textAt part "text") (by simp [hcontent])
    rw [this, if_pos rfl, placeText_content, listAt_of_get? hget]
  · rw [if_neg hcontent, if_pos hsummary] at hproper h
    obtain ⟨-, hk, part, hpart, -⟩ := hproper
    obtain ⟨k, hk⟩ := Option.isSome_iff_exists.mp hk
    unfold replacePart
    rw [hk, Option.mem_def.mp hpart] at h ⊢
    refine placeText_changeField (by simp) place fun parts j hget hplace => ?_
    refine partText_set parts k part j fun hj => ?_
    subst hplace hj
    have := h rfl (textAt part "text") (by simp [hsummary])
    rw [this, if_neg (by simp), placeText_summary, listAt_of_get? hget]
  · rw [if_neg hcontent, if_neg hsummary] at hproper h
    obtain ⟨⟨place', hplace', haddressed⟩, hstr⟩ := hproper
    rw [Option.mem_def] at hplace'
    cases hfinal : Assoc.get? data.fields (doneKey type_name) with
    | none => rfl
    | some final_value =>
      rw [hplace', hfinal, if_neg (by simp [hcontent, hsummary])] at h
      -- the text carried for the place, where the event is about it
      have hcarried (hp : place = place') (hkey : doneKey type_name = place.key) :
          final_value.str?.getD "" = placeText item place :=
        h (by rw [hp]) _ (by rw [if_pos hkey]; rfl)
      unfold finalChange
      dsimp only
      rw [hplace']
      split_ifs with hreasoning
      · exact placeText_set_ne (by simp) _ place
      · cases place' with
        | content k =>
          refine placeText_changeField (by simp) place fun parts j hget hplace => ?_
          have htype := haddressed.2.imp And.left And.left
          obtain ⟨parts', hparts', hdict⟩ := hfit.shaped.list (hfit.hasParts.mpr htype)
            (show "content" ∈ ["content", "summary"] by simp) hget
          cases hparts'
          refine partText_modify hdict k _ _ j fun hj hkey => ?_
          subst hplace hj
          rw [hcarried rfl hkey, if_pos rfl, placeText_content, listAt_of_get? hget]
        | summary k => rfl
        | whole =>
          have hkeys := haddressed.2.1
          simp only [List.mem_cons, List.not_mem_nil, or_false, not_or] at hkeys
          by_cases hkey : doneKey type_name = "arguments"
          · rw [hkey]
            cases place with
            | content j =>
              rw [placeText_content, listAt_set_ne (show "content" ≠ "arguments" by simp)]
              rfl
            | summary j =>
              rw [placeText_summary, listAt_set_ne (show "summary" ≠ "arguments" by simp)]
              rfl
            | whole =>
              rw [placeText_whole, textAt_set_self]
              exact hcarried rfl hkey
          · exact placeText_set_ne (by simp [hkeys, hkey]) _ place

theorem placeText_markCompleted (item : Item) (place : Place) :
    placeText (markCompleted item) place = placeText item place := by
  unfold markCompleted
  split
  · exact placeText_set_ne (by simp) _ place
  · rfl

/-! ## Texts of the output -/

theorem textOf_map_markCompleted (output : List Item) (slot : Slot) :
    textOf (output.map markCompleted) slot = textOf output slot := by
  unfold textOf
  rw [List.getElem?_map]
  cases output[slot.output_index]? with
  | none => rfl
  | some item => exact placeText_markCompleted item slot.place

/-- A change of one item. -/
theorem textOf_modify {output : List Item} {i : ℕ} {g : Item → Item} {slot : Slot}
    (h : ∀ item, output[i]? = some item → slot.output_index = i →
      placeText (g item) slot.place = placeText item slot.place) :
    textOf (output.modify i g) slot = textOf output slot := by
  unfold textOf
  by_cases hi : slot.output_index = i
  · rw [hi, List.getElem?_modify_eq]
    cases hitem : output[i]? with
    | none => rfl
    | some item => exact h item hitem hi
  · rw [List.getElem?_modify_ne _ _ (Ne.symm hi)]

/-- An item without text. -/
theorem textOf_append {output : List Item} {item : Item}
    (harguments : textAt item "arguments" = "")
    (hparts : ∀ part ∈ listAt item "content" ++ listAt item "summary",
      textAt (fieldsOf part) "text" = "") (slot : Slot) :
    textOf (output ++ [item]) slot = textOf output slot := by
  rw [List.forall_mem_append] at hparts
  have hempty : placeText item slot.place = "" := by
    cases slot.place with
    | content k => exact (partText_append hparts.1 k).trans (partText_of_none List.getElem?_nil)
    | summary k => exact (partText_append hparts.2 k).trans (partText_of_none List.getElem?_nil)
    | whole => exact harguments
  unfold textOf
  by_cases hlt : slot.output_index < output.length
  · rw [List.getElem?_append_left hlt]
  · rw [List.getElem?_append_right (Nat.le_of_not_lt hlt),
      List.getElem?_eq_none (Nat.le_of_not_lt hlt)]
    cases slot.output_index - output.length with
    | zero => exact hempty
    | succ n => rfl

theorem added_noText {data : Event} (h : ∀ part ∈ data.object "part", textAt part "text" = "") :
    ∀ part ∈ data.added, textAt (fieldsOf part) "text" = "" := by
  intro part hpart
  unfold Event.added at hpart
  rw [Option.mem_toList, Option.map_eq_some_iff] at hpart
  obtain ⟨fields, hfields, rfl⟩ := hpart
  exact h fields hfields

/-- The text after a delta, over the output. -/
theorem textOf_delta {data : Event} {shapes : List Shape} {output : List Item} {slot : Slot}
    (hdelta : data.isDelta = true) (hproper : Proper shapes data) (hfits : Fits shapes output) :
    textOf (effect data output) slot = textOf output slot ++ (data.deltaTo slot).getD "" := by
  obtain ⟨delta_type, i, place, shape, hkind, hi, hplace, hslot, hshape, haddressed⟩ :=
    exists_slot hdelta hproper
  obtain ⟨item, hitem, hfit⟩ := hfits.exists_item hshape
  rw [effect_of_position (by simp [hkind]) (by simp [hkind]) hi, change_of_delta hkind]
  unfold Event.deltaTo
  rw [hkind, hslot]
  dsimp only
  obtain ⟨j, place'⟩ := slot
  by_cases hj : j = i
  · subst hj
    unfold textOf
    rw [List.getElem?_modify_eq, hitem]
    refine (placeText_deltaChange hfit hplace haddressed place').trans ?_
    by_cases hplaces : place' = place
    · subst hplaces
      split_ifs with h h' <;> simp_all
    · rw [if_neg fun h => hplaces h.1, if_neg (by simp [Ne.symm hplaces])]
      rfl
  · rw [if_neg (by simp [Ne.symm hj])]
    unfold textOf
    rw [List.getElem?_modify_ne _ _ (Ne.symm hj)]
    simp

/-- **Step lemma.** A proper event adds its delta to the text of a slot, where it adds no other text
and carries no text but this one. -/
theorem textOf_effect {data : Event} {shapes : List Shape} {output : List Item} {slot : Slot}
    (hproper : Proper shapes data) (hfits : Fits shapes output) (hadds : AddsNoText data)
    (hcarried : ∀ text ∈ data.carried slot, text = textOf output slot) :
    textOf (effect data output) slot = textOf output slot ++ (data.deltaTo slot).getD "" := by
  have hnone (hdelta : data.deltaTo slot = none)
      (hsame : textOf (effect data output) slot = textOf output slot) :
      textOf (effect data output) slot = textOf output slot ++ (data.deltaTo slot).getD "" := by
    rw [hdelta, hsame]
    simp
  have hproper' := hproper
  unfold Proper at hproper
  unfold AddsNoText at hadds
  unfold Event.carried at hcarried
  cases hkind : kind data.event_type with
  | itemAdded =>
    refine hnone (by unfold Event.deltaTo; rw [hkind]) ?_
    rw [hkind] at hproper hadds
    obtain ⟨-, item, hitem, -⟩ := hproper
    obtain ⟨harguments, hparts⟩ := hadds item hitem
    unfold effect
    rw [hkind, Option.mem_def.mp hitem]
    exact textOf_append harguments hparts slot
  | contentPartAdded =>
    refine hnone (by unfold Event.deltaTo; rw [hkind]) ?_
    rw [hkind] at hproper hadds
    obtain ⟨i, hi, -⟩ := hproper
    rw [effect_of_position (by simp [hkind]) (by simp [hkind]) hi]
    refine textOf_modify fun item hitem _ => ?_
    unfold change
    rw [hkind]
    refine placeText_addTo (by simp) (fun part hpart => ?_) item slot.place
    split at hpart
    · cases hpart
    · exact added_noText hadds part hpart
  | summaryPartAdded =>
    refine hnone (by unfold Event.deltaTo; rw [hkind]) ?_
    rw [hkind] at hproper hadds
    obtain ⟨i, hi, -⟩ := hproper
    rw [effect_of_position (by simp [hkind]) (by simp [hkind]) hi]
    refine textOf_modify fun item hitem _ => ?_
    unfold change
    rw [hkind]
    exact placeText_addTo (by simp) (added_noText hadds) item slot.place
  | delta delta_type =>
    cases delta_type with
    | none =>
      rw [hkind] at hproper
      exact hproper.elim
    | some delta_type =>
      refine textOf_delta ?_ hproper' hfits
      unfold Event.isDelta
      rw [hkind]
  | done type_name =>
    refine hnone (by unfold Event.deltaTo; rw [hkind]) ?_
    cases type_name with
    | none =>
      rw [effect_of_idle (by simp [hkind])]
    | some type_name =>
      rw [hkind] at hproper hcarried
      have hchange := change_of_done hkind
      rcases hproper with hskip | ⟨i, hi, shape, hshape, haddressed⟩
      · rw [effect_eq_self (by simp [hkind]) (by simp [hkind]) (hchange.trans (if_pos hskip))]
      · rw [effect_of_position (by simp [hkind]) (by simp [hkind]) hi, hchange]
        refine textOf_modify fun item hitem hslot => ?_
        refine placeText_doneChange (hfits.fit i shape item hshape hitem) haddressed slot.place
          fun hplace text htext => ?_
        rw [hcarried text (by dsimp only; rw [if_pos ⟨hslot ▸ hi, hplace⟩]; exact htext)]
        unfold textOf
        rw [hslot, hitem]
  | itemDone =>
    rw [hkind] at hproper
    exact hproper.elim
  | completed =>
    refine hnone (by unfold Event.deltaTo; rw [hkind]) ?_
    rw [hkind] at hcarried
    unfold effect
    rw [hkind]
    dsimp only
    rw [textOf_map_markCompleted]
    cases hfinal : data.finalOutput with
    | none => rfl
    | some items => exact hcarried _ (by rw [hfinal]; rfl)
  | inProgress =>
    refine hnone (by unfold Event.deltaTo; rw [hkind]) ?_
    rw [effect_of_idle (by simp [hkind])]
  | failed =>
    refine hnone (by unfold Event.deltaTo; rw [hkind]) ?_
    rw [effect_of_idle (by simp [hkind])]
  | other =>
    refine hnone (by unfold Event.deltaTo; rw [hkind]) ?_
    rw [effect_of_idle (by simp [hkind])]

/-! ## Streams -/

/-- **Run lemma.** A sequence of proper events is handled, and the text of a slot is what it was,
followed by the deltas of the slot in order, where done events carry no other text. -/
theorem exec_next_of_properFrom {conv : Conversions} {shapes : List Shape} {output : List Item}
    {events : List Event} (hfits : Fits shapes output) (hproper : ProperFrom shapes events) :
    ∃ output', Transition.exec (next conv) output events = some output' ∧
      Fits (events.foldl track shapes) output' ∧
      ∀ slot, (∀ data ∈ events, AddsNoText data) → Agree slot (textOf output slot) events →
        textOf output' slot = textOf output slot ++ String.join (deltasTo slot events) := by
  induction events generalizing shapes output with
  | nil => exact ⟨output, rfl, hfits, fun slot _ _ => by simp [deltasTo]⟩
  | cons data events ih =>
    obtain ⟨hdata, hevents⟩ := hproper
    obtain ⟨output', hexec, hfits', htexts⟩ := ih (fits_effect hdata hfits) hevents
    refine ⟨output', ?_, hfits', fun slot hadds hagree => ?_⟩
    · rw [Transition.exec_cons, next_eq hdata hfits]
      exact hexec
    · rw [List.forall_mem_cons] at hadds
      have hstep := textOf_effect hdata hfits hadds.1 hagree.1
      rw [htexts slot hadds.2 (hstep ▸ hagree.2), hstep]
      unfold deltasTo
      rw [List.filterMap_cons]
      cases data.deltaTo slot with
      | none => simp
      | some text => simp [String.append_assoc]

/-- Done events and completed responses. -/
def Event.isDone (data : Event) : Bool :=
  match kind data.event_type with
  | .done _ => true
  | .completed => true
  | _ => false

/-- **Streams of a response.** From an output of items as the API sends them, every sequence of
proper events is handled without an exception, and another interleaving of its deltas gives the same
output. The text of every part and the arguments of every call are their deltas in order, if they
are added empty and the done events on the way carry this text; and a later done event that carries
the text of a slot leaves it. -/
theorem streamed_output (conv : Conversions) (output : List Item)
    (hshaped : ∀ item ∈ output, Shaped item) (events events' : List Event)
    (hproper : ProperFrom (output.map shapeOf) events)
    (hproper' : ProperFrom (output.map shapeOf) events') (h : Reordered events events') :
    ∃ output', Transition.exec (next conv) output events = some output' ∧
      Transition.exec (next conv) output events' = some output' ∧
      (∀ slot, (∀ data ∈ events, AddsNoText data) → Agree slot (textOf output slot) events →
        textOf output' slot = textOf output slot ++ String.join (deltasTo slot events)) ∧
      ∀ data, data.isDone = true → Proper (events.foldl track (output.map shapeOf)) data →
        ∃ output'', next conv output' data = some output'' ∧
          ∀ slot, (∀ text ∈ data.carried slot, text = textOf output' slot) →
            textOf output'' slot = textOf output' slot := by
  have hfits := fits_map_shapeOf hshaped
  obtain ⟨output', hexec, hfits', htexts⟩ := @exec_next_of_properFrom conv _ _ _ hfits hproper
  refine ⟨output', hexec, ?_, htexts, fun data hdone hdata => ?_⟩
  · rw [← exec_next_reordered hfits hproper hproper' h, hexec]
  · refine ⟨effect data output', next_eq hdata hfits', fun slot hcarried => ?_⟩
    have hadds : AddsNoText data := by
      unfold AddsNoText
      unfold Event.isDone at hdone
      split at hdone <;> simp_all
    have hdelta : data.deltaTo slot = none := by
      unfold Event.deltaTo
      unfold Event.isDone at hdone
      split at hdone <;> simp_all
    rw [textOf_effect hdata hfits' hadds hcarried, hdelta]
    simp

/-- An event about an item, with one more field. -/
def itemEvent (event_type : String) (output_index : ℤ) (key : String) (v : Json)
    (h : key ∉ ["type", "output_index", "content_index", "summary_index"]) : Event where
  fields := [("type", .str event_type), ("output_index", .int output_index), (key, v)]
  typed := by simp [Assoc.get?]
  indexed := by
    simp only [List.mem_cons, List.not_mem_nil, or_false, not_or] at h
    simp [Assoc.get?, h]

/-- An event about a content part, with one more field. -/
def partEvent (event_type : String) (output_index content_index : ℤ) (key : String) (v : Json)
    (h : key ∉ ["type", "output_index", "content_index", "summary_index"]) : Event where
  fields := [("type", .str event_type), ("output_index", .int output_index),
    ("content_index", .int content_index), (key, v)]
  typed := by simp [Assoc.get?]
  indexed := by
    simp only [List.mem_cons, List.not_mem_nil, or_false, not_or] at h
    simp [Assoc.get?, h]

/-- A message with one part, and a call. -/
def addedEvents : List Event :=
  [itemEvent "response.output_item.added" 0 "item"
      (.dict [("type", .str "message"), ("content", .list [])]) (by decide),
    partEvent "response.content_part.added" 0 0 "part"
      (.dict [("type", .str "output_text"), ("text", .str "")]) (by decide),
    itemEvent "response.output_item.added" 1 "item"
      (.dict [("type", .str "function_call"), ("arguments", .str "")]) (by decide)]

/-- A text of the message, and the text as it is when it is done. -/
def textEvents : List Event :=
  [partEvent "response.output_text.delta" 0 0 "delta" (.str "Hel") (by decide),
    partEvent "response.output_text.delta" 0 0 "delta" (.str "lo") (by decide),
    partEvent "response.output_text.done" 0 0 "text" (.str "Hello") (by decide)]

/-- The arguments of the call. -/
def argumentEvents : List Event :=
  [itemEvent "response.function_call_arguments.delta" 1 "delta" (.str "[") (by decide),
    itemEvent "response.function_call_arguments.delta" 1 "delta" (.str "]") (by decide)]

/-- The text first or the arguments first, the text of the message is `Hello`. -/
theorem streamed_output_hello :
    ∃ output', Transition.exec (next plainConversions) []
          (addedEvents ++ textEvents ++ argumentEvents) = some output' ∧
      Transition.exec (next plainConversions) []
          (addedEvents ++ argumentEvents ++ textEvents) = some output' ∧
      textOf output' ⟨0, .content 0⟩ = "Hello" ∧ textOf output' ⟨1, .whole⟩ = "[]" := by
  obtain ⟨output', hexec, hexec', htexts, -⟩ := streamed_output plainConversions [] (by simp)
    (addedEvents ++ textEvents ++ argumentEvents) (addedEvents ++ argumentEvents ++ textEvents)
    (by decide) (by decide) (by decide)
  refine ⟨output', hexec, hexec', ?_, ?_⟩
  · rw [htexts ⟨0, .content 0⟩ (by decide) (by decide)]
    decide
  · rw [htexts ⟨1, .whole⟩ (by decide) (by decide)]
    decide

end OpenLaunch.Responses
