import OpenLaunch.Responses.Handler

/-! # When is an event handled?

An event is handled if the function returns an output list and metadata, leaves the list passed in
as it is, and changes nothing where the event refers to a position that does not exist. Every branch
has its own conditions for this; they are about the event and the item it refers to. -/

namespace OpenLaunch.Responses

open Python

/-! ## Positions that do not exist -/

/-- Where a delta goes: the field of the item with the list of parts, the position in it, and what
the delta does to the part. -/
structure PartTarget where
  field : String
  index : ℤ
  update : Item → Item

/-- The part that a delta goes to, if it goes to one. -/
def partTarget (data : Event) (delta_type : String) (item : Item) : Option PartTarget :=
  let delta := data.get "delta" (.str "")
  if delta_type = "function_call_arguments" then none
  else if itemType item = .str "message" then
    if delta_type = "reasoning_text" ∨ delta_type = "reasoning_summary_text" then none
    else some ⟨"content", data.index "content_index" 0, mergeField (deltaKey delta_type) delta⟩
  else if itemType item = .str "reasoning" then
    if delta_type = "reasoning_summary_text" then
      some ⟨"summary", data.index "summary_index" 0, mergeText delta⟩
    else if delta_type = "reasoning_text" then
      some ⟨"content", data.index "content_index" 0, mergeText delta⟩
    else none
  else none

/-- No part of the list in a field is at a position. -/
def NoPart (item : Item) (field : String) (index : ℕ → ℤ) : Prop :=
  ∀ parts, copiedList item field = .ok parts →
    ¬ (0 ≤ index parts.length ∧ index parts.length < parts.length)

/-- **The event refers to a position that does not exist, and does not create it.** A delta creates
the parts up to its position. -/
def Missing (data : Event) (current_output : List Item) : Prop :=
  match kind data.event_type with
  | .contentPartAdded | .summaryPartAdded => located data current_output = none
  | .delta (some delta_type) =>
    ∀ i item, located data current_output = some (i, item) →
      ∃ target, partTarget data delta_type item = some target ∧ target.index < 0
  | .done (some type_name) =>
    ∀ i item, located data current_output = some (i, item) →
      if type_name = "content_part" then
        NoPart item "content" fun n => data.index "content_index" (n - 1)
      else if type_name = "reasoning_summary_part" then
        NoPart item "summary" fun n => data.index "summary_index" (n - 1)
      else type_name ∉ ["output_item", "completed", "failed", "function_call_arguments"] ∧
        itemType item = .str "message" ∧
        NoPart item "content" fun _ => data.index "content_index" 0
  | _ => False

/-- **The event is handled.** -/
def Atomic (conv : Conversions) (data : Event) (current_output : List Item) : Prop :=
  ∃ new_output metadata,
    handle_responses_streaming_event conv data current_output =
        (.ok (some (ofItems new_output, metadata)), current_output) ∧
      (Missing data current_output → new_output = current_output)

/-! ## The conditions -/

/-- The part at a position can be changed: the position is not negative, and there is an object or
nothing; or it is negative, Python finds an object there, and the change does nothing. -/
def EditFits (parts : List Json) (index : ℤ) (update : Item → Item) : Prop :=
  (0 ≤ index ∧ ∀ part, parts[index.toNat]? = some part → part.isDict = true) ∨
    index < 0 ∧ ∃ i part, pyIndex parts.length index = some i ∧ parts[i]? = some (.dict part) ∧
      update part = part

/-- A delta fits the item: the parts are a list, and the part at the position can be changed; the
arguments of a call are a string. -/
def DeltaFits (data : Event) (delta_type : String) (item : Item) : Prop :=
  (∀ target, partTarget data delta_type item = some target →
    ∃ parts, copiedList item target.field = .ok parts ∧ EditFits parts target.index target.update) ∧
  (delta_type = "function_call_arguments" → itemType item = .str "function_call" →
    ((Assoc.get? item "arguments").getD (.str "")).isStr = true)

/-- A field is missing or can be read as a list. -/
def Listed (item : Item) (field : String) : Prop := ∃ parts, copiedList item field = .ok parts

/-- A done event fits the item: of a message the parts are missing or a list, and the part at the
position can be changed. -/
def DoneFits (data : Event) (type_name : String) (item : Item) : Prop :=
  ∀ final_value content, Assoc.get? data.fields (doneKey type_name) = some final_value →
    type_name ≠ "function_call_arguments" → itemType item = .str "message" →
    Assoc.get? item "content" = some content →
    ∃ parts, content = .list parts ∧
      EditFits parts (data.index "content_index" 0) fun part =>
        Assoc.set part (doneKey type_name) final_value

/-- The response of an event has a list of objects as its output; or it has none, and no reasoning
item is left that is not completed. -/
def OutputFits (response : Json) (current_output : List Item) : Prop :=
  ∃ fields, response = .dict fields ∧
    (((Assoc.get? fields "output").getD .null = .null ∧
        ∀ item ∈ current_output, markCompleted item = item) ∨
      ∃ items : List Item, Assoc.get? fields "output" = some (ofItems items))

/-- **When an event is handled.** -/
def Handled (data : Event) (current_output : List Item) : Prop :=
  match kind data.event_type with
  | .itemAdded =>
    (data.get "item" (.dict [])).truthy = true → (data.get "item" (.dict [])).isDict = true
  | .contentPartAdded =>
    ∀ i item, located data current_output = some (i, item) → Listed item "content"
  | .summaryPartAdded =>
    ∀ i item, located data current_output = some (i, item) → Listed item "summary"
  | .delta none => False
  | .delta (some delta_type) =>
    ∃ i item, located data current_output = some (i, item) ∧ DeltaFits data delta_type item
  | .done (some type_name) =>
    ∀ i item, located data current_output = some (i, item) →
      if type_name = "content_part" then
        (data.get "part" .null).truthy = true → Listed item "content"
      else if type_name = "reasoning_summary_part" then
        (data.get "part" .null).truthy = true → Listed item "summary"
      else type_name ∉ ["output_item", "completed", "failed"] → DoneFits data type_name item
  | .completed => OutputFits (data.get "response" (.dict [])) current_output
  | .failed => (data.get "response" (.dict [])).isDict = true
  | _ => True

/-! ## Lists of parts -/

theorem ofItems_inj {items items' : List Item} :
    ofItems items = ofItems items' ↔ items = items' := by
  unfold ofItems
  rw [Json.list.injEq]
  exact (List.map_injective_iff.mpr fun _ _ => Json.dict.inj).eq_iff

theorem raising_eq_ok {α : Type} {r : Except PyErr α} {a : α} :
    raising r = .ok a ↔ r = .ok a := by
  cases r <;> simp [raising, Except.mapError]

theorem getElem?_of_located {data : Event} {current_output : List Item} {i : ℕ} {item : Item}
    (h : located data current_output = some (i, item)) : current_output[i]? = some item := by
  unfold located at h
  dsimp only at h
  split at h
  · obtain ⟨item', hitem, heq⟩ := Option.map_eq_some_iff.mp h
    cases heq
    exact hitem
  · cases h

/-- Writing a field changes nothing exactly where the field has the value. -/
theorem set_eq_self_iff {item : Item} {key : String} {v : Json} :
    Assoc.set item key v = item ↔ Assoc.get? item key = some v := by
  constructor
  · intro h
    rw [← h, Assoc.get?_set, if_pos rfl]
  · exact Assoc.set_of_get?

/-- Replacing the item at a position changes nothing exactly where it is the item itself. -/
theorem set_items_eq_self_iff {items : List Item} {i : ℕ} {item item' : Item}
    (h : items[i]? = some item) : items.set i item' = items ↔ item' = item := by
  obtain ⟨hi, rfl⟩ := List.getElem?_eq_some_iff.mp h
  constructor
  · intro heq
    have := List.getElem_set_self (i := i) (a := item') (by simpa using hi)
    simp only [heq] at this
    exact this.symm
  · rintro rfl
    exact List.set_getElem_self hi

/-- Only a list has objects among what it is read as. -/
theorem list_of_iter {v : Json} {parts : List Json} (h : v.iter = .ok parts) {i : ℕ} {part : Item}
    (hpart : parts[i]? = some (.dict part)) : v = .list parts := by
  have hmem := List.mem_of_getElem? hpart
  cases v with
  | list xs =>
    cases h
    rfl
  | str s =>
    cases h
    simp at hmem
  | dict kvs =>
    cases h
    simp at hmem
  | _ => cases h

theorem pyIndex_of_nonneg {n : ℕ} {i : ℤ} (h : 0 ≤ i) (hlt : i < n) :
    pyIndex n i = some i.toNat := if_pos ⟨h, hlt⟩

/-- Changing a part that fits. -/
theorem editPart_eq_ok {parts : List Json} {index : ℤ} {e : PyErr} {update : Item → Item}
    {parts' : List Json} : editPart parts index e update = .ok parts' ↔
      ∃ i part, pyIndex parts.length index = some i ∧ parts[i]? = some (.dict part) ∧
        parts' = parts.set i (.dict (update part)) := by
  unfold editPart
  cases hindex : pyIndex parts.length index with
  | none => simp
  | some i =>
    simp only [Option.some.injEq, exists_eq_left', exists_and_left, ↓existsAndEq, true_and]
    cases hpart : parts[i]? with
    | none => simp
    | some part =>
      cases part with
      | dict fields => simp [eq_comm]
      | _ => simp

/-- A position that is not negative can be changed in the list that is filled up to it. -/
theorem exists_editPart_of_nonneg {parts : List Json} {index : ℤ} {padding : Item}
    {update : Item → Item} {e : PyErr} (h : 0 ≤ index) :
    (∃ parts', editPart (parts ++ List.replicate (index + 1 - parts.length).toNat (.dict padding))
        index e update = .ok parts') ↔
      ∀ part, parts[index.toNat]? = some part → part.isDict = true := by
  have hlength : (parts ++ List.replicate (index + 1 - parts.length).toNat
      (Json.dict padding)).length = max parts.length (index.toNat + 1) := by
    rw [List.length_append, List.length_replicate]
    omega
  have hindex : pyIndex (parts ++ List.replicate (index + 1 - parts.length).toNat
      (Json.dict padding)).length index = some index.toNat :=
    pyIndex_of_nonneg h (by rw [hlength]; omega)
  simp only [editPart_eq_ok, hindex, Option.some.injEq]
  constructor
  · rintro ⟨-, i, part, rfl, hpart, -⟩ part' hpart'
    rw [List.getElem?_append_left (List.getElem?_eq_some_iff.mp hpart').1, hpart'] at hpart
    cases hpart
    rfl
  · intro hdict
    by_cases hlt : index.toNat < parts.length
    · have hpart := List.getElem?_eq_getElem hlt
      obtain ⟨fields, hfields⟩ := Json.isDict_eq_true.mp (hdict _ hpart)
      refine ⟨_, _, fields, rfl, ?_, rfl⟩
      rw [List.getElem?_append_left hlt, hpart, hfields]
    · refine ⟨_, _, padding, rfl, ?_, rfl⟩
      rw [List.getElem?_append_right (by omega), List.getElem?_replicate, if_pos (by omega)]

/-- A negative position can be changed without effect. -/
theorem editPart_self_iff {parts : List Json} {index : ℤ} {update : Item → Item} {e : PyErr} :
    editPart parts index e update = .ok parts ↔
      ∃ i part, pyIndex parts.length index = some i ∧ parts[i]? = some (.dict part) ∧
        update part = part := by
  rw [editPart_eq_ok]
  refine exists_congr fun i => exists_congr fun part => and_congr_right fun _ =>
    and_congr_right fun hpart => ?_
  obtain ⟨hi, hget⟩ := List.getElem?_eq_some_iff.mp hpart
  constructor
  · intro h
    have hset := List.getElem_set_self (i := i) (a := Json.dict (update part)) (by simpa using hi)
    simp only [← h, hget] at hset
    exact (Json.dict.inj hset).symm
  · intro h
    rw [h, ← hget]
    exact (List.set_getElem_self hi).symm

/-- **A delta changes a part exactly where it fits**; at a negative position this must not change
the item. -/
theorem deltaPart_fits_iff {field : String} {index : ℤ} {padding : Item} {update : Item → Item}
    {item : Item} :
    (∃ item', deltaPart field index (.dict padding) update item = .ok item' ∧
        (index < 0 → item' = item)) ↔
      ∃ parts, copiedList item field = .ok parts ∧ EditFits parts index update := by
  constructor
  · rintro ⟨item', h, hsame⟩
    obtain ⟨parts, hparts, h⟩ := bind_eq_ok.mp h
    obtain ⟨parts', hparts', h⟩ := bind_eq_ok.mp h
    cases h
    refine ⟨parts, hparts, ?_⟩
    by_cases hneg : index < 0
    · -- nothing is filled up, and what is written is what was there
      have hpad : (index + 1 - (parts.length : ℤ)).toNat = 0 := by omega
      rw [hpad, List.replicate_zero, List.append_nil] at hparts'
      have hget := set_eq_self_iff.mp (hsame hneg)
      unfold copiedList at hparts
      rw [hget] at hparts
      cases hparts
      exact Or.inr ⟨hneg, editPart_self_iff.mp hparts'⟩
    · exact Or.inl ⟨by omega, (exists_editPart_of_nonneg (by omega)).mp ⟨parts', hparts'⟩⟩
  · rintro ⟨parts, hparts, hfits⟩
    rcases hfits with ⟨hpos, hdict⟩ | ⟨hneg, i, part, hindex, hpart, hsame⟩
    · obtain ⟨parts', hparts'⟩ :=
        (@exists_editPart_of_nonneg parts index padding update .attributeError hpos).mpr hdict
      refine ⟨Assoc.set item field (.list parts'), ?_, fun h => by omega⟩
      exact bind_eq_ok.mpr ⟨parts, hparts, bind_eq_ok.mpr ⟨parts', hparts', rfl⟩⟩
    · have hpad : (index + 1 - (parts.length : ℤ)).toNat = 0 := by omega
      have hedit : editPart (parts ++ List.replicate (index + 1 - parts.length).toNat
          (Json.dict padding)) index .attributeError update = .ok parts := by
        rw [hpad, List.replicate_zero, List.append_nil]
        exact editPart_self_iff.mpr ⟨i, part, hindex, hpart, hsame⟩
      have hget : Assoc.get? item field = some (.list parts) := by
        unfold copiedList at hparts
        cases hfield : Assoc.get? item field with
        | none =>
          rw [hfield] at hparts
          cases hparts
          simp at hpart
        | some v =>
          rw [hfield] at hparts
          rw [list_of_iter (raising_eq_ok.mp hparts) hpart]
      refine ⟨Assoc.set item field (.list parts), ?_, fun _ => set_eq_self_iff.mpr hget⟩
      exact bind_eq_ok.mpr ⟨parts, hparts, bind_eq_ok.mpr ⟨parts, hedit, rfl⟩⟩

/-! ## Deltas -/

/-- A delta that goes to a part is a change of the part. -/
theorem deltaItem_of_target {conv : Conversions} {data : Event} {delta_type : String} {item : Item}
    {target : PartTarget} (h : partTarget data delta_type item = some target) :
    delta_type ≠ "function_call_arguments" ∧ ∃ padding : Item,
      deltaItem conv data delta_type item =
        deltaPart target.field target.index (.dict padding) target.update item := by
  unfold partTarget at h
  unfold deltaItem
  dsimp only at h ⊢
  split at h
  · cases h
  · next harguments =>
    refine ⟨harguments, ?_⟩
    rw [if_neg harguments]
    split at h
    · next hmessage =>
      rw [if_pos hmessage]
      split at h
      · cases h
      · next htype =>
        cases h
        rw [if_neg htype]
        exact ⟨_, rfl⟩
    · next hmessage =>
      rw [if_neg hmessage]
      split at h
      · next hreasoning =>
        rw [if_pos hreasoning]
        split at h
        · next hsummary =>
          cases h
          rw [if_pos hsummary]
          exact ⟨_, rfl⟩
        · next hsummary =>
          rw [if_neg hsummary]
          split at h
          · next htext =>
            cases h
            rw [if_pos htext]
            exact ⟨_, rfl⟩
          · cases h
      · cases h

/-- Any other delta raises only for arguments that are no string. -/
theorem deltaItem_of_none {conv : Conversions} {data : Event} {delta_type : String} {item : Item}
    (h : partTarget data delta_type item = none) :
    (∃ item', deltaItem conv data delta_type item = .ok item') ↔
      (delta_type = "function_call_arguments" → itemType item = .str "function_call" →
        ((Assoc.get? item "arguments").getD (.str "")).isStr = true) := by
  unfold partTarget at h
  unfold deltaItem
  dsimp only at h ⊢
  by_cases harguments : delta_type = "function_call_arguments"
  · rw [if_pos harguments]
    by_cases hcall : itemType item = .str "function_call"
    · rw [if_pos hcall]
      cases (Assoc.get? item "arguments").getD (.str "") with
      | str arguments => simp [Json.isStr]
      | _ => simp [Json.isStr, harguments, hcall]
    · rw [if_neg hcall]
      exact iff_of_true ⟨item, rfl⟩ fun _ hc => absurd hc hcall
  · rw [if_neg harguments] at h ⊢
    refine iff_of_true ?_ fun hc => absurd hc harguments
    split at h
    · next hmessage =>
      rw [if_pos hmessage]
      split at h
      · next htype => exact ⟨item, if_pos htype⟩
      · cases h
    · next hmessage =>
      rw [if_neg hmessage]
      split at h
      · next hreasoning =>
        rw [if_pos hreasoning]
        split at h
        · cases h
        · next hsummary =>
          rw [if_neg hsummary]
          split at h
          · cases h
          · next htext => exact ⟨item, if_neg htext⟩
      · next hreasoning => exact ⟨_, if_neg hreasoning⟩

/-- **A delta changes an item exactly where it fits.** -/
theorem deltaItem_fits_iff {conv : Conversions} {data : Event} {delta_type : String} {item : Item} :
    (∃ item', deltaItem conv data delta_type item = .ok item' ∧
        ((∃ target, partTarget data delta_type item = some target ∧ target.index < 0) →
          item' = item)) ↔
      DeltaFits data delta_type item := by
  unfold DeltaFits
  cases htarget : partTarget data delta_type item with
  | none =>
    have hnone := @deltaItem_of_none conv data delta_type item htarget
    simpa using hnone
  | some target =>
    obtain ⟨harguments, padding, hdelta⟩ :=
      @deltaItem_of_target conv data delta_type item target htarget
    rw [hdelta]
    simp only [Option.some.injEq, ↓existsAndEq, true_and, forall_eq', harguments, false_implies,
      and_true]
    exact deltaPart_fits_iff

/-! ## The branches -/

/-- A branch returns a list of items, and the same list if a position is missing. -/
def Fine (r : Except Raised Returned) (current_output : List Item) (missing : Prop) : Prop :=
  ∃ new_output metadata, r = .ok (ofItems new_output, metadata) ∧
    (missing → new_output = current_output)

section Branches

variable {conv : Conversions} {data : Event} {current_output : List Item}

theorem fine_same (missing : Prop) :
    Fine (.ok (same current_output)) current_output missing :=
  ⟨current_output, none, rfl, fun _ => rfl⟩

theorem returned_inj {items items' : List Item} {metadata metadata' : Option Item} :
    (Except.ok (ofItems items, metadata) : Except Raised Returned) =
      .ok (ofItems items', metadata') ↔ items = items' ∧ metadata = metadata' := by
  rw [Except.ok.injEq, Prod.mk.injEq, ofItems_inj]

/-- A branch that changes the item, if that does not raise. -/
theorem fine_set_iff {i : ℕ} {item : Item} (h : current_output[i]? = some item)
    {change : Except Raised Item} {metadata : Option Item} {missing : Prop} :
    Fine (change >>= fun item' => .ok (ofItems (current_output.set i item'), metadata))
        current_output missing ↔
      ∃ item', change = .ok item' ∧ (missing → item' = item) := by
  constructor
  · rintro ⟨items, metadata', hr, hsame⟩
    obtain ⟨item', hchange, hr⟩ := bind_eq_ok.mp hr
    obtain ⟨rfl, -⟩ := returned_inj.mp hr
    exact ⟨item', hchange, fun hm => (set_items_eq_self_iff h).mp (hsame hm)⟩
  · rintro ⟨item', hchange, hsame⟩
    exact ⟨_, metadata, bind_eq_ok.mpr ⟨item', hchange, rfl⟩,
      fun hm => (set_items_eq_self_iff h).mpr (hsame hm)⟩

/-- What holds of the located item. -/
theorem forall_located {i : ℕ} {item : Item} {P : Item → Prop} :
    (∀ i' item', some (i, item) = some (i', item') → P item') ↔ P item := by
  constructor
  · intro hall
    exact hall i item rfl
  · rintro hP i' item' heq
    cases heq
    exact hP

/-- **Deltas.** -/
theorem delta_fine_iff {delta_type : String} :
    Fine (delta conv data delta_type current_output) current_output
        (∀ i item, located data current_output = some (i, item) →
          ∃ target, partTarget data delta_type item = some target ∧ target.index < 0) ↔
      ∃ i item, located data current_output = some (i, item) ∧ DeltaFits data delta_type item := by
  unfold delta
  cases hlocated : located data current_output with
  | none => simp [Fine]
  | some e =>
    obtain ⟨i, item⟩ := e
    rw [forall_located]
    refine (fine_set_iff (getElem?_of_located hlocated)).trans ?_
    rw [deltaItem_fits_iff]
    simp

/-- **Added parts.** -/
theorem addPart_fine_iff {field : String} {appends : Item → Bool} :
    Fine (addPart field appends data current_output) current_output
        (located data current_output = none) ↔
      ∀ i item, located data current_output = some (i, item) → Listed item field := by
  unfold addPart
  cases hlocated : located data current_output with
  | none => exact iff_of_true (fine_same _) fun i item h => nomatch h
  | some e =>
    obtain ⟨i, item⟩ := e
    rw [forall_located]
    unfold Listed
    constructor
    · rintro ⟨items, metadata, h, -⟩
      obtain ⟨parts, hparts, -⟩ := bind_eq_ok.mp h
      exact ⟨parts, hparts⟩
    · rintro ⟨parts, hparts⟩
      exact ⟨_, none, bind_eq_ok.mpr ⟨parts, hparts, rfl⟩, fun h => nomatch h⟩

/-- **Done parts.** -/
theorem partDone_fine_iff {field indexKey : String} :
    Fine (partDone field indexKey data current_output) current_output
        (∀ i item, located data current_output = some (i, item) →
          NoPart item field fun n => data.index indexKey (n - 1)) ↔
      ∀ i item, located data current_output = some (i, item) →
        (data.get "part" .null).truthy = true → Listed item field := by
  unfold partDone
  dsimp only
  cases hlocated : located data current_output with
  | none => exact iff_of_true (fine_same _) fun i item h => nomatch h
  | some e =>
    obtain ⟨i, item⟩ := e
    rw [forall_located, forall_located]
    unfold Listed copiedList
    by_cases hpart : (data.get "part" .null).truthy = true
    · simp only [if_pos hpart]
      cases hfield : Assoc.get? item field with
      | none => exact iff_of_true (fine_same _) fun _ => ⟨[], rfl⟩
      | some value =>
        simp only [hpart, true_implies]
        constructor
        · rintro ⟨items, metadata, h, -⟩
          obtain ⟨parts, hparts, -⟩ := bind_eq_ok.mp h
          exact ⟨parts, hparts⟩
        · rintro ⟨parts, hparts⟩
          have hno : NoPart item field (fun n => data.index indexKey (n - 1)) →
              ¬ (0 ≤ data.index indexKey (parts.length - 1) ∧
                data.index indexKey (parts.length - 1) < parts.length) := by
            intro hno
            refine hno parts ?_
            rw [copiedList, hfield]
            exact hparts
          by_cases hin : 0 ≤ data.index indexKey (parts.length - 1) ∧
              data.index indexKey (parts.length - 1) < parts.length
          · exact ⟨_, _, bind_eq_ok.mpr ⟨parts, hparts, if_pos hin⟩, fun h => absurd hin (hno h)⟩
          · exact ⟨_, _, bind_eq_ok.mpr ⟨parts, hparts, if_neg hin⟩, fun _ => rfl⟩
    · simp only [if_neg hpart]
      exact iff_of_true (fine_same _) fun h => absurd h hpart

/-- A position of a list that can be changed: in the list, or without effect. -/
theorem editPart_fits_iff {parts : List Json} {index : ℤ} {e : PyErr} {update : Item → Item}
    (hlt : index < parts.length) :
    (∃ parts', editPart parts index e update = .ok parts' ∧ (index < 0 → parts' = parts)) ↔
      EditFits parts index update := by
  unfold EditFits
  constructor
  · rintro ⟨parts', hparts', hsame⟩
    by_cases hneg : index < 0
    · rw [hsame hneg] at hparts'
      exact Or.inr ⟨hneg, editPart_self_iff.mp hparts'⟩
    · refine Or.inl ⟨by omega, fun part hpart => ?_⟩
      obtain ⟨i, fields, hindex, hfields, -⟩ := editPart_eq_ok.mp hparts'
      rw [pyIndex_of_nonneg (by omega) hlt, Option.some.injEq] at hindex
      rw [hindex, hfields] at hpart
      cases hpart
      rfl
  · rintro (⟨hpos, hdict⟩ | ⟨hneg, hself⟩)
    · have hpart := List.getElem?_eq_getElem (show index.toNat < parts.length by omega)
      obtain ⟨fields, hfields⟩ := Json.isDict_eq_true.mp (hdict _ hpart)
      refine ⟨_, editPart_eq_ok.mpr ⟨_, fields, pyIndex_of_nonneg hpos hlt, ?_, rfl⟩, ?_⟩
      · rw [hpart, hfields]
      · intro hneg
        omega
    · exact ⟨parts, editPart_self_iff.mpr hself, fun _ => rfl⟩

/-- **Final values.** The parts of a message have to be a list, and the one at the position an
object if there is one. -/
theorem doneItem_fits_iff {type_name : String} {final_value : Json} {item : Item} :
    (∃ item', doneItem data type_name final_value item = .ok item' ∧
        (type_name ≠ "function_call_arguments" ∧ itemType item = .str "message" ∧
          NoPart item "content" (fun _ => data.index "content_index" 0) → item' = item)) ↔
      ∀ content, type_name ≠ "function_call_arguments" → itemType item = .str "message" →
        Assoc.get? item "content" = some content →
        ∃ parts, content = .list parts ∧
          EditFits parts (data.index "content_index" 0) fun part =>
            Assoc.set part (doneKey type_name) final_value := by
  unfold doneItem
  dsimp only
  by_cases harguments : type_name = "function_call_arguments"
  · rw [if_pos harguments]
    refine iff_of_true ?_ fun _ hne => absurd harguments hne
    split
    · exact ⟨_, rfl, fun h => absurd harguments h.1⟩
    · exact ⟨_, rfl, fun h => absurd harguments h.1⟩
  · rw [if_neg harguments]
    by_cases hmessage : itemType item = .str "message"
    · simp only [if_pos hmessage, ne_eq, harguments, not_false_eq_true, hmessage, true_and,
        true_implies]
      generalize data.index "content_index" 0 = index
      cases hcontent : Assoc.get? item "content" with
      | none => exact iff_of_true ⟨item, rfl, fun _ => rfl⟩ fun content h => by cases h
      | some value =>
        simp only [Option.some.injEq, forall_eq']
        -- the position is missing exactly where it is outside the list
        have hno (parts : List Json) (hparts : value.iter = .ok parts) :
            NoPart item "content" (fun _ => index) ↔ ¬ (0 ≤ index ∧ index < parts.length) := by
          unfold NoPart copiedList
          rw [hcontent]
          simp only [raising_eq_ok, hparts, Except.ok.injEq, forall_eq']
        constructor
        · rintro ⟨item', h, hsame⟩
          obtain ⟨parts, hparts, h⟩ := bind_eq_ok.mp h
          rw [raising_eq_ok] at hparts
          rw [hno parts hparts] at hsame
          by_cases hlt : index < parts.length
          · rw [if_pos hlt] at h
            obtain ⟨parts', hparts', h⟩ := bind_eq_ok.mp h
            cases h
            obtain ⟨i, fields, -, hfields, -⟩ := editPart_eq_ok.mp hparts'
            obtain rfl := list_of_iter hparts hfields
            refine ⟨parts, rfl, (editPart_fits_iff hlt).mp ⟨parts', hparts', fun hneg => ?_⟩⟩
            have hget := set_eq_self_iff.mp (hsame fun hin => by omega)
            rw [hcontent] at hget
            cases hget
            rfl
          · rw [if_neg hlt] at h
            cases h
            have hget := set_eq_self_iff.mp (hsame fun hin => hlt hin.2)
            rw [hcontent] at hget
            cases hget
            refine ⟨parts, rfl, Or.inl ⟨by omega, fun part hpart => ?_⟩⟩
            have := (List.getElem?_eq_some_iff.mp hpart).1
            omega
        · rintro ⟨parts, rfl, hfits⟩
          rw [hno parts rfl]
          by_cases hlt : index < parts.length
          · obtain ⟨parts', hparts', hsame⟩ :=
              (@editPart_fits_iff parts index .typeError _ hlt).mpr hfits
            refine ⟨Assoc.set item "content" (.list parts'), ?_, fun hmissing => ?_⟩
            · refine bind_eq_ok.mpr ⟨parts, rfl, ?_⟩
              rw [if_pos hlt]
              exact bind_eq_ok.mpr ⟨parts', hparts', rfl⟩
            · rw [set_eq_self_iff, hsame (by omega), hcontent]
          · refine ⟨Assoc.set item "content" (.list parts), ?_, fun _ => ?_⟩
            · exact bind_eq_ok.mpr ⟨parts, rfl, if_neg hlt⟩
            · rw [set_eq_self_iff, hcontent]
    · rw [if_neg hmessage]
      refine iff_of_true ?_ fun _ _ h => absurd h hmessage
      split
      · exact ⟨_, rfl, fun h => absurd h.2.1 hmessage⟩
      · exact ⟨_, rfl, fun h => absurd h.2.1 hmessage⟩

/-- **Done fields.** -/
theorem fieldDone_fine_iff {type_name : String} :
    Fine (fieldDone data type_name current_output) current_output
        (∀ i item, located data current_output = some (i, item) →
          type_name ≠ "function_call_arguments" ∧ itemType item = .str "message" ∧
            NoPart item "content" fun _ => data.index "content_index" 0) ↔
      ∀ i item, located data current_output = some (i, item) → DoneFits data type_name item := by
  unfold fieldDone
  cases hlocated : located data current_output with
  | none => exact iff_of_true (fine_same _) fun i item h => nomatch h
  | some e =>
    obtain ⟨i, item⟩ := e
    rw [forall_located, forall_located]
    unfold DoneFits
    cases hfinal : Assoc.get? data.fields (doneKey type_name) with
    | none => exact iff_of_true (fine_same _) fun _ _ h => nomatch h
    | some final_value =>
      refine (fine_set_iff (getElem?_of_located hlocated)).trans ?_
      rw [doneItem_fits_iff]
      constructor
      · intro h final content hf
        cases hf
        exact h content
      · intro h content
        exact h final_value content rfl

/-- **Done events.** -/
theorem done_fine_iff {type_name : String} :
    Fine (done data type_name current_output) current_output
        (∀ i item, located data current_output = some (i, item) →
          if type_name = "content_part" then
            NoPart item "content" fun n => data.index "content_index" (n - 1)
          else if type_name = "reasoning_summary_part" then
            NoPart item "summary" fun n => data.index "summary_index" (n - 1)
          else type_name ∉ ["output_item", "completed", "failed", "function_call_arguments"] ∧
            itemType item = .str "message" ∧
            NoPart item "content" fun _ => data.index "content_index" 0) ↔
      ∀ i item, located data current_output = some (i, item) →
        if type_name = "content_part" then
          (data.get "part" .null).truthy = true → Listed item "content"
        else if type_name = "reasoning_summary_part" then
          (data.get "part" .null).truthy = true → Listed item "summary"
        else type_name ∉ ["output_item", "completed", "failed"] → DoneFits data type_name item := by
  unfold done
  by_cases hcontent : type_name = "content_part"
  · simp only [if_pos hcontent]
    exact partDone_fine_iff
  · simp only [if_neg hcontent]
    by_cases hsummary : type_name = "reasoning_summary_part"
    · simp only [if_pos hsummary]
      exact partDone_fine_iff
    · simp only [if_neg hsummary]
      by_cases hskip : type_name ∈ ["output_item", "completed", "failed"]
      · rw [if_pos hskip]
        exact iff_of_true (fine_same _) fun _ _ _ h => absurd hskip h
      · rw [if_neg hskip]
        have hmem : type_name ∉ ["output_item", "completed", "failed", "function_call_arguments"] ↔
            type_name ≠ "function_call_arguments" := by
          simp only [List.mem_cons, List.not_mem_nil, or_false, not_or] at hskip ⊢
          tauto
        simp only [hmem, hskip, not_false_eq_true, true_implies]
        exact fieldDone_fine_iff

/-- A list with one more value is a list of items exactly where the value is one. -/
theorem exists_ofItems {values : List Json} :
    (∃ items, Json.list values = ofItems items) ↔ ∀ v ∈ values, v.isDict = true := by
  unfold ofItems
  simp only [Json.list.injEq]
  constructor
  · rintro ⟨items, rfl⟩ v hv
    obtain ⟨item, -, rfl⟩ := List.mem_map.mp hv
    rfl
  · intro h
    induction values with
    | nil => exact ⟨[], rfl⟩
    | cons v values ih =>
      rw [List.forall_mem_cons] at h
      obtain ⟨item, rfl⟩ := Json.isDict_eq_true.mp h.1
      obtain ⟨items, rfl⟩ := ih h.2
      exact ⟨item :: items, rfl⟩

/-- **Added items.** -/
theorem addItem_fine_iff :
    Fine (.ok (addItem data current_output)) current_output False ↔
      ((data.get "item" (.dict [])).truthy = true →
        (data.get "item" (.dict [])).isDict = true) := by
  unfold addItem
  dsimp only
  by_cases hitem : (data.get "item" (.dict [])).truthy = true
  · rw [if_pos hitem]
    simp only [hitem, true_implies]
    have hlist : (∃ items, Json.list (current_output.map .dict ++ [data.get "item" (.dict [])]) =
        ofItems items) ↔ (data.get "item" (.dict [])).isDict = true := by
      rw [exists_ofItems]
      simp only [List.forall_mem_append, List.forall_mem_singleton]
      refine and_iff_right fun v hv => ?_
      obtain ⟨item, -, rfl⟩ := List.mem_map.mp hv
      rfl
    rw [← hlist]
    constructor
    · rintro ⟨items, metadata, h, -⟩
      rw [Except.ok.injEq, Prod.mk.injEq] at h
      exact ⟨items, h.1⟩
    · rintro ⟨items, h⟩
      exact ⟨items, none, by rw [h], fun h => h.elim⟩
  · rw [if_neg hitem]
    exact iff_of_true (fine_same _) fun h => absurd h hitem

/-- **Failed responses.** -/
theorem fail_fine_iff :
    Fine (fail data current_output) current_output False ↔
      (data.get "response" (.dict [])).isDict = true := by
  unfold fail
  cases data.get "response" (.dict []) with
  | dict response => exact iff_of_true ⟨_, _, rfl, fun h => h.elim⟩ rfl
  | _ => simp [Fine, Json.isDict]

/-- A final output is read without raising, and is a list of items, exactly where it is one. -/
theorem exists_markAll {final_output : Json} :
    (∃ items, markAll final_output = .ok (ofItems items)) ↔
      ∃ items, final_output = ofItems items := by
  constructor
  · rintro ⟨items, h⟩
    unfold markAll at h
    by_cases htruthy : final_output.truthy = true
    · rw [if_pos htruthy] at h
      obtain ⟨values, hvalues, h⟩ := bind_eq_ok.mp h
      obtain ⟨marked, hmarked, -⟩ := bind_eq_ok.mp h
      rw [raising_eq_ok] at hvalues
      have hdict : ∀ v ∈ values, ∃ fields, v = .dict fields := by
        intro v hv
        obtain ⟨v', -, hv'⟩ := (mem_of_mapM hmarked).2 v hv
        cases v with
        | dict fields => exact ⟨fields, rfl⟩
        | _ => cases hv'
      cases values with
      | nil =>
        -- what is true and has no elements is no value at all
        cases final_output <;> simp_all [Json.iter]
      | cons v values =>
        obtain ⟨fields, rfl⟩ := hdict v List.mem_cons_self
        obtain rfl := list_of_iter hvalues (i := 0) rfl
        refine exists_ofItems.mpr fun v' hv' => ?_
        obtain ⟨fields', rfl⟩ := hdict v' hv'
        rfl
    · rw [if_neg htruthy, Except.ok.injEq] at h
      exact ⟨items, h⟩
  · rintro ⟨items, rfl⟩
    exact ⟨_, markAll_ofItems items⟩

/-- A response with an output of its own. -/
theorem complete_output_iff {response_data : Item} {final_output : Json} {metadata : Item}
    (h : (Assoc.get? response_data "output").getD .null = final_output)
    (hne : final_output ≠ .null) :
    (∃ (new_output : List Item) (metadata' : Option Item),
        ((markAll final_output).map fun new_output => (new_output, some metadata), current_output) =
          ((.ok (ofItems new_output, metadata') : Except Raised Returned), current_output)) ↔
      ∃ items : List Item, Assoc.get? response_data "output" = some (ofItems items) := by
  have hget (items : List Item) : Assoc.get? response_data "output" = some (ofItems items) ↔
      final_output = ofItems items := by
    cases houtput : Assoc.get? response_data "output" with
    | none =>
      rw [houtput] at h
      exact absurd h.symm hne
    | some v =>
      rw [houtput, Option.getD_some] at h
      rw [Option.some.injEq, h]
  simp only [hget, ← exists_markAll]
  constructor
  · rintro ⟨items, metadata', heq⟩
    rw [Prod.mk.injEq] at heq
    cases hmark : markAll final_output with
    | error e =>
      rw [hmark] at heq
      cases heq.1
    | ok output =>
      rw [hmark, Except.map, Except.ok.injEq, Prod.mk.injEq] at heq
      exact ⟨items, by rw [heq.1.1]⟩
  · rintro ⟨items, hmark⟩
    exact ⟨items, some metadata, by rw [hmark]; rfl⟩

/-- **Completed responses.** -/
theorem complete_iff :
    (∃ new_output metadata,
        complete data current_output = (.ok (ofItems new_output, metadata), current_output)) ↔
      OutputFits (data.get "response" (.dict [])) current_output := by
  unfold complete OutputFits
  cases data.get "response" (.dict []) with
  | dict response_data =>
    simp only [Json.dict.injEq, exists_eq_left']
    cases houtput : (Assoc.get? response_data "output").getD .null with
    | null =>
      -- the items of the list passed in are marked
      have hnot : ∀ items : List Item,
          Assoc.get? response_data "output" ≠ some (ofItems items) := by
        intro items h
        rw [h] at houtput
        cases houtput
      have hmarked : current_output.map markCompleted = current_output ↔
          ∀ item ∈ current_output, markCompleted item = item := by
        constructor
        · intro h item hitem
          obtain ⟨i, hi, rfl⟩ := List.getElem_of_mem hitem
          have hget := congrArg (fun items : List Item => items[i]?) h
          simpa [List.getElem?_eq_getElem hi] using hget
        · intro h
          rw [List.map_congr_left h, List.map_id']
      simp only [true_and, hnot, exists_false, or_false, ← hmarked, Prod.mk.injEq, Except.ok.injEq,
        ofItems_inj]
      constructor
      · rintro ⟨items, metadata, -, h⟩
        exact h
      · intro h
        exact ⟨_, _, ⟨rfl, rfl⟩, h⟩
    | _ =>
      simp only [reduceCtorEq, false_and, false_or]
      exact complete_output_iff houtput (by simp)
  | _ => simp

/-- The branch for `response.output_item.done` is not reached: this is a done event. -/
theorem kind_ne_itemDone (event_type : String) : kind event_type ≠ .itemDone := by
  intro h
  unfold kind at h
  split_ifs at h with h₁ h₂ h₃ h₄ h₅ h₆
  subst h₆
  exact h₅ (by decide)

/-- A branch that does not write the list passed in. -/
theorem exists_returned_iff {r : Except Raised Returned} {missing : Prop} :
    (∃ new_output metadata,
        (r.map some, current_output) = (.ok (some (ofItems new_output, metadata)), current_output) ∧
          (missing → new_output = current_output)) ↔
      Fine r current_output missing := by
  unfold Fine
  refine exists_congr fun items => exists_congr fun metadata => and_congr_left fun _ => ?_
  cases r <;> simp [Except.map]

/-! ## Events that are handled -/

/-- **An event is handled exactly under the condition of its branch.** -/
theorem atomic_iff_handled (conv : Conversions) (data : Event) (current_output : List Item) :
    Atomic conv data current_output ↔ Handled data current_output := by
  unfold Atomic Missing Handled handle_responses_streaming_event
  have hbranch := kind_ne_itemDone data.event_type
  have hsame (missing : Prop) : (∃ new_output metadata,
      ((.ok (some (same current_output)) : Except Raised (Option Returned)), current_output) =
          (.ok (some (ofItems new_output, metadata)), current_output) ∧
        (missing → new_output = current_output)) := ⟨current_output, none, rfl, fun _ => rfl⟩
  cases hkind : kind data.event_type with
  | itemAdded => exact exists_returned_iff.trans addItem_fine_iff
  | contentPartAdded => exact exists_returned_iff.trans addPart_fine_iff
  | summaryPartAdded => exact exists_returned_iff.trans addPart_fine_iff
  | delta delta_type =>
    cases delta_type with
    | none =>
      -- the branch ends without a `return`
      simp
    | some delta_type => exact exists_returned_iff.trans delta_fine_iff
  | done type_name =>
    cases type_name with
    | none => exact iff_of_true (hsame _) trivial
    | some type_name => exact exists_returned_iff.trans done_fine_iff
  | itemDone => exact absurd hkind hbranch
  | completed =>
    rw [← complete_iff]
    simp only [false_implies, and_true]
    refine exists_congr fun items => exists_congr fun metadata => ?_
    obtain ⟨r, output⟩ := complete data current_output
    cases r <;> simp [Except.map]
  | inProgress => exact iff_of_true (hsame _) trivial
  | failed => exact exists_returned_iff.trans fail_fine_iff
  | other => exact iff_of_true (hsame _) trivial

end Branches

/-- An event of a type without other fields. -/
def bareEvent (event_type : String) : Event where
  fields := [("type", .str event_type)]
  typed := by simp [Assoc.get?]
  indexed := by simp [Assoc.get?]

/-- Without an output, a delta has no item to go to; `response.delta` ends without a `return`; and a
completed response writes the items of the list passed in. -/
theorem events_not_handled :
    ¬ Atomic plainConversions (bareEvent "response.output_text.delta") [] ∧
      ¬ Atomic plainConversions (bareEvent "response.delta") [] ∧
      ¬ Atomic plainConversions (bareEvent "response.completed") [[("type", .str "reasoning")]] := by
  have hraised : (handle_responses_streaming_event plainConversions
      (bareEvent "response.output_text.delta") []).1 = .error .unboundLocal := rfl
  have hnone : (handle_responses_streaming_event plainConversions
      (bareEvent "response.delta") []).1 = .ok none := rfl
  have hwritten : (handle_responses_streaming_event plainConversions
      (bareEvent "response.completed") [[("type", .str "reasoning")]]).2 =
      [[("type", .str "reasoning"), ("status", .str "completed")]] := by decide
  refine ⟨?_, ?_, ?_⟩
  · rintro ⟨new_output, metadata, h, -⟩
    rw [h] at hraised
    cases hraised
  · rintro ⟨new_output, metadata, h, -⟩
    rw [h] at hnone
    cases hnone
  · rintro ⟨new_output, metadata, h, -⟩
    rw [h] at hwritten
    cases hwritten

end OpenLaunch.Responses
