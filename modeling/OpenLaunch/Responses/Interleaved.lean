import OpenLaunch.Responses.Effects

/-! # Interleaved deltas

Deltas of different slots change different places of the output, so their order makes no difference.
A sequence of events may be reordered as long as the events that are no deltas stay in order, and
with them, for every slot, its deltas, the done events of its item and completed responses. -/

namespace OpenLaunch.Responses

open Python

/-! ## Changes of different places -/

/-- Fields are written independently, if one of them is there. -/
theorem set_comm {κ α : Type} [DecidableEq κ] {d : List (κ × α)} {k k' : κ} (h : k ≠ k')
    (hk : (Assoc.get? d k).isSome = true) (a b : α) :
    Assoc.set (Assoc.set d k a) k' b = Assoc.set (Assoc.set d k' b) k a := by
  induction d with
  | nil => cases hk
  | cons e d ih =>
    obtain ⟨k₁, a₁⟩ := e
    by_cases hk₁ : k₁ = k
    · subst hk₁
      simp [Assoc.set, h]
    · rw [Assoc.get?_cons_ne hk₁] at hk
      by_cases hk₁' : k₁ = k'
      · subst hk₁'
        simp [Assoc.set, hk₁]
      · simp [Assoc.set, hk₁, hk₁', ih hk]

theorem modify_append_left {α : Type} {xs : List α} {i : ℕ} (h : i < xs.length) (f : α → α)
    (ys : List α) : (xs ++ ys).modify i f = xs.modify i f ++ ys := by
  induction xs generalizing i with
  | nil => cases h
  | cons x xs ih =>
    cases i with
    | zero => rfl
    | succ i =>
      rw [List.cons_append, List.modify_succ_cons, List.modify_succ_cons,
        ih (Nat.lt_of_succ_lt_succ h), List.cons_append]

/-- Changes of an item that agree on it. -/
theorem modify_congr {α : Type} {xs : List α} {i : ℕ} {x : α} (hx : xs[i]? = some x) {f g : α → α}
    (h : f x = g x) : xs.modify i f = xs.modify i g := by
  rw [← set_eq_modify hx, ← set_eq_modify hx, h]

/-- A field has a list, or is not changed. -/
theorem list_or_same (item : Item) (field : String) :
    (∃ parts, Assoc.get? item field = some (.list parts)) ∨
      ∀ item', Assoc.get? item' field = Assoc.get? item field →
        ∀ g, changeField field g item' = item' := by
  by_cases h : ∃ parts, Assoc.get? item field = some (.list parts)
  · exact Or.inl h
  · refine Or.inr fun item' hitem' g => ?_
    unfold changeField
    split
    · next parts hparts => exact absurd ⟨parts, hitem' ▸ hparts⟩ h
    · rfl

/-- Lists in different fields are changed independently. -/
theorem changeField_comm {field field' : String} (h : field ≠ field') (g g' : List Json → List Json)
    (item : Item) : changeField field g (changeField field' g' item) =
      changeField field' g' (changeField field g item) := by
  rcases list_or_same item field with ⟨parts, hparts⟩ | hsame
  · rcases list_or_same item field' with ⟨parts', hparts'⟩ | hsame'
    · have hget : Assoc.get? (changeField field' g' item) field = some (.list parts) := by
        rw [get?_changeField_ne h, hparts]
      have hget' : Assoc.get? (changeField field g item) field' = some (.list parts') := by
        rw [get?_changeField_ne (Ne.symm h), hparts']
      rw [changeField_of_list hget, changeField_of_list hget', changeField_of_list hparts,
        changeField_of_list hparts']
      exact set_comm (Ne.symm h) (by rw [hparts']; rfl) _ _
    · rw [hsame' item rfl, hsame' _ (get?_changeField_ne (Ne.symm h) g)]
  · rw [hsame item rfl, hsame _ (get?_changeField_ne h g')]

/-- Parts of one list are changed independently. -/
theorem changeField_comm_self {field : String} (g g' : List Json → List Json)
    (h : ∀ parts, g (g' parts) = g' (g parts)) (item : Item) :
    changeField field g (changeField field g' item) =
      changeField field g' (changeField field g item) := by
  rcases list_or_same item field with ⟨parts, hparts⟩ | hsame
  · rw [changeField_of_list hparts, changeField_of_list hparts,
      changeField_of_list (Assoc.get?_set_self ..), changeField_of_list (Assoc.get?_set_self ..),
      Assoc.set_set, Assoc.set_set, h]
  · rw [hsame item rfl, hsame item rfl, hsame item rfl]

/-- A part is added to another list. -/
theorem changeField_addTo {field field' : String} (h : field ≠ field')
    (g : List Json → List Json) (added : List Json) (item : Item) :
    changeField field g (addTo field' added item) =
      addTo field' added (changeField field g item) := by
  have hlist : listAt (changeField field g item) field' = listAt item field' := by
    unfold listAt
    rw [get?_changeField_ne (Ne.symm h)]
  unfold addTo
  rw [hlist]
  rcases list_or_same item field with ⟨parts, hparts⟩ | hsame
  · have hget (v : Json) : Assoc.get? (Assoc.set item field' v) field = some (.list parts) := by
      rw [Assoc.get?_set_ne _ h, hparts]
    rw [changeField_of_list (hget _), changeField_of_list hparts]
    exact (set_comm h (by rw [hparts]; rfl) _ _).symm
  · rw [hsame item rfl, hsame _ (Assoc.get?_set_ne _ h _)]

/-- A part is added behind the one that changes. -/
theorem changeField_addTo_self {field : String} {item : Item} {parts : List Json}
    (hget : Assoc.get? item field = some (.list parts)) {k : ℕ} (hlt : k < parts.length)
    (padding : Item) (update : Item → Item) (added : List Json) :
    changeField field (changeAt k padding update) (addTo field added item) =
      addTo field added (changeField field (changeAt k padding update) item) := by
  have hpad : k + 1 - parts.length = 0 := by omega
  have hpad' : k + 1 - (parts ++ added).length = 0 := by
    rw [List.length_append]
    omega
  unfold addTo
  rw [listAt_of_get? hget, changeField_of_list (Assoc.get?_set_self ..), changeField_of_list hget,
    listAt_set_self, Assoc.set_set, Assoc.set_set]
  unfold changeAt
  rw [hpad, hpad', List.replicate_zero, List.append_nil, List.append_nil, modify_append_left hlt]

/-- Where nothing is added, a list stays. -/
theorem addTo_nil {field : String} {item : Item} {parts : List Json}
    (hget : Assoc.get? item field = some (.list parts)) : addTo field [] item = item := by
  unfold addTo
  rw [List.append_nil, listAt_of_get? hget]
  exact Assoc.set_of_get? hget

/-! ## Reordered sequences -/

/-- The event is a delta. -/
def Event.isDelta (data : Event) : Bool :=
  match kind data.event_type with
  | .delta (some _) => true
  | _ => false

/-- The event is a delta of the slot, or may replace what its item has: a done event of the item, or
a completed response. -/
def touches (slot : Slot) (data : Event) : Bool :=
  decide (data.slot = some slot) ||
    match kind data.event_type with
    | .done (some _) => decide (data.position "output_index" = some slot.output_index)
    | .completed => true
    | _ => false

/-- The classes of events that stay in order: the events that are no deltas, and those that touch a
slot. -/
def inClass : Option Slot → Event → Bool
  | none => fun data => !data.isDelta
  | some slot => touches slot

/-- **The same events, with the deltas interleaved in another way.** -/
def Reordered (events events' : List Event) : Prop :=
  ∀ c, events.filter (inClass c) = events'.filter (inClass c)

/-- Only the slots of the deltas matter. -/
theorem reordered_iff {events events' : List Event} :
    Reordered events events' ↔ events.filter (inClass none) = events'.filter (inClass none) ∧
      ∀ slot ∈ (events ++ events').filterMap Event.slot,
        events.filter (touches slot) = events'.filter (touches slot) := by
  constructor
  · intro h
    exact ⟨h none, fun slot _ => h (some slot)⟩
  · rintro ⟨hnone, hslots⟩ c
    cases c with
    | none => exact hnone
    | some slot =>
      by_cases hmem : slot ∈ (events ++ events').filterMap Event.slot
      · exact hslots slot hmem
      · -- what touches the slot is no delta
        have hfilter {es : List Event} (hes : ∀ data ∈ es, data.slot ≠ some slot) :
            es.filter (inClass (some slot)) =
              (es.filter (inClass none)).filter (inClass (some slot)) := by
          rw [List.filter_filter]
          refine List.filter_congr fun data hdata => ?_
          by_cases hdelta : data.isDelta = true
          · have htouches : touches slot data = false := by
              unfold Event.isDelta at hdelta
              unfold touches
              split at hdelta
              · next hkind => simp [hes data hdata, hkind]
              · cases hdelta
            simp [inClass, htouches]
          · simp [inClass, hdelta]
        simp only [List.mem_filterMap, List.mem_append, not_exists, not_and] at hmem
        rw [hfilter fun data hdata => hmem data (Or.inl hdata),
          hfilter fun data hdata => hmem data (Or.inr hdata), hnone]

instance (events events' : List Event) : Decidable (Reordered events events') :=
  decidable_of_iff _ reordered_iff.symm

/-! ## A delta and another event -/

/-- The fields of a proper delta. -/
theorem exists_slot {data : Event} {shapes : List Shape} (hdelta : data.isDelta = true)
    (hproper : Proper shapes data) : ∃ delta_type i place shape,
      kind data.event_type = .delta (some delta_type) ∧ data.position "output_index" = some i ∧
        data.place delta_type = some place ∧ data.slot = some ⟨i, place⟩ ∧
        shapes[i]? = some shape ∧ Addressed shape delta_type place := by
  unfold Event.isDelta at hdelta
  split at hdelta
  · next delta_type hkind =>
    unfold Proper at hproper
    rw [hkind] at hproper
    obtain ⟨i, hi, shape, hshape, ⟨place, hplace, haddressed⟩, -⟩ := hproper
    refine ⟨delta_type, i, place, shape, hkind, hi, hplace, ?_, hshape, haddressed⟩
    unfold Event.slot
    rw [hkind]
    dsimp only
    rw [Option.mem_def.mp hi, Option.mem_def.mp hplace]
    rfl
  · cases hdelta

/-- An event addressed to an item stays so when parts are added. -/
theorem Addressed.mono {shape shape' : Shape} {type_name : String} {place : Place}
    (h : Addressed shape type_name place) (htype : shape'.type = shape.type)
    (hcontent : shape.content ≤ shape'.content) (hsummary : shape.summary ≤ shape'.summary) :
    Addressed shape' type_name place := by
  cases place with
  | content k => exact ⟨Nat.lt_of_lt_of_le h.1 hcontent, htype ▸ h.2⟩
  | summary k => exact ⟨Nat.lt_of_lt_of_le h.1 hsummary, htype ▸ h.2⟩
  | whole =>
    unfold Addressed at h ⊢
    rwa [htype]

/-- Unless a response is completed, no shape gets smaller. -/
theorem exists_shape_track {data : Event} {shapes : List Shape} {i : ℕ} {shape : Shape}
    (hcompleted : kind data.event_type ≠ .completed) (hshape : shapes[i]? = some shape) :
    ∃ shape', (track shapes data)[i]? = some shape' ∧ shape'.type = shape.type ∧
      shape.content ≤ shape'.content ∧ shape.summary ≤ shape'.summary := by
  have hlt := (List.getElem?_eq_some_iff.mp hshape).1
  unfold track
  split
  · exact ⟨shape, by rw [List.getElem?_append_left hlt, hshape], rfl, Nat.le_refl _, Nat.le_refl _⟩
  · split
    · next j hj =>
      rw [List.getElem?_modify, hshape]
      refine ⟨_, rfl, ?_⟩
      split <;> simp
    · exact ⟨shape, hshape, rfl, Nat.le_refl _, Nat.le_refl _⟩
  · split
    · next j hj =>
      rw [List.getElem?_modify, hshape]
      refine ⟨_, rfl, ?_⟩
      split <;> simp
    · exact ⟨shape, hshape, rfl, Nat.le_refl _, Nat.le_refl _⟩
  · contradiction
  · exact ⟨shape, hshape, rfl, Nat.le_refl _, Nat.le_refl _⟩

/-- A delta stays proper. -/
theorem proper_track {data data' : Event} {shapes : List Shape} (hdelta : data.isDelta = true)
    (hproper : Proper shapes data) (hcompleted : kind data'.event_type ≠ .completed) :
    Proper (track shapes data') data := by
  obtain ⟨delta_type, i, place, shape, hkind, hi, hplace, -, hshape, haddressed⟩ :=
    exists_slot hdelta hproper
  obtain ⟨shape', hshape', htype, hcontent, hsummary⟩ := exists_shape_track hcompleted hshape
  unfold Proper at hproper ⊢
  rw [hkind] at hproper ⊢
  obtain ⟨-, -, -, -, -, hstr⟩ := hproper
  exact ⟨i, hi, shape', hshape', ⟨place, hplace, haddressed.mono htype hcontent hsummary⟩, hstr⟩

/-- Deltas leave the layout. -/
theorem track_of_delta {data : Event} (hdelta : data.isDelta = true) (shapes : List Shape) :
    track shapes data = shapes := by
  unfold Event.isDelta at hdelta
  split at hdelta
  · next hkind =>
    apply track_eq_self <;> simp [hkind]
  · cases hdelta

/-- **Deltas of different places of an item.** -/
theorem deltaChange_comm {data data' : Event} {delta_type delta_type' : String} {shape : Shape}
    {place place' : Place} (hplace : data.place delta_type = some place)
    (hplace' : data'.place delta_type' = some place')
    (haddressed : Addressed shape delta_type place)
    (haddressed' : Addressed shape delta_type' place') (hne : place ≠ place') (item : Item) :
    deltaChange data delta_type (deltaChange data' delta_type' item) =
      deltaChange data' delta_type' (deltaChange data delta_type item) := by
  unfold deltaChange
  rw [hplace, hplace']
  cases place with
  | content k =>
    cases place' with
    | content k' =>
      have hk : k ≠ k' := by
        rintro rfl
        exact hne rfl
      exact changeField_comm_self (changeAt k _ _) (changeAt k' _ _) (changeAt_comm hk _ _ _) item
    | summary k' => exact changeField_comm (by simp) _ _ item
    | whole => exact absurd (haddressed.2.imp And.left And.left) haddressed'.1
  | summary k =>
    cases place' with
    | content k' => exact changeField_comm (by simp) _ _ item
    | summary k' =>
      have hk : k ≠ k' := by
        rintro rfl
        exact hne rfl
      exact changeField_comm_self (changeAt k _ _) (changeAt k' _ _) (changeAt_comm hk _ _ _) item
    | whole => exact absurd (Or.inr haddressed.2) haddressed'.1
  | whole =>
    cases place' with
    | content k' => exact absurd (haddressed'.2.imp And.left And.left) haddressed.1
    | summary k' => exact absurd (Or.inr haddressed'.2) haddressed.1
    | whole => exact absurd rfl hne

/-- **A delta and a new content part.** -/
theorem deltaChange_addContent {data : Event} {delta_type : String} {shape : Shape} {item : Item}
    {place : Place} (hfit : Fit shape item) (hplace : data.place delta_type = some place)
    (haddressed : Addressed shape delta_type place) (htype : HasParts shape.type)
    (added : List Json) :
    deltaChange data delta_type
        (addTo "content" (if itemType item = .str "reasoning" then [] else added) item) =
      addTo "content" (if itemType (deltaChange data delta_type item) = .str "reasoning" then []
        else added) (deltaChange data delta_type item) := by
  rw [(hfit.deltaChange hplace haddressed).type, hfit.type]
  unfold deltaChange
  rw [hplace]
  cases place with
  | content k =>
    obtain ⟨hget, -⟩ := hfit.content_list htype haddressed.1
    dsimp only
    split
    · -- nothing is added to a reasoning item
      rw [addTo_nil hget, changeField_of_list hget, addTo_nil (Assoc.get?_set_self ..)]
    · next hreasoning =>
      have hmessage := htype.resolve_right hreasoning
      refine changeField_addTo_self hget ?_ _ _ _
      rw [hfit.content hmessage]
      exact haddressed.1
  | summary k => exact changeField_addTo (by simp) _ _ item
  | whole => exact absurd htype haddressed.1

/-- **A delta and a new summary part.** -/
theorem deltaChange_addSummary {data : Event} {delta_type : String} {shape : Shape} {item : Item}
    {place : Place} (hfit : Fit shape item) (hplace : data.place delta_type = some place)
    (haddressed : Addressed shape delta_type place) (htype : shape.type = .str "reasoning")
    (added : List Json) :
    deltaChange data delta_type (addTo "summary" added item) =
      addTo "summary" added (deltaChange data delta_type item) := by
  unfold deltaChange
  rw [hplace]
  cases place with
  | content k => exact changeField_addTo (by simp) _ _ item
  | summary k =>
    obtain ⟨hget, -⟩ := hfit.summary_list htype haddressed.1
    refine changeField_addTo_self hget ?_ _ _ _
    rw [hfit.summary htype]
    exact haddressed.1
  | whole => exact absurd (Or.inr htype) haddressed.1

/-- A delta and another event that is about the same item. -/
theorem change_comm {data data' : Event} {slot : Slot} {shapes : List Shape} {shape : Shape}
    {item : Item} (hdelta : data.isDelta = true) (hproper : Proper shapes data)
    (hproper' : Proper shapes data') (hslot : data.slot = some slot)
    (htouches : touches slot data' = false)
    (hi : data'.position "output_index" = some slot.output_index)
    (hshape : shapes[slot.output_index]? = some shape) (hfit : Fit shape item) :
    change data' (change data item) = change data (change data' item) := by
  obtain ⟨delta_type, i, place, shape', hkind, -, hplace, hslot', hshape', haddressed⟩ :=
    exists_slot hdelta hproper
  obtain rfl := Option.some.inj (hslot.symm.trans hslot')
  obtain rfl := Option.some.inj (hshape.symm.trans hshape')
  unfold Proper at hproper'
  unfold touches at htouches
  rw [Bool.or_eq_false_iff] at htouches
  obtain ⟨hother, htouches⟩ := htouches
  rw [change_of_delta hkind]
  have hid (h : change data' = id) : change data' (deltaChange data delta_type item) =
      deltaChange data delta_type (change data' item) := by
    rw [h]
    rfl
  cases hkind' : kind data'.event_type with
  | contentPartAdded =>
    rw [hkind'] at hproper'
    obtain ⟨i', hi', shape', hshape', htype, -⟩ := hproper'
    obtain rfl := Option.some.inj (hi.symm.trans hi')
    obtain rfl := Option.some.inj (hshape.symm.trans hshape')
    unfold change
    rw [hkind']
    exact (deltaChange_addContent hfit hplace haddressed htype data'.added).symm
  | summaryPartAdded =>
    rw [hkind'] at hproper'
    obtain ⟨i', hi', shape', hshape', htype, -⟩ := hproper'
    obtain rfl := Option.some.inj (hi.symm.trans hi')
    obtain rfl := Option.some.inj (hshape.symm.trans hshape')
    unfold change
    rw [hkind']
    exact (deltaChange_addSummary hfit hplace haddressed htype data'.added).symm
  | delta delta_type' =>
    cases delta_type' with
    | none =>
      rw [hkind'] at hproper'
      exact hproper'.elim
    | some delta_type' =>
      have hproper'' : Proper shapes data' := hproper'
      have hdelta' : data'.isDelta = true := by
        unfold Event.isDelta
        rw [hkind']
      obtain ⟨delta_type'', i', place', shape', hkind'', hi', hplace', hslot'', hshape'',
        haddressed'⟩ := exists_slot hdelta' hproper''
      obtain rfl := Option.some.inj (hi.symm.trans hi')
      obtain rfl := Option.some.inj (hshape.symm.trans hshape'')
      rw [change_of_delta hkind'']
      refine deltaChange_comm hplace' hplace haddressed' haddressed ?_ item
      rintro rfl
      simp [hslot''] at hother
  | done type_name =>
    cases type_name with
    | none => exact hid (by unfold change; rw [hkind'])
    | some type_name =>
      rw [hkind'] at htouches
      simp [hi] at htouches
  | completed =>
    rw [hkind'] at htouches
    cases htouches
  | itemAdded => exact hid (by unfold change; rw [hkind'])
  | itemDone => exact hid (by unfold change; rw [hkind'])
  | inProgress => exact hid (by unfold change; rw [hkind'])
  | failed => exact hid (by unfold change; rw [hkind'])
  | other => exact hid (by unfold change; rw [hkind'])

/-- **A delta and another event change the output independently.** -/
theorem effect_comm {data data' : Event} {slot : Slot} {shapes : List Shape} {output : List Item}
    (hdelta : data.isDelta = true) (hproper : Proper shapes data)
    (hproper' : Proper shapes data') (hfits : Fits shapes output) (hslot : data.slot = some slot)
    (htouches : touches slot data' = false) :
    effect data' (effect data output) = effect data (effect data' output) := by
  obtain ⟨delta_type, i, place, shape, hkind, hi, hplace, hslot', hshape, haddressed⟩ :=
    exists_slot hdelta hproper
  obtain rfl := Option.some.inj (hslot.symm.trans hslot')
  obtain ⟨item, hitem, hfit⟩ := hfits.exists_item hshape
  have heffect (output : List Item) : effect data output = output.modify i (change data) :=
    effect_of_position (by simp [hkind]) (by simp [hkind]) hi output
  rw [heffect, heffect]
  by_cases hadded : kind data'.event_type = .itemAdded
  · unfold effect
    rw [hadded]
    exact (modify_append_left (List.getElem?_eq_some_iff.mp hitem).1 _ _).symm
  · have hcompleted : kind data'.event_type ≠ .completed := by
      intro hcompleted
      unfold touches at htouches
      rw [hcompleted] at htouches
      simp at htouches
    rw [effect_eq_modify hadded hcompleted, effect_eq_modify hadded hcompleted]
    cases hj : data'.position "output_index" with
    | none => rfl
    | some j =>
      dsimp only
      by_cases hij : i = j
      · subst hij
        rw [List.modify_modify_eq, List.modify_modify_eq]
        exact modify_congr hitem
          (change_comm hdelta hproper hproper' hslot htouches hj hshape hfit)
      · exact List.modify_modify_ne _ _ _ hij

/-! ## Runs -/

/-- An output with the layout it fits to. -/
abbrev Followed := List Shape × List Item

/-- The output after an event, with the layout. -/
def follow (conv : Conversions) (s : Followed) (data : Event) : Option Followed :=
  (next conv s.2 data).map fun output => (track s.1 data, output)

/-- An event that is proper for the layout, where the output fits to it. -/
def Follows (s : Followed) (data : Event) : Prop := Proper s.1 data ∧ Fits s.1 s.2

theorem follow_eq {conv : Conversions} {s : Followed} {data : Event} (h : Follows s data) :
    follow conv s data = some (track s.1 data, effect data s.2) := by
  unfold follow
  rw [next_eq h.1 h.2]
  rfl

/-- A delta that another event does not touch can be exchanged with it. -/
theorem exchanges_of_delta {conv : Conversions} {data data' : Event} (hdelta : data.isDelta = true)
    (h : ∀ slot, data.slot = some slot → touches slot data' = false) :
    Transition.Exchanges (follow conv) Follows data data' := by
  -- what the delta keeps, and what keeps it
  have hkeeps (s : Followed) (hdata : Follows s data) (hdata' : Follows s data') :
      Follows (track s.1 data, effect data s.2) data' := by
    refine ⟨?_, fits_effect hdata.1 hdata.2⟩
    rw [track_of_delta hdelta]
    exact hdata'.1
  have hkeeps' (s : Followed) (hdata : Follows s data) (hdata' : Follows s data') :
      Follows (track s.1 data', effect data' s.2) data := by
    refine ⟨proper_track hdelta hdata.1 ?_, fits_effect hdata'.1 hdata'.2⟩
    obtain ⟨-, i, place, -, -, -, -, hslot, -⟩ := exists_slot hdelta hdata.1
    intro hcompleted
    have htouches := h _ hslot
    unfold touches at htouches
    rw [hcompleted] at htouches
    simp at htouches
  constructor
  · intro s hdata hdata'
    obtain ⟨-, i, place, -, -, -, -, hslot, -⟩ := exists_slot hdelta hdata.1
    rw [follow_eq hdata, follow_eq hdata', Option.bind_some, Option.bind_some,
      follow_eq (hkeeps s hdata hdata'), follow_eq (hkeeps' s hdata hdata')]
    dsimp only
    rw [track_of_delta hdelta, track_of_delta hdelta,
      effect_comm hdelta hdata.1 hdata'.1 hdata.2 hslot (h _ hslot)]
  · intro s s₁ hdata hdata' hstep
    rw [follow_eq hdata] at hstep
    cases hstep
    exact hkeeps s hdata hdata'
  · intro s s₁ hdata hdata' hstep
    rw [follow_eq hdata'] at hstep
    cases hstep
    exact hkeeps' s hdata hdata'

theorem touches_slot {data : Event} {slot : Slot} (h : data.slot = some slot) :
    touches slot data = true := by
  unfold touches
  rw [h]
  simp

/-- **Events in no common class can be exchanged.** -/
theorem exchanges {conv : Conversions} {data data' : Event}
    (h : ∀ c, ¬ (inClass c data = true ∧ inClass c data' = true)) :
    Transition.Exchanges (follow conv) Follows data data' := by
  by_cases hdelta : data.isDelta = true
  · refine exchanges_of_delta hdelta fun slot hslot => ?_
    have := h (some slot)
    simpa [inClass, touches_slot hslot] using this
  · have hdelta' : data'.isDelta = true := by
      have := h none
      simpa [inClass, hdelta] using this
    refine (exchanges_of_delta hdelta' fun slot hslot => ?_).symm
    have := h (some slot)
    simpa [inClass, touches_slot hslot] using this

/-- Every proper event is in a class. -/
theorem exists_inClass {s : Followed} {data : Event} (h : Follows s data) :
    ∃ c, inClass c data = true := by
  by_cases hdelta : data.isDelta = true
  · obtain ⟨-, i, place, -, -, -, -, hslot, -⟩ := exists_slot hdelta h.1
    exact ⟨some ⟨i, place⟩, touches_slot hslot⟩
  · exact ⟨none, by simp [inClass, hdelta]⟩

theorem stepsMeet_of_properFrom {conv : Conversions} {shapes : List Shape} {output : List Item}
    {events : List Event} (hproper : ProperFrom shapes events) (hfits : Fits shapes output) :
    Transition.StepsMeet (follow conv) Follows (shapes, output) events := by
  induction events generalizing shapes output with
  | nil => trivial
  | cons data events ih =>
    refine ⟨⟨hproper.1, hfits⟩, fun s' hs' => ?_⟩
    rw [follow_eq (s := (shapes, output)) ⟨hproper.1, hfits⟩] at hs'
    cases hs'
    exact ih hproper.2 (fits_effect hproper.1 hfits)

/-- The layout follows the run. -/
theorem exec_follow {conv : Conversions} {shapes : List Shape} {output : List Item}
    {events : List Event} :
    (Transition.exec (follow conv) (shapes, output) events).map Prod.snd =
      Transition.exec (next conv) output events := by
  induction events generalizing shapes output with
  | nil => rfl
  | cons data events ih =>
    rw [Transition.exec_cons, Transition.exec_cons]
    unfold follow
    cases next conv output data with
    | none => rfl
    | some output' => exact ih

/-- **Interleavings.** Reordered sequences of proper events give the same output. -/
theorem exec_next_reordered {conv : Conversions} {shapes : List Shape} {output : List Item}
    {events events' : List Event} (hfits : Fits shapes output) (hproper : ProperFrom shapes events)
    (hproper' : ProperFrom shapes events') (h : Reordered events events') :
    Transition.exec (next conv) output events = Transition.exec (next conv) output events' := by
  rw [← @exec_follow conv shapes, ← @exec_follow conv shapes,
    Transition.exec_eq_of_projections (fun _ _ => exchanges) (fun _ _ => exists_inClass)
      (stepsMeet_of_properFrom hproper hfits) (stepsMeet_of_properFrom hproper' hfits) h]

end OpenLaunch.Responses
