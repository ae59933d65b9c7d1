import OpenLaunch.Responses.Handler

/-! # Sequences of events as the API sends them

A delta is about a slot: a part of an item, named by its position among the content parts or the
summary parts, or a field of the item itself, as the arguments of a call. A layout keeps what has
been added so far, the type of every item and the number of its parts, and nothing of what the
handler does; an event is proper if it adds the next item or part, or is about one that has been
added, and its fields have the types of the API. -/

namespace OpenLaunch.Responses

open Python

/-! ## Slots -/

/-- A place in an item that deltas are about. -/
inductive Place
  | content (index : ℕ)
  | summary (index : ℕ)
  | whole
  deriving DecidableEq

/-- A place in an item of the output. -/
structure Slot where
  output_index : ℕ
  place : Place
  deriving DecidableEq

/-- A position that an event has. -/
def Event.position (data : Event) (key : String) : Option ℕ :=
  match Assoc.get? data.fields key with
  | some (.int n) => if 0 ≤ n then some n.toNat else none
  | _ => none

/-- The place that an event with a second part of its type is about. -/
def Event.place (data : Event) (type_name : String) : Option Place :=
  if type_name = "function_call_arguments" then some .whole
  else if type_name = "reasoning_summary_text" then (data.position "summary_index").map .summary
  else
    match data.position "content_index" with
    | some content_index => some (.content content_index)
    | none => some .whole

/-- The slot that a delta is about. -/
def Event.slot (data : Event) : Option Slot :=
  match kind data.event_type with
  | .delta (some delta_type) =>
    (data.position "output_index").bind fun output_index =>
      (data.place delta_type).map fun place => ⟨output_index, place⟩
  | _ => none

/-- A delta that is a string. -/
def Event.text (data : Event) : String := ((data.get "delta" (.str "")).str?).getD ""

/-- An object in a field. -/
def Event.object (data : Event) (key : String) : Option Item :=
  match Assoc.get? data.fields key with
  | some (.dict fields) => some fields
  | _ => none

/-! ## Items -/

/-- The list in a field, or no values. -/
def listAt (item : Item) (field : String) : List Json := ((Assoc.get? item field).getD .null).elems

/-- The text in a field, or no text. -/
def textAt (item : Item) (key : String) : String := (((Assoc.get? item key).getD .null).str?).getD ""

/-- A list of objects. -/
def isObjects : Json → Bool
  | .list values => values.all Json.isDict
  | _ => false

/-- The objects of a list. -/
def objects (values : List Json) : List Item :=
  values.filterMap fun
    | .dict fields => some fields
    | _ => none

theorem objects_map (items : List Item) : objects (items.map .dict) = items := by
  induction items with
  | nil => rfl
  | cons item items ih => rw [List.map_cons, objects, List.filterMap_cons, ← objects, ih]

/-- A list of objects is a list of items. -/
theorem ofItems_objects {values : List Json} (h : ∀ v ∈ values, v.isDict = true) :
    ofItems (objects values) = .list values := by
  unfold ofItems
  congr 1
  induction values with
  | nil => rfl
  | cons v values ih =>
    rw [List.forall_mem_cons] at h
    obtain ⟨fields, rfl⟩ := Json.isDict_eq_true.mp h.1
    rw [objects, List.filterMap_cons, ← objects, List.map_cons, ih h.2]

/-- The output after an event, where the function returns a list of items. -/
def next (conv : Conversions) (current_output : List Item) (data : Event) : Option (List Item) :=
  match (handle_responses_streaming_event conv data current_output).1 with
  | .ok (some (new_output, _)) =>
    if isObjects new_output then some (objects new_output.elems) else none
  | _ => none

/-- Messages and reasoning items have parts. -/
def HasParts (type : Json) : Prop := type = .str "message" ∨ type = .str "reasoning"

instance (type : Json) : Decidable (HasParts type) := instDecidableOr

/-- An item as the API sends it: the parts are lists of objects, and the arguments of a call are a
string. -/
structure Shaped (item : Item) : Prop where
  parts : HasParts (itemType item) → ∀ field ∈ ["content", "summary"],
    ((Assoc.get? item field).getD (.list [])) |> isObjects
  arguments : itemType item = .str "function_call" →
    ((Assoc.get? item "arguments").getD (.str "")).isStr

instance (item : Item) : Decidable (Shaped item) :=
  decidable_of_iff
    ((HasParts (itemType item) → ∀ field ∈ ["content", "summary"],
        ((Assoc.get? item field).getD (.list [])) |> isObjects) ∧
      (itemType item = .str "function_call" →
        ((Assoc.get? item "arguments").getD (.str "")).isStr))
    ⟨fun h => ⟨h.1, h.2⟩, fun h => ⟨h.1, h.2⟩⟩

/-! ## Layouts -/

/-- What has been added of an item: its type, and the numbers of its parts. -/
structure Shape where
  type : Json
  content : ℕ
  summary : ℕ

/-- The shape of an item as it is. -/
def shapeOf (item : Item) : Shape where
  type := itemType item
  content := (listAt item "content").length
  summary := (listAt item "summary").length

/-- The output that a completed response has of its own. -/
def Event.finalOutput (data : Event) : Option (List Item) :=
  (data.object "response").bind fun response =>
    match Assoc.get? response "output" with
    | some (.list values) => some (objects values)
    | _ => none

/-- The layout after an event: what it adds, or the output of a completed response. -/
def track (shapes : List Shape) (data : Event) : List Shape :=
  match kind data.event_type with
  | .itemAdded => shapes ++ ((data.object "item").map shapeOf).toList
  | .contentPartAdded =>
    match data.position "output_index" with
    | some i => shapes.modify i fun shape => { shape with content := shape.content + 1 }
    | none => shapes
  | .summaryPartAdded =>
    match data.position "output_index" with
    | some i => shapes.modify i fun shape => { shape with summary := shape.summary + 1 }
    | none => shapes
  | .completed =>
    match data.finalOutput with
    | some items => items.map shapeOf
    | none => shapes
  | _ => shapes

/-- An event about a field goes to a place of an item: text and the like to a content part of a
message, the text of a reasoning item or of its summary to a part of it, arguments to a call, and
other fields to an item of another type. -/
def Addressed (shape : Shape) (type_name : String) : Place → Prop
  | .content k => k < shape.content ∧
    (shape.type = .str "message" ∧ type_name ≠ "reasoning_text" ∨
      shape.type = .str "reasoning" ∧ type_name = "reasoning_text")
  | .summary k => k < shape.summary ∧ shape.type = .str "reasoning"
  | .whole => ¬ HasParts shape.type ∧ doneKey type_name ∉ ["type", "content", "summary"] ∧
    type_name ≠ "reasoning_text" ∧
    (type_name = "function_call_arguments" → shape.type = .str "function_call")

instance (shape : Shape) (type_name : String) :
    (place : Place) → Decidable (Addressed shape type_name place)
  | .content _ | .summary _ | .whole => inferInstanceAs (Decidable (_ ∧ _))

/-- A done event goes to a part, or to a field with a final value. -/
def DoneAddressed (shape : Shape) (data : Event) (type_name : String) : Prop :=
  if type_name = "content_part" then
    HasParts shape.type ∧ (data.position "content_index").isSome ∧
      ∃ part ∈ data.object "part", part ≠ []
  else if type_name = "reasoning_summary_part" then
    shape.type = .str "reasoning" ∧ (data.position "summary_index").isSome ∧
      ∃ part ∈ data.object "part", part ≠ []
  else
    (∃ place ∈ data.place type_name, Addressed shape type_name place) ∧
      ∀ v ∈ Assoc.get? data.fields (doneKey type_name), v.isStr

instance (shape : Shape) (data : Event) (type_name : String) :
    Decidable (DoneAddressed shape data type_name) := by
  unfold DoneAddressed
  infer_instance

/-- **An event of the API**, where the layout is what has been added before: it adds the next item
or the next part, or is about an item and a part that have been added. -/
def Proper (shapes : List Shape) (data : Event) : Prop :=
  match kind data.event_type with
  | .itemAdded => data.position "output_index" = some shapes.length ∧
    ∃ item ∈ data.object "item", item ≠ [] ∧ Shaped item
  | .contentPartAdded => ∃ i ∈ data.position "output_index", ∃ shape ∈ shapes[i]?,
    HasParts shape.type ∧ data.position "content_index" = some shape.content ∧
      (data.object "part").isSome
  | .summaryPartAdded => ∃ i ∈ data.position "output_index", ∃ shape ∈ shapes[i]?,
    shape.type = .str "reasoning" ∧ data.position "summary_index" = some shape.summary ∧
      (data.object "part").isSome
  | .delta none => False
  | .delta (some delta_type) => ∃ i ∈ data.position "output_index", ∃ shape ∈ shapes[i]?,
    (∃ place ∈ data.place delta_type, Addressed shape delta_type place) ∧
      (data.get "delta" (.str "")).isStr
  | .done none => True
  | .done (some type_name) =>
    type_name ∈ ["output_item", "completed", "failed"] ∨
      ∃ i ∈ data.position "output_index", ∃ shape ∈ shapes[i]?,
        DoneAddressed shape data type_name
  | .itemDone => False
  | .completed => ∃ response ∈ data.object "response",
    (Assoc.get? response "output").getD .null = .null ∨
      ∃ v ∈ Assoc.get? response "output", isObjects v ∧
        ∀ item ∈ objects v.elems, Shaped item
  | .failed => (data.object "response").isSome
  | .inProgress => True
  | .other => True

instance (shapes : List Shape) (data : Event) : Decidable (Proper shapes data) := by
  unfold Proper
  split <;> infer_instance

/-- A sequence of events of the API. -/
def ProperFrom : List Shape → List Event → Prop
  | _, [] => True
  | shapes, data :: events => Proper shapes data ∧ ProperFrom (track shapes data) events

instance ProperFrom.decidable :
    (shapes : List Shape) → (events : List Event) → Decidable (ProperFrom shapes events)
  | _, [] => isTrue trivial
  | shapes, data :: events =>
    have := ProperFrom.decidable (track shapes data) events
    inferInstanceAs (Decidable (_ ∧ _))

end OpenLaunch.Responses
