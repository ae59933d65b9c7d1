import OpenLaunch.Python.Conversions
import OpenLaunch.Python.Items
import OpenLaunch.Python.Lines

/-! # Events of a streamed response

`handle_responses_streaming_event` keeps the output of a response that arrives as a stream of
events: items are added to the output and parts to items, deltas extend a part, and other events say
that something is done. An event names the item and the part it is about by their positions.

The function copies what it changes, the list, the item, its list of parts and the part, and returns
the new list; only when the response is completed without an output of its own, the items of the
list passed in are written themselves. So the model returns this list as it is afterwards, beside
the result. -/

namespace OpenLaunch.Responses

open Python

/-! ## Events and items -/

/-- An output item, or any other `dict`. -/
abbrev Item := List (String × Json)

/-- An event: an object whose `type` is a string and whose positions are integers. -/
structure Event where
  fields : Item
  typed : ∀ v, Assoc.get? fields "type" = some v → ∃ s, v = .str s
  indexed : ∀ key ∈ ["output_index", "content_index", "summary_index"], ∀ v,
    Assoc.get? fields key = some v → ∃ n, v = .int n
  deriving DecidableEq

/-- `data.get(key, default)`. -/
def Event.get (data : Event) (key : String) (default : Json) : Json :=
  (Assoc.get? data.fields key).getD default

/-- `data.get('type', '')`. -/
def Event.event_type (data : Event) : String := ((data.get "type" (.str "")).str?).getD ""

/-- `data.get(key, default)` for a position. -/
def Event.index (data : Event) (key : String) (default : ℤ) : ℤ :=
  match data.get key (.int default) with
  | .int n => n
  | _ => default

/-- `item.get('type', '')`. -/
def itemType (item : Item) : Json := (Assoc.get? item "type").getD (.str "")

/-- A list of items as a value. -/
def ofItems (items : List Item) : Json := .list (items.map .dict)

/-- What the function raises: an exception of an operation, or `UnboundLocalError`. -/
inductive Raised
  | error (e : PyErr)
  | unboundLocal
  deriving DecidableEq

/-- An operation that may raise. -/
def raising {α : Type} (r : Except PyErr α) : Except Raised α := r.mapError .error

/-! ## Kinds of events -/

/-- The branches of the function. A delta and a done event have the second part of their type. -/
inductive Kind
  | itemAdded
  | contentPartAdded
  | summaryPartAdded
  | delta (delta_type : Option String)
  | done (type_name : Option String)
  | itemDone
  | completed
  | inProgress
  | failed
  | other
  deriving DecidableEq

/-- `event_type.split('.')[1]`, if there are three parts or more. -/
def secondPart (event_type : String) : Option String :=
  let split := splitLines '.' event_type.toList
  let parts := split.1 ++ [split.2]
  if 3 ≤ parts.length then (parts[1]?).map String.ofList else none

/-- An event type of the form `response.….end`. -/
def hasEnd (event_type : String) (ending : String) : Bool :=
  "response.".toList.isPrefixOf event_type.toList && ending.toList.isSuffixOf event_type.toList

/-- The branch for an event type, in the order of the tests. -/
def kind (event_type : String) : Kind :=
  if event_type = "response.output_item.added" then .itemAdded
  else if event_type = "response.content_part.added" then .contentPartAdded
  else if event_type = "response.reasoning_summary_part.added" then .summaryPartAdded
  else if hasEnd event_type ".delta" then .delta (secondPart event_type)
  else if hasEnd event_type ".done" then .done (secondPart event_type)
  else if event_type = "response.output_item.done" then .itemDone
  else if event_type = "response.completed" then .completed
  else if event_type = "response.in_progress" then .inProgress
  else if event_type = "response.failed" then .failed
  else .other

/-! ## Positions -/

/-- The item that the event is about, with its position. -/
def located (data : Event) (current_output : List Item) : Option (ℕ × Item) :=
  let output_index := data.index "output_index" (current_output.length - 1)
  if 0 ≤ output_index then
    (current_output[output_index.toNat]?).map fun item => (output_index.toNat, item)
  else none

/-- The position that `xs[i]` stands for in a list of length `n`. -/
def pyIndex (n : ℕ) (i : ℤ) : Option ℕ :=
  if 0 ≤ i ∧ i < n then some i.toNat
  else if -n ≤ i ∧ i < 0 then some (n + i).toNat
  else none

/-- A copy of the list in a field, empty if there is no such field. -/
def copiedList (item : Item) (field : String) : Except Raised (List Json) :=
  match Assoc.get? item field with
  | none => .ok []
  | some v => raising v.iter

/-- A copy of the part at a position is changed; `ofList` is raised where it is a list. -/
def editPart (parts : List Json) (index : ℤ) (ofList : PyErr) (update : Item → Item) :
    Except Raised (List Json) :=
  match pyIndex parts.length index with
  | none => .error (.error .indexError)
  | some i =>
    match parts[i]? with
    | some (.dict part) => .ok (parts.set i (.dict (update part)))
    | some (.list _) => .error (.error ofList)
    | _ => .error (.error .attributeError)

/-! ## Deltas -/

mutual

/-- `deep_merge`. -/
def deep_merge (target : Json) : Json → Json
  | .dict source =>
    match target with
    | .dict fields => .dict (mergeFields fields source)
    | _ => .dict source
  | .str source =>
    match target with
    | .str text => .str (text ++ source)
    | _ => .str source
  | source => source

/-- The loop of `deep_merge` over the entries of `source`. -/
def mergeFields (new_target : Item) : List (String × Json) → Item
  | [] => new_target
  | (k, v) :: source =>
    mergeFields (Assoc.set new_target k (match Assoc.get? new_target k with
      | some value => deep_merge value v
      | none => v)) source

end

/-- The value that a delta is merged into: `{}` or `''` if there is none. -/
def currentVal (fields : Item) (key : String) (delta : Json) : Json :=
  match (Assoc.get? fields key).getD .null with
  | .null => if delta.isDict then .dict [] else .str ""
  | value => value

/-- A delta is merged into a field of a message part, or of an item. -/
def mergeField (key : String) (delta : Json) (fields : Item) : Item :=
  Assoc.set fields key (deep_merge (currentVal fields key delta) delta)

/-- A delta is merged into the text of a reasoning part. -/
def mergeText (delta : Json) (part : Item) : Item :=
  Assoc.set part "text" (deep_merge ((Assoc.get? part "text").getD (.str "")) delta)

/-- An empty part of a type. -/
def emptyPart (type : String) : Json := .dict [("type", .str type), ("text", .str "")]

/-- A delta changes the part at a position of a list in a field; parts up to it are made first. -/
def deltaPart (field : String) (index : ℤ) (padding : Json) (update : Item → Item) (item : Item) :
    Except Raised Item := do
  let parts ← copiedList item field
  let parts ←
    editPart (parts ++ List.replicate (index + 1 - parts.length).toNat padding) index
      .attributeError update
  return Assoc.set item field (.list parts)

/-- The field that a delta of a message, or of another item, goes to. -/
def deltaKey (delta_type : String) : String :=
  if delta_type = "text" ∨ delta_type = "output_text" then "text" else delta_type

/-- The item that a delta is about, with the delta. -/
def deltaItem (conv : Conversions) (data : Event) (delta_type : String) (item : Item) :
    Except Raised Item :=
  let delta := data.get "delta" (.str "")
  if delta_type = "function_call_arguments" then
    if itemType item = .str "function_call" then
      match (Assoc.get? item "arguments").getD (.str "") with
      | .str arguments => .ok (Assoc.set item "arguments" (.str (arguments ++ conv.str delta)))
      | _ => .error (.error .typeError)
    else .ok item
  else if itemType item = .str "message" then
    if delta_type = "reasoning_text" ∨ delta_type = "reasoning_summary_text" then .ok item
    else
      deltaPart "content" (data.index "content_index" 0) (emptyPart "text")
        (mergeField (deltaKey delta_type) delta) item
  else if itemType item = .str "reasoning" then
    if delta_type = "reasoning_summary_text" then
      deltaPart "summary" (data.index "summary_index" 0) (emptyPart "summary_text")
        (mergeText delta) item
    else if delta_type = "reasoning_text" then
      deltaPart "content" (data.index "content_index" 0) (emptyPart "text") (mergeText delta) item
    else .ok item
  else .ok (mergeField (deltaKey delta_type) delta item)

/-! ## Done events -/

/-- The field of a done event that has the final value. -/
def doneKey (type_name : String) : String :=
  if type_name = "function_call_arguments" then "arguments"
  else if type_name ∈ ["text", "output_text", "reasoning_text", "reasoning_summary_text"] then "text"
  else type_name

/-- The item that a done event is about, with the final value. -/
def doneItem (data : Event) (type_name : String) (final_value : Json) (item : Item) :
    Except Raised Item :=
  if type_name = "function_call_arguments" then
    if itemType item = .str "function_call" then .ok (Assoc.set item "arguments" final_value)
    else .ok item
  else if itemType item = .str "message" then
    match Assoc.get? item "content" with
    | none => .ok item
    | some content => do
      let parts ← raising content.iter
      let content_index := data.index "content_index" 0
      if content_index < parts.length then do
        let parts ← editPart parts content_index .typeError fun part =>
          Assoc.set part (doneKey type_name) final_value
        return Assoc.set item "content" (.list parts)
      else return Assoc.set item "content" (.list parts)
  else if itemType item = .str "reasoning" then
    .ok (Assoc.set item "status" (.str "completed"))
  else .ok (Assoc.set item (doneKey type_name) final_value)

/-! ## The function -/

/-- What the function returns: the new output, and metadata. -/
abbrev Returned := Json × Option Item

/-- Nothing changes. -/
def same (current_output : List Item) : Returned := (ofItems current_output, none)

/-- `response.output_item.added`. -/
def addItem (data : Event) (current_output : List Item) : Returned :=
  let item := data.get "item" (.dict [])
  if item.truthy then (.list (current_output.map .dict ++ [item]), none) else same current_output

/-- `response.content_part.added` and `response.reasoning_summary_part.added`: to items of some kind
the part is appended, others get the field only. -/
def addPart (field : String) (appends : Item → Bool) (data : Event) (current_output : List Item) :
    Except Raised Returned :=
  match located data current_output with
  | none => .ok (same current_output)
  | some (i, item) => do
    let parts ← copiedList item field
    let parts := if appends item then parts ++ [data.get "part" (.dict [])] else parts
    return (ofItems (current_output.set i (Assoc.set item field (.list parts))), none)

/-- A delta event; where the item does not exist, the variable that is returned has no value. -/
def delta (conv : Conversions) (data : Event) (delta_type : String) (current_output : List Item) :
    Except Raised Returned :=
  match located data current_output with
  | none => .error .unboundLocal
  | some (i, item) => do
    let item ← deltaItem conv data delta_type item
    return (ofItems (current_output.set i item), none)

/-- `response.content_part.done` and `response.reasoning_summary_part.done`. -/
def partDone (field indexKey : String) (data : Event) (current_output : List Item) :
    Except Raised Returned :=
  let part := data.get "part" .null
  match located data current_output with
  | none => .ok (same current_output)
  | some (i, item) =>
    if part.truthy then
      match Assoc.get? item field with
      | none => .ok (same current_output)
      | some value => do
        let parts ← raising value.iter
        let index := data.index indexKey (parts.length - 1)
        if 0 ≤ index ∧ index < parts.length then
          return (ofItems (current_output.set i
            (Assoc.set item field (.list (parts.set index.toNat part)))), some [])
        else return same current_output
    else .ok (same current_output)

/-- A done event for a field, such as `response.output_text.done`. -/
def fieldDone (data : Event) (type_name : String) (current_output : List Item) :
    Except Raised Returned :=
  match located data current_output with
  | none => .ok (same current_output)
  | some (i, item) =>
    match Assoc.get? data.fields (doneKey type_name) with
    | none => .ok (same current_output)
    | some final_value => do
      let item ← doneItem data type_name final_value item
      return (ofItems (current_output.set i item), some [])

/-- The done events. -/
def done (data : Event) (type_name : String) (current_output : List Item) :
    Except Raised Returned :=
  if type_name = "content_part" then partDone "content" "content_index" data current_output
  else if type_name = "reasoning_summary_part" then
    partDone "summary" "summary_index" data current_output
  else if type_name ∈ ["output_item", "completed", "failed"] then .ok (same current_output)
  else fieldDone data type_name current_output

/-- `response.output_item.done`. -/
def itemDone (data : Event) (current_output : List Item) : Returned :=
  let item := data.get "item" .null
  if item.truthy then
    match located data current_output with
    | some (i, _) => (.list ((current_output.map .dict).set i item), some [])
    | none => (.list (current_output.map .dict ++ [item]), some [])
  else (ofItems current_output, some [])

/-- A reasoning item is marked as completed. -/
def markCompleted (item : Item) : Item :=
  if itemType item = .str "reasoning" ∧ Assoc.get? item "status" ≠ some (.str "completed") then
    Assoc.set item "status" (.str "completed")
  else item

/-- The loop over a final output. -/
def markAll (final_output : Json) : Except Raised Json :=
  if final_output.truthy then do
    let items ← raising final_output.iter
    let marked ← items.mapM fun item => match item with
      | .dict fields => .ok (.dict (markCompleted fields))
      | _ => .error (.error .attributeError)
    return .list marked
  else .ok final_output

/-- The items of a list are marked. -/
theorem markAll_ofItems (items : List Item) :
    markAll (ofItems items) = .ok (ofItems (items.map markCompleted)) := by
  unfold markAll
  split
  · refine bind_eq_ok.mpr ⟨items.map .dict, rfl, ?_⟩
    refine bind_eq_ok.mpr ⟨(items.map markCompleted).map .dict, ?_, rfl⟩
    rename_i htruthy
    clear htruthy
    induction items with
    | nil => rfl
    | cons item items ih =>
      rw [List.map_cons, List.mapM_cons, ih]
      rfl
  · next hfalsy =>
    cases items with
    | nil => rfl
    | cons item items => simp [ofItems] at hfalsy

/-- `response.completed`, with the list passed in as it is afterwards. -/
def complete (data : Event) (current_output : List Item) :
    Except Raised Returned × List Item :=
  match data.get "response" (.dict []) with
  | .dict response_data =>
    let metadata : Item := [("usage", (Assoc.get? response_data "usage").getD .null),
      ("done", .bool true), ("response_id", (Assoc.get? response_data "id").getD .null)]
    match (Assoc.get? response_data "output").getD .null with
    | .null =>
      let marked := current_output.map markCompleted
      (.ok (ofItems marked, some metadata), marked)
    | final_output =>
      ((markAll final_output).map fun new_output => (new_output, some metadata), current_output)
  | _ => (.error (.error .attributeError), current_output)

/-- `response.failed`. -/
def fail (data : Event) (current_output : List Item) : Except Raised Returned :=
  match data.get "response" (.dict []) with
  | .dict response =>
    .ok (ofItems current_output, some [("error", (Assoc.get? response "error").getD (.dict []))])
  | _ => .error (.error .attributeError)

/-- `handle_responses_streaming_event`: what it returns (`none` where it ends without a `return`) or
raises, and the list passed in as it is afterwards. -/
def handle_responses_streaming_event (conv : Conversions) (data : Event)
    (current_output : List Item) : Except Raised (Option Returned) × List Item :=
  match kind data.event_type with
  | .itemAdded => (.ok (some (addItem data current_output)), current_output)
  | .contentPartAdded =>
    ((addPart "content" (fun item => itemType item ≠ .str "reasoning") data current_output).map some,
      current_output)
  | .summaryPartAdded =>
    ((addPart "summary" (fun _ => true) data current_output).map some, current_output)
  | .delta none => (.ok none, current_output)
  | .delta (some delta_type) =>
    ((delta conv data delta_type current_output).map some, current_output)
  | .done none => (.ok (some (same current_output)), current_output)
  | .done (some type_name) => ((done data type_name current_output).map some, current_output)
  | .itemDone => (.ok (some (itemDone data current_output)), current_output)
  | .completed =>
    let r := complete data current_output
    (r.1.map some, r.2)
  | .inProgress => (.ok (some (same current_output)), current_output)
  | .failed => ((fail data current_output).map some, current_output)
  | .other => (.ok (some (same current_output)), current_output)

end OpenLaunch.Responses
