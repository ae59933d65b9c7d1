import OpenLaunch.Python.Conversions
import OpenLaunch.Python.Text
import OpenLaunch.Requests.Parts

/-! # Requests for the Responses API

`convert_to_responses_payload` makes a request for the Responses API of one for chat completions.
The text of a system message becomes the instructions, and the other messages become items of the
input: messages, calls, and outputs of calls. -/

namespace OpenLaunch.Responses.Request

open Python Json Requests

/-! ## The code -/

/-- `RESPONSES_ALLOWED_FIELDS`. -/
def RESPONSES_ALLOWED_FIELDS : Json → Option (List String)
  | .str "message" => some ["type", "role", "content"]
  | .str "function_call" => some ["type", "call_id", "name", "arguments", "id"]
  | .str "function_call_output" => some ["type", "call_id", "output"]
  | _ => none

/-- `_normalize_stored_item`. -/
def _normalize_stored_item (item : Json) : Except PyErr Json := do
  let item_type ← item.getD "type" (.str "")
  match RESPONSES_ALLOWED_FIELDS item_type with
  | none => return item
  | some allowed => return .dict (item.entries.filter fun e => e.1 ∈ allowed)

/-- The texts of a list of parts. -/
def textsOf : List Json → Except PyErr (List String)
  | [] => .ok []
  | p :: parts => do
    let texts ← if (← p.get "type") = .str "text" then
        match ← p.getD "text" (.str "") with
        | .str text => pure [text]
        | _ => throw .typeError
      else pure []
    return texts ++ (← textsOf parts)

/-- The texts of a content, one in a line. -/
def joinedText (content : Json) : Except PyErr String := do
  return "\n".intercalate (← textsOf (← content.iter))

/-- An item with the text of an assistant. -/
def textItem (text : String) : Json :=
  .dict [("type", .str "message"), ("role", .str "assistant"),
    ("content", .list [.dict [("type", .str "output_text"), ("text", .str text)]])]

/-- The text next to calls, if it is not blank. -/
def textBefore (content : Json) : Except PyErr (List Json) :=
  if content.truthy then do
    let text ← match content with
      | .str text => pure text
      | content => joinedText content
    return if stripped text = "" then [] else [textItem text]
  else .ok []

/-- The item of a call. -/
def callItem (tool_call : Json) : Except PyErr Json := do
  let func ← tool_call.getD "function" (.dict [])
  return .dict [("type", .str "function_call"), ("call_id", ← tool_call.getD "id" (.str "")),
    ("name", ← func.getD "name" (.str "")), ("arguments", ← func.getD "arguments" (.str "\x7b\x7d"))]

/-- A part of the content of an item. -/
def textPart (text_type : String) (text : Json) : Json :=
  .dict [("type", .str text_type), ("text", text)]

/-- The part that becomes of a part. -/
def convertPart (text_type : String) (part : Json) : Except PyErr (List Json) := do
  let type ← part.get "type"
  if type = .str "text" then return [textPart text_type (← part.getD "text" (.str ""))]
  else if type = .str "image_url" then
    let url_data ← part.getD "image_url" (.dict [])
    let url := match url_data with
      | .dict image => (Assoc.get? image "url").getD (.str "")
      | url_data => url_data
    return [.dict [("type", .str "input_image"), ("image_url", url)]]
  else return []

variable (conv : Conversions)

/-- The content of an item. -/
def convertContent (text_type : String) : Json → Except PyErr (List Json)
  | .list parts => do return (← parts.mapM (convertPart text_type)).flatten
  | content => .ok [textPart text_type (.str (conv.str content))]

/-- The body of the loop over the messages: the text of the system messages and the items. -/
def convertMessage (system_content : String) (msg : Json) : Except PyErr (String × List Json) := do
  let role ← msg.getD "role" (.str "user")
  let content ← msg.getD "content" (.str "")
  let stored_output ← msg.get "output"
  let tool_calls ← msg.get "tool_calls"
  if stored_output.truthy ∧ stored_output.isList then
    return (system_content, ← stored_output.elems.mapM _normalize_stored_item)
  else if role = .str "system" then
    match content with
    | .str text => return (text, [])
    | .list parts => return (← joinedText (.list parts), [])
    | _ => return (system_content, [])
  else if role = .str "assistant" ∧ tool_calls.truthy then
    let texts ← textBefore content
    let calls ← (← tool_calls.iter).mapM callItem
    return (system_content, texts ++ calls)
  else if role = .str "tool" then
    return (system_content, [.dict [("type", .str "function_call_output"),
      ("call_id", ← msg.getD "tool_call_id" (.str "")), ("output", content)]])
  else
    let text_type := if role = .str "assistant" then "output_text" else "input_text"
    let content_parts ← convertContent conv text_type content
    return (system_content, [.dict [("type", .str "message"), ("role", role),
      ("content", .list content_parts)]])

/-- The loop over the messages. -/
def convertMessages : String → List Json → Except PyErr (String × List Json)
  | system_content, [] => .ok (system_content, [])
  | system_content, msg :: messages => do
    let (system_content, items) ← convertMessage conv system_content msg
    let (system_content, input_items) ← convertMessages system_content messages
    return (system_content, items ++ input_items)

/-- `d[new] = d.pop(old)`, where there is such a key. -/
def renameKey (d : List (String × Json)) (old new : String) : List (String × Json) :=
  match Assoc.get? d old with
  | some v => Assoc.set (Assoc.erase d old) new v
  | none => d

/-- A field of a tool that is copied if it is there. -/
def copied (func : List (String × Json)) (k : String) : List (String × Json) :=
  match Assoc.get? func k with
  | some v => [(k, v)]
  | none => []

/-- A tool of the request. -/
def convertTool : Json → Json
  | .dict tool =>
    match Assoc.get? tool "function" with
    | some func =>
      .dict (("type", (Assoc.get? tool "type").getD (.str "function")) :: match func with
        | .dict func => ("name", (Assoc.get? func "name").getD (.str "")) ::
          (copied func "description" ++ copied func "parameters" ++ copied func "strict")
        | _ => [])
    | none => .dict tool
  | tool => tool

/-- The keys that the Responses API does not know. -/
def unsupportedKeys : List String :=
  ["stream_options", "logit_bias", "frequency_penalty", "presence_penalty", "stop"]

/-- The fields of the request besides the input, in which the messages are replaced. -/
def otherFields (payload : List (String × Json)) (system_content : String)
    (input_items : List Json) : List (String × Json) :=
  let responses_payload := Assoc.set (Assoc.erase payload "messages") "input" (.list input_items)
  let previous_response_id := field responses_payload "previous_response_id"
  let responses_payload := Assoc.erase responses_payload "previous_response_id"
  let responses_payload := if previous_response_id.truthy then
    Assoc.set responses_payload "previous_response_id" previous_response_id else responses_payload
  let responses_payload := if system_content = "" then responses_payload
    else Assoc.set responses_payload "instructions" (.str system_content)
  let responses_payload := renameKey responses_payload "max_tokens" "max_output_tokens"
  let responses_payload := renameKey responses_payload "max_completion_tokens" "max_output_tokens"
  unsupportedKeys.foldl Assoc.erase responses_payload

/-- `convert_to_responses_payload`. -/
def convert_to_responses_payload (payload : List (String × Json)) :
    Except PyErr (List (String × Json)) := do
  let messages ← ((Assoc.get? payload "messages").getD (.list [])).iter
  let (system_content, input_items) ← convertMessages conv "" messages
  let responses_payload := otherFields payload system_content input_items
  match Assoc.get? responses_payload "tools" with
  | some (.list tools) =>
    return Assoc.set responses_payload "tools" (.list (tools.map convertTool))
  | _ => return responses_payload

/-! ## What a request says -/

/-- What a message or an item says. -/
inductive Entry
  | text (role : Json) (text : String)
  | image (role : Json) (url : String)
  | call (id name arguments : Json)
  | result (id output : Json)
  deriving DecidableEq

/-- The role of a message. -/
def roleOf (msg : List (String × Json)) : Json := (Assoc.get? msg "role").getD (.str "user")

/-- The content of a message. -/
def contentOf (msg : List (String × Json)) : Json := (Assoc.get? msg "content").getD (.str "")

/-- The calls of a message. -/
def callsOf (msg : List (String × Json)) : List Json := (field msg "tool_calls").elems

/-- The texts of a content, one in a line. -/
def contentText : Json → String
  | .str text => text
  | .list parts => "\n".intercalate (parts.filterMap partText)
  | _ => ""

/-- A part says its text, or shows its image. -/
def partEntries (role : Json) (part : Json) : List Entry :=
  (partText part).toList.map (.text role) ++ (partUrl part).toList.map (.image role)

/-- The entries of a content; one that is no text and no list is its string. -/
def contentEntries (role : Json) : Json → List Entry
  | .list parts => parts.flatMap (partEntries role)
  | content => [.text role (conv.str content)]

/-- A call has an id, a name and arguments. -/
def callEntry (call : Json) : Entry :=
  let function := ((Assoc.get? call.entries "function").getD (.dict [])).entries
  .call ((Assoc.get? call.entries "id").getD (.str ""))
    ((Assoc.get? function "name").getD (.str ""))
    ((Assoc.get? function "arguments").getD (.str "\x7b\x7d"))

/-- **What a message says**, but for a system message. The texts next to calls are one text, without
which there is none if it is blank. -/
def messageEntries (msg : List (String × Json)) : List Entry :=
  if roleOf msg = .str "system" then []
  else if roleOf msg = .str "assistant" ∧ callsOf msg ≠ [] then
    (if stripped (contentText (contentOf msg)) = "" then []
      else [.text (.str "assistant") (contentText (contentOf msg))]) ++ (callsOf msg).map callEntry
  else if roleOf msg = .str "tool" then
    [.result ((Assoc.get? msg "tool_call_id").getD (.str "")) (contentOf msg)]
  else contentEntries conv (roleOf msg) (contentOf msg)

/-- A part of the content of an item. -/
def itemPartEntries (role : Json) (part : Json) : List Entry :=
  if field part.entries "type" = .str "input_image" then
    (field part.entries "image_url").str?.toList.map (.image role)
  else (field part.entries "text").str?.toList.map (.text role)

/-- **What an item says.** -/
def itemEntries (item : Json) : List Entry :=
  if field item.entries "type" = .str "function_call" then
    [.call (field item.entries "call_id") (field item.entries "name")
      (field item.entries "arguments")]
  else if field item.entries "type" = .str "function_call_output" then
    [.result (field item.entries "call_id") (field item.entries "output")]
  else (field item.entries "content").elems.flatMap
    (itemPartEntries (field item.entries "role"))

/-- Each result comes after a call with its id. -/
def ResultsFollow (entries : List Entry) : Prop :=
  ∀ before id output after, entries = before ++ .result id output :: after →
    ∃ name arguments, .call id name arguments ∈ before

/-- The text of a system message. -/
def systemText (msg : List (String × Json)) : Option String :=
  if roleOf msg = .str "system" then
    match contentOf msg with
    | .str text => some text
    | .list parts => some (contentText (.list parts))
    | _ => none
  else none

/-- **A message without stored output.** -/
structure IsMessage (msg : List (String × Json)) : Prop where
  notStored : ((field msg "output").truthy && (field msg "output").isList) = false
  parts : ∀ parts, contentOf msg = .list parts → ∀ part ∈ parts, IsPart part
  calls : field msg "tool_calls" = .null ∨ ∃ calls, field msg "tool_calls" = .list calls
  call : ∀ call ∈ callsOf msg, ∃ kvs function, call = .dict kvs ∧
    (Assoc.get? kvs "function").getD (.dict []) = .dict function
  content : callsOf msg ≠ [] → (contentOf msg).isStr = true ∨ (contentOf msg).isList = true ∨
    contentOf msg = .null

/-- A function tool keeps its fields, and another tool is kept as it is. -/
structure KeepsTool (tool tool' : Json) : Prop where
  function : ∀ kvs function, tool = .dict kvs → Assoc.get? kvs "function" = some (.dict function) →
    field tool'.entries "name" = (Assoc.get? function "name").getD (.str "") ∧
      ∀ k ∈ ["description", "parameters", "strict"],
        Assoc.get? tool'.entries k = Assoc.get? function k
  other : Assoc.get? tool.entries "function" = none → tool' = tool

/-- **What is kept of a request.** -/
structure Converted (payload : List (String × Json)) (messages : List (List (String × Json)))
    (out : List (String × Json)) : Prop where
  entries : (field out "input").elems.flatMap itemEntries =
    messages.flatMap (messageEntries conv)
  results : ResultsFollow (messages.flatMap (messageEntries conv)) →
    ResultsFollow ((field out "input").elems.flatMap itemEntries)
  instructions : ∀ text, messages.filterMap systemText = [text] → text ≠ "" →
    field out "instructions" = .str text
  tools : ∀ tools, field payload "tools" = .list tools →
    ∃ tools', field out "tools" = .list tools' ∧ List.Forall₂ KeepsTool tools tools'

/-! ## Parts and calls -/

variable {conv} {parts calls : List Json} {part call : Json} {role : Json}
variable {msg payload : List (String × Json)} {messages : List (List (String × Json))}

theorem textsOf_of_isPart (h : ∀ part ∈ parts, IsPart part) :
    textsOf parts = .ok (parts.filterMap partText) := by
  induction parts with
  | nil => rfl
  | cons part parts ih =>
    obtain ⟨hpart, hparts⟩ := List.forall_mem_cons.mp h
    obtain ⟨kvs, rfl, htext, -⟩ := hpart
    have htype : Json.get (.dict kvs) "type" = .ok (field kvs "type") := rfl
    rw [textsOf, htype, List.filterMap_cons, ih hparts]
    simp only [bind, Except.bind, partText, Json.entries]
    by_cases hisText : field kvs "type" = .str "text"
    · obtain ⟨text, htext⟩ := htext hisText
      have hget := getD_of_field (by simp) htext (.str "")
      simp [hisText, htext, hget, Json.getD, Json.str?, pure, Except.pure]
    · simp [hisText, pure, Except.pure]

theorem joinedText_of_isPart (h : ∀ part ∈ parts, IsPart part) :
    joinedText (.list parts) = .ok (contentText (.list parts)) := by
  simp only [joinedText, Json.iter, bind, Except.bind, textsOf_of_isPart h, contentText]
  rfl

theorem itemPartEntries_textPart {text_type : String} (role : Json)
    (htype : text_type ≠ "input_image") (text : String) :
    itemPartEntries role (textPart text_type (.str text)) = [.text role text] := by
  have hfield : field (textPart text_type (.str text)).entries "type" = .str text_type := rfl
  rw [itemPartEntries, hfield, if_neg fun h => htype (Json.str.inj h)]
  rfl

/-- A part says the same after the conversion. -/
theorem convertPart_of_isPart (h : IsPart part) (text_type : String) (role : Json)
    (htype : text_type ≠ "input_image") : ∃ out, convertPart text_type part = .ok out ∧
      out.flatMap (itemPartEntries role) = partEntries role part := by
  obtain ⟨kvs, rfl, htext, himage⟩ := h
  have hget : Json.get (.dict kvs) "type" = .ok (field kvs "type") := rfl
  rw [convertPart, hget]
  simp only [bind, Except.bind]
  by_cases hisText : field kvs "type" = .str "text"
  · obtain ⟨text, htext⟩ := htext hisText
    have hgetText := getD_of_field (by simp) htext (.str "")
    refine ⟨[textPart text_type (.str text)], ?_, ?_⟩
    · simp [hisText, Json.getD, hgetText, pure, Except.pure]
    · simp [partEntries, partText, partUrl, Json.entries, hisText, htext, Json.str?,
        itemPartEntries_textPart role htype]
  by_cases hisImage : field kvs "type" = .str "image_url"
  · obtain ⟨image, url, himage, hurl⟩ := himage hisImage
    have hgetImage := getD_of_field (by simp) himage (.dict [])
    have hgetUrl := getD_of_field (by simp) hurl (.str "")
    refine ⟨[.dict [("type", .str "input_image"), ("image_url", .str url)]], ?_, ?_⟩
    · simp [hisImage, Json.getD, hgetImage, hgetUrl, pure, Except.pure]
    · have hentries : itemPartEntries role (.dict [("type", .str "input_image"),
          ("image_url", .str url)]) = [.image role url] := rfl
      simp [partEntries, partText, partUrl, Json.entries, hisImage, himage, hurl, Json.str?,
        hentries]
  · refine ⟨[], ?_, ?_⟩
    · simp [hisText, hisImage, pure, Except.pure]
    · simp [partEntries, partText, partUrl, Json.entries, hisText, hisImage]

/-- A content says the same after the conversion. -/
theorem convertContent_of_isPart {content : Json} {text_type : String} (role : Json)
    (h : ∀ parts, content = .list parts → ∀ part ∈ parts, IsPart part)
    (htype : text_type ≠ "input_image") : ∃ out, convertContent conv text_type content = .ok out ∧
      out.flatMap (itemPartEntries role) = contentEntries conv role content := by
  cases content with
  | list parts =>
    have hparts := h parts rfl
    rw [convertContent, contentEntries]
    clear h
    induction parts with
    | nil => exact ⟨[], rfl, rfl⟩
    | cons part parts ih =>
      obtain ⟨hpart, hparts⟩ := List.forall_mem_cons.mp hparts
      obtain ⟨out, hout, hentries⟩ := convertPart_of_isPart hpart text_type role htype
      obtain ⟨outs, houts, hall⟩ := ih hparts
      obtain ⟨lists, hlists, houts⟩ := bind_eq_ok.mp houts
      cases houts
      refine ⟨out ++ lists.flatten, ?_, ?_⟩
      · simp only [List.mapM_cons, hout, hlists, bind, Except.bind, pure, Except.pure,
          List.flatten_cons]
      · rw [List.flatMap_append, hentries, hall, List.flatMap_cons]
  | null | bool | int | float | str | dict =>
    refine ⟨_, rfl, ?_⟩
    rw [List.flatMap_singleton]
    exact itemPartEntries_textPart role htype _

/-- A call says the same after the conversion. -/
theorem callItem_of_isCall (h : ∃ kvs function, call = .dict kvs ∧
    (Assoc.get? kvs "function").getD (.dict []) = .dict function) :
    ∃ out, callItem call = .ok out ∧ itemEntries out = [callEntry call] := by
  obtain ⟨kvs, function, rfl, hfunction⟩ := h
  refine ⟨.dict [("type", .str "function_call"),
    ("call_id", (Assoc.get? kvs "id").getD (.str "")),
    ("name", (Assoc.get? function "name").getD (.str "")),
    ("arguments", (Assoc.get? function "arguments").getD (.str "\x7b\x7d"))], ?_, ?_⟩
  · simp only [callItem, Json.getD, hfunction, bind, Except.bind, pure, Except.pure]
  · simp only [callEntry, Json.entries, hfunction]
    rfl

theorem mapM_callItem (h : ∀ call ∈ calls, ∃ kvs function, call = .dict kvs ∧
    (Assoc.get? kvs "function").getD (.dict []) = .dict function) :
    ∃ out, calls.mapM callItem = .ok out ∧ out.flatMap itemEntries = calls.map callEntry := by
  induction calls with
  | nil => exact ⟨[], rfl, rfl⟩
  | cons call calls ih =>
    obtain ⟨hcall, hcalls⟩ := List.forall_mem_cons.mp h
    obtain ⟨out, hout, hentries⟩ := callItem_of_isCall hcall
    obtain ⟨outs, houts, hall⟩ := ih hcalls
    refine ⟨out :: outs, ?_, ?_⟩
    · rw [List.mapM_cons, hout, houts]
      rfl
    · rw [List.flatMap_cons, hentries, hall]
      rfl

/-! ## Messages -/

theorem truthy_tool_calls_iff (h : IsMessage msg) :
    (field msg "tool_calls").truthy = true ↔ callsOf msg ≠ [] := by
  rw [callsOf]
  rcases h.calls with hnone | ⟨calls, hlist⟩
  · simp [hnone, Json.elems]
  · simp [hlist, Json.elems]

/-- The text next to calls is said, if it is not blank. -/
theorem textBefore_of_isMessage (h : IsMessage msg) (hcalls : callsOf msg ≠ []) :
    ∃ items, textBefore (contentOf msg) = .ok items ∧ items.flatMap itemEntries =
      if stripped (contentText (contentOf msg)) = "" then []
        else [.text (.str "assistant") (contentText (contentOf msg))] := by
  have hitem : ∀ text, itemEntries (textItem text) = [.text (.str "assistant") text] :=
    fun text => rfl
  have hblank : stripped "" = "" := rfl
  cases hcontent : contentOf msg with
  | str text =>
    by_cases hempty : text = ""
    · exact ⟨[], by simp [textBefore, hempty], by simp [hempty, contentText, hblank]⟩
    · refine ⟨if stripped text = "" then [] else [textItem text], ?_, ?_⟩
      · simp [textBefore, hempty, bind, Except.bind, pure, Except.pure]
      · rw [contentText]
        split_ifs <;> simp [hitem]
  | list parts =>
    have hjoined := joinedText_of_isPart (h.parts parts hcontent)
    by_cases hempty : parts = []
    · subst hempty
      exact ⟨[], rfl, rfl⟩
    · refine ⟨if stripped (contentText (.list parts)) = "" then []
        else [textItem (contentText (.list parts))], ?_, ?_⟩
      · simp [textBefore, hempty, hjoined, bind, Except.bind, pure, Except.pure]
      · split_ifs <;> simp [hitem]
  | null => exact ⟨[], rfl, rfl⟩
  | bool | int | float | dict =>
    have hkind := h.content hcalls
    rw [hcontent] at hkind
    simp [Json.isStr, Json.isList] at hkind

/-- **A message says the same after the conversion**, and a system message goes to the
instructions. -/
theorem convertMessage_of_isMessage (conv : Conversions) (h : IsMessage msg) (system_content : String) :
    ∃ items, convertMessage conv system_content (.dict msg) =
        .ok ((systemText msg).getD system_content, items) ∧
      items.flatMap itemEntries = messageEntries conv msg := by
  have hrole : Json.getD (.dict msg) "role" (.str "user") = .ok (roleOf msg) := rfl
  have hcontent : Json.getD (.dict msg) "content" (.str "") = .ok (contentOf msg) := rfl
  have houtput : Json.get (.dict msg) "output" = .ok (field msg "output") := rfl
  have hcalls : Json.get (.dict msg) "tool_calls" = .ok (field msg "tool_calls") := rfl
  have hnotStored : ¬ ((field msg "output").truthy ∧ (field msg "output").isList) := by
    have hnot := h.notStored
    simpa using hnot
  rw [convertMessage, hrole, hcontent, houtput, hcalls, messageEntries, systemText]
  simp only [bind, Except.bind, if_neg hnotStored]
  by_cases hsystem : roleOf msg = .str "system"
  · -- the text of a system message replaces what there was
    refine ⟨[], ?_, by rw [if_pos hsystem]; rfl⟩
    rw [if_pos hsystem, if_pos hsystem]
    cases hvalue : contentOf msg with
    | list parts => simp [joinedText_of_isPart (h.parts parts hvalue), pure, Except.pure]
    | null | bool | int | float | str | dict => rfl
  rw [if_neg hsystem, if_neg hsystem, if_neg hsystem, Option.getD_none]
  by_cases hassistant : roleOf msg = .str "assistant" ∧ callsOf msg ≠ []
  · obtain ⟨calls, hlist⟩ : ∃ calls, field msg "tool_calls" = .list calls :=
      h.calls.resolve_left fun hnone => hassistant.2 (by rw [callsOf, hnone]; rfl)
    have hcallsOf : callsOf msg = calls := by rw [callsOf, hlist, Json.elems]
    obtain ⟨texts, htexts, htextEntries⟩ := textBefore_of_isMessage h hassistant.2
    obtain ⟨items, hitems, hitemEntries⟩ := mapM_callItem h.call
    rw [hcallsOf] at hitems
    refine ⟨texts ++ items, ?_, ?_⟩
    · rw [if_pos ⟨hassistant.1, (truthy_tool_calls_iff h).mpr hassistant.2⟩]
      simp only [htexts, hlist, Json.iter, hitems, pure, Except.pure]
    · rw [List.flatMap_append, htextEntries, hitemEntries, if_pos hassistant]
  rw [if_neg fun hand => hassistant ⟨hand.1, (truthy_tool_calls_iff h).mp hand.2⟩,
    if_neg hassistant]
  by_cases htool : roleOf msg = .str "tool"
  · rw [if_pos htool, if_pos htool]
    exact ⟨_, rfl, rfl⟩
  · obtain ⟨out, hout, hentries⟩ := @convertContent_of_isPart conv (contentOf msg)
      (if roleOf msg = .str "assistant" then "output_text" else "input_text") (roleOf msg) h.parts
      (by split_ifs <;> decide)
    rw [if_neg htool, if_neg htool, hout]
    refine ⟨_, rfl, ?_⟩
    rw [List.flatMap_singleton, ← hentries]
    rfl

/-- What the loop returns: the last of the texts of system messages, and items that say what the
other messages say. -/
theorem convertMessages_of_isMessage (conv : Conversions)
    (h : ∀ msg ∈ messages, IsMessage msg) (system_content : String) :
    ∃ items, convertMessages conv system_content (messages.map .dict) =
        .ok ((messages.filterMap systemText).getLastD system_content, items) ∧
      items.flatMap itemEntries = messages.flatMap (messageEntries conv) := by
  induction messages generalizing system_content with
  | nil => exact ⟨[], rfl, rfl⟩
  | cons msg messages ih =>
    obtain ⟨hmsg, hmessages⟩ := List.forall_mem_cons.mp h
    obtain ⟨items, hitems, hentries⟩ := convertMessage_of_isMessage conv hmsg system_content
    obtain ⟨rest, hrest, hall⟩ := ih hmessages ((systemText msg).getD system_content)
    refine ⟨items ++ rest, ?_, by rw [List.flatMap_append, hentries, hall, List.flatMap_cons]⟩
    have hlast : (messages.filterMap systemText).getLastD ((systemText msg).getD system_content) =
        ((msg :: messages).filterMap systemText).getLastD system_content := by
      rw [List.filterMap_cons]
      cases systemText msg with
      | none => rfl
      | some text => rw [List.getLastD_cons, Option.getD_some]
    rw [List.map_cons, convertMessages, hitems]
    simp only [bind, Except.bind, hrest, hlast, pure, Except.pure]

/-! ## The other fields -/

variable {d : List (String × Json)} {k old new : String} {system_content : String}
variable {input_items : List Json}

theorem get?_erase_ne (h : k ≠ old) : Assoc.get? (Assoc.erase d old) k = Assoc.get? d k := by
  rw [Assoc.erase, Assoc.get?_filter (fun key => decide (key ≠ old)), if_pos (by simpa using h)]

theorem get?_renameKey_ne (hold : k ≠ old) (hnew : k ≠ new) :
    Assoc.get? (renameKey d old new) k = Assoc.get? d k := by
  rw [renameKey]
  cases Assoc.get? d old with
  | none => rfl
  | some v => rw [Assoc.get?_set_ne _ hnew, get?_erase_ne hold]

theorem get?_foldl_erase {ks : List String} (h : k ∉ ks) :
    Assoc.get? (ks.foldl Assoc.erase d) k = Assoc.get? d k := by
  induction ks generalizing d with
  | nil => rfl
  | cons old ks ih =>
    rw [List.mem_cons, not_or] at h
    rw [List.foldl_cons, ih h.2, get?_erase_ne h.1]

/-- The keys that are renamed, moved or removed. -/
def movedKeys : List String :=
  ["previous_response_id", "max_tokens", "max_output_tokens", "max_completion_tokens"] ++
    unsupportedKeys

/-- The fields that are not moved. -/
theorem get?_otherFields (h : k ∉ movedKeys) :
    Assoc.get? (otherFields payload system_content input_items) k =
      if k = "instructions" ∧ system_content ≠ "" then some (.str system_content)
      else Assoc.get? (Assoc.set (Assoc.erase payload "messages") "input" (.list input_items)) k := by
  rw [movedKeys, List.mem_append, not_or] at h
  obtain ⟨hmoved, hunsupported⟩ := h
  simp only [List.mem_cons, List.not_mem_nil, or_false, not_or] at hmoved
  obtain ⟨hprevious, htokens, houtput, hcompletion⟩ := hmoved
  have hkeep : ∀ (c : Prop) [Decidable c] (d : List (String × Json)) (v : Json),
      Assoc.get? (if c then Assoc.set d "previous_response_id" v else d) k = Assoc.get? d k := by
    intro c _ d v
    split_ifs
    · exact Assoc.get?_set_ne d hprevious v
    · rfl
  rw [otherFields]
  rw [get?_foldl_erase hunsupported, get?_renameKey_ne hcompletion houtput,
    get?_renameKey_ne htokens houtput]
  by_cases hempty : system_content = ""
  · rw [if_pos hempty, hkeep, get?_erase_ne hprevious, if_neg fun hand => hand.2 hempty]
  · rw [if_neg hempty]
    by_cases hk : k = "instructions"
    · subst hk
      rw [Assoc.get?_set_self, if_pos ⟨rfl, hempty⟩]
    · rw [Assoc.get?_set_ne _ hk, hkeep, get?_erase_ne hprevious, if_neg fun hand => hk hand.1]

/-- A tool keeps its fields. -/
theorem keepsTool_convertTool (tool : Json) : KeepsTool tool (convertTool tool) := by
  constructor
  · rintro kvs function rfl hfunction
    rw [convertTool, hfunction]
    refine ⟨rfl, fun k hk => ?_⟩
    simp only [List.mem_cons, List.not_mem_nil, or_false] at hk
    show Assoc.get? (("type", _) :: ("name", _) :: (copied function "description" ++
      copied function "parameters" ++ copied function "strict")) k = _
    rw [copied, copied, copied]
    rcases hk with rfl | rfl | rfl
    all_goals
      cases Assoc.get? function "description" <;> cases Assoc.get? function "parameters" <;>
        cases Assoc.get? function "strict" <;> simp [Assoc.get?]
  · intro hnone
    cases tool with
    | dict kvs =>
      rw [convertTool]
      rw [Json.entries] at hnone
      rw [hnone]
    | null | bool | int | float | str | list => rfl

/-- **A request is kept.** -/
theorem convert_keeps (hpayload : Assoc.get? payload "messages" = some (.list (messages.map .dict)))
    (h : ∀ msg ∈ messages, IsMessage msg) :
    ∃ out, convert_to_responses_payload conv payload = .ok out ∧
      Converted conv payload messages out := by
  obtain ⟨items, hitems, hentries⟩ := convertMessages_of_isMessage conv h ""
  obtain ⟨system_content, hsystem⟩ : ∃ system_content,
    (messages.filterMap systemText).getLastD "" = system_content := ⟨_, rfl⟩
  rw [hsystem] at hitems
  have hinput : field (otherFields payload system_content items) "input" = .list items := by
    rw [field, get?_otherFields (by decide), if_neg fun hand => absurd hand.1 (by decide),
      Assoc.get?_set_self]
    rfl
  have hinstructions : system_content ≠ "" →
      field (otherFields payload system_content items) "instructions" = .str system_content := by
    intro hne
    rw [field, get?_otherFields (by decide), if_pos ⟨rfl, hne⟩]
    rfl
  have htools : Assoc.get? (otherFields payload system_content items) "tools" =
      Assoc.get? payload "tools" := by
    rw [get?_otherFields (by decide), if_neg fun hand => absurd hand.1 (by decide),
      Assoc.get?_set_ne _ (by decide), get?_erase_ne (by decide)]
  have htext : ∀ text, messages.filterMap systemText = [text] → system_content = text := by
    intro text honly
    rw [← hsystem, honly]
    rfl
  have hmessages : ((Assoc.get? payload "messages").getD (.list [])).iter =
      .ok (messages.map .dict) := by
    rw [hpayload]
    rfl
  rw [convert_to_responses_payload, hmessages]
  simp only [bind, Except.bind, hitems, htools]
  split
  · next tools heq =>
    refine ⟨_, rfl, ?_⟩
    have hfield : ∀ k, k ≠ "tools" → field (Assoc.set (otherFields payload system_content items)
        "tools" (.list (tools.map convertTool))) k =
          field (otherFields payload system_content items) k := by
      intro k hk
      rw [field, Assoc.get?_set_ne _ hk, field]
    refine ⟨?_, ?_, fun text honly hne => ?_, fun tools' heq' => ?_⟩
    · rw [hfield _ (by decide), hinput]
      exact hentries
    · rw [hfield _ (by decide), hinput, Json.elems, hentries]
      exact id
    · rw [hfield _ (by decide), hinstructions (by rwa [htext text honly]), htext text honly]
    · rw [field, heq, Option.getD_some] at heq'
      obtain rfl := Json.list.inj heq'
      refine ⟨tools.map convertTool, by rw [field, Assoc.get?_set_self]; rfl, ?_⟩
      exact List.forall₂_map_right_iff.mpr (List.forall₂_same.mpr fun tool _ =>
        keepsTool_convertTool tool)
  · next hother =>
    refine ⟨_, rfl, ?_, ?_, fun text honly hne => ?_, fun tools heq => ?_⟩
    · rw [hinput]
      exact hentries
    · rw [hinput, Json.elems, hentries]
      exact id
    · rw [hinstructions (by rwa [htext text honly]), htext text honly]
    · have hsome : Assoc.get? payload "tools" = some (.list tools) := by
        rw [field] at heq
        cases hget : Assoc.get? payload "tools" with
        | none =>
          rw [hget] at heq
          cases heq
        | some v =>
          rw [hget] at heq
          exact congrArg some heq
      exact absurd hsome (hother tools)

/-! ## Examples -/

/-- A call of a function. -/
def exampleCall : Json := .dict [("id", .str "c"),
  ("function", .dict [("name", .str "f"), ("arguments", .str "1")])]

/-- A conversation with a call and its result. -/
def exchange : List (List (String × Json)) :=
  [[("role", .str "system"), ("content", .str "s")],
    [("role", .str "user"), ("content", .list [.dict [("type", .str "text"), ("text", .str "t")]])],
    [("role", .str "assistant"), ("content", .null), ("tool_calls", .list [exampleCall])],
    [("role", .str "tool"), ("tool_call_id", .str "c"), ("content", .str "r")]]

theorem exchange_kept :
    ∃ out, convert_to_responses_payload plainConversions
        [("messages", .list (exchange.map .dict))] = .ok out ∧
      Converted plainConversions [("messages", .list (exchange.map .dict))] exchange out := by
  refine convert_keeps rfl ?_
  simp only [exchange, List.forall_mem_cons]
  refine ⟨⟨rfl, nofun, .inl rfl, nofun, fun h => absurd rfl h⟩, ⟨rfl, ?_, .inl rfl, nofun,
    fun h => absurd rfl h⟩, ⟨rfl, nofun, .inr ⟨_, rfl⟩, ?_, fun _ => .inr (.inr rfl)⟩,
    ⟨rfl, nofun, .inl rfl, nofun, fun h => absurd rfl h⟩, nofun⟩
  · intro parts hparts part hpart
    obtain rfl := Json.list.inj hparts
    obtain rfl := List.mem_singleton.mp hpart
    exact ⟨_, rfl, fun _ => ⟨_, rfl⟩, fun h => absurd h (by decide)⟩
  · exact List.forall_mem_singleton.mpr ⟨_, _, rfl, rfl⟩

/-- Of two system messages the second one replaces the first; a blank text next to a call is left
out, and so is an image. -/
theorem lost_texts :
    (convert_to_responses_payload plainConversions [("messages", .list
        [.dict [("role", .str "system"), ("content", .str "a")],
          .dict [("role", .str "system"), ("content", .str "b")]])] =
      .ok [("input", .list []), ("instructions", .str "b")]) ∧
    (convert_to_responses_payload plainConversions [("messages", .list
        [.dict [("role", .str "assistant"), ("content", .str " "),
          ("tool_calls", .list [exampleCall])]])] =
      .ok [("input", .list [.dict [("type", .str "function_call"), ("call_id", .str "c"),
        ("name", .str "f"), ("arguments", .str "1")]])]) ∧
    (convert_to_responses_payload plainConversions [("messages", .list
        [.dict [("role", .str "assistant"), ("content", .list [.dict [("type", .str "image_url"),
            ("image_url", .dict [("url", .str "u")])]]),
          ("tool_calls", .list [exampleCall])]])] =
      .ok [("input", .list [.dict [("type", .str "function_call"), ("call_id", .str "c"),
        ("name", .str "f"), ("arguments", .str "1")]])]) := by
  decide

end OpenLaunch.Responses.Request
