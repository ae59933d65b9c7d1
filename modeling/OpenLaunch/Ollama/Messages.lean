import OpenLaunch.Python.JsonText
import OpenLaunch.Python.Text
import OpenLaunch.Requests.Parts

/-! # Messages for Ollama

`convert_messages_openai_to_ollama` makes a message for Ollama of each OpenAI-shaped one. A message
with calls keeps these, and its content becomes empty; the texts and the images of a list of parts
become one text and a list of images. -/

namespace OpenLaunch.Ollama

open Python Json Requests

/-! ## The code -/

/-- `json.loads(v)`, which wants a text. -/
def loadsValue : Json → Except PyErr Json
  | .str s => loads s.toList
  | _ => .error .typeError

/-- The call for Ollama. -/
def convertCall (tool_call : Json) : Except PyErr Json := do
  let index ← tool_call.getD "index" (.int 0)
  let id ← tool_call.get "id"
  let function ← tool_call.getD "function" (.dict [])
  let name ← function.getD "name" (.str "")
  let arguments ← loadsValue (← function.getD "arguments" (.dict []))
  return .dict [("index", index), ("id", id),
    ("function", .dict [("name", name), ("arguments", arguments)])]

/-- The image of a URL: the data of a data URL, or the URL. -/
def imageData (img_url : String) : String :=
  if "data:".toList <+: img_url.toList then
    String.ofList ((img_url.toList.splitOn ',').getLastD [])
  else img_url

/-- One part of a content, after the text and the images of those before it. -/
def addPart (acc : String × List String) (item : Json) : Except PyErr (String × List String) := do
  let type ← item.get "type"
  if type = .str "text" then
    match ← item.getD "text" (.str "") with
    | .str text => return (acc.1 ++ text, acc.2)
    | _ => throw .typeError
  else if type = .str "image_url" then
    let img_url ← (← item.getD "image_url" (.dict [])).getD "url" (.str "")
    if img_url.truthy then
      match img_url with
      | .str url => return (acc.1, acc.2 ++ [imageData url])
      | _ => throw .attributeError
    else return acc
  else return acc

/-- What a new message starts with: the role, and the field `thinking` where there is one. -/
def newMessage (role : Json) (message : List (String × Json)) : List (String × Json) :=
  ("role", role) :: match Assoc.get? message "thinking" with
    | some thinking => [("thinking", thinking)]
    | none => []

/-- The body of the loop over the messages. -/
def convertMessage (message : Json) : Except PyErr (List (String × Json)) := do
  let role ← message.item "role"
  let new_message := newMessage role message.entries
  let content ← message.getD "content" (.list [])
  let tool_calls ← message.get "tool_calls"
  let tool_call_id ← message.get "tool_call_id"
  if content.isStr ∧ tool_calls.truthy = false then
    return new_message ++ [("content", content)] ++
      if tool_call_id.truthy then [("tool_call_id", tool_call_id)] else []
  else if tool_calls.truthy then
    let ollama_tool_calls ← (← tool_calls.iter).mapM convertCall
    return new_message ++
      [("tool_calls", .list ollama_tool_calls), ("content", .str "")]
  else
    let (content_text, images) ← (← content.iter).foldlM addPart ("", [])
    return new_message ++
      (if content_text = "" then [] else [("content", .str (stripped content_text))]) ++
      if images = [] then [] else [("images", .list (images.map .str))]

/-- `convert_messages_openai_to_ollama`. -/
def convert_messages_openai_to_ollama (messages : List Json) :
    Except PyErr (List (List (String × Json))) :=
  messages.mapM convertMessage

/-! ## OpenAI-shaped messages -/

/-- A call has a function whose arguments are the text of an object. -/
def IsCall (call : Json) : Prop :=
  ∃ kvs function arguments input, call = .dict kvs ∧ field kvs "function" = .dict function ∧
    field function "arguments" = .str arguments ∧ loads arguments.toList = .ok (.dict input)

/-- The calls of a message. -/
def callsOf (message : List (String × Json)) : List Json := (field message "tool_calls").elems

/-- **An OpenAI-shaped message**, whose content is `None` at most next to calls. -/
structure IsMessage (message : List (String × Json)) : Prop where
  role : ∃ role, Assoc.get? message "role" = some role
  calls : field message "tool_calls" = .null ∨ ∃ calls, field message "tool_calls" = .list calls
  call : ∀ call ∈ callsOf message, IsCall call
  content : (∃ text, field message "content" = .str text) ∨
    (∃ parts, field message "content" = .list parts ∧ ∀ part ∈ parts, IsPart part) ∨
    field message "content" = .null ∧ callsOf message ≠ []

/-- The URL of a part that is an image, if it is not empty. -/
def partImage (part : Json) : Option String := (partUrl part).filter (· ≠ "")

/-- The text of a message. That of a list of parts is without the whitespace around it. -/
def textOf (message : List (String × Json)) : String :=
  match field message "content" with
  | .str text => text
  | .list parts => stripped (String.join (parts.filterMap partText))
  | _ => ""

/-- The URLs of the images of a message. -/
def imagesOf (message : List (String × Json)) : List String :=
  (field message "content").elems.filterMap partImage

/-- The id, the name and the arguments of a call, which are a text. -/
def callOf (call : Json) : Json × Json × Except PyErr Json :=
  let function := (field call.entries "function").entries
  (field call.entries "id", (Assoc.get? function "name").getD (.str ""),
    loadsValue (field function "arguments"))

/-- The id, the name and the arguments of a call for Ollama, which are an object. -/
def ollamaCallOf (call : Json) : Json × Json × Except PyErr Json :=
  let function := (field call.entries "function").entries
  (field call.entries "id", field function "name", .ok (field function "arguments"))

/-- **What is kept of a message**: of one with calls these, and of one without them its text, its
images and, where the content is a text, the id of the call it answers. -/
structure Converted (message out : List (String × Json)) : Prop where
  role : Assoc.get? out "role" = Assoc.get? message "role"
  thinking : Assoc.get? out "thinking" = Assoc.get? message "thinking"
  calls : (callsOf out).map ollamaCallOf = (callsOf message).map callOf
  emptyText : callsOf message ≠ [] → field out "content" = .str ""
  text : callsOf message = [] → textOf out = textOf message
  images : callsOf message = [] →
    (field out "images").elems = (imagesOf message).map fun url => .str (imageData url)
  tool_call_id : callsOf message = [] → (field message "content").isStr = true →
    (field message "tool_call_id").truthy = true →
      Assoc.get? out "tool_call_id" = Assoc.get? message "tool_call_id"

/-! ## The parts -/

variable {message out : List (String × Json)} {parts : List Json} {part call : Json}
variable {messages : List (List (String × Json))}

/-- One part adds its text or its image. -/
theorem addPart_of_isPart (h : IsPart part) (acc : String × List String) :
    addPart acc part = .ok (acc.1 ++ (partText part).getD "",
      acc.2 ++ (partImage part).toList.map imageData) := by
  obtain ⟨kvs, rfl, htext, himage⟩ := h
  have htype : Json.get (.dict kvs) "type" = .ok (field kvs "type") := rfl
  rw [addPart, htype]
  simp only [bind, Except.bind, partText, partImage, partUrl, Json.entries]
  by_cases hisText : field kvs "type" = .str "text"
  · obtain ⟨text, htext⟩ := htext hisText
    have hget := getD_of_field (by simp) htext (.str "")
    simp [hisText, htext, hget, Json.getD, Json.str?, pure, Except.pure]
  by_cases hisImage : field kvs "type" = .str "image_url"
  · obtain ⟨image, url, himage, hurl⟩ := himage hisImage
    have hgetImage := getD_of_field (by simp) himage (.dict [])
    have hgetUrl := getD_of_field (by simp) hurl (.str "")
    by_cases hempty : url = ""
    · simp [hisImage, himage, hurl, hgetImage, hgetUrl, hempty, Json.getD, Json.str?,
        Option.filter_some, pure, Except.pure]
    · simp [hisImage, himage, hurl, hgetImage, hgetUrl, hempty, Json.getD, Json.str?, Json.entries,
        Option.filter_some, pure, Except.pure]
  · simp [hisText, hisImage, pure, Except.pure]

/-- **The parts make up one text and a list of images.** -/
theorem foldlM_addPart (h : ∀ part ∈ parts, IsPart part) (acc : String × List String) :
    parts.foldlM addPart acc = .ok (acc.1 ++ String.join (parts.filterMap partText),
      acc.2 ++ (parts.filterMap partImage).map imageData) := by
  induction parts generalizing acc with
  | nil => simp [pure, Except.pure]
  | cons part parts ih =>
    obtain ⟨hpart, hparts⟩ := List.forall_mem_cons.mp h
    rw [List.foldlM_cons, addPart_of_isPart hpart]
    simp only [bind, Except.bind]
    rw [ih hparts, List.filterMap_cons, List.filterMap_cons]
    cases partText part <;> cases partImage part <;> simp [String.append_assoc]

/-! ## The calls -/

/-- A call is kept. -/
theorem convertCall_of_isCall (h : IsCall call) :
    ∃ out, convertCall call = .ok out ∧ ollamaCallOf out = callOf call := by
  obtain ⟨kvs, function, arguments, input, rfl, hfunction, harguments, hloads⟩ := h
  have hgetFunction := getD_of_field (by simp) hfunction (.dict [])
  have hgetArguments := getD_of_field (by simp) harguments (.dict [])
  refine ⟨.dict [("index", (Assoc.get? kvs "index").getD (.int 0)), ("id", field kvs "id"),
    ("function", .dict [("name", (Assoc.get? function "name").getD (.str "")),
      ("arguments", .dict input)])], ?_, ?_⟩
  · simp only [convertCall, Json.getD, Json.get, hgetFunction, hgetArguments, bind, Except.bind,
      loadsValue, hloads, pure, Except.pure]
    rfl
  · simp only [callOf, Json.entries, hfunction, harguments, loadsValue, hloads]
    rfl

theorem mapM_convertCall {calls : List Json} (h : ∀ call ∈ calls, IsCall call) :
    ∃ out, calls.mapM convertCall = .ok out ∧ out.map ollamaCallOf = calls.map callOf := by
  obtain ⟨out, hout⟩ := exists_mapM fun call hcall => by
    obtain ⟨out, hout, -⟩ := convertCall_of_isCall (h call hcall)
    exact ⟨out, hout⟩
  refine ⟨out, hout, ?_⟩
  have hall := forall₂_of_mapM hout
  clear hout
  induction hall with
  | nil => rfl
  | cons hcall _ ih =>
    obtain ⟨hfirst, hrest⟩ := List.forall_mem_cons.mp h
    obtain ⟨out', hout', hkept⟩ := convertCall_of_isCall hfirst
    obtain rfl := Except.ok.inj (hcall.symm.trans hout')
    rw [List.map_cons, List.map_cons, hkept, ih hrest]

/-! ## The messages -/

theorem get?_newMessage {rest : List (String × Json)} (role : Json)
    (message : List (String × Json)) (hrest : Assoc.get? rest "thinking" = none) :
    Assoc.get? (newMessage role message ++ rest) "role" = some role ∧
      Assoc.get? (newMessage role message ++ rest) "thinking" = Assoc.get? message "thinking" ∧
      ∀ k, k ≠ "role" → k ≠ "thinking" →
        Assoc.get? (newMessage role message ++ rest) k = Assoc.get? rest k := by
  rw [newMessage]
  cases Assoc.get? message "thinking" with
  | none =>
    refine ⟨by simp [Assoc.get?], by simp [Assoc.get?, hrest], fun k hrole _ => ?_⟩
    simp [Assoc.get?, hrole.symm]
  | some thinking =>
    refine ⟨by simp [Assoc.get?], by simp [Assoc.get?], fun k hrole hthinking => ?_⟩
    simp [Assoc.get?, hrole.symm, hthinking.symm]

/-- The three kinds of messages. -/
theorem convertMessage_dict {role : Json} (hrole : Assoc.get? message "role" = some role) :
    convertMessage (.dict message) =
      if ((Assoc.get? message "content").getD (.list [])).isStr ∧
          (field message "tool_calls").truthy = false then
        .ok (newMessage role message ++ (("content", (Assoc.get? message "content").getD (.list []))
          :: if (field message "tool_call_id").truthy then
            [("tool_call_id", field message "tool_call_id")] else []))
      else if (field message "tool_calls").truthy then do
        let ollama_tool_calls ← (← (field message "tool_calls").iter).mapM convertCall
        return newMessage role message ++
          [("tool_calls", .list ollama_tool_calls), ("content", .str "")]
      else do
        let acc ← (← ((Assoc.get? message "content").getD (.list [])).iter).foldlM addPart ("", [])
        return newMessage role message ++
          ((if acc.1 = "" then [] else [("content", .str (stripped acc.1))]) ++
            if acc.2 = [] then [] else [("images", .list (acc.2.map .str))]) := by
  have hitem : (Json.dict message).item "role" = .ok role := by
    rw [Json.item, hrole]
  rw [convertMessage, hitem]
  simp only [Json.getD, Json.get, Json.entries, bind, Except.bind, List.append_assoc,
    List.singleton_append]
  rfl

/-- A message with calls keeps these. -/
theorem convertMessage_of_calls (h : IsMessage message) (hcalls : callsOf message ≠ []) :
    ∃ out, convertMessage (.dict message) = .ok out ∧ Converted message out := by
  obtain ⟨role, hrole⟩ := h.role
  obtain ⟨calls, htool_calls⟩ : ∃ calls, field message "tool_calls" = .list calls :=
    h.calls.resolve_left fun hnone => hcalls (by rw [callsOf, hnone]; rfl)
  have hcallsOf : callsOf message = calls := by rw [callsOf, htool_calls, Json.elems]
  have hne : calls ≠ [] := hcallsOf ▸ hcalls
  obtain ⟨out_calls, hout_calls, hkept⟩ := mapM_convertCall fun call hcall =>
    h.call call (hcallsOf.symm ▸ hcall)
  obtain ⟨hgetRole, hgetThinking, hget⟩ := get?_newMessage role message
    (show Assoc.get? [("tool_calls", Json.list out_calls), ("content", .str "")] "thinking" = none
      by simp [Assoc.get?])
  refine ⟨_, ?_, ⟨hgetRole.trans hrole.symm, hgetThinking, ?_, fun _ => ?_, ?_, ?_, ?_⟩⟩
  · rw [convertMessage_dict hrole, htool_calls]
    simp [hne, Json.iter, hout_calls, bind, Except.bind, pure, Except.pure]
  · rw [callsOf, field, hget _ (by decide) (by decide), hcallsOf]
    exact hkept
  · rw [field, hget _ (by decide) (by decide)]
    simp [Assoc.get?]
  all_goals exact fun hnone => absurd hnone hcalls

theorem truthy_of_callsOf_eq_nil (h : IsMessage message) (hcalls : callsOf message = []) :
    (field message "tool_calls").truthy = false := by
  rcases h.calls with hnone | ⟨calls, hlist⟩
  · rw [hnone]
    rfl
  · rw [callsOf, hlist, Json.elems] at hcalls
    rw [hlist, hcalls]
    rfl

/-- A text is kept, and the id of the call that it answers. -/
theorem convertMessage_of_text {text : String} (h : IsMessage message)
    (hcalls : callsOf message = []) (htext : field message "content" = .str text) :
    ∃ out, convertMessage (.dict message) = .ok out ∧ Converted message out := by
  obtain ⟨role, hrole⟩ := h.role
  have hfalsy := truthy_of_callsOf_eq_nil h hcalls
  have hcontent := getD_of_field (by simp) htext (.list [])
  obtain ⟨rest, hrest⟩ : ∃ rest, rest = ("content", Json.str text) ::
      if (field message "tool_call_id").truthy then
        [("tool_call_id", field message "tool_call_id")] else [] := ⟨_, rfl⟩
  have hthinking : Assoc.get? rest "thinking" = none := by
    rw [hrest]
    split_ifs <;> simp [Assoc.get?]
  have hnocalls : Assoc.get? rest "tool_calls" = none := by
    rw [hrest]
    split_ifs <;> simp [Assoc.get?]
  have hnoimages : Assoc.get? rest "images" = none := by
    rw [hrest]
    split_ifs <;> simp [Assoc.get?]
  obtain ⟨hgetRole, hgetThinking, hget⟩ := get?_newMessage role message hthinking
  refine ⟨_, ?_, ⟨hgetRole.trans hrole.symm, hgetThinking, ?_, fun hne => absurd hcalls hne,
    fun _ => ?_, fun _ => ?_, fun _ _ hid => ?_⟩⟩
  · rw [convertMessage_dict hrole, hcontent, if_pos ⟨rfl, hfalsy⟩, ← hrest]
  · rw [hcalls, callsOf, field, hget _ (by decide) (by decide), hnocalls]
    rfl
  · have hout : field (newMessage role message ++ rest) "content" = .str text := by
      rw [field, hget _ (by decide) (by decide), hrest, Assoc.get?_cons_self]
      rfl
    rw [textOf, hout, textOf, htext]
  · rw [field, hget _ (by decide) (by decide), hnoimages, imagesOf, htext]
    rfl
  · rw [hget _ (by decide) (by decide), hrest, if_pos hid]
    have hsome : Assoc.get? message "tool_call_id" = some (field message "tool_call_id") := by
      rw [field] at hid ⊢
      cases hget : Assoc.get? message "tool_call_id" with
      | none =>
        rw [hget] at hid
        cases hid
      | some v => rfl
    rw [hsome]
    simp [Assoc.get?]

/-- The texts and the images of a list are kept. -/
theorem convertMessage_of_parts (h : IsMessage message) (hcalls : callsOf message = [])
    (hparts : field message "content" = .list parts) (hpart : ∀ part ∈ parts, IsPart part) :
    ∃ out, convertMessage (.dict message) = .ok out ∧ Converted message out := by
  obtain ⟨role, hrole⟩ := h.role
  have hfalsy := truthy_of_callsOf_eq_nil h hcalls
  have hcontent := getD_of_field (by simp) hparts (.list [])
  have hfold := foldlM_addPart hpart ("", [])
  rw [List.nil_append, String.empty_append] at hfold
  obtain ⟨text, htext⟩ : ∃ text, text = String.join (parts.filterMap partText) := ⟨_, rfl⟩
  obtain ⟨images, himages⟩ : ∃ images, images = (parts.filterMap partImage).map imageData :=
    ⟨_, rfl⟩
  rw [← htext, ← himages] at hfold
  obtain ⟨rest, hrest⟩ : ∃ rest : List (String × Json), rest =
      (if text = "" then [] else [("content", .str (stripped text))]) ++
        if images = [] then [] else [("images", .list (images.map .str))] := ⟨_, rfl⟩
  have hnone : ∀ k, k ≠ "content" → k ≠ "images" → Assoc.get? rest k = none := by
    intro k hcontentKey himagesKey
    rw [hrest]
    split_ifs <;> simp [Assoc.get?, hcontentKey.symm, himagesKey.symm]
  obtain ⟨hgetRole, hgetThinking, hget⟩ :=
    get?_newMessage role message (hnone _ (by decide) (by decide))
  refine ⟨_, ?_, ⟨hgetRole.trans hrole.symm, hgetThinking, ?_, fun hne => absurd hcalls hne,
    fun _ => ?_, fun _ => ?_, fun _ hstr => ?_⟩⟩
  · rw [convertMessage_dict hrole, hcontent, if_neg (fun hstr => by cases hstr.1), hfalsy,
      if_neg Bool.false_ne_true]
    simp only [Json.iter, bind, Except.bind, hfold, pure, Except.pure, ← hrest]
  · rw [hcalls, callsOf, field, hget _ (by decide) (by decide), hnone _ (by decide) (by decide)]
    rfl
  · have hout : textOf (newMessage role message ++ rest) = stripped text := by
      rw [textOf, field, hget _ (by decide) (by decide), hrest]
      by_cases hempty : text = ""
      · rw [if_pos hempty, hempty]
        split_ifs <;> simp [Assoc.get?, stripped, strip]
      · simp [hempty, Assoc.get?]
    rw [hout, textOf, hparts, htext]
  · rw [field, hget _ (by decide) (by decide), imagesOf, hparts, hrest]
    have hout : (images.map Json.str) = (parts.filterMap partImage).map fun url =>
        .str (imageData url) := by
      rw [himages, List.map_map]
      rfl
    show _ = (parts.filterMap partImage).map _
    rw [← hout]
    by_cases hempty : images = []
    · rw [if_pos hempty, hempty]
      split_ifs <;> simp [Assoc.get?, Json.elems]
    · split_ifs <;> simp [Assoc.get?, Json.elems]
  · rw [hparts] at hstr
    cases hstr

/-- **A message is kept.** -/
theorem convertMessage_of_isMessage (h : IsMessage message) :
    ∃ out, convertMessage (.dict message) = .ok out ∧ Converted message out := by
  by_cases hcalls : callsOf message = []
  · rcases h.content with ⟨text, htext⟩ | ⟨parts, hparts, hpart⟩ | ⟨-, hne⟩
    · exact convertMessage_of_text h hcalls htext
    · exact convertMessage_of_parts h hcalls hparts hpart
    · exact absurd hcalls hne
  · exact convertMessage_of_calls h hcalls

/-- **Every message is kept**, in its place. -/
theorem convert_messages_keeps (h : ∀ message ∈ messages, IsMessage message) :
    ∃ out, convert_messages_openai_to_ollama (messages.map .dict) = .ok out ∧
      List.Forall₂ Converted messages out := by
  induction messages with
  | nil => exact ⟨[], rfl, .nil⟩
  | cons message messages ih =>
    obtain ⟨hmessage, hmessages⟩ := List.forall_mem_cons.mp h
    obtain ⟨out, hout, hconverted⟩ := convertMessage_of_isMessage hmessage
    obtain ⟨outs, houts, hall⟩ := ih hmessages
    refine ⟨out :: outs, ?_, .cons hconverted hall⟩
    rw [convert_messages_openai_to_ollama] at houts ⊢
    rw [List.map_cons, List.mapM_cons, hout, houts]
    rfl

/-! ## Messages that lose something -/

/-- A call of a function without arguments. -/
def bareCall : Json := .dict [("id", .str "c"), ("function", .dict [("name", .str "f"),
  ("arguments", .str "\x7b\x7d")])]

/-- A call with its answer. -/
theorem call_and_answer : ∃ out, convert_messages_openai_to_ollama ([
      [("role", .str "assistant"), ("content", .null), ("tool_calls", .list [bareCall])],
      [("role", .str "tool"), ("content", .str "a"), ("tool_call_id", .str "c")]].map .dict) =
        .ok out ∧ List.Forall₂ Converted [
      [("role", .str "assistant"), ("content", .null), ("tool_calls", .list [bareCall])],
      [("role", .str "tool"), ("content", .str "a"), ("tool_call_id", .str "c")]] out := by
  have hloads : loads "\x7b\x7d".toList = .ok (.dict []) := by decide
  refine convert_messages_keeps (List.forall_mem_cons.mpr ⟨?_, List.forall_mem_singleton.mpr ?_⟩)
  · refine ⟨⟨_, rfl⟩, .inr ⟨_, rfl⟩, ?_, .inr (.inr ⟨rfl, List.cons_ne_nil _ _⟩)⟩
    exact List.forall_mem_singleton.mpr ⟨_, _, _, _, rfl, rfl, rfl, hloads⟩
  · exact ⟨⟨_, rfl⟩, .inl rfl, nofun, .inl ⟨_, rfl⟩⟩

/-- The text next to a call and the whitespace around a part are lost by design; a content of
`None` raises, and the id is lost where the content of the answer is a list. -/
theorem lost_contents :
    (convert_messages_openai_to_ollama [.dict [("role", .str "assistant"), ("content", .str "a"),
        ("tool_calls", .list [bareCall])]] = .ok [[("role", .str "assistant"),
      ("tool_calls", .list [.dict [("index", .int 0), ("id", .str "c"), ("function", .dict
        [("name", .str "f"), ("arguments", .dict [])])]]), ("content", .str "")]]) ∧
    (convert_messages_openai_to_ollama [.dict [("role", .str "user"), ("content", .list
        [.dict [("type", .str "text"), ("text", .str " a ")]])]] =
      .ok [[("role", .str "user"), ("content", .str "a")]]) ∧
    (convert_messages_openai_to_ollama [.dict [("role", .str "user"), ("content", .null)]] =
      .error .typeError) ∧
    (convert_messages_openai_to_ollama [.dict [("role", .str "tool"), ("content", .list
        [.dict [("type", .str "text"), ("text", .str "a")]]), ("tool_call_id", .str "c")]] =
      .ok [[("role", .str "tool"), ("content", .str "a")]]) := by
  decide

end OpenLaunch.Ollama
