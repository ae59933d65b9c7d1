import OpenLaunch.Python.Conversions
import OpenLaunch.Python.Items
import OpenLaunch.Python.JsonRoundTrip
import OpenLaunch.Python.Dict
import OpenLaunch.Python.Text

/-! # Requests for the native interface

`convert_openai_to_anthropic_payload` makes a native request of an OpenAI-shaped one. The texts of
system messages go to a field of their own. The other messages become turns, and a turn with the
role of the last one is appended to it, because the native interface wants the roles to
alternate. -/

namespace OpenLaunch.Streams

/-- The text before and after the first occurrence of a word. -/
def splitOnce (w : List Char) : List Char → Option (List Char × List Char)
  | [] => if w = [] then some ([], []) else none
  | c :: cs =>
    if w <+: c :: cs then some ([], (c :: cs).drop w.length)
    else (splitOnce w cs).map fun found => (c :: found.1, found.2)

end OpenLaunch.Streams

namespace OpenLaunch.Anthropic.Payload

open Python

/-! ## Contents -/

/-- `_copy_cache_control`. -/
def copy_cache_control (source target : List (String × Json)) : List (String × Json) :=
  match Assoc.get? source "cache_control" with
  | some v => Assoc.set target "cache_control" v
  | none => target

/-- The source of an image: the data of a data URL, or the URL. -/
def imageSource (image_url : String) : Json :=
  match Streams.splitOnce ";base64,".toList image_url.toList with
  | some (header, data) =>
    if "data:".toList <+: image_url.toList then
      let media_type := String.ofList (header.drop 5)
      .dict [("type", .str "base64"),
        ("media_type", .str (if media_type = "" then "image/png" else media_type)),
        ("data", .str (String.ofList data))]
    else .dict [("type", .str "url"), ("url", .str image_url)]
  | none => .dict [("type", .str "url"), ("url", .str image_url)]

/-- A text block. -/
def textBlock (text : Json) : List (String × Json) := [("type", .str "text"), ("text", text)]

/-- `_openai_part_to_anthropic`. -/
def openai_part_to_anthropic : Json → Option (List (String × Json))
  | .str s => some (textBlock (.str s))
  | .dict part =>
    let part_type := (Assoc.get? part "type").getD (.str "text")
    if part_type = .str "text" ∨ part_type = .str "input_text" then
      some (copy_cache_control part (textBlock ((Assoc.get? part "text").getD (.str ""))))
    else if part_type = .str "image_url" ∨ part_type = .str "input_image" then
      let image := (Assoc.get? part "image_url").getD ((Assoc.get? part "image").getD (.str ""))
      let image_url := match image with
        | .dict image => (Assoc.get? image "url").getD (.str "")
        | image => image
      match image_url with
      | .str url =>
        some (copy_cache_control part [("type", .str "image"), ("source", imageSource url)])
      | _ => none
    else none
  | _ => none

/-- The content of a turn: a text, or blocks. -/
inductive Content
  | text (s : String)
  | blocks (bs : List (List (String × Json)))

/-- The value of a content. -/
def Content.json : Content → Json
  | text s => .str s
  | blocks bs => .list (bs.map .dict)

/-- `_openai_content_to_anthropic`. -/
def openai_content_to_anthropic (conv : Conversions) : Json → Content
  | .str s => .text s
  | .list parts => .blocks (parts.filterMap openai_part_to_anthropic)
  | .null => .text ""
  | content => .text (conv.str content)

/-- `_anthropic_content_blocks`. -/
def anthropic_content_blocks : Content → List (List (String × Json))
  | .blocks bs => bs
  | .text s => if s = "" then [] else [textBlock (.str s)]

/-! ## Turns -/

/-- The roles of turns. -/
inductive Role
  | user
  | assistant
  deriving DecidableEq

/-- The value of a role. -/
def Role.json : Role → Json
  | user => .str "user"
  | assistant => .str "assistant"

/-- A message of the native request. -/
structure Turn where
  role : Role
  content : Content

/-- The value of a turn. -/
def Turn.json (t : Turn) : Json := .dict [("role", t.role.json), ("content", t.content.json)]

/-- `_append_anthropic_message`. -/
def append_anthropic_message (messages : List Turn) (role : Role) (content : Content) :
    List Turn :=
  match messages.getLast? with
  | some last =>
    if last.role = role then
      messages.dropLast ++ [⟨last.role, .blocks
        (anthropic_content_blocks last.content ++ anthropic_content_blocks content)⟩]
    else messages ++ [⟨role, content⟩]
  | none => [⟨role, content⟩]

/-- The arguments of a call: those of the JSON text, or the text itself under a key, and nothing
where they are no object. -/
def toolInput (fr : FloatRepr) (arguments : Json) : Json :=
  let arguments := match arguments with
    | .str text =>
      match fr.loads text.toList with
      | .ok arguments => arguments
      | .error _ => .dict [("value", .str text)]
    | arguments => arguments
  match arguments with
  | .dict input => .dict input
  | _ => .dict []

/-- The `tool_use` block of a call. Without an id, one is drawn. -/
def toolUse (fr : FloatRepr) (uuid4 : String) (tool_call : Json) :
    Except PyErr (List (String × Json)) := do
  let function := (← tool_call.get "function").or (.dict [])
  let arguments ← function.getD "arguments" (.dict [])
  let id := (← tool_call.get "id").or (.str ("toolu_" ++ uuid4))
  let name ← function.getD "name" (.str "")
  return [("type", .str "tool_use"), ("id", id), ("name", name),
    ("input", toolInput fr arguments)]

/-- The `tool_use` blocks of a message. -/
def toolUses (fr : FloatRepr) (uuid4 : ℕ → String) :
    ℕ → List Json → Except PyErr (List (List (String × Json)))
  | _, [] => .ok []
  | j, tool_call :: tool_calls => do
    let block ← toolUse fr (uuid4 j) tool_call
    let blocks ← toolUses fr uuid4 (j + 1) tool_calls
    return block :: blocks

/-- The `tool_result` block of a message. -/
def toolResult (message : List (String × Json)) (tool_content : Content) : List (String × Json) :=
  [("type", .str "tool_result"),
    ("tool_use_id", (Assoc.get? message "tool_call_id").getD (.str "")),
    ("content", tool_content.json)] ++
  if ((Assoc.get? message "is_error").getD .null).truthy then [("is_error", .bool true)] else []

/-- The blocks of a system message that go to the system field. -/
def systemTexts : Content → List (List (String × Json))
  | .text s => [textBlock (.str s)]
  | .blocks bs => bs.filter fun block => Assoc.get? block "type" = some (.str "text")

/-- What the loop has built. -/
structure Built where
  messages : List Turn
  system_blocks : List (List (String × Json))

section

variable (conv : Conversions) (fr : FloatRepr)

/-- The content of an assistant's message: its blocks, or an empty text without any. -/
def assistantContent (converted : Content) (tool_uses : List (List (String × Json))) : Content :=
  let blocks := anthropic_content_blocks converted ++ tool_uses
  if blocks = [] then .text "" else .blocks blocks

/-- The body of the loop over the messages. The calls of the message draw `uuid4`. -/
def convertMessage (uuid4 : ℕ → String) (b : Built) (message : Json) : Except PyErr Built := do
  let role ← message.getD "role" (.str "user")
  let content := openai_content_to_anthropic conv (← message.getD "content" (.str ""))
  if role = .str "system" ∨ role = .str "developer" then
    return { b with system_blocks := b.system_blocks ++ systemTexts content }
  else if role = .str "assistant" then
    let tool_calls ← ((← message.get "tool_calls").or (.list [])).iter
    let tool_uses ← toolUses fr uuid4 0 tool_calls
    return { b with
      messages := append_anthropic_message b.messages .assistant
        (assistantContent content tool_uses) }
  else if role = .str "tool" then
    return { b with
      messages := append_anthropic_message b.messages .user
        (.blocks [toolResult message.entries content]) }
  else return { b with messages := append_anthropic_message b.messages .user content }

/-- The loop over the messages. The `j`th call of the `i`th message draws `uuid4 i j`. -/
def convertMessages (uuid4 : ℕ → ℕ → String) : ℕ → Built → List Json → Except PyErr Built
  | _, b, [] => .ok b
  | i, b, message :: messages => do
    let b ← convertMessage conv fr (uuid4 i) b message
    convertMessages uuid4 (i + 1) b messages

/-! ## The other fields -/

/-- `param_map`. -/
def param_map : List (String × String) :=
  [("temperature", "temperature"), ("top_p", "top_p"), ("top_k", "top_k"), ("stream", "stream"),
    ("stop", "stop_sequences"), ("service_tier", "service_tier"), ("thinking", "thinking")]

/-- The parameters that are given. -/
def params (payload : List (String × Json)) : List (String × Json) :=
  param_map.filterMap fun e =>
    match Assoc.get? payload e.1 with
    | none | some .null => none
    | some v => some (e.2, v)

/-- The user of the metadata. -/
def metadataOf (payload : List (String × Json)) : List (String × Json) :=
  match Assoc.get? payload "metadata" with
  | some (.dict metadata) =>
    let user_id := (Assoc.get? metadata "user_id").getD .null
    if user_id.truthy then [("metadata", .dict [("user_id", .str (conv.str user_id))])] else []
  | _ => []

/-- A tool of the native request. -/
def convertTool (tool : Json) : Option Json :=
  let function := match tool with
    | .dict kvs => (Assoc.get? kvs "function").getD tool
    | _ => .dict []
  match function with
  | .dict function =>
    let field (key : String) : Json := (Assoc.get? function key).getD .null
    if (field "name").truthy then
      let converted : List (String × Json) := [("name", field "name"),
        ("input_schema", ((field "parameters").or (field "input_schema")).or
          (.dict [("type", .str "object")]))]
      let converted := if (field "description").truthy then
        Assoc.set converted "description" (field "description") else converted
      some (.dict (copy_cache_control tool.entries converted))
    else none
  | _ => none

/-- The tools of the native request. -/
def toolsOf (payload : List (String × Json)) : Except PyErr (List (String × Json)) := do
  let tools ← (((Assoc.get? payload "tools").getD .null).or (.list [])).iter
  let tools := tools.filterMap convertTool
  return if tools = [] then [] else [("tools", .list tools)]

/-- The choice of a tool. -/
def toolChoiceOf (payload : List (String × Json)) : Except PyErr (List (String × Json)) :=
  match (Assoc.get? payload "tool_choice").getD .null with
  | .str "auto" => .ok [("tool_choice", .dict [("type", .str "auto")])]
  | .str "required" | .str "any" => .ok [("tool_choice", .dict [("type", .str "any")])]
  | .dict tool_choice =>
    if tool_choice = [] then .ok []
    else do
      let function := ((Assoc.get? tool_choice "function").getD .null).or (.dict [])
      let name ← function.get "name"
      return if name.truthy then
        [("tool_choice", .dict [("type", .str "tool"), ("name", name)])] else []
  | _ => .ok []

/-- The native request of what the loop has built, with the other fields. -/
def nativePayload (model max_tokens : Json) (b : Built) (rest : List (String × Json)) :
    List (String × Json) :=
  [("model", model), ("max_tokens", max_tokens), ("messages", .list (b.messages.map Turn.json))] ++
    ((if b.system_blocks = [] then [] else [("system", .list (b.system_blocks.map .dict))]) ++ rest)

/-- `convert_openai_to_anthropic_payload`. -/
def convert_openai_to_anthropic_payload (uuid4 : ℕ → ℕ → String) (openai_payload : Json)
    (default_max_tokens : ℤ) : Except PyErr (List (String × Json)) := do
  let max_completion_tokens ← openai_payload.get "max_completion_tokens"
  let max_tokens ← openai_payload.get "max_tokens"
  let model ← openai_payload.getD "model" (.str "")
  let messages ← (← openai_payload.getD "messages" (.list [])).iter
  let b ← convertMessages conv fr uuid4 0 ⟨[], []⟩ messages
  let tools ← toolsOf openai_payload.entries
  let tool_choice ← toolChoiceOf openai_payload.entries
  return nativePayload model ((max_completion_tokens.or max_tokens).or (.int default_max_tokens)) b
    (params openai_payload.entries ++ metadataOf conv openai_payload.entries ++ tools ++
      tool_choice)

end

end OpenLaunch.Anthropic.Payload
