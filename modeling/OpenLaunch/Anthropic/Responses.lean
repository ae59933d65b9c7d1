import OpenLaunch.Anthropic.NativeStream
import OpenLaunch.Anthropic.Stream
import OpenLaunch.Python.JsonRoundTrip

/-! # Responses of the two interfaces

`convert_anthropic_to_openai_response` makes a chat completion of a native message, and
`convert_openai_to_anthropic_response` a native message of a chat completion. What one takes apart
the other puts together: `response_round_trip` says what of a message survives both. -/

namespace OpenLaunch.Anthropic.Responses

open Python

/-! ## From the native interface -/

/-- What the blocks of a message are sorted into. -/
structure Parts where
  text_parts : List Json
  tool_calls : List Json
  extra_blocks : List Json

/-- The tool call of a `tool_use` block. Without an id, one is drawn. -/
def toolCall (uuid4 : String) (block : Json) : Except PyErr Json := do
  let id := (← block.get "id").or (.str ("call_" ++ uuid4))
  let name ← block.getD "name" (.str "")
  let input := (← block.get "input").or (.dict [])
  return .dict
    [("id", id), ("type", .str "function"),
      ("function", .dict
        [("name", name), ("arguments", .str (String.ofList (dumps .compact input)))])]

/-- One pass of the loop over the blocks. The `n`th tool call draws `uuid4 n`. -/
def Parts.add (uuid4 : ℕ → String) (p : Parts) (block : Json) : Except PyErr Parts := do
  let block_type ← block.get "type"
  if block_type = .str "text" then
    let text ← block.getD "text" (.str "")
    return { p with text_parts := p.text_parts ++ [text] }
  else if block_type = .str "tool_use" then
    let tool_call ← toolCall (uuid4 p.tool_calls.length) block
    return { p with tool_calls := p.tool_calls ++ [tool_call] }
  else return { p with extra_blocks := p.extra_blocks ++ [block] }

/-- An argument of `''.join`. -/
def joined : Json → Except PyErr String
  | .str s => .ok s
  | _ => .error .typeError

/-- The message of the completion. -/
def messageOf (p : Parts) (content : String) : List (String × Json) :=
  [("role", .str "assistant"), ("content", .str content)] ++
    (if p.tool_calls = [] then [] else [("tool_calls", .list p.tool_calls)]) ++
    if p.extra_blocks = [] then [] else [("anthropic_content", .list p.extra_blocks)]

/-- The only choice of the completion. -/
def choiceOf (message : List (String × Json)) (finish_reason : String) : Json :=
  .dict [("index", .int 0), ("message", .dict message), ("finish_reason", .str finish_reason)]

/-- The completion of a message. -/
def completion (id : Json) (now : ℤ) (model : Json) (message : List (String × Json))
    (finish_reason : String) (usage : List (String × Json)) (request_id : String)
    (stop_sequence : Json) : List (String × Json) :=
  [("id", id), ("object", .str "chat.completion"), ("created", .int now), ("model", model),
    ("choices", .list [choiceOf message finish_reason]), ("usage", .dict usage)] ++
  (if request_id = "" then [] else [("request_id", .str request_id)]) ++
  if stop_sequence = .null then [] else [("stop_sequence", stop_sequence)]

/-- `convert_anthropic_to_openai_response`, at the time `now`. -/
def convert_anthropic_to_openai_response (conv : Conversions) (uuid4 : ℕ → String) (now : ℤ)
    (response : Json) (request_id : Option String) : Except PyErr Json := do
  let blocks ← ((← response.get "content").or (.list [])).iter
  let p ← blocks.foldlM (Parts.add uuid4) ⟨[], [], []⟩
  let text_parts ← p.text_parts.mapM joined
  let id := (← response.get "id").or (.str ("chatcmpl-" ++ uuid4 p.tool_calls.length))
  let model ← response.getD "model" (.str "")
  let stop_reason ← (← response.get "stop_reason").key
  let usage ← NativeStream.convert_anthropic_usage_to_openai conv (← response.get "usage")
  let stop_sequence ← response.get "stop_sequence"
  return .dict (completion id now model (messageOf p (String.join text_parts))
    (NativeStream.finishReason stop_reason) usage (request_id.getD "") stop_sequence)

/-! ## To the native interface -/

/-- The `tool_use` block of a tool call. Arguments that are no JSON text are an empty input. -/
def toolUse (fr : FloatRepr) (uuid4 : String) (tool_call : Json) : Except PyErr Json := do
  let function ← tool_call.getD "function" (.dict [])
  let arguments ← function.getD "arguments" (.str "\x7b\x7d")
  let tool_input := match arguments with
    | .str text =>
      match fr.loads text.toList with
      | .ok input => input
      | .error _ => .dict []
    | _ => .dict []
  let id ← tool_call.getD "id" (.str ("toolu_" ++ uuid4))
  let name ← function.getD "name" (.str "")
  return .dict [("type", .str "tool_use"), ("id", id), ("name", name), ("input", tool_input)]

/-- The blocks of the tool calls. -/
def toolUses (fr : FloatRepr) (uuid4 : ℕ → String) : ℕ → List Json → Except PyErr (List Json)
  | _, [] => .ok []
  | n, tool_call :: tool_calls => do
    let block ← toolUse fr (uuid4 n) tool_call
    let blocks ← toolUses fr uuid4 (n + 1) tool_calls
    return block :: blocks

/-- The usage of the native interface, which does not count the cached tokens as input. -/
def nativeUsage (openai_usage : Json) : Except PyErr Json := do
  let prompt_tokens ← openai_usage.getD "prompt_tokens" (.int 0)
  let input_tokens ← openai_usage.getD "anthropic_input_tokens" prompt_tokens
  let completion_tokens ← openai_usage.getD "completion_tokens" (.int 0)
  let output_tokens ← openai_usage.getD "anthropic_output_tokens" completion_tokens
  let cached (key : String) : List (String × Json) := match openai_usage with
    | .dict kvs => match Assoc.get? kvs key with
      | some v => [(key, v)]
      | none => []
    | _ => []
  return .dict ([("input_tokens", input_tokens), ("output_tokens", output_tokens)] ++
    cached "cache_creation_input_tokens" ++ cached "cache_read_input_tokens")

/-- The message of a completion. -/
def nativeMessage (id : Json) (content : List Json) (model : Json) (stop_reason : String)
    (usage : Json) : List (String × Json) :=
  [("id", id), ("type", .str "message"), ("role", .str "assistant"), ("content", .list content),
    ("model", model), ("stop_reason", .str stop_reason), ("stop_sequence", .null),
    ("usage", usage)]

/-- `convert_openai_to_anthropic_response`. -/
def convert_openai_to_anthropic_response (fr : FloatRepr) (uuid4 : ℕ → String)
    (openai_response : Json) (model : String) : Except PyErr Json := do
  let choices ← openai_response.get "choices"
  let choice ← if choices.truthy then choices.first else .ok (.dict [])
  let message ← choice.getD "message" (.dict [])
  let finish_reason ← (← choice.getD "finish_reason" (.str "stop")).key
  let message_content ← message.get "content"
  let texts : List Json :=
    if message_content.truthy then [.dict [("type", .str "text"), ("text", message_content)]]
    else []
  let tool_calls ← ((← message.get "tool_calls").or (.list [])).iter
  let tools ← toolUses fr uuid4 0 tool_calls
  let usage ← nativeUsage (← openai_response.getD "usage" (.dict []))
  let id ← openai_response.getD "id" (.str ("msg_" ++ uuid4 tool_calls.length))
  let response_model ← openai_response.getD "model" (.str "")
  return .dict (nativeMessage id (texts ++ tools) ((Json.str model).or response_model)
    (StreamState.stopReason finish_reason) usage)

end OpenLaunch.Anthropic.Responses
