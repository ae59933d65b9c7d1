import OpenLaunch.Python.Effect
import OpenLaunch.Python.JsonText
import OpenLaunch.Python.Text

/-! # OpenAI streams as Anthropic streams

`openai_stream_to_anthropic_stream` reads the chunks of an OpenAI event stream and yields the events
of an Anthropic one. It keeps a running block index, the open text block and one record for each
tool call, found by the call's id or, for deltas without an id, by the call's OpenAI index. An
exception in the loop, from upstream or from ill-typed data, ends the loop; the blocks are then
closed and the stream is completed as at its regular end.

The generated ids are modelled as fresh values, distinct from every id of the stream. -/

namespace OpenLaunch.Anthropic

open Python

/-! ## Events -/

/-- The id of a tool call: the one upstream gave, or the `n`-th `toolu_…` generated. -/
inductive ToolId
  | given (id : Json)
  | generated (n : ℕ)
  deriving DecidableEq

/-- An id as a key of `tracked_tool_calls`. -/
inductive ToolKey
  | given (key : Json.Key)
  | generated (n : ℕ)
  deriving DecidableEq

/-- The events of the Anthropic stream. -/
inductive Event
  | message_start (model : String)
  | text_start (index : ℤ)
  | tool_start (index : ℤ) (id : ToolId) (name : Json)
  | text_delta (index : ℤ) (text : Json)
  | input_json_delta (index : ℤ) (partial_json : String)
  | content_block_stop (index : ℤ)
  | message_delta (stop_reason : String) (output_tokens : Json)
  | message_stop
  deriving DecidableEq

/-- The `data` of an event, given the texts of the generated ids. -/
def Event.data (message_id : String) (toolu : ℕ → String) : Event → Json
  | .message_start model => .dict [("type", .str "message_start"), ("message", .dict
      [("id", .str message_id), ("type", .str "message"), ("role", .str "assistant"),
        ("content", .list []), ("model", .str model), ("stop_reason", .null),
        ("stop_sequence", .null),
        ("usage", .dict [("input_tokens", .int 0), ("output_tokens", .int 0)])])]
  | .text_start index => .dict [("type", .str "content_block_start"), ("index", .int index),
      ("content_block", .dict [("type", .str "text"), ("text", .str "")])]
  | .tool_start index id name => .dict [("type", .str "content_block_start"),
      ("index", .int index), ("content_block", .dict [("type", .str "tool_use"),
        ("id", match id with | .given id => id | .generated n => .str (toolu n)), ("name", name),
        ("input", .dict [])])]
  | .text_delta index text => .dict [("type", .str "content_block_delta"), ("index", .int index),
      ("delta", .dict [("type", .str "text_delta"), ("text", text)])]
  | .input_json_delta index partial_json => .dict [("type", .str "content_block_delta"),
      ("index", .int index), ("delta", .dict [("type", .str "input_json_delta"),
        ("partial_json", .str partial_json)])]
  | .content_block_stop index =>
    .dict [("type", .str "content_block_stop"), ("index", .int index)]
  | .message_delta stop_reason output_tokens => .dict [("type", .str "message_delta"),
      ("delta", .dict [("stop_reason", .str stop_reason), ("stop_sequence", .null)]),
      ("usage", .dict [("output_tokens", output_tokens)])]
  | .message_stop => .dict [("type", .str "message_stop")]

/-! ## State -/

/-- An entry of `tracked_tool_calls`. -/
structure TrackedToolCall where
  id : ToolId
  name : Json
  arguments : String
  block_index : ℤ
  started : Bool
  stopped : Bool
  deriving DecidableEq

/-- The local variables of the generator, and the events it has yielded. -/
structure StreamState where
  input_tokens : Json
  output_tokens : Json
  stop_reason : String
  current_block_index : ℤ
  text_block_open : Bool
  tracked_tool_calls : Dict ToolKey TrackedToolCall
  index_to_tool_id : Dict Json.Key ToolKey
  has_tool_calls : Bool
  /-- How many ids have been generated. -/
  generated : ℕ
  out : List Event
  deriving DecidableEq

/-- The state once `message_start` has been yielded. -/
def StreamState.start (model : String) : StreamState where
  input_tokens := .int 0
  output_tokens := .int 0
  stop_reason := "end_turn"
  current_block_index := 0
  text_block_open := false
  tracked_tool_calls := .empty
  index_to_tool_id := .empty
  has_tool_calls := false
  generated := 0
  out := [.message_start model]

/-- The new record of a tool call. -/
def newToolCall (id : ToolId) (name : Json) : TrackedToolCall := ⟨id, name, "", -1, false, false⟩

namespace StreamState

/-- `yield`. -/
def emit (s : StreamState) (e : Event) : StreamState := { s with out := s.out ++ [e] }

/-- The record of a tool call changes, or is added. -/
def setTool (s : StreamState) (key : ToolKey) (tool : TrackedToolCall) : StreamState :=
  { s with tracked_tool_calls := s.tracked_tool_calls.set key tool }

/-! ## Text -/

/-- A text block is opened, if none is. -/
def openText (s : StreamState) : StreamState :=
  if s.text_block_open then s
  else { s.emit (.text_start s.current_block_index) with text_block_open := true }

/-- Text content; there is no text once a tool call has started. -/
def onContent (content : Json) (s : StreamState) : StreamState :=
  if content.truthy && !s.has_tool_calls then
    s.openText.emit (.text_delta s.current_block_index content)
  else s

/-- The text block is closed, if one is open. -/
def closeText (s : StreamState) : StreamState :=
  if s.text_block_open then
    { s.emit (.content_block_stop s.current_block_index) with
      text_block_open := false
      current_block_index := s.current_block_index + 1 }
  else s

/-! ## Tool calls -/

/-- A call that upstream named by id is tracked, if it is not yet. -/
def track (key : ToolKey) (id : ToolId) (name : Json) (s : StreamState) : StreamState :=
  if key ∈ s.tracked_tool_calls then s else s.setTool key (newToolCall id name)

/-- `index_to_tool_id[index] = key`. -/
def route (index : Json.Key) (key : ToolKey) (s : StreamState) : StreamState :=
  { s with index_to_tool_id := s.index_to_tool_id.set index key }

/-- The tool call that a delta belongs to. -/
def resolve (index id name : Json) : Py StreamState ToolKey :=
  if id.truthy then do
    let k ← Py.lift id.key
    Py.update (track (.given k) (.given id) name)
    let i ← Py.lift index.key
    Py.update (route i (.given k))
    return .given k
  else do
    let i ← Py.lift index.key
    let s ← Py.state
    match s.index_to_tool_id.get? i with
    | some key => return key
    | none => do
      -- the first delta of this index has no id: the call gets a generated one
      let n := s.generated
      Py.update fun s => { s.setTool (.generated n) (newToolCall (.generated n) name) with
        generated := n + 1 }
      Py.update (route i (.generated n))
      return .generated n

/-- The block of a tool call is started. -/
def startBlock (key : ToolKey) (tool : TrackedToolCall) (s : StreamState) : StreamState :=
  { (s.setTool key { tool with block_index := s.current_block_index, started := true }).emit
      (.tool_start s.current_block_index tool.id tool.name) with
    current_block_index := s.current_block_index + 1 }

/-- The name of a delta goes to its call, and the call's block is started once it has a name. -/
def startTool (key : ToolKey) (name : Json) (s : StreamState) : StreamState :=
  match s.tracked_tool_calls.get? key with
  | none => s
  | some tool =>
    let tool := if name.truthy && !tool.name.truthy then { tool with name := name } else tool
    if !tool.started && tool.name.truthy then
      { s.startBlock key tool with has_tool_calls := true }
    else s.setTool key tool

/-- `json.loads(arguments)` does not raise. -/
def isComplete (arguments : String) : Bool :=
  match loads arguments.toList with
  | .ok _ => true
  | .error _ => false

/-- An argument fragment goes to its call: it is buffered and, while the call's block is open,
emitted; complete arguments close the block. -/
def addArguments (key : ToolKey) (fragment : String) (s : StreamState) : StreamState :=
  match s.tracked_tool_calls.get? key with
  | none => s
  | some tool =>
    let tool := { tool with arguments := tool.arguments ++ fragment }
    if tool.started && !tool.stopped then
      let s := s.emit (.input_json_delta tool.block_index fragment)
      if isComplete tool.arguments then
        (s.setTool key { tool with stopped := true }).emit (.content_block_stop tool.block_index)
      else s.setTool key tool
    else s.setTool key tool

/-- The argument fragment of a delta, which has to be a string. -/
def onArguments (key : ToolKey) (fragment : Json) : Py StreamState Unit :=
  if fragment.truthy then
    match fragment with
    | .str a => Py.update (addArguments key a)
    | _ => Py.lift (.error .typeError)
  else pure ()

/-- One delta of a tool call, once its fields have been read. -/
def onFields (index id name fragment : Json) : Py StreamState Unit := do
  let key ← resolve index id name
  Py.update (startTool key name)
  onArguments key fragment

/-- One delta of a tool call. -/
def onToolCall (tool_call : Json) : Py StreamState Unit := do
  let index ← Py.lift (tool_call.getD "index" (.int 0))
  let id ← Py.lift (tool_call.getD "id" (.str ""))
  let function ← Py.lift (tool_call.get "function")
  let name ← Py.lift ((function.or (.dict [])).getD "name" (.str ""))
  let fragment ← Py.lift ((function.or (.dict [])).getD "arguments" (.str ""))
  onFields index id name fragment

/-! ## Chunks -/

/-- The token counts of a chunk, if it has some. -/
def onUsage (data : Json) : Py StreamState Unit := do
  let usage ← Py.lift (data.get "usage")
  if usage.truthy then do
    let s ← Py.state
    let input_tokens ← Py.lift (usage.getD "prompt_tokens" s.input_tokens)
    Py.update fun s => { s with input_tokens := input_tokens }
    let output_tokens ← Py.lift (usage.getD "completion_tokens" s.output_tokens)
    Py.update fun s => { s with output_tokens := output_tokens }
  else pure ()

/-- `stop_reason_map.get(finish_reason, 'end_turn')`. -/
def stopReason : Json.Key → String
  | .str "stop" => "end_turn"
  | .str "length" => "max_tokens"
  | .str "tool_calls" => "tool_use"
  | _ => "end_turn"

/-- The finish reason of a chunk, if it has one. -/
def onFinish (finish_reason : Json) : Py StreamState Unit :=
  if finish_reason = .null then pure ()
  else do
    let k ← Py.lift finish_reason.key
    Py.update fun s => { s with stop_reason := stopReason k }

/-- The tool calls of a chunk: those of the delta or, without any, those of the message. -/
def toolCalls (delta message : Json) : Except PyErr Json := do
  let tool_calls := (← delta.get "tool_calls").or (.list [])
  if tool_calls.truthy then return tool_calls
  let fallback ← message.get "tool_calls"
  return if fallback.truthy then fallback else tool_calls

/-- The tool calls of a chunk, one by one, after the text. -/
def onToolCalls (tool_calls : Json) : Py StreamState Unit :=
  if tool_calls.truthy then do
    Py.update closeText
    let tool_calls ← Py.lift tool_calls.iter
    Py.forEach onToolCall tool_calls
  else pure ()

/-- The object of one `data:` line. -/
def onData (data : Json) : Py StreamState Unit := do
  let choices ← Py.lift (data.getD "choices" (.list []))
  if choices.truthy then do
    let choice ← Py.lift choices.first
    let delta ← Py.lift (choice.getD "delta" (.dict []))
    let finish_reason ← Py.lift (choice.get "finish_reason")
    let message ← Py.lift (choice.get "message")
    onUsage data
    let content ← Py.lift (delta.get "content")
    Py.update (onContent content)
    let tool_calls ← Py.lift (toolCalls delta (message.or (.dict [])))
    onToolCalls tool_calls
    onFinish finish_reason
  else onUsage data

/-- The object of a line, if it is a `data:` line with JSON text that is not skipped. -/
def lineData (line : List Char) : Option Json :=
  let line := strip line
  if !"data:".toList.isPrefixOf line then none
  else
    let data_string := strip (line.drop 5)
    if data_string = "[DONE]".toList ∨ data_string = "{}".toList then none
    else (loads data_string).toOption

/-- A chunk that upstream yields. -/
inductive Chunk
  | bytes (bs : List UInt8)
  | str (cs : List Char)
  /-- An object that is neither. -/
  | other

/-- The text of a chunk. -/
def chunkText : Chunk → Except PyErr (List Char)
  | .bytes bs => .ok (decode .ignore bs)
  | .str cs => .ok cs
  | .other => .error .attributeError

/-- The objects of a chunk, in order. -/
def chunkData (chunk : Chunk) : Except PyErr (List Json) := do
  let text ← chunkText chunk
  return ((strip text).splitOn '\n').filterMap lineData

/-- One chunk, or the exception upstream raises in its place. -/
def onChunk (chunk : Except PyErr Chunk) : Py StreamState Unit := do
  let chunk ← Py.lift chunk
  let data ← Py.lift (chunkData chunk)
  Py.forEach onData data

/-! ## The end of the stream -/

/-- A call with a name whose block was never started is given its block. -/
def flushTool (s : StreamState) (key : ToolKey) : StreamState :=
  match s.tracked_tool_calls.get? key with
  | none => s
  | some tool =>
    if !tool.started && tool.name.truthy then
      let index := s.current_block_index
      let s := s.startBlock key tool
      if tool.arguments ≠ "" then s.emit (.input_json_delta index tool.arguments) else s
    else s

/-- Every call that still needs it is given its block. -/
def flush (s : StreamState) : StreamState := s.tracked_tool_calls.keys.foldl flushTool s

/-- The text block is closed at the end. -/
def closeLastText (s : StreamState) : StreamState :=
  if s.text_block_open then s.emit (.content_block_stop s.current_block_index) else s

/-- The block of a call is closed at the end, if it is open. -/
def closeTool (s : StreamState) (tool : TrackedToolCall) : StreamState :=
  if tool.started && !tool.stopped then s.emit (.content_block_stop tool.block_index) else s

/-- Every open block of a call is closed. -/
def closeTools (s : StreamState) : StreamState := s.tracked_tool_calls.values.foldl closeTool s

end StreamState

open StreamState

/-- The state at the end of the loop, whether upstream ended or something raised. -/
def readStream (model : String) (chunks : List (Except PyErr Chunk)) : StreamState :=
  (Py.forEach onChunk chunks (.start model)).2

/-- `openai_stream_to_anthropic_stream`: the events yielded for the chunks of the upstream
generator, of which the last may be an exception it raises. -/
def openai_stream_to_anthropic_stream (model : String) (chunks : List (Except PyErr Chunk)) :
    List Event :=
  let s := (readStream model chunks).flush.closeLastText.closeTools
  s.out ++ [.message_delta s.stop_reason s.output_tokens, .message_stop]

end OpenLaunch.Anthropic
