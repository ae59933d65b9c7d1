import OpenLaunch.Python.Conversions
import OpenLaunch.Python.JsonText
import OpenLaunch.Replay.ToolPairs

/-! # Replaying stored output

The output of an assistant message is stored as a list of items: texts, reasoning, tool calls and
results of tools. `convert_output_to_messages` makes the messages of a conversation of it. Texts and
calls are collected until a result comes or the list ends; then one assistant message is made of
them. At the end the messages go through `reconcile_tool_pairs`. -/

namespace OpenLaunch.Replay

open Python

/-! ## Items -/

/-- A part of the text of a message or of reasoning. -/
structure TextPart where
  type : Option String
  text : Option String

/-- A part of the output of a tool. -/
structure ToolOutputPart where
  type : Option String
  text : Option Json
  image_url : Option String

/-- An item of type `function_call_output`. -/
structure ToolOutput where
  call_id : Option String
  output : List ToolOutputPart

/-- An item of stored output. -/
inductive Item
  | message (content : List TextPart)
  | function_call (call_id name : Option String) (arguments : Option Json)
  | function_call_output (result : ToolOutput)
  | reasoning (summary content : List TextPart) (reasoning_details : Option Json)
      (start_tag end_tag : Option String)
  | code_interpreter (code : Option String) (output : Option Json)
  /-- An item of another type, which is skipped. -/
  | other

/-- How reasoning is included in the messages, where it is. -/
inductive ReasoningFormat
  | think_tags
  | reasoning_content
  deriving DecidableEq

/-- The other arguments of `convert_output_to_messages`, and the interpreter's `str`. -/
structure Options where
  conv : Conversions
  raw : Bool
  reasoning_format : Option ReasoningFormat

/-! ## What an item adds -/

/-- The four pending lists. -/
structure Pending where
  tool_calls : List ToolCall
  content : List String
  reasoning : List String
  reasoning_details : List Json

namespace Pending

/-- Nothing is pending. -/
def empty : Pending := ⟨[], [], [], []⟩

/-- What is pending after more was added. -/
def append (p q : Pending) : Pending :=
  ⟨p.tool_calls ++ q.tool_calls, p.content ++ q.content, p.reasoning ++ q.reasoning,
    p.reasoning_details ++ q.reasoning_details⟩

instance : Append Pending := ⟨append⟩

/-- The test with which `flush_pending` begins. -/
def isEmpty (p : Pending) : Bool :=
  p.content = [] ∧ p.tool_calls = [] ∧ p.reasoning = [] ∧ p.reasoning_details = []

end Pending

/-- The text of the content of a message item. -/
def messageText (content : List TextPart) : String :=
  String.join (content.map fun part =>
    if part.type = some "output_text" then part.text.getD "" else "")

/-- The text of a list of reasoning parts. -/
def reasoningText (source_list : List TextPart) : String :=
  String.join (source_list.map fun part =>
    if part.type = some "output_text" then part.text.getD ""
    else if part.text.isSome then part.text.getD "" else "")

/-- The arguments of a call, always a string. -/
def argumentText (arguments : Option Json) : String :=
  match arguments.getD (.str "\x7b\x7d") with
  | .str s => s
  | value => String.ofList (dumps .standard value)

/-- The tool call of a `function_call` item. -/
def functionCall (call_id name : Option String) (arguments : Option Json) : ToolCall where
  id := some (call_id.getD "")
  fields := [("type", .str "function"),
    ("function", .dict [("name", .str (name.getD "")),
      ("arguments", .str (argumentText arguments))])]

/-- The pieces of content that an item of code interpretation adds. -/
def codePieces (conv : Conversions) (code : Option String) (output : Option Json) : List String :=
  let code := code.getD ""
  let code_output := output.getD (.str "")
  let output_text : Json :=
    match code_output with
    | .dict kvs =>
      ((Assoc.get? kvs "stdout").getD (.str "")).or ((Assoc.get? kvs "result").getD (.str ""))
    | value => .str (conv.str value)
  (if code = "" then [] else ["<code_interpreter>\n" ++ code ++ "\n</code_interpreter>"]) ++
    if code_output.truthy && output_text.truthy then
      ["<code_interpreter_output>\n" ++ conv.str output_text ++ "\n</code_interpreter_output>"]
    else []

/-- What a reasoning item adds. -/
def reasoningPending (opts : Options) (summary content : List TextPart)
    (reasoning_details : Option Json) (start_tag end_tag : Option String) : Pending :=
  let reasoning_details := if opts.raw then reasoning_details.getD .null else .null
  if opts.reasoning_format = none ∧ reasoning_details.truthy = false then .empty
  else
    let reasoning_text := reasoningText (if summary = [] then content else summary)
    { tool_calls := []
      content :=
        if reasoning_text ≠ "" ∧ opts.reasoning_format = some .think_tags then
          [start_tag.getD "<think>" ++ reasoning_text ++ end_tag.getD "</think>"]
        else []
      reasoning :=
        if reasoning_text ≠ "" ∧ opts.reasoning_format = some .reasoning_content then
          [reasoning_text]
        else []
      reasoning_details :=
        if reasoning_details.truthy then
          match reasoning_details with
          | .list details => details
          | value => [value]
        else [] }

/-- What an item adds to the pending lists. -/
def itemPending (opts : Options) : Item → Pending
  | .message content =>
    let text := messageText content
    ⟨[], if text = "" then [] else [text], [], []⟩
  | .function_call call_id name arguments => ⟨[functionCall call_id name arguments], [], [], []⟩
  | .function_call_output _ => .empty
  | .reasoning summary content reasoning_details start_tag end_tag =>
    reasoningPending opts summary content reasoning_details start_tag end_tag
  | .code_interpreter code output => ⟨[], codePieces opts.conv code output, [], []⟩
  | .other => .empty

/-! ## The messages -/

/-- The assistant message that `flush_pending` makes. -/
def assistantMessage (p : Pending) : ChatMessage where
  role := "assistant"
  content := some (.str ("\n".intercalate p.content))
  tool_calls := if p.tool_calls = [] then none else some p.tool_calls
  tool_call_id := none
  reasoning_content := if p.reasoning = [] then none else some (.str ("\n".intercalate p.reasoning))
  reasoning_items := none
  fields :=
    if p.reasoning_details = [] then [] else [("reasoning_details", .list p.reasoning_details)]

/-- `flush_pending`. -/
def flush_pending (p : Pending) : List ChatMessage :=
  if p.isEmpty then [] else [assistantMessage p]

/-- The text of the output of a tool. -/
def toolText (conv : Conversions) (output_parts : List ToolOutputPart) : String :=
  String.join (output_parts.map fun part =>
    if part.type = some "input_text" then conv.str (part.text.getD (.str "")) else "")

/-- The images of the output of a tool. -/
def toolImages (output_parts : List ToolOutputPart) : List String :=
  output_parts.filterMap fun part =>
    if part.type = some "input_image" ∧ part.image_url.getD "" ≠ "" then part.image_url else none

/-- The tool message of a `function_call_output` item. -/
def toolMessage (conv : Conversions) (item : ToolOutput) : ChatMessage where
  role := "tool"
  content :=
    let content := toolText conv item.output
    let image_urls := toolImages item.output
    some <|
      if image_urls = [] then .str content
      else .list (.dict [("type", .str "input_text"), ("text", .str content)] ::
        image_urls.map fun url => .dict [("type", .str "input_image"), ("image_url", .str url)])
  tool_calls := none
  tool_call_id := some (item.call_id.getD "")
  reasoning_content := none
  reasoning_items := none
  fields := []

/-- The state of the loop: the messages so far, and what is pending. -/
structure Conversion where
  messages : List ChatMessage
  pending : Pending

/-- The body of the loop of `convert_output_to_messages`. -/
def convertItem (opts : Options) (s : Conversion) : Item → Conversion
  | .function_call_output result =>
    ⟨s.messages ++ flush_pending s.pending ++ [toolMessage opts.conv result], .empty⟩
  | item => { s with pending := s.pending ++ itemPending opts item }

/-- The messages before they are reconciled. -/
def convertItems (opts : Options) (output : List Item) : List ChatMessage :=
  let s := output.foldl (convertItem opts) ⟨[], .empty⟩
  s.messages ++ flush_pending s.pending

/-- `convert_output_to_messages`. -/
def convert_output_to_messages (opts : Options) (output : List Item) : List ChatMessage :=
  reconcile_tool_pairs (convertItems opts output)

end OpenLaunch.Replay
