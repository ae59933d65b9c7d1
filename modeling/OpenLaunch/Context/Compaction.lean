import OpenLaunch.Chats.History
import OpenLaunch.Python.Conversions
import OpenLaunch.Python.JsonText
import OpenLaunch.Python.Text

/-! # Context compaction

A request on a chat loads the branch of messages it continues. When the messages are too long for the
model, `compact_messages_for_request` has the older ones summarised and goes on with the recent ones;
the summary is stored as a checkpoint, in the `contextSummary` of a message of the branch, and later
requests start from the latest checkpoint they find.

A branch is modelled as the list that `get_message_list` returns for its last message. Beside its
fields, a message carries where on the branch it was loaded from and which messages its checkpoint
stands for; the program has no such record, and nothing it computes depends on it. What happens to
the messages after compaction (the summary is put into the system message, stored output is expanded)
is left out. -/

namespace OpenLaunch.Context

open Python

/-! ## Messages -/

/-- A message of a request. -/
structure Message where
  fields : Chats.Message
  /-- Where on the branch the message was loaded from, if it was. -/
  origin : Option ℕ
  /-- The positions of the messages that the summary in its checkpoint was made from. -/
  covers : List ℕ
  deriving DecidableEq

/-- `message.get(key)`. -/
def Message.get (m : Message) (key : String) : Json := m.fields.field key

/-- A summary, and the positions of the messages it was made from. -/
structure Summary where
  text : String
  covers : List ℕ
  deriving DecidableEq

/-- The summary text in a message's fields, if it is not blank. -/
def summaryText (fields : Chats.Message) : Option String :=
  match (fields.field "contextSummary").or (fields.field "context_summary") with
  | .str value => if strip value.toList = [] then none else some value
  | _ => none

/-- The checkpoint of a message. -/
def Message.checkpoint (m : Message) : Option Summary :=
  (summaryText m.fields).map fun text => ⟨text, m.covers⟩

/-- The last message with a checkpoint, by its index. -/
def latest_checkpoint (messages : List Message) : Option (Summary × ℕ) :=
  messages.zipIdx.foldl (fun latest e => match e.1.checkpoint with
    | some summary => some (summary, e.2)
    | none => latest) none

/-- `_apply_latest_summary_checkpoint`: the messages from the latest checkpoint on. -/
def apply_latest_summary_checkpoint (messages : List Message) : List Message × Option Summary :=
  match latest_checkpoint messages with
  | some (summary, summary_idx) => (messages.drop summary_idx, some summary)
  | none => (messages, none)

/-! ## Estimates -/

/-- `_estimate_tokens`. -/
def estimate_tokens : Json → ℕ
  | .null => 0
  | .str s => if s = "" then 0 else max 1 (s.length / 4)
  | v => max 1 ((dumps .unicode v).length / 4)

/-- The tokens of one item of a content list. -/
def estimate_item (item : Json) : Except PyErr ℕ :=
  if item.isDict then do
    let type ← item.get "type"
    let k ← type.key
    if k = .str "image" ∨ k = .str "image_url" then return 1000
    else return estimate_tokens (((← item.get "text").or (← item.get "content")).or item)
  else return estimate_tokens item

/-- The tokens of a message's content. -/
def estimate_content (content : Json) : Except PyErr ℕ :=
  match content with
  | .list items => do return (← items.mapM estimate_item).sum
  | v => return estimate_tokens v

/-- `_estimate_messages_tokens`. -/
def estimate_messages_tokens (messages : List Message) : Except PyErr ℕ := do
  let totals ← messages.mapM fun message => do
    let content ← estimate_content (message.get "content")
    return 4 + content + estimate_tokens (message.get "output") +
      estimate_tokens (message.get "tool_calls") + estimate_tokens (message.get "files")
  return totals.sum

/-- The usage recorded in a message, if it has input tokens. -/
def usage? (message : Message) : Except PyErr (Option Json) := do
  let info := (message.get "info").or (.dict [])
  let usage ← if (message.get "usage").truthy then pure (message.get "usage") else info.get "usage"
  if usage.isDict then
    return if (← usage.get "input_tokens").truthy then some usage else none
  else return none

/-- The latest recorded usage, and the messages after it; `before` is read from its end. -/
def latest_usage (after : List Message) : List Message → Except PyErr (Option (Json × List Message))
  | [] => return none
  | message :: before => do
    match ← usage? message with
    | some usage => return some (usage, after)
    | none => latest_usage (message :: after) before

/-- `_exceeds_token_threshold`. -/
def exceeds_token_threshold (conv : Conversions) (messages : List Message) (system_prompt : Json)
    (summary : Option Summary) (threshold : ℤ) : Except PyErr Bool :=
  if threshold ≤ 0 then return false
  else do
    match ← latest_usage [] messages.reverse with
    | some (usage, after) => do
      let input_tokens ← conv.int ((← usage.get "input_tokens").or (.int 0))
      let output_tokens ← conv.int ((← usage.get "output_tokens").or (.int 0))
      return decide (threshold < input_tokens + output_tokens + (← estimate_messages_tokens after))
    | none => do
      let text := (summary.map Summary.text).getD ""
      let estimated := estimate_tokens system_prompt + estimate_tokens (.str text) +
        (← estimate_messages_tokens messages)
      return decide (threshold < estimated)

/-! ## The boundary -/

/-- Between the messages `split - 1` and `split` there is no cut: they belong to one use of tools. -/
def glued (messages : List Message) (split : ℕ) : Bool :=
  let get (i : ℕ) (key : String) : Json := ((messages[i]?).map fun m => m.get key).getD .null
  get split "role" = .str "tool" || (get (split - 1) "tool_calls").truthy ||
    (get (split - 1) "output").truthy

/-- The loop of `_find_compaction_boundary` from a position with some more positions before the last
message. -/
def advance (messages : List Message) (split : ℕ) : ℕ → ℕ
  | 0 => split
  | left + 1 => if glued messages split then advance messages (split + 1) left else split

/-- How many messages are kept at least: two of five, but no less than two. -/
def keepCount (messages : List Message) : ℕ := max 2 (messages.length * 2 / 5)

/-- `_find_compaction_boundary`. -/
def find_compaction_boundary (messages : List Message) : ℕ :=
  let split := max 1 (messages.length - keepCount messages)
  min (advance messages split (messages.length - 1 - split)) (messages.length - 2)

/-! ## The summary -/

/-- `get_content_from_message`. -/
def get_content_from_message (message : Message) : Except PyErr Json :=
  match message.get "content" with
  | .list items => firstText items
  | content => return content
where
  /-- `item['text']` of the first item whose `item['type']` is `text`. -/
  firstText : List Json → Except PyErr Json
    | [] => return .null
    | .dict kvs :: items =>
      match Assoc.get? kvs "type" with
      | none => .error .keyError
      | some type =>
        if type = .str "text" then
          match Assoc.get? kvs "text" with
          | none => .error .keyError
          | some text => return text
        else firstText items
    | _ :: _ => .error .typeError

/-- The line of a compacted message in the summary that is made without a model. -/
def summary_line (conv : Conversions) (message : Message) : Except PyErr (Option (List Char)) := do
  let content ← get_content_from_message message
  if content.truthy then
    match content with
    | .str s =>
      let role := (Assoc.get? message.fields "role").getD (.str "unknown")
      return some ("- ".toList ++ (conv.str role).toList ++ ": ".toList ++ s.toList.take 500)
    | _ => .error .typeError
  else return none

/-- `_generate_summary`, given the text of the model's response: the text itself or, if it is blank,
a list of the compacted messages. -/
def generate_summary (conv : Conversions) (response : Except PyErr String)
    (compacted_messages : List Message) (previous_summary : Option Summary) :
    Except PyErr String := do
  let response ← response
  let summary := strip response.toList
  if summary ≠ [] then return String.ofList summary
  else do
    let lines ← compacted_messages.mapM (summary_line conv)
    let parts := previous_summary.toList.map (fun s => s.text.toList) ++ lines.reduceOption
    return String.ofList (("\n".toList.intercalate parts).take 4000)

/-- `compact_chat_branch` and `compact_messages_for_request` make a summary of the compacted messages
and the previous summary, so it stands for all that either was made from. -/
def newSummary (text : String) (compacted_messages : List Message)
    (previous_summary : Option Summary) : Summary where
  text := text
  covers := compacted_messages.filterMap Message.origin ++
    ((previous_summary.map Summary.covers).getD [])

/-! ## Compaction -/

/-- The configuration of compaction. -/
structure Config where
  enable : Bool
  token_threshold : ℤ
  deriving DecidableEq

/-- `_parse_positive_int`. -/
def parse_positive_int (conv : Conversions) (value : Json) : Except PyErr (Option ℤ) :=
  match conv.int value with
  | .ok parsed => return if 0 < parsed then some parsed else none
  | .error .typeError | .error .valueError => return none
  | .error e => .error e

/-- `_resolve_token_threshold`; `configured` is the request's own `compact_token_threshold`. -/
def resolve_token_threshold (conv : Conversions) (global_threshold : ℤ) (configured : Json) :
    Except PyErr ℤ := do
  match ← parse_positive_int conv configured with
  | none => return global_threshold
  | some configured_threshold => return min configured_threshold global_threshold

/-- What `compact_messages_for_request` returns. -/
structure Compacted where
  messages : List Message
  summary : Option Summary
  compacted : Bool

/-- The messages from the latest checkpoint on have to be compacted. -/
def needs_compaction (conv : Conversions) (config : Config) (configured : Json)
    (messages : List Message) (system_prompt : Json) : Except PyErr Bool := do
  let (messages, previous_summary) := apply_latest_summary_checkpoint messages
  let token_threshold ← resolve_token_threshold conv config.token_threshold configured
  let exceeds ←
    exceeds_token_threshold conv messages system_prompt previous_summary token_threshold
  return exceeds && decide (3 < messages.length)

/-- `compact_messages_for_request`. -/
def compact_messages_for_request (conv : Conversions) (config : Config) (configured : Json)
    (messages : List Message) (system_prompt : Json) (response : Except PyErr String) :
    Except PyErr Compacted :=
  if config.enable then do
    let needed ← needs_compaction conv config configured messages system_prompt
    let (messages, previous_summary) := apply_latest_summary_checkpoint messages
    if needed then do
      let boundary := find_compaction_boundary messages
      let compacted_messages := messages.take boundary
      let recent_messages := messages.drop boundary
      if compacted_messages.isEmpty || recent_messages.isEmpty then
        return ⟨messages, previous_summary, false⟩
      else do
        let text ← generate_summary conv response compacted_messages previous_summary
        return ⟨recent_messages, some (newSummary text compacted_messages previous_summary), true⟩
    else return ⟨messages, previous_summary, false⟩
  else return ⟨messages, none, false⟩

end OpenLaunch.Context
