import OpenLaunch.Context.Compaction

/-! # Requests on one branch

A chat branch grows while requests are made on it. `process_chat_payload` loads the branch up to the
user message of the request, with the assistant's message when the request continues it, has the
messages compacted, and stores the checkpoint on the user message. `step` is one event on the branch;
the state keeps, for every request made so far, what was sent to the model. -/

namespace OpenLaunch.Context

open Python

/-! ## Loading -/

/-- A stored message, and the positions of the messages its checkpoint was made from. -/
structure StoredMessage where
  fields : Chats.Message
  covers : List ℕ
  deriving DecidableEq

/-- The fields that `load_messages_from_db` keeps. -/
def loadedKeys : List String := ["role", "content", "output", "files", "contextSummary"]

/-- A message of the branch as it is loaded from position `i`. -/
def StoredMessage.load (m : StoredMessage) (i : ℕ) : Message where
  fields := m.fields.filter fun e => e.1 ∈ loadedKeys
  origin := some i
  covers := m.covers

/-- The first `count` messages of the branch. -/
def loadBranch (branch : List StoredMessage) (count : ℕ) : List Message :=
  (branch.take count).mapIdx fun i m => m.load i

/-- A file is an image. -/
def isImage (file : Json) : Except PyErr Bool := do
  if (← file.get "type") = .str "image" then return true
  else
    match (← file.get "content_type").or (.str "") with
    | .str s => return "image/".toList.isPrefixOf s.toList
    | _ => .error .attributeError

/-- The content part of an image file, if it has a `url`. -/
def imagePart (file : Json) : Except PyErr (Option Json) := do
  let url ← file.get "url"
  return if url.truthy then
    some (.dict [("type", .str "image_url"), ("image_url", .dict [("url", url)])]) else none

/-- The fields of a user message with its image files in the content. -/
def withImages (m : Message) (image_files : List Json) : Except PyErr Chats.Message :=
  let text_content := (Assoc.get? m.fields "content").getD (.str "")
  if m.get "role" = .str "user" ∧ image_files ≠ [] ∧ text_content.isStr then do
    let parts ← image_files.mapM imagePart
    let text := Json.dict [("type", .str "text"), ("text", text_content)]
    return Assoc.set m.fields "content" (.list (text :: parts.reduceOption))
  else return m.fields

/-- The image files of a user message go into its content, and `files` goes. -/
def injectImages (m : Message) : Except PyErr Message := do
  let files ← ((Assoc.get? m.fields "files").getD (.list [])).iter
  let image_files ← files.filterM isImage
  let fields ← withImages m image_files
  return { m with fields := Assoc.erase fields "files" }

/-- `get_system_message`: the first message with that role. -/
def get_system_message : List Message → Except PyErr (Option Message)
  | [] => return none
  | m :: messages =>
    match Assoc.get? m.fields "role" with
    | none => .error .keyError
    | some role => if role = .str "system" then return some m else get_system_message messages

/-- A request: what the client sent, the configuration, and how the summarising model answers, if it
is asked. -/
structure Request where
  /-- The position of the message `user_message_id`. -/
  user_message : ℕ
  /-- The message after it is the `assistant_message_id` that is continued. -/
  continued : Bool
  /-- The system message of the request. -/
  system_message : Option Chats.Message
  regeneration_prompt : Json
  config : Config
  compact_token_threshold : Json
  response : Except PyErr String

/-- How many messages of the branch are loaded: a continued message only if it has some content. -/
def Request.loaded (r : Request) (branch : List StoredMessage) : ℕ :=
  if r.continued && (branch[r.user_message + 1]?).any fun m =>
      (m.fields.field "content").truthy || (m.fields.field "output").truthy then
    r.user_message + 2
  else r.user_message + 1

/-- The system message, and the messages of the branch. -/
def Request.loadMessages (r : Request) (branch : List StoredMessage) : List Message :=
  r.system_message.toList.map (fun fields => ⟨fields, none, []⟩) ++ loadBranch branch (r.loaded branch)

/-- The regeneration prompt as a message, if there is one. -/
def Request.regeneration (r : Request) : List Message :=
  if r.regeneration_prompt.truthy then
    [⟨[("role", .str "user"), ("content", r.regeneration_prompt)], none, []⟩]
  else []

/-- The messages of the request before compaction. -/
def Request.messages (r : Request) (branch : List StoredMessage) : Except PyErr (List Message) := do
  let messages ← (r.loadMessages branch).mapM injectImages
  return messages ++ r.regeneration

/-- The system prompt whose tokens count. -/
def systemPrompt (messages : List Message) : Except PyErr Json := do
  match ← get_system_message messages with
  | some system_message => get_content_from_message system_message
  | none => return .str ""

/-- What compaction is given: the messages and the system prompt. -/
def Request.prepare (r : Request) (branch : List StoredMessage) :
    Except PyErr (List Message × Json) := do
  let messages ← r.messages branch
  let system_prompt ← systemPrompt messages
  return (messages, system_prompt)

/-! ## Events -/

/-- What a request sent to the model: messages, and the summary in force. -/
structure Sent where
  /-- How many messages of the branch the request was about. -/
  loaded : ℕ
  messages : List Message
  summary : Option Summary

/-- A branch, and the requests made on it. -/
structure Chat where
  branch : List StoredMessage
  sent : List Sent

/-- Before the first message. -/
def Chat.start : Chat := ⟨[], []⟩

/-- A new summary is stored on a message of the branch. -/
def storeSummary (branch : List StoredMessage) (i : ℕ) (summary : Summary) : List StoredMessage :=
  branch.modify i fun m =>
    ⟨m.fields.setField "contextSummary" (.str summary.text), summary.covers⟩

/-- What may happen on a branch. -/
inductive Event
  /-- A message is added at the end of the branch. -/
  | append (fields : Chats.Message)
  /-- A field of a message, other than its summary, is written. -/
  | write (i : ℕ) (key : String) (value : Json)
  /-- A request is made. -/
  | request (r : Request)
  /-- The branch up to its `currentId` is compacted, by `compact_chat_branch`. -/
  | compactBranch (current : ℕ) (enable : Bool) (response : Except PyErr String)

section

variable (conv : Conversions)

/-- `process_chat_payload`. When compaction raises, the request goes on with all messages; when
something before it raises, nothing is sent. -/
def process_chat_payload (chat : Chat) (r : Request) : Chat :=
  match r.prepare chat.branch with
  | .error _ => chat
  | .ok (messages, system_prompt) =>
    let loaded := r.loaded chat.branch
    match compact_messages_for_request conv r.config r.compact_token_threshold messages
        system_prompt r.response with
    | .error _ => { chat with sent := chat.sent ++ [⟨loaded, messages, none⟩] }
    | .ok ⟨messages, summary, compacted⟩ =>
      { branch := match summary, compacted with
          | some summary, true => storeSummary chat.branch r.user_message summary
          | _, _ => chat.branch
        sent := chat.sent ++ [⟨loaded, messages, summary⟩] }

/-- `compact_chat_branch`: all but the last message are compacted, and the checkpoint is stored on
the last one. -/
def compact_chat_branch (chat : Chat) (current : ℕ) (enable : Bool)
    (response : Except PyErr String) : Chat :=
  if enable then
    let all := (chat.branch.take (current + 1)).mapIdx fun i m =>
      (⟨m.fields, some i, m.covers⟩ : Message)
    let (messages, previous_summary) := apply_latest_summary_checkpoint all
    if messages.length ≤ 2 then chat
    else
      let compacted_messages := messages.take (messages.length - 1)
      match generate_summary conv response compacted_messages previous_summary with
      | .error _ => chat
      | .ok text =>
        { chat with
          branch := storeSummary chat.branch current
            (newSummary text compacted_messages previous_summary) }
  else chat

/-- One event. New messages have no summary. -/
def step (chat : Chat) : Event → Option Chat
  | .append fields =>
    if summaryText fields = none then
      some { chat with branch := chat.branch ++ [⟨fields, []⟩] }
    else none
  | .write i key value =>
    if key ≠ "contextSummary" ∧ key ≠ "context_summary" then
      some { chat with
        branch := chat.branch.modify i fun m => { m with fields := m.fields.setField key value } }
    else none
  | .request r =>
    if r.user_message < chat.branch.length then some (process_chat_payload conv chat r) else none
  | .compactBranch current enable response =>
    if current < chat.branch.length then
      some (compact_chat_branch conv chat current enable response)
    else none

end

end OpenLaunch.Context
