import OpenLaunch.Channels.Membership

/-! # Messages in channels

Messages may answer another one and belong to the thread of another one. `new_message_handler`
checks that both are in the channel; the readers follow the answers without looking at it. -/

namespace OpenLaunch.Channels

open Python Access

/-! ## Reading -/

/-- `MessageForm`, without `temp_id`. `metadata` is the field `meta`. -/
structure MessageForm where
  content : String
  reply_to_id : Option String
  parent_id : Option String
  data : Option (Dict String Json)
  metadata : Option (Dict String Json)
  deriving DecidableEq

/-- `MessageResponse`, without users and reactions. What a message answers is cut off there. -/
structure MessageResponse where
  message : Message
  reply_to_message : Option Message
  latest_reply_at : Option ℤ
  reply_count : ℕ
  deriving DecidableEq

/-- An id that is given: `if message.reply_to_id`. -/
def given (id : Option String) : Option String := id.filter (· ≠ "")

namespace Store

variable (s : Store)

/-- `db.get(Message, id)`. -/
def get_message (id : String) : Option Message := s.messages.find? fun m => m.id = id

/-- `get_message_by_id` without replies, as deep as `fuel` allows. -/
def get_message_by_id : ℕ → String → Except PyErr (Option MessageResponse)
  | 0, _ => .error .runtimeError
  | fuel + 1, id =>
    match s.get_message id with
    | none => .ok none
    | some message => do
      let reply_to_message ← match given message.reply_to_id with
        | some reply_to_id => get_message_by_id fuel reply_to_id
        | none => .ok none
      pure (some ⟨message, reply_to_message.map MessageResponse.message, none, 0⟩)

/-- As many messages as a chain of answers can have, and one more. -/
def depth : ℕ := s.messages.length + 1

/-- A message with what it answers, as the readers of lists return it. -/
def withReply (message : Message) : Except PyErr MessageResponse := do
  let reply_to_message ← match given message.reply_to_id with
    | some reply_to_id => s.get_message_by_id s.depth reply_to_id
    | none => .ok none
  pure ⟨message, reply_to_message.map MessageResponse.message, none, 0⟩

/-- `order_by(Message.created_at.desc())`. -/
def newestFirst (messages : List Message) : List Message :=
  messages.mergeSort fun m m' => m'.created_at ≤ m.created_at

/-- `get_thread_replies_by_message_id`. -/
def get_thread_replies_by_message_id (id : String) : Except PyErr (List MessageResponse) :=
  (newestFirst (s.messages.filter fun m => m.parent_id = some id)).mapM s.withReply

/-- `get_message_by_id` with replies. -/
def get_message_with_thread (id : String) : Except PyErr (Option MessageResponse) := do
  match ← s.get_message_by_id s.depth id with
  | none => pure none
  | some response =>
    let thread_replies ← s.get_thread_replies_by_message_id id
    pure (some { response with
      latest_reply_at := thread_replies.head?.map fun r => r.message.created_at
      reply_count := thread_replies.length })

/-- `get_messages_by_channel_id`. -/
def get_messages_by_channel_id (channel_id : String) (skip limit : ℕ) :
    Except PyErr (List MessageResponse) :=
  let all_messages := ((newestFirst (s.messages.filter fun m =>
    m.channel_id = channel_id ∧ m.parent_id = none)).drop skip).take limit
  all_messages.mapM s.withReply

/-- `get_messages_by_parent_id`. -/
def get_messages_by_parent_id (channel_id parent_id : String) (skip limit : ℕ) :
    Except PyErr (List MessageResponse) :=
  match s.get_message parent_id with
  | none => .ok []
  | some message =>
    if message.channel_id ≠ channel_id then .ok []
    else
      let all_messages := ((newestFirst (s.messages.filter fun m =>
        m.channel_id = channel_id ∧ m.parent_id = some parent_id)).drop skip).take limit
      let all_messages :=
        if all_messages.length < limit then all_messages ++ [message] else all_messages
      all_messages.mapM s.withReply

/-! ## Writing -/

/-- `insert_new_message`, which joins the channel first. -/
def insert_new_message (now : ℤ) (uuid4 : String) (form_data : MessageForm)
    (channel_id user_id : String) : Message × Store :=
  let s := (s.join_channel now channel_id user_id).2
  let message : Message :=
    { id := uuid4, user_id := user_id, channel_id := channel_id,
      reply_to_id := form_data.reply_to_id, parent_id := form_data.parent_id,
      content := form_data.content, data := form_data.data, metadata := form_data.metadata,
      created_at := now, updated_at := now }
  (message, { s with messages := s.messages ++ [message] })

/-- `has_public_write_access_grant` of the grants of a channel. -/
def has_public_write_access_grant (channel_id : String) : Bool :=
  s.access.grants.any fun g => isFor "channel" channel_id "write" g && isPublic g

/-- `channel_has_access` for writing, with `strict=False`. -/
def mayWrite (user_id : String) (channel : Channel) : Bool :=
  AccessGrantsTable.has_access s.access user_id "channel" channel.id "write" none ||
    s.has_public_write_access_grant channel.id

/-- The loop of `new_message_handler` that makes the members active again. -/
def reactivate (now : ℤ) (channel_id : String) (members : List ChannelMember) : Store :=
  members.foldl (fun s member =>
    if member.is_active then s
    else (s.update_member_active_status now channel_id member.user_id true).2) s

/-- The check that a reference is to a message of the channel. -/
def checkReference (channel_id : String) (ref_id : Option String) : Except HTTPException Unit :=
  match given ref_id with
  | none => .ok ()
  | some ref_id =>
    match s.get_message_by_id s.depth ref_id with
    | .error _ => .error serverError
    | .ok none => .error ⟨400, defaultMessage⟩
    | .ok (some ref) =>
      if ref.message.channel_id ≠ channel_id then .error ⟨400, defaultMessage⟩ else .ok ()

/-- The checks of `new_message_handler`: the channel that the user may write to. -/
def checkPost (id : String) (form_data : MessageForm) (user : User) :
    Except HTTPException Channel :=
  match s.get_channel_by_id id with
  | none => .error ⟨404, notFoundMessage⟩
  | some channel => do
    if channel.membersOnly then
      if ¬ s.is_user_channel_member channel.id user.id then throw ⟨403, defaultMessage⟩
    else if user.role ≠ "admin" ∧ ¬ s.mayWrite user.id channel then throw ⟨403, defaultMessage⟩
    s.checkReference channel.id form_data.parent_id
    s.checkReference channel.id form_data.reply_to_id
    pure channel

/-- `new_message_handler`. -/
def new_message_handler (now : ℤ) (uuid4 id : String) (form_data : MessageForm) (user : User) :
    Except HTTPException (MessageResponse × Channel) × Store :=
  match s.checkPost id form_data user with
  | .error e => (.error e, s)
  | .ok channel =>
    let (message, s) := s.insert_new_message now uuid4 form_data channel.id user.id
    let s := if channel.membersOnly then
        s.reactivate now channel.id (s.get_members_by_channel_id channel.id)
      else s
    match s.get_message_with_thread message.id with
    | .ok (some message) => (.ok (message, channel), s)
    | _ => (.error ⟨400, defaultMessage⟩, s)

/-- The message that `model_response_handler` posts as the answer of a model. -/
def model_response (now : ℤ) (uuid4 : String) (channel : Channel) (message : Message)
    (metadata : Dict String Json) (user : User) :
    Except HTTPException (MessageResponse × Channel) × Store :=
  s.new_message_handler now uuid4 channel.id
    { content := "", reply_to_id := none, parent_id := (given message.parent_id).or (some message.id),
      data := some Dict.empty, metadata := some metadata } user

/-- A row of `channel_webhook`. -/
structure ChannelWebhook where
  id : String
  channel_id : String
  user_id : String
  deriving DecidableEq

/-- `post_webhook_message`, once the webhook is found. -/
def post_webhook_message (now : ℤ) (uuid4 : String) (webhook : ChannelWebhook) (content : String) :
    Except HTTPException MessageResponse × Store :=
  match s.get_channel_by_id webhook.channel_id with
  | none => (.error ⟨404, notFoundMessage⟩, s)
  | some _ =>
    let (message, s) := s.insert_new_message now uuid4
      { content := content, reply_to_id := none, parent_id := none, data := none,
        metadata := some (Dict.empty.set "webhook" (.dict [("id", .str webhook.id)])) }
      webhook.channel_id webhook.user_id
    match s.get_message_with_thread message.id with
    | .ok (some message) => (.ok message, s)
    | _ => (.error serverError, s)

/-- The checks before a message is edited or deleted. -/
def checkEdit (id message_id : String) (user : User) : Except HTTPException Message :=
  match s.get_channel_by_id id with
  | none => .error ⟨404, notFoundMessage⟩
  | some channel =>
    match s.get_message_with_thread message_id with
    | .error _ => .error serverError
    | .ok none => .error ⟨404, notFoundMessage⟩
    | .ok (some response) => do
      let message := response.message
      if message.channel_id ≠ id then throw ⟨400, defaultMessage⟩
      if channel.membersOnly then
        if ¬ s.is_user_channel_member channel.id user.id then throw ⟨403, defaultMessage⟩
        if user.role ≠ "admin" ∧ message.user_id ≠ user.id then throw ⟨403, defaultMessage⟩
      else if user.role ≠ "admin" ∧ message.user_id ≠ user.id ∧ ¬ s.mayWrite user.id channel then
        throw ⟨403, defaultMessage⟩
      pure message

/-- What `update_message_by_id` makes of a message. -/
def edited (now : ℤ) (form_data : MessageForm) (message : Message) : Message :=
  { message with
    content := form_data.content
    data := some ((message.data.getD Dict.empty).update (form_data.data.getD Dict.empty))
    metadata := some ((message.metadata.getD Dict.empty).update (form_data.metadata.getD Dict.empty))
    updated_at := now }

/-- `update_message_by_id`. -/
def update_message_by_id (now : ℤ) (id message_id : String) (form_data : MessageForm) (user : User) :
    Except HTTPException (Option MessageResponse) × Store :=
  match s.checkEdit id message_id user with
  | .error e => (.error e, s)
  | .ok _ =>
    let s := { s with messages := s.messages.map fun m : Message =>
      if m.id = message_id then edited now form_data m else m }
    match s.get_message_with_thread message_id with
    | .ok message => (.ok message, s)
    | .error _ => (.error ⟨400, defaultMessage⟩, s)

/-- `delete_message_by_id`. -/
def delete_message_by_id (id message_id : String) (user : User) : Except HTTPException Bool × Store :=
  match s.checkEdit id message_id user with
  | .error e => (.error e, s)
  | .ok _ => (.ok true, { s with messages := s.messages.filter fun m => m.id ≠ message_id })

/-- What a post has passed: members only may post to a channel with members, and references are to
messages of the channel. -/
theorem checkPost_eq_ok {s : Store} {id : String} {form_data : MessageForm} {user : User}
    {channel : Channel} (h : s.checkPost id form_data user = .ok channel) :
    (channel.membersOnly = true → s.is_user_channel_member channel.id user.id = true) ∧
      s.checkReference channel.id form_data.parent_id = .ok () ∧
      s.checkReference channel.id form_data.reply_to_id = .ok () := by
  rw [checkPost] at h
  cases hchannel : s.get_channel_by_id id with
  | none =>
    rw [hchannel] at h
    cases h
  | some c =>
    rw [hchannel] at h
    dsimp only at h
    have hmay : c.membersOnly = true → s.is_user_channel_member c.id user.id = true := by
      intro honly
      by_contra hnot
      rw [if_pos honly, if_pos hnot] at h
      cases h
    have hrest : (do
        s.checkReference c.id form_data.parent_id
        s.checkReference c.id form_data.reply_to_id
        pure c : Except HTTPException Channel) = .ok channel := by
      split_ifs at h
      all_goals first | exact h | cases h
    obtain ⟨⟨⟩, hparent, hrest⟩ := bind_eq_ok.mp hrest
    obtain ⟨⟨⟩, hreply, hrest⟩ := bind_eq_ok.mp hrest
    cases hrest
    exact ⟨hmay, hparent, hreply⟩

end Store

end OpenLaunch.Channels
