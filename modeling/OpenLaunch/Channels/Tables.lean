import OpenLaunch.Access.Grants
import OpenLaunch.Keyed

/-! # The tables of channels

Channels, their members, the messages in them and the files posted. Members of group and direct
message channels are those with an active row, and other channels are open by grants. -/

namespace OpenLaunch.Channels

open Python Access

/-! ## Rows -/

/-- A row of `channel`, without its texts. -/
structure Channel where
  id : String
  user_id : String
  type : Option String
  archived_at : Option ℤ
  deleted_at : Option ℤ
  deriving DecidableEq

/-- A row of `channel_member`. It is found by channel and user. -/
structure ChannelMember where
  channel_id : String
  user_id : String
  status : String
  is_active : Bool
  invited_at : Option ℤ
  invited_by : Option String
  joined_at : ℤ
  left_at : Option ℤ
  last_read_at : ℤ
  created_at : ℤ
  updated_at : ℤ
  deriving DecidableEq

/-- A row of `message`, without reactions and pins. Every writer sets `channel_id`. -/
structure Message where
  id : String
  user_id : String
  channel_id : String
  reply_to_id : Option String
  parent_id : Option String
  content : String
  data : Option (Dict String Json)
  metadata : Option (Dict String Json)
  created_at : ℤ
  updated_at : ℤ
  deriving DecidableEq

/-- A row of `channel_file`. -/
structure ChannelFile where
  channel_id : String
  file_id : String
  deriving DecidableEq

/-- The tables. -/
structure Store where
  channels : List Channel
  members : List ChannelMember
  messages : List Message
  files : List ChannelFile
  access : Database
  /-- The primary key of `channel`. -/
  channel_ids : (channels.map Channel.id).Nodup

/-- `channel.type in ['group', 'dm']`. -/
def Channel.membersOnly (c : Channel) : Bool := c.type = some "group" ∨ c.type = some "dm"

/-- `deleted_at IS NULL AND archived_at IS NULL`. -/
def Channel.live (c : Channel) : Bool := c.deleted_at = none ∧ c.archived_at = none

/-- The row says that the user is an active member of the channel. -/
def ChannelMember.activeIn (channel_id user_id : String) (m : ChannelMember) : Bool :=
  m.channel_id = channel_id ∧ m.user_id = user_id ∧ m.is_active

namespace Store

variable (s : Store)

/-! ## Queries -/

/-- `get_channel_by_id`. -/
def get_channel_by_id (id : String) : Option Channel := s.channels.find? fun c => c.id = id

/-- The rows of a user in a channel. -/
def memberships (channel_id user_id : String) : List ChannelMember :=
  s.members.filter fun m => m.channel_id = channel_id ∧ m.user_id = user_id

/-- `is_user_channel_member`. -/
def is_user_channel_member (channel_id user_id : String) : Bool :=
  (s.members.find? (·.activeIn channel_id user_id)).isSome

/-- `get_members_by_channel_id`. -/
def get_members_by_channel_id (channel_id : String) : List ChannelMember :=
  s.members.filter fun m => m.channel_id = channel_id

/-- `_collect_unique_user_ids`. -/
def collect_unique_user_ids (invited_by : String) (user_ids group_ids : List String) :
    List String :=
  (user_ids ++ invited_by :: group_ids.flatMap (get_group_user_ids_by_id s.access)).dedup

variable {s} {c : Channel} {id channel_id user_id : String}

theorem is_user_channel_member_iff : s.is_user_channel_member channel_id user_id = true ↔
    ∃ m ∈ s.members, m.channel_id = channel_id ∧ m.user_id = user_id ∧ m.is_active = true := by
  rw [is_user_channel_member, List.find?_isSome]
  simp only [ChannelMember.activeIn, decide_eq_true_eq]

end Store

end OpenLaunch.Channels
