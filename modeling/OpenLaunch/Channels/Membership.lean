import OpenLaunch.Channels.Tables
import OpenLaunch.Http

/-! # Joining and leaving channels

The operations on the rows of members. A row that exists already is never made active by adding or
joining; leaving keeps the row, and removing deletes it. -/

namespace OpenLaunch.Channels

open Access

/-- `CreateChannelForm`, without texts and grants. -/
structure CreateChannelForm where
  type : Option String
  user_ids : List String
  group_ids : List String
  deriving DecidableEq

namespace Store

/-! ## Operations -/

/-- A row that `_create_membership_models` makes. -/
def newMembership (now : ℤ) (channel_id invited_by user_id : String) : ChannelMember where
  channel_id := channel_id
  user_id := user_id
  status := "joined"
  is_active := true
  invited_at := some now
  invited_by := some invited_by
  joined_at := now
  left_at := none
  last_read_at := now
  created_at := now
  updated_at := now

variable (s : Store)

/-- `insert_new_channel`, without the grants of the new channel. An id that is taken is no id of
`uuid4`. -/
def insert_new_channel (now : ℤ) (uuid4 : String) (form_data : CreateChannelForm)
    (user_id : String) : Option Store :=
  if h : uuid4 ∈ s.channels.map Channel.id then none
  else
    let channel : Channel :=
      { id := uuid4, user_id := user_id, type := form_data.type.filter (· ≠ ""),
        archived_at := none, deleted_at := none }
    let users := s.collect_unique_user_ids user_id form_data.user_ids form_data.group_ids
    some { s with
      channels := s.channels ++ [channel]
      members := if channel.membersOnly then s.members ++ users.map (newMembership now uuid4 user_id)
        else s.members
      channel_ids := by
        rw [List.map_append, List.map_singleton]
        refine List.nodup_append.mpr ⟨s.channel_ids, List.nodup_singleton _, ?_⟩
        intro x hx y hy hxy
        have heq : x = uuid4 := hxy.trans (List.mem_singleton.mp hy)
        exact h (heq ▸ hx) }

/-- `add_members_to_channel`. -/
def add_members_to_channel (now : ℤ) (channel_id invited_by : String)
    (user_ids group_ids : List String) : List ChannelMember × Store :=
  let requested_users := s.collect_unique_user_ids invited_by user_ids group_ids
  let existing_users := (s.get_members_by_channel_id channel_id).map ChannelMember.user_id
  let new_user_ids := requested_users.filter fun u => u ∉ existing_users
  if new_user_ids = [] then ([], s)
  else
    let new_memberships := new_user_ids.map (newMembership now channel_id invited_by)
    (new_memberships, { s with members := s.members ++ new_memberships })

/-- `remove_members_from_channel`: the number of rows deleted. -/
def remove_members_from_channel (channel_id : String) (user_ids : List String) : ℕ × Store :=
  let kept := s.members.filter fun m => ¬ (m.channel_id = channel_id ∧ m.user_id ∈ user_ids)
  (s.members.length - kept.length, { s with members := kept })

/-- The first row of a user in a channel. -/
def membership? (channel_id user_id : String) : Option ChannelMember :=
  s.members.find? fun m => m.channel_id = channel_id ∧ m.user_id = user_id

/-- The first row of a user in a channel is changed. -/
def modifyMembership (channel_id user_id : String) (f : ChannelMember → ChannelMember) : Store :=
  { s with members := s.members.replaceF fun m =>
      if m.channel_id = channel_id ∧ m.user_id = user_id then some (f m) else none }

/-- `join_channel`. -/
def join_channel (now : ℤ) (channel_id user_id : String) : ChannelMember × Store :=
  match s.membership? channel_id user_id with
  | some existing_membership => (existing_membership, s)
  | none =>
    let channel_member : ChannelMember :=
      { newMembership now channel_id user_id user_id with invited_at := none, invited_by := none }
    (channel_member, { s with members := s.members ++ [channel_member] })

/-- `leave_channel`. -/
def leave_channel (now : ℤ) (channel_id user_id : String) : Bool × Store :=
  match s.membership? channel_id user_id with
  | none => (false, s)
  | some _ => (true, s.modifyMembership channel_id user_id fun m =>
      { m with status := "left", is_active := false, left_at := some now, updated_at := now })

/-- `update_member_active_status`. -/
def update_member_active_status (now : ℤ) (channel_id user_id : String) (is_active : Bool) :
    Bool × Store :=
  match s.membership? channel_id user_id with
  | none => (false, s)
  | some _ => (true, s.modifyMembership channel_id user_id fun m =>
      { m with is_active := is_active, updated_at := now })

end Store

/-! ## Rows and active members -/

/-- The channel and the user of a row. -/
def ChannelMember.key (m : ChannelMember) : String × String := (m.channel_id, m.user_id)

namespace Store

/-- The channels and users that have rows. -/
def keys (s : Store) : List (String × String) := s.members.map ChannelMember.key

/-- The user is an active member of the channel. -/
def Active (s : Store) (p : String × String) : Prop := s.is_user_channel_member p.1 p.2 = true

instance (s : Store) (p : String × String) : Decidable (s.Active p) :=
  inferInstanceAs (Decidable (_ = true))

variable {s s' : Store} {now : ℤ} {channel_id user_id : String} {is_active : Bool}
  {p : String × String}

theorem active_iff : s.Active p ↔ ∃ m ∈ s.members, m.key = p ∧ m.is_active = true := by
  obtain ⟨c, u⟩ := p
  rw [Active, is_user_channel_member_iff]
  simp only [ChannelMember.key, Prod.mk.injEq, and_assoc]

theorem Active.mem_keys (h : s.Active p) : p ∈ s.keys := by
  obtain ⟨m, hm, rfl, -⟩ := active_iff.mp h
  exact List.mem_map_of_mem hm

theorem membership?_eq_none : s.membership? channel_id user_id = none ↔
    (channel_id, user_id) ∉ s.keys := by
  rw [membership?, List.find?_eq_none, keys, List.mem_map]
  constructor
  · rintro h ⟨m, hm, hkey⟩
    exact h m hm (decide_eq_true (Prod.mk.inj hkey))
  · rintro h m hm hcond
    exact h ⟨m, hm, Prod.ext (of_decide_eq_true hcond).1 (of_decide_eq_true hcond).2⟩

/-- Rows are added. -/
theorem active_append {members : List ChannelMember} (hmembers : s'.members = s.members ++ members)
    (hactive : ∀ m ∈ members, m.is_active = true) :
    s'.Active p ↔ s.Active p ∨ p ∈ members.map ChannelMember.key := by
  rw [active_iff, active_iff, hmembers, List.mem_map]
  constructor
  · rintro ⟨m, hm, hkey, hm'⟩
    rcases List.mem_append.mp hm with hm | hm
    · exact .inl ⟨m, hm, hkey, hm'⟩
    · exact .inr ⟨m, hm, hkey⟩
  · rintro (⟨m, hm, hkey, hm'⟩ | ⟨m, hm, hkey⟩)
    · exact ⟨m, List.mem_append_left _ hm, hkey, hm'⟩
    · exact ⟨m, List.mem_append_right _ hm, hkey, hactive m hm⟩

/-- The row of a user in a channel is changed. -/
theorem members_modifyMembership (hkeys : s.keys.Nodup) (f : ChannelMember → ChannelMember) :
    (s.modifyMembership channel_id user_id f).members =
      s.members.map fun m => if m.key = (channel_id, user_id) then f m else m := by
  have hcond : (fun m : ChannelMember =>
      if m.channel_id = channel_id ∧ m.user_id = user_id then some (f m) else none) =
      fun m => if m.key = (channel_id, user_id) then some (f m) else none := by
    funext m
    simp only [ChannelMember.key, Prod.mk.injEq]
  show s.members.replaceF _ = _
  rw [hcond]
  exact Keyed.replaceF_eq_map hkeys (channel_id, user_id) f

section

variable {f : ChannelMember → ChannelMember}

theorem keys_modifyMembership (hkeys : s.keys.Nodup) (hf : ∀ m, (f m).key = m.key) :
    (s.modifyMembership channel_id user_id f).keys = s.keys := by
  rw [keys, members_modifyMembership hkeys, List.map_map]
  refine List.map_congr_left fun m _ => ?_
  show (if m.key = (channel_id, user_id) then f m else m).key = m.key
  split_ifs
  · exact hf m
  · rfl

theorem active_modifyMembership (hkeys : s.keys.Nodup) (is_active : Bool)
    (hf : ∀ m, (f m).key = m.key) (hactive : ∀ m, (f m).is_active = is_active) :
    (s.modifyMembership channel_id user_id f).Active p ↔
      if p = (channel_id, user_id) then p ∈ s.keys ∧ is_active = true else s.Active p := by
  rw [active_iff, members_modifyMembership hkeys]
  split_ifs with hp
  · constructor
    · rintro ⟨x, hx, hkey, hx'⟩
      obtain ⟨m, hm, rfl⟩ := List.mem_map.mp hx
      split_ifs at hkey hx' with hm'
      · exact ⟨hp ▸ hm' ▸ List.mem_map_of_mem hm, hactive m ▸ hx'⟩
      · exact absurd (hkey.trans hp) hm'
    · rintro ⟨hmem, hactive'⟩
      obtain ⟨m, hm, hkey⟩ := List.mem_map.mp hmem
      refine ⟨f m, List.mem_map.mpr ⟨m, hm, if_pos (hkey.trans hp)⟩, (hf m).trans hkey, ?_⟩
      rw [hactive, hactive']
  · rw [active_iff]
    constructor
    · rintro ⟨x, hx, hkey, hx'⟩
      obtain ⟨m, hm, rfl⟩ := List.mem_map.mp hx
      split_ifs at hkey hx' with hm'
      · rw [hf] at hkey
        exact absurd (hkey.symm.trans hm') hp
      · exact ⟨m, hm, hkey, hx'⟩
    · rintro ⟨m, hm, hkey, hm'⟩
      exact ⟨m, List.mem_map.mpr ⟨m, hm, if_neg (hkey ▸ hp)⟩, hkey, hm'⟩

end

/-! ## What the operations do -/

theorem keys_join_channel : (s.join_channel now channel_id user_id).2.keys =
    if (channel_id, user_id) ∈ s.keys then s.keys else s.keys ++ [(channel_id, user_id)] := by
  rw [join_channel]
  cases hrow : s.membership? channel_id user_id with
  | none =>
    rw [if_neg (membership?_eq_none.mp hrow)]
    exact List.map_append
  | some m =>
    rw [if_pos]
    by_contra hnot
    rw [membership?_eq_none.mpr hnot] at hrow
    cases hrow

theorem nodup_join_channel (now : ℤ) (channel_id user_id : String) (hkeys : s.keys.Nodup) :
    (s.join_channel now channel_id user_id).2.keys.Nodup := by
  rw [keys_join_channel]
  split_ifs with hmem
  · exact hkeys
  · exact List.nodup_append.mpr ⟨hkeys, List.nodup_singleton _, fun x hx y hy hxy =>
      hmem (List.mem_singleton.mp hy ▸ hxy ▸ hx)⟩

/-- **Joining makes an active row only where there is none.** -/
theorem active_join_channel : (s.join_channel now channel_id user_id).2.Active p ↔
    s.Active p ∨ p = (channel_id, user_id) ∧ p ∉ s.keys := by
  rw [join_channel]
  cases hrow : s.membership? channel_id user_id with
  | none =>
    have hnot := membership?_eq_none.mp hrow
    refine (active_append rfl (by simp [newMembership])).trans (or_congr_right ?_)
    rw [List.map_singleton, List.mem_singleton]
    exact ⟨fun h => ⟨h, h ▸ hnot⟩, And.left⟩
  | some m =>
    have hmem : (channel_id, user_id) ∈ s.keys := by
      by_contra hnot
      rw [membership?_eq_none.mpr hnot] at hrow
      cases hrow
    refine ⟨.inl, ?_⟩
    rintro (h | ⟨rfl, hnot⟩)
    · exact h
    · exact absurd hmem hnot

theorem keys_leave_channel (hkeys : s.keys.Nodup) :
    (s.leave_channel now channel_id user_id).2.keys = s.keys := by
  rw [leave_channel]
  cases s.membership? channel_id user_id with
  | none => rfl
  | some m => exact keys_modifyMembership hkeys fun _ => rfl

theorem active_leave_channel (hkeys : s.keys.Nodup) :
    (s.leave_channel now channel_id user_id).2.Active p ↔
      s.Active p ∧ p ≠ (channel_id, user_id) := by
  rw [leave_channel]
  cases hrow : s.membership? channel_id user_id with
  | none =>
    refine ⟨fun h => ⟨h, ?_⟩, And.left⟩
    rintro rfl
    exact membership?_eq_none.mp hrow h.mem_keys
  | some m =>
    refine Iff.trans (active_modifyMembership hkeys false (fun _ => rfl) fun _ => rfl) ?_
    split_ifs with hp
    · simp [hp]
    · simp [hp]

theorem keys_update_member_active_status (hkeys : s.keys.Nodup) :
    (s.update_member_active_status now channel_id user_id is_active).2.keys = s.keys := by
  rw [update_member_active_status]
  cases s.membership? channel_id user_id with
  | none => rfl
  | some m => exact keys_modifyMembership hkeys fun _ => rfl

theorem active_update_member_active_status (hkeys : s.keys.Nodup) :
    (s.update_member_active_status now channel_id user_id is_active).2.Active p ↔
      if p = (channel_id, user_id) then p ∈ s.keys ∧ is_active = true else s.Active p := by
  rw [update_member_active_status]
  cases hrow : s.membership? channel_id user_id with
  | none =>
    have hnot := membership?_eq_none.mp hrow
    split_ifs with hp
    · rw [hp]
      exact iff_of_false (fun h => hnot h.mem_keys) fun h => hnot h.1
    · exact Iff.rfl
  | some m => exact active_modifyMembership hkeys is_active (fun _ => rfl) fun _ => rfl

section

variable {invited_by : String} {users user_ids group_ids : List String}

theorem keys_newMembership :
    (users.map (newMembership now channel_id invited_by)).map ChannelMember.key =
      users.map fun u => (channel_id, u) :=
  List.map_map

/-- Rows for users of a channel are added. -/
theorem active_invite
    (hmembers : s'.members = s.members ++ users.map (newMembership now channel_id invited_by)) :
    s'.Active p ↔ s.Active p ∨ p ∈ users.map fun u => (channel_id, u) := by
  rw [← keys_newMembership]
  refine active_append hmembers fun m hm => ?_
  obtain ⟨u, -, rfl⟩ := List.mem_map.mp hm
  rfl

theorem nodup_keys_invite (hkeys : s.keys.Nodup) (husers : users.Nodup)
    (hnew : ∀ u ∈ users, (channel_id, u) ∉ s.keys)
    (hmembers : s'.members = s.members ++ users.map (newMembership now channel_id invited_by)) :
    s'.keys.Nodup := by
  rw [keys, hmembers, List.map_append, keys_newMembership]
  refine List.nodup_append.mpr ⟨hkeys, husers.map fun u v h => (Prod.mk.inj h).2, ?_⟩
  intro x hx y hy hxy
  obtain ⟨u, hu, rfl⟩ := List.mem_map.mp hy
  exact hnew u hu (hxy ▸ hx)

/-- The users of the channel that have rows already. -/
theorem mem_existing_users {u : String} :
    u ∈ (s.get_members_by_channel_id channel_id).map ChannelMember.user_id ↔
      (channel_id, u) ∈ s.keys := by
  simp only [get_members_by_channel_id, keys, List.mem_map, List.mem_filter, decide_eq_true_eq]
  constructor
  · rintro ⟨m, ⟨hm, hchannel⟩, huser⟩
    exact ⟨m, hm, Prod.ext hchannel huser⟩
  · rintro ⟨m, hm, hkey⟩
    exact ⟨m, ⟨hm, (Prod.mk.inj hkey).1⟩, (Prod.mk.inj hkey).2⟩

/-- The rows after users have been added. -/
theorem members_add_members_to_channel :
    (s.add_members_to_channel now channel_id invited_by user_ids group_ids).2.members =
      s.members ++ ((s.collect_unique_user_ids invited_by user_ids group_ids).filter fun u =>
        (channel_id, u) ∉ s.keys).map (newMembership now channel_id invited_by) := by
  rw [add_members_to_channel]
  simp only [mem_existing_users]
  split_ifs with hnone
  · rw [hnone]
    exact (List.append_nil _).symm
  · rfl

theorem nodup_add_members_to_channel (hkeys : s.keys.Nodup) :
    (s.add_members_to_channel now channel_id invited_by user_ids group_ids).2.keys.Nodup := by
  refine nodup_keys_invite hkeys ((List.nodup_dedup _).filter _) (fun u hu => ?_)
    members_add_members_to_channel
  exact of_decide_eq_true (List.mem_filter.mp hu).2

/-- **Adding makes active rows only where there are none.** -/
theorem active_add_members_to_channel :
    (s.add_members_to_channel now channel_id invited_by user_ids group_ids).2.Active p ↔
      s.Active p ∨ p ∈ (s.collect_unique_user_ids invited_by user_ids group_ids).map
        (fun u => (channel_id, u)) ∧ p ∉ s.keys := by
  refine (active_invite members_add_members_to_channel).trans (or_congr_right ?_)
  simp only [List.mem_map, List.mem_filter, decide_eq_true_eq]
  constructor
  · rintro ⟨u, ⟨hu, hnew⟩, rfl⟩
    exact ⟨⟨u, hu, rfl⟩, hnew⟩
  · rintro ⟨⟨u, hu, rfl⟩, hnew⟩
    exact ⟨u, ⟨hu, hnew⟩, rfl⟩

/-- The rows of the users of a channel are deleted. -/
theorem mem_remove_members_from_channel {m : ChannelMember} :
    m ∈ (s.remove_members_from_channel channel_id user_ids).2.members ↔
      m ∈ s.members ∧ m.key ∉ user_ids.map fun u => (channel_id, u) := by
  rw [remove_members_from_channel, List.mem_filter, decide_eq_true_eq]
  refine and_congr_right fun _ => not_congr ?_
  simp only [ChannelMember.key, List.mem_map, Prod.mk.injEq]
  constructor
  · rintro ⟨rfl, hu⟩
    exact ⟨m.user_id, hu, rfl, rfl⟩
  · rintro ⟨u, hu, rfl, rfl⟩
    exact ⟨rfl, hu⟩

theorem nodup_remove_members_from_channel (hkeys : s.keys.Nodup) :
    (s.remove_members_from_channel channel_id user_ids).2.keys.Nodup :=
  hkeys.sublist (List.filter_sublist.map ChannelMember.key)

theorem active_remove_members_from_channel :
    (s.remove_members_from_channel channel_id user_ids).2.Active p ↔
      s.Active p ∧ p ∉ user_ids.map fun u => (channel_id, u) := by
  simp only [active_iff, mem_remove_members_from_channel]
  constructor
  · rintro ⟨m, ⟨hm, hkept⟩, rfl, hactive⟩
    exact ⟨⟨m, hm, rfl, hactive⟩, hkept⟩
  · rintro ⟨⟨m, hm, rfl, hactive⟩, hkept⟩
    exact ⟨m, ⟨hm, hkept⟩, rfl, hactive⟩

variable {uuid4 : String} {form_data : CreateChannelForm}

/-- A channel that is made gets rows for its users, if it is one with members. -/
theorem members_insert_new_channel
    (hinsert : s.insert_new_channel now uuid4 form_data user_id = some s') :
    s'.members = s.members ++ (s.collect_unique_user_ids user_id form_data.user_ids
      form_data.group_ids).map (newMembership now uuid4 user_id) ∨ s'.members = s.members := by
  rw [insert_new_channel] at hinsert
  split_ifs at hinsert with htaken
  cases hinsert
  exact ite_eq_or_eq _ _ _

theorem nodup_insert_new_channel (hkeys : s.keys.Nodup) (hfresh : ∀ p ∈ s.keys, p.1 ≠ uuid4)
    (hinsert : s.insert_new_channel now uuid4 form_data user_id = some s') : s'.keys.Nodup := by
  rcases members_insert_new_channel hinsert with hmembers | hmembers
  · exact nodup_keys_invite hkeys (List.nodup_dedup _) (fun u _ hu => hfresh _ hu rfl) hmembers
  · rwa [keys, hmembers]

/-- No other channel has other members. -/
theorem active_insert_new_channel
    (hinsert : s.insert_new_channel now uuid4 form_data user_id = some s') (hp : p.1 ≠ uuid4) :
    s'.Active p ↔ s.Active p := by
  rcases members_insert_new_channel hinsert with hmembers | hmembers
  · refine (active_invite hmembers).trans (or_iff_left fun hmem => ?_)
    obtain ⟨u, -, rfl⟩ := List.mem_map.mp hmem
    exact hp rfl
  · rw [active_iff, active_iff, hmembers]

end

@[simp] theorem messages_join_channel :
    (s.join_channel now channel_id user_id).2.messages = s.messages := by
  rw [join_channel]
  cases s.membership? channel_id user_id <;> rfl

@[simp] theorem messages_update_member_active_status :
    (s.update_member_active_status now channel_id user_id is_active).2.messages = s.messages := by
  rw [update_member_active_status]
  cases s.membership? channel_id user_id <;> rfl

end Store

end OpenLaunch.Channels
