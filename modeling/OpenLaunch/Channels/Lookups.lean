import OpenLaunch.Channels.Tables

/-! # The channels that a user may read

A query that lists them, one that looks a channel up by its id, and one that looks channels up by a
file posted in them. `lookups_agree` says that they give the same channels. -/

namespace OpenLaunch.Channels

open Python Access

/-- `ChannelModel`: a row with its grants. -/
structure ChannelModel where
  row : Channel
  access_grants : List AccessGrant
  deriving DecidableEq

namespace Store

variable (s : Store)

/-! ## Grants -/

/-- `AccessGrants.get_grants_by_resource` for channels. -/
def get_grants_by_resource (id : String) : List AccessGrant :=
  s.access.grants.filter fun g => g.resource_type = "channel" ∧ g.resource_id = id

/-- `AccessGrants.get_grants_by_resources` for channels: the grants under each id. -/
def get_grants_by_resources (ids : List String) : List (String × List AccessGrant) :=
  let grants := s.access.grants.filter fun g => g.resource_type = "channel" ∧ g.resource_id ∈ ids
  ids.map fun id => (id, grants.filter fun g => g.resource_id = id)

/-- `_to_channel_model`, which looks for the grants where it is not given them. -/
def to_channel_model (c : Channel) (access_grants : Option (List AccessGrant)) : ChannelModel :=
  ⟨c, access_grants.getD (s.get_grants_by_resource c.id)⟩

/-- `_has_permission`, for a row of the query. -/
def has_permission (user_id : String) (permission : String) (c : Channel) : Bool :=
  AccessGrantsTable.has_permission_filter s.access
    ⟨(get_groups_by_member_id s.access user_id).map Group.id, some user_id⟩ "channel" permission
    ⟨c.id, some c.user_id⟩

/-! ## Lookups -/

/-- `get_channels_by_user_id`. -/
def get_channels_by_user_id (user_id : String) : List ChannelModel :=
  -- the join has a row for each active membership
  let membership_channels := s.channels.flatMap fun c =>
    (s.members.filter fun m => c.live ∧ c.membersOnly ∧ m.activeIn c.id user_id).map fun _ => c
  let standard_channels := s.channels.filter fun c =>
    c.live ∧ (c.type = none ∨ c.type = some "" ∨ (c.type ≠ some "group" ∧ c.type ≠ some "dm")) ∧
      s.has_permission user_id "read" c
  let all_channels := membership_channels ++ standard_channels
  let grants_map := s.get_grants_by_resources (all_channels.map Channel.id)
  all_channels.map fun c => s.to_channel_model c (some ((Assoc.get? grants_map c.id).getD []))

/-- `get_channel_by_id_and_user_id`. -/
def get_channel_by_id_and_user_id (id user_id : String) : Option ChannelModel :=
  match s.channels.find? fun c => c.id = id ∧ c.live with
  | none => none
  | some channel =>
    if channel.membersOnly then
      match s.members.find? (·.activeIn id user_id) with
      | some _ => some (s.to_channel_model channel none)
      | none => none
    else
      (s.channels.find? fun c => c.id = id ∧ s.has_permission user_id "read" c).map fun c =>
        s.to_channel_model c none

/-- `get_channels_by_file_id_and_user_id`. -/
def get_channels_by_file_id_and_user_id (file_id user_id : String) : List ChannelModel :=
  let channel_ids := (s.files.filter fun f => f.file_id = file_id).map ChannelFile.channel_id
  let channels := s.channels.filter fun c => c.id ∈ channel_ids ∧ c.live
  channels.filterMap fun channel =>
    if channel.membersOnly then
      match s.members.find? (·.activeIn channel.id user_id) with
      | some _ => some (s.to_channel_model channel none)
      | none => none
    else
      (s.channels.find? fun c => c.id = channel.id ∧ s.has_permission user_id "read" c).map fun c =>
        s.to_channel_model c none

/-- **The user may read the channel**: as an active member of a group or direct message channel, or
by a grant on another one. -/
def MayRead (user_id : String) (c : Channel) : Prop :=
  if c.membersOnly then s.is_user_channel_member c.id user_id = true
  else s.has_permission user_id "read" c = true

variable {s} {user_id : String} {c : Channel} {M : ChannelModel}

/-- The grants under an id that is asked for are those of the resource. -/
theorem get?_get_grants_by_resources {ids : List String} {id : String} (h : id ∈ ids) :
    Assoc.get? (s.get_grants_by_resources ids) id = some (s.get_grants_by_resource id) := by
  have hgrants : ((s.access.grants.filter fun g =>
      g.resource_type = "channel" ∧ g.resource_id ∈ ids).filter fun g => g.resource_id = id) =
      s.get_grants_by_resource id := by
    rw [List.filter_filter, get_grants_by_resource]
    refine List.filter_congr fun g _ => ?_
    rw [← Bool.decide_and, decide_eq_decide]
    constructor
    · rintro ⟨hid, htype, -⟩
      exact ⟨htype, hid⟩
    · rintro ⟨htype, rfl⟩
      exact ⟨rfl, htype, h⟩
  rw [← hgrants, get_grants_by_resources]
  generalize (s.access.grants.filter fun g =>
    g.resource_type = "channel" ∧ g.resource_id ∈ ids) = grants
  clear hgrants
  induction ids with
  | nil => cases h
  | cons x ids ih =>
    show Assoc.get? ((x, grants.filter fun g => g.resource_id = x) :: _) id = _
    rw [Assoc.get?_cons]
    split_ifs with hx
    · rw [hx]
    · exact ih ((List.mem_cons.mp h).resolve_left (Ne.symm hx))

theorem to_channel_model_getD {ids : List String} (h : c.id ∈ ids) :
    s.to_channel_model c (some ((Assoc.get? (s.get_grants_by_resources ids) c.id).getD [])) =
      s.to_channel_model c none := by
  rw [get?_get_grants_by_resources h]
  rfl

theorem exists_activeIn_iff : (∃ m ∈ s.members, m.activeIn c.id user_id = true) ↔
    s.is_user_channel_member c.id user_id = true := by
  rw [is_user_channel_member, List.find?_isSome]

theorem mayRead_of_membersOnly (h : c.membersOnly = true) :
    s.MayRead user_id c ↔ s.is_user_channel_member c.id user_id = true := by
  rw [MayRead, if_pos h]

theorem mayRead_of_not_membersOnly (h : ¬ c.membersOnly = true) :
    s.MayRead user_id c ↔ s.has_permission user_id "read" c = true := by
  rw [MayRead, if_neg h]

/-- The types that the query for standard channels names. -/
theorem standard_iff : (c.type = none ∨ c.type = some "" ∨
    (c.type ≠ some "group" ∧ c.type ≠ some "dm")) ↔ ¬ c.membersOnly = true := by
  rw [Channel.membersOnly, decide_eq_true_eq, not_or]
  constructor
  · rintro (h | h | h)
    · rw [h]
      exact ⟨nofun, nofun⟩
    · rw [h]
      decide
    · exact h
  · exact fun h => .inr (.inr h)

/-! ## What the lookups return -/

theorem mem_get_channels_by_user_id : M ∈ s.get_channels_by_user_id user_id ↔
    ∃ c ∈ s.channels, c.live = true ∧ s.MayRead user_id c ∧ M = s.to_channel_model c none := by
  have hmem : ∀ c, c ∈ (s.channels.flatMap fun c => (s.members.filter fun m =>
        c.live ∧ c.membersOnly ∧ m.activeIn c.id user_id).map fun _ => c) ++
      (s.channels.filter fun c => c.live ∧ (c.type = none ∨ c.type = some "" ∨
        (c.type ≠ some "group" ∧ c.type ≠ some "dm")) ∧ s.has_permission user_id "read" c) ↔
      c ∈ s.channels ∧ c.live = true ∧ s.MayRead user_id c := by
    intro c
    rw [List.mem_append, List.mem_flatMap, List.mem_filter, decide_eq_true_eq, standard_iff]
    have hjoin : (∃ c' ∈ s.channels, c ∈ (s.members.filter fun m =>
          c'.live ∧ c'.membersOnly ∧ m.activeIn c'.id user_id).map fun _ => c') ↔
        c ∈ s.channels ∧ c.live = true ∧ c.membersOnly = true ∧
          ∃ m ∈ s.members, m.activeIn c.id user_id = true := by
      constructor
      · rintro ⟨c', hc', hmem⟩
        obtain ⟨m, hm, rfl⟩ := List.mem_map.mp hmem
        obtain ⟨hm, hcond⟩ := List.mem_filter.mp hm
        obtain ⟨hlive, honly, hactive⟩ := of_decide_eq_true hcond
        exact ⟨hc', hlive, honly, m, hm, hactive⟩
      · rintro ⟨hc, hlive, honly, m, hm, hactive⟩
        exact ⟨c, hc, List.mem_map.mpr
          ⟨m, List.mem_filter.mpr ⟨hm, decide_eq_true ⟨hlive, honly, hactive⟩⟩, rfl⟩⟩
    rw [hjoin, exists_activeIn_iff]
    by_cases honly : c.membersOnly = true
    · rw [mayRead_of_membersOnly honly]
      tauto
    · rw [mayRead_of_not_membersOnly honly]
      tauto
  rw [get_channels_by_user_id]
  generalize hall : (s.channels.flatMap fun c => (s.members.filter fun m =>
      c.live ∧ c.membersOnly ∧ m.activeIn c.id user_id).map fun _ => c) ++
    (s.channels.filter fun c => c.live ∧ (c.type = none ∨ c.type = some "" ∨
      (c.type ≠ some "group" ∧ c.type ≠ some "dm")) ∧ s.has_permission user_id "read" c) =
      all_channels at hmem
  simp only [hall, List.mem_map]
  constructor
  · rintro ⟨c, hc, rfl⟩
    obtain ⟨hchannel, hlive, hmay⟩ := (hmem c).mp hc
    exact ⟨c, hchannel, hlive, hmay, to_channel_model_getD (List.mem_map_of_mem hc)⟩
  · rintro ⟨c, hchannel, hlive, hmay, rfl⟩
    have hc := (hmem c).mpr ⟨hchannel, hlive, hmay⟩
    exact ⟨c, hc, to_channel_model_getD (List.mem_map_of_mem hc)⟩

/-- What a lookup of one channel returns, once its row is found. -/
theorem lookup_eq_some (hc : c ∈ s.channels) :
    (if c.membersOnly then
        match s.members.find? (·.activeIn c.id user_id) with
        | some _ => some (s.to_channel_model c none)
        | none => none
      else (s.channels.find? fun c' => c'.id = c.id ∧ s.has_permission user_id "read" c').map
        fun c' => s.to_channel_model c' none) = some M ↔
      s.MayRead user_id c ∧ M = s.to_channel_model c none := by
  by_cases honly : c.membersOnly = true
  · rw [if_pos honly, mayRead_of_membersOnly honly, is_user_channel_member]
    cases s.members.find? (·.activeIn c.id user_id) with
    | none => simp
    | some m => simp [eq_comm]
  · rw [if_neg honly, mayRead_of_not_membersOnly honly, Option.map_eq_some_iff]
    constructor
    · rintro ⟨c', hfind, rfl⟩
      obtain ⟨hc', hid, hmay⟩ := (Keyed.find?_and_eq_some_iff s.channel_ids).mp hfind
      cases Keyed.eq_of_key s.channel_ids hc' hc hid
      exact ⟨hmay, rfl⟩
    · rintro ⟨hmay, rfl⟩
      exact ⟨c, (Keyed.find?_and_eq_some_iff s.channel_ids).mpr ⟨hc, rfl, hmay⟩, rfl⟩

theorem get_channel_by_id_and_user_id_eq_some {id : String} :
    s.get_channel_by_id_and_user_id id user_id = some M ↔
      ∃ c ∈ s.channels, c.id = id ∧ c.live = true ∧ s.MayRead user_id c ∧
        M = s.to_channel_model c none := by
  rw [get_channel_by_id_and_user_id]
  cases hfind : s.channels.find? fun c => c.id = id ∧ c.live with
  | none =>
    refine iff_of_false nofun ?_
    rintro ⟨c, hc, hid, hlive, -⟩
    exact List.find?_eq_none.mp hfind c hc (decide_eq_true ⟨hid, hlive⟩)
  | some c =>
    obtain ⟨hc, rfl, hlive⟩ := (Keyed.find?_and_eq_some_iff s.channel_ids).mp hfind
    refine (lookup_eq_some hc).trans ?_
    constructor
    · rintro ⟨hmay, rfl⟩
      exact ⟨c, hc, rfl, hlive, hmay, rfl⟩
    · rintro ⟨c', hc', hid, -, hmay, rfl⟩
      cases Keyed.eq_of_key s.channel_ids hc' hc hid
      exact ⟨hmay, rfl⟩

theorem mem_get_channels_by_file_id_and_user_id {file_id : String} :
    M ∈ s.get_channels_by_file_id_and_user_id file_id user_id ↔
      ∃ c ∈ s.channels, (∃ f ∈ s.files, f.file_id = file_id ∧ f.channel_id = c.id) ∧
        c.live = true ∧ s.MayRead user_id c ∧ M = s.to_channel_model c none := by
  have hposted : ∀ c : Channel, c.id ∈ (s.files.filter fun f => f.file_id = file_id).map
      ChannelFile.channel_id ↔ ∃ f ∈ s.files, f.file_id = file_id ∧ f.channel_id = c.id := by
    intro c
    simp only [List.mem_map, List.mem_filter, decide_eq_true_eq, and_assoc]
  rw [get_channels_by_file_id_and_user_id, List.mem_filterMap]
  constructor
  · rintro ⟨c, hmem, hlookup⟩
    obtain ⟨hc, hcond⟩ := List.mem_filter.mp hmem
    obtain ⟨hfile, hlive⟩ := of_decide_eq_true hcond
    obtain ⟨hmay, hM⟩ := (lookup_eq_some hc).mp hlookup
    exact ⟨c, hc, (hposted c).mp hfile, hlive, hmay, hM⟩
  · rintro ⟨c, hc, hfile, hlive, hmay, hM⟩
    exact ⟨c, List.mem_filter.mpr ⟨hc, decide_eq_true ⟨(hposted c).mpr hfile, hlive⟩⟩,
      (lookup_eq_some hc).mpr ⟨hmay, hM⟩⟩

end Store

/-- **The listing, the lookup by id and the lookup by a posted file give the same channels.** -/
theorem lookups_agree (s : Store) (user_id : String) (M : ChannelModel) :
    (M ∈ s.get_channels_by_user_id user_id ↔
      s.get_channel_by_id_and_user_id M.row.id user_id = some M) ∧
    ∀ f ∈ s.files, f.channel_id = M.row.id →
      (M ∈ s.get_channels_by_file_id_and_user_id f.file_id user_id ↔
        s.get_channel_by_id_and_user_id M.row.id user_id = some M) := by
  rw [Store.mem_get_channels_by_user_id, Store.get_channel_by_id_and_user_id_eq_some]
  refine ⟨?_, fun f hf hchannel => ?_⟩
  · constructor
    · rintro ⟨c, hc, hlive, hmay, rfl⟩
      exact ⟨c, hc, rfl, hlive, hmay, rfl⟩
    · rintro ⟨c, hc, -, hlive, hmay, hM⟩
      exact ⟨c, hc, hlive, hmay, hM⟩
  · rw [Store.mem_get_channels_by_file_id_and_user_id]
    constructor
    · rintro ⟨c, hc, -, hlive, hmay, rfl⟩
      exact ⟨c, hc, rfl, hlive, hmay, rfl⟩
    · rintro ⟨c, hc, hid, hlive, hmay, hM⟩
      exact ⟨c, hc, ⟨f, hf, rfl, hchannel.trans hid.symm⟩, hlive, hmay, hM⟩

/-- A direct message channel that one user has left, with a file. -/
def directMessages : Store where
  channels := [{ id := "c", user_id := "v", type := some "dm", archived_at := none, deleted_at := none }]
  members :=
    [{ channel_id := "c", user_id := "u", status := "joined", is_active := true, invited_at := none,
        invited_by := none, joined_at := 0, left_at := none, last_read_at := 0, created_at := 0,
        updated_at := 0 },
      { channel_id := "c", user_id := "v", status := "left", is_active := false, invited_at := none,
        invited_by := none, joined_at := 0, left_at := some 1, last_read_at := 0, created_at := 0,
        updated_at := 1 }]
  messages := []
  files := [⟨"c", "f"⟩]
  access := ⟨[], [], [], [], group_exists_nil⟩
  channel_ids := by decide

theorem lookups_agree_directMessages :
    (∃ M, M ∈ directMessages.get_channels_by_file_id_and_user_id "f" "u" ∧ M.row.id = "c") ∧
      directMessages.get_channel_by_id_and_user_id "c" "v" = none := by
  have hfile := (lookups_agree directMessages "u"
    ⟨{ id := "c", user_id := "v", type := some "dm", archived_at := none, deleted_at := none },
      []⟩).2 ⟨"c", "f"⟩ (by decide) rfl
  exact ⟨⟨_, hfile.mpr (by decide), rfl⟩, by decide⟩

end OpenLaunch.Channels
