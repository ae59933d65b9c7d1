import OpenLaunch.Channels.Lookups
import OpenLaunch.Channels.Messages
import OpenLaunch.Transition

/-! # Members over runs

Over every run of requests a user has one row in a channel at most. The rest of what members expect
holds in exactly the runs that never add or join someone whose row is inactive, and never make the
row of someone active again who has left: rows stay when their users leave, adding and joining skip
users with rows, and a message makes all rows of its channel active. -/

namespace OpenLaunch.Channels

open Python Access Transition

/-! ## Posting -/

namespace Store

variable {s s' : Store} {now : ℤ} {channel_id user_id uuid4 id : String} {p : String × String}
  {members : List ChannelMember}

theorem active_congr (h : s'.members = s.members) : s'.Active p ↔ s.Active p := by
  rw [active_iff, active_iff, h]

theorem reactivate_cons (m : ChannelMember) :
    s.reactivate now channel_id (m :: members) = Store.reactivate
      (if m.is_active then s else (s.update_member_active_status now channel_id m.user_id true).2)
      now channel_id members := rfl

theorem keys_reactivate (hkeys : s.keys.Nodup) :
    (s.reactivate now channel_id members).keys = s.keys := by
  induction members generalizing s with
  | nil => rfl
  | cons m members ih =>
    rw [reactivate_cons]
    split_ifs
    · exact ih hkeys
    · have hsame : (s.update_member_active_status now channel_id m.user_id true).2.keys = s.keys :=
        keys_update_member_active_status hkeys
      rw [ih (hsame ▸ hkeys), hsame]

/-- The rows that are found inactive are made active. -/
theorem active_reactivate (hkeys : s.keys.Nodup) :
    (s.reactivate now channel_id members).Active p ↔ s.Active p ∨
      p ∈ s.keys ∧ ∃ m ∈ members, m.is_active = false ∧ p = (channel_id, m.user_id) := by
  induction members generalizing s with
  | nil => simp [reactivate]
  | cons m members ih =>
    rw [reactivate_cons]
    simp only [List.mem_cons, exists_eq_or_imp]
    cases hactive : m.is_active with
    | true =>
      rw [if_pos rfl, ih hkeys]
      simp
    | false =>
      have hsame : (s.update_member_active_status now channel_id m.user_id true).2.keys = s.keys :=
        keys_update_member_active_status hkeys
      rw [if_neg Bool.false_ne_true, ih (hsame ▸ hkeys), hsame,
        active_update_member_active_status hkeys]
      by_cases hp : p = (channel_id, m.user_id)
      · simp only [if_pos hp, and_true, true_and]
        constructor
        · rintro (h | ⟨h, -⟩) <;> exact .inr ⟨h, .inl hp⟩
        · rintro (h | ⟨h, -⟩)
          · exact .inl h.mem_keys
          · exact .inl h
      · simp only [hp, if_false, and_false, false_or]

/-- The rows of a channel are made active. -/
theorem active_reactivate_channel (hkeys : s.keys.Nodup) :
    (s.reactivate now channel_id (s.get_members_by_channel_id channel_id)).Active p ↔
      s.Active p ∨ p ∈ s.keys ∧ p.1 = channel_id := by
  rw [active_reactivate hkeys]
  constructor
  · rintro (h | ⟨hmem, m, -, -, rfl⟩)
    · exact .inl h
    · exact .inr ⟨hmem, rfl⟩
  · rintro (h | ⟨hmem, hchannel⟩)
    · exact .inl h
    · obtain ⟨m, hm, rfl⟩ := List.mem_map.mp hmem
      cases hactive : m.is_active with
      | true => exact .inl (active_iff.mpr ⟨m, hm, rfl, hactive⟩)
      | false =>
        have hfound : m ∈ s.get_members_by_channel_id channel_id :=
          List.mem_filter.mpr ⟨hm, decide_eq_true hchannel⟩
        exact .inr ⟨hmem, m, hfound, hactive, Prod.ext hchannel rfl⟩

/-- The tables once a message is posted. -/
def posted (s : Store) (now : ℤ) (uuid4 : String) (form_data : MessageForm) (channel : Channel)
    (user_id : String) : Store :=
  let s := (s.insert_new_message now uuid4 form_data channel.id user_id).2
  if channel.membersOnly then s.reactivate now channel.id (s.get_members_by_channel_id channel.id)
  else s

variable {form_data : MessageForm} {channel : Channel} {user : User}

theorem new_message_handler_eq_posted (hcheck : s.checkPost id form_data user = .ok channel) :
    (s.new_message_handler now uuid4 id form_data user).2 =
      s.posted now uuid4 form_data channel user.id := by
  rw [new_message_handler, hcheck]
  dsimp only
  split <;> rfl

theorem new_message_handler_eq_self {e : HTTPException}
    (hcheck : s.checkPost id form_data user = .error e) :
    (s.new_message_handler now uuid4 id form_data user).2 = s := by
  rw [new_message_handler, hcheck]

theorem keys_insert_new_message :
    (s.insert_new_message now uuid4 form_data channel_id user_id).2.keys =
      (s.join_channel now channel_id user_id).2.keys := rfl

theorem active_insert_new_message :
    (s.insert_new_message now uuid4 form_data channel_id user_id).2.Active p ↔
      s.Active p ∨ p = (channel_id, user_id) ∧ p ∉ s.keys :=
  (active_congr rfl).trans active_join_channel

theorem nodup_posted (hkeys : s.keys.Nodup) :
    (s.posted now uuid4 form_data channel user_id).keys.Nodup := by
  have hjoin : (s.insert_new_message now uuid4 form_data channel.id user_id).2.keys.Nodup :=
    nodup_join_channel now channel.id user_id hkeys
  rw [posted]
  split_ifs
  · rwa [keys_reactivate hjoin]
  · exact hjoin

/-- **A post makes every row of a channel with members active**, and elsewhere joins its author. -/
theorem active_posted (hkeys : s.keys.Nodup)
    (hmember : channel.membersOnly = true → s.Active (channel.id, user_id)) :
    (s.posted now uuid4 form_data channel user_id).Active p ↔ s.Active p ∨
      if channel.membersOnly then p ∈ s.keys ∧ p.1 = channel.id
      else p = (channel.id, user_id) ∧ p ∉ s.keys := by
  have hjoin : (s.insert_new_message now uuid4 form_data channel.id user_id).2.keys.Nodup :=
    nodup_join_channel now channel.id user_id hkeys
  rw [posted]
  split_ifs with honly
  · have hsame := (hmember honly).mem_keys
    rw [active_reactivate_channel hjoin, active_insert_new_message, keys_insert_new_message,
      keys_join_channel, if_pos hsame, or_assoc]
    refine or_congr_right (or_iff_right ?_)
    rintro ⟨rfl, hnot⟩
    exact hnot hsame
  · exact active_insert_new_message

end Store

/-! ## Runs -/

/-- What happens to the members, and to the other tables. -/
inductive MembershipEvent
  | insert (now : ℤ) (uuid4 : String) (form_data : CreateChannelForm) (user_id : String)
  | add (now : ℤ) (channel_id invited_by : String) (user_ids group_ids : List String)
  | remove (channel_id : String) (user_ids : List String)
  | join (now : ℤ) (channel_id user_id : String)
  | leave (now : ℤ) (channel_id user_id : String)
  | activate (now : ℤ) (channel_id user_id : String) (is_active : Bool)
  | post (now : ℤ) (uuid4 id : String) (form_data : MessageForm) (user : User)
  | elsewhere (tables : Store)

/-- The tables, and who has left or was removed from a channel and has neither joined nor been added
since. -/
structure History where
  store : Store
  gone : List (String × String)

namespace MembershipEvent

/-- Who joins or is added. The author of a message joins the channel. -/
def requested (s : Store) : MembershipEvent → List (String × String)
  | .add _ channel_id invited_by user_ids group_ids =>
    (s.collect_unique_user_ids invited_by user_ids group_ids).map fun u => (channel_id, u)
  | .join _ channel_id user_id => [(channel_id, user_id)]
  | .post _ _ id form_data user =>
    match s.checkPost id form_data user with
    | .ok channel => [(channel.id, user.id)]
    | .error _ => []
  | .insert .. | .remove .. | .leave .. | .activate .. | .elsewhere .. => []

/-- Who leaves or is removed. -/
def departed : MembershipEvent → List (String × String)
  | .remove channel_id user_ids => user_ids.map fun u => (channel_id, u)
  | .leave _ channel_id user_id => [(channel_id, user_id)]
  | .insert .. | .add .. | .join .. | .activate .. | .post .. | .elsewhere .. => []

/-- The id of a new channel names no members, present or gone. -/
def Fresh (h : History) : MembershipEvent → Prop
  | .insert _ uuid4 _ _ => (∀ p ∈ h.store.keys, p.1 ≠ uuid4) ∧ ∀ p ∈ h.gone, p.1 ≠ uuid4
  | _ => True

instance (h : History) (e : MembershipEvent) : Decidable (e.Fresh h) := by
  cases e <;> dsimp only [Fresh] <;> infer_instance

/-- The tables after an event. -/
def apply (s : Store) : MembershipEvent → Option Store
  | .insert now uuid4 form_data user_id => s.insert_new_channel now uuid4 form_data user_id
  | .add now channel_id invited_by user_ids group_ids =>
    some (s.add_members_to_channel now channel_id invited_by user_ids group_ids).2
  | .remove channel_id user_ids => some (s.remove_members_from_channel channel_id user_ids).2
  | .join now channel_id user_id => some (s.join_channel now channel_id user_id).2
  | .leave now channel_id user_id => some (s.leave_channel now channel_id user_id).2
  | .activate now channel_id user_id is_active =>
    some (s.update_member_active_status now channel_id user_id is_active).2
  | .post now uuid4 id form_data user => some (s.new_message_handler now uuid4 id form_data user).2
  | .elsewhere tables => some { tables with members := s.members }

end MembershipEvent

local instance lawfulBEqIds : LawfulBEq (String × String) := inferInstance

/-- An event happens. The ids that `uuid4` gives occur nowhere yet, so that an event with another
one cannot happen. -/
def membershipStep (h : History) (e : MembershipEvent) : Option History :=
  if e.Fresh h then
    (e.apply h.store).map fun s =>
      ⟨s, (e.departed ++ h.gone).filter fun p => p ∉ e.requested h.store⟩
  else none

/-! ## What members expect -/

/-- The user has no access to the channel, if it is one with members. -/
def Store.Barred (s : Store) (p : String × String) : Prop :=
  ¬ s.Active p ∧ ∀ c ∈ s.channels, c.id = p.1 → c.membersOnly = true →
    s.get_channel_by_id_and_user_id p.1 p.2 = none

/-- **What members expect of an event**: nobody has two rows in a channel, who is added or joins is
an active member, and who is gone has no access. -/
def KeepsMembers (h : History) (e : MembershipEvent) : Prop :=
  ∀ h', membershipStep h e = some h' → h'.store.keys.Nodup ∧
    (∀ p ∈ e.requested h.store, h'.store.Active p) ∧ ∀ p ∈ h'.gone, h'.store.Barred p

/-- **The event is a regular one**: who is added or joins has no inactive row, and no row of someone
who is gone is made active. -/
def Regular (h : History) (e : MembershipEvent) : Prop :=
  match e with
  | .add .. | .join .. => ∀ p ∈ e.requested h.store, p ∈ h.store.keys → h.store.Active p
  | .activate _ channel_id user_id true =>
    (channel_id, user_id) ∈ h.store.keys → (channel_id, user_id) ∉ h.gone
  | .post _ _ id form_data user =>
    match h.store.checkPost id form_data user with
    | .ok channel =>
      if channel.membersOnly then ∀ p ∈ h.store.keys, p.1 = channel.id → p ∉ h.gone
      else (channel.id, user.id) ∈ h.store.keys → h.store.Active (channel.id, user.id)
    | .error _ => True
  | _ => True

instance (h : History) (e : MembershipEvent) : Decidable (Regular h e) := by
  cases e with
  | activate now channel_id user_id is_active =>
    cases is_active <;> dsimp only [Regular] <;> infer_instance
  | post now uuid4 id form_data user =>
    dsimp only [Regular]
    cases h.store.checkPost id form_data user <;> dsimp only <;> infer_instance
  | _ => dsimp only [Regular]; infer_instance

/-- The invariant: one row for each member, and who is gone is not active. -/
structure History.Sound (h : History) : Prop where
  keys : h.store.keys.Nodup
  gone : ∀ p ∈ h.gone, ¬ h.store.Active p

/-! ## One event -/

section

variable {s s' : Store} {h h' : History} {e : MembershipEvent} {p : String × String}

/-- Who is not an active member has no access. -/
theorem Store.barred_iff : s.Barred p ↔ ¬ s.Active p := by
  refine ⟨And.left, fun hnot => ⟨hnot, fun c hc hid honly => ?_⟩⟩
  rw [Option.eq_none_iff_forall_ne_some]
  intro M hfound
  obtain ⟨c', hc', hid', -, hmay, -⟩ := Store.get_channel_by_id_and_user_id_eq_some.mp hfound
  cases Keyed.eq_of_key s.channel_ids hc' hc (hid'.trans hid.symm)
  rw [Store.mayRead_of_membersOnly honly, hid] at hmay
  exact hnot hmay

/-- **No event makes a second row.** -/
theorem MembershipEvent.nodup_apply (hkeys : h.store.keys.Nodup) (hfresh : e.Fresh h)
    (happly : e.apply h.store = some s') : s'.keys.Nodup := by
  cases e with
  | insert now uuid4 form_data user_id =>
    exact Store.nodup_insert_new_channel hkeys hfresh.1 happly
  | add now channel_id invited_by user_ids group_ids =>
    cases happly
    exact Store.nodup_add_members_to_channel hkeys
  | remove channel_id user_ids =>
    cases happly
    exact Store.nodup_remove_members_from_channel hkeys
  | join now channel_id user_id =>
    cases happly
    exact Store.nodup_join_channel now channel_id user_id hkeys
  | leave now channel_id user_id =>
    cases happly
    rwa [Store.keys_leave_channel hkeys]
  | activate now channel_id user_id is_active =>
    cases happly
    rwa [Store.keys_update_member_active_status hkeys]
  | post now uuid4 id form_data user =>
    cases happly
    cases hcheck : h.store.checkPost id form_data user with
    | error _ => rwa [Store.new_message_handler_eq_self hcheck]
    | ok channel =>
      rw [Store.new_message_handler_eq_posted hcheck]
      exact Store.nodup_posted hkeys
  | elsewhere tables =>
    cases happly
    exact hkeys

theorem membershipStep_eq_some : membershipStep h e = some h' ↔
    e.Fresh h ∧ ∃ s, e.apply h.store = some s ∧
      h' = ⟨s, (e.departed ++ h.gone).filter fun p => p ∉ e.requested h.store⟩ := by
  rw [membershipStep, Option.ite_none_right_eq_some, Option.map_eq_some_iff]
  simp only [eq_comm]

/-- What members expect, in terms of the tables after the event. -/
theorem keepsMembers_iff (hkeys : h.store.keys.Nodup) (hfresh : e.Fresh h)
    (happly : e.apply h.store = some s') :
    KeepsMembers h e ↔ (∀ p ∈ e.requested h.store, s'.Active p) ∧
      ∀ p, p ∈ e.departed ∨ p ∈ h.gone → p ∉ e.requested h.store → ¬ s'.Active p := by
  have hstep := membershipStep_eq_some.mpr ⟨hfresh, s', happly, rfl⟩
  have hgone : ∀ {p : String × String}, p ∈ (e.departed ++ h.gone).filter
      (fun p => p ∉ e.requested h.store) ↔
        (p ∈ e.departed ∨ p ∈ h.gone) ∧ p ∉ e.requested h.store := by
    intro p
    rw [List.mem_filter, List.mem_append, decide_eq_true_eq]
  constructor
  · intro hkept
    obtain ⟨-, hrequested, hbarred⟩ := hkept _ hstep
    refine ⟨hrequested, fun p hp hnot => ?_⟩
    exact Store.barred_iff.mp (hbarred p (hgone.mpr ⟨hp, hnot⟩))
  · rintro ⟨hrequested, hbarred⟩ h' hstep'
    cases Option.some.inj (hstep.symm.trans hstep')
    refine ⟨MembershipEvent.nodup_apply hkeys hfresh happly, hrequested, fun p hp => ?_⟩
    exact Store.barred_iff.mpr (hbarred p (hgone.mp hp).1 (hgone.mp hp).2)

/-- An event that makes those who ask active where they have no rows. -/
theorem keepsMembers_iff_of_requests (hs : h.Sound) (hfresh : e.Fresh h)
    (happly : e.apply h.store = some s') (hdeparted : e.departed = [])
    (hactive : ∀ p, s'.Active p ↔ h.store.Active p ∨ p ∈ e.requested h.store ∧ p ∉ h.store.keys) :
    KeepsMembers h e ↔ ∀ p ∈ e.requested h.store, p ∈ h.store.keys → h.store.Active p := by
  rw [keepsMembers_iff hs.keys hfresh happly]
  constructor
  · intro hkept p hp hmem
    rcases (hactive p).mp (hkept.1 p hp) with hold | ⟨-, hnot⟩
    · exact hold
    · exact absurd hmem hnot
  · intro hregular
    refine ⟨fun p hp => (hactive p).mpr ?_, fun p hp hnot hnew => ?_⟩
    · by_cases hmem : p ∈ h.store.keys
      · exact .inl (hregular p hp hmem)
      · exact .inr ⟨hp, hmem⟩
    · rw [hdeparted] at hp
      rcases (hactive p).mp hnew with hold | ⟨hp', -⟩
      · exact hs.gone p (hp.resolve_left List.not_mem_nil) hold
      · exact hnot hp'

/-- An event that nobody asks for keeps what members expect where it makes nobody active again who
is gone. -/
theorem keepsMembers_iff_of_no_requests (hs : h.Sound) (hfresh : e.Fresh h)
    (happly : e.apply h.store = some s') (hrequested : e.requested h.store = []) :
    KeepsMembers h e ↔ ∀ p, p ∈ e.departed ∨ p ∈ h.gone → ¬ s'.Active p := by
  rw [keepsMembers_iff hs.keys hfresh happly, hrequested]
  simp

/-- **What members expect is what regular events keep.** -/
theorem keepsMembers_iff_regular (hs : h.Sound) : KeepsMembers h e ↔ Regular h e := by
  cases e with
  | insert now uuid4 form_data user_id =>
    refine iff_of_true (fun h' hstep => ?_) trivial
    obtain ⟨hfresh, s', happly, -⟩ := membershipStep_eq_some.mp hstep
    refine (keepsMembers_iff_of_no_requests hs hfresh happly rfl).mpr (fun p hp hnew => ?_) h' hstep
    have hp := hp.resolve_left List.not_mem_nil
    exact hs.gone p hp ((Store.active_insert_new_channel happly (hfresh.2 p hp)).mp hnew)
  | add now channel_id invited_by user_ids group_ids =>
    exact keepsMembers_iff_of_requests hs trivial rfl rfl fun p =>
      Store.active_add_members_to_channel
  | remove channel_id user_ids =>
    refine Iff.trans (keepsMembers_iff_of_no_requests hs trivial rfl rfl) (iff_of_true ?_ trivial)
    intro p hp hnew
    obtain ⟨hold, hkept⟩ := Store.active_remove_members_from_channel.mp hnew
    exact hp.elim hkept fun hp => hs.gone p hp hold
  | join now channel_id user_id =>
    refine keepsMembers_iff_of_requests hs trivial rfl rfl fun p => ?_
    exact Store.active_join_channel.trans
      (or_congr_right (and_congr_left fun _ => List.mem_singleton.symm))
  | leave now channel_id user_id =>
    refine Iff.trans (keepsMembers_iff_of_no_requests hs trivial rfl rfl) (iff_of_true ?_ trivial)
    intro p hp hnew
    obtain ⟨hold, hne⟩ := (Store.active_leave_channel hs.keys).mp hnew
    exact hp.elim (fun hp => hne (List.mem_singleton.mp hp)) fun hp => hs.gone p hp hold
  | activate now channel_id user_id is_active =>
    refine Iff.trans (keepsMembers_iff_of_no_requests hs trivial rfl rfl) ?_
    simp only [Store.active_update_member_active_status hs.keys]
    cases is_active with
    | false =>
      refine iff_of_true (fun p hp hnew => ?_) trivial
      split_ifs at hnew with heq
      · exact hnew.2
      · exact hs.gone p (hp.resolve_left List.not_mem_nil) hnew
    | true =>
      constructor
      · intro hkept hmem hgone
        exact hkept _ (.inr hgone) (by rw [if_pos rfl]; exact ⟨hmem, rfl⟩)
      · intro hregular p hp hnew
        have hp := hp.resolve_left List.not_mem_nil
        split_ifs at hnew with heq
        · subst heq
          exact hregular hnew.1 hp
        · exact hs.gone p hp hnew
  | post now uuid4 id form_data user =>
    rw [Regular]
    cases hcheck : h.store.checkPost id form_data user with
    | error _ =>
      have happly : (MembershipEvent.post now uuid4 id form_data user).apply h.store =
          some h.store := congrArg some (Store.new_message_handler_eq_self hcheck)
      have hrequested : (MembershipEvent.post now uuid4 id form_data user).requested h.store = [] := by
        rw [MembershipEvent.requested, hcheck]
      refine Iff.trans (keepsMembers_iff_of_no_requests hs trivial happly hrequested) ?_
      exact iff_of_true (fun p hp => hs.gone p (hp.resolve_left List.not_mem_nil)) trivial
    | ok channel =>
      have happly : (MembershipEvent.post now uuid4 id form_data user).apply h.store =
          some (h.store.posted now uuid4 form_data channel user.id) :=
        congrArg some (Store.new_message_handler_eq_posted hcheck)
      have hrequested : (MembershipEvent.post now uuid4 id form_data user).requested h.store =
          [(channel.id, user.id)] := by
        rw [MembershipEvent.requested, hcheck]
      have hmember := (Store.checkPost_eq_ok hcheck).1
      have hactive (p : String × String) :
          (h.store.posted now uuid4 form_data channel user.id).Active p ↔ h.store.Active p ∨
            if channel.membersOnly then p ∈ h.store.keys ∧ p.1 = channel.id
            else p = (channel.id, user.id) ∧ p ∉ h.store.keys :=
        Store.active_posted hs.keys hmember
      dsimp only
      split_ifs with honly
      · refine Iff.trans (keepsMembers_iff hs.keys trivial happly) ?_
        simp only [hrequested, hactive, if_pos honly, List.mem_singleton]
        constructor
        · rintro ⟨-, hbarred⟩ p hmem hchannel hgone
          by_cases hp : p = (channel.id, user.id)
          · exact hs.gone p hgone (hp ▸ hmember honly)
          · exact hbarred p (.inr hgone) hp (.inr ⟨hmem, hchannel⟩)
        · refine fun hregular => ⟨?_, fun p hp _ hnew => ?_⟩
          · rintro p rfl
            exact .inl (hmember honly)
          · have hp := hp.resolve_left List.not_mem_nil
            rcases hnew with hold | ⟨hmem, hchannel⟩
            · exact hs.gone p hp hold
            · exact hregular p hmem hchannel hp
      · refine Iff.trans (keepsMembers_iff_of_requests hs trivial happly rfl fun p => ?_) ?_
        · rw [hactive, if_neg honly, hrequested, List.mem_singleton]
        · rw [hrequested]
          exact List.forall_mem_singleton
  | elsewhere tables =>
    refine Iff.trans (keepsMembers_iff_of_no_requests hs trivial rfl rfl) (iff_of_true ?_ trivial)
    intro p hp hnew
    exact hs.gone p (hp.resolve_left List.not_mem_nil) ((Store.active_congr rfl).mp hnew)

theorem History.Sound.step (hkept : KeepsMembers h e) (hstep : membershipStep h e = some h') :
    h'.Sound :=
  ⟨(hkept h' hstep).1, fun p hp => ((hkept h' hstep).2.2 p hp).1⟩

/-! ## Main results -/

theorem stepsMeet_keepsMembers_iff (hs : h.Sound) {es : List MembershipEvent} :
    StepsMeet membershipStep KeepsMembers h es ↔ StepsMeet membershipStep Regular h es :=
  stepsMeet_congr (fun _ _ => keepsMembers_iff_regular) (fun _ _ _ _ => .step) hs

/-- **Members over runs.** In every run a user has one row in a channel at most, and what members
expect holds at each of its steps exactly where each of them is regular. -/
theorem members_kept (h : History) (hs : h.Sound) (es : List MembershipEvent) :
    (∀ h', exec membershipStep h es = some h' → h'.store.keys.Nodup) ∧
      (StepsMeet membershipStep KeepsMembers h es ↔ StepsMeet membershipStep Regular h es) := by
  constructor
  · intro h' hrun
    refine exec_invariant (P := fun h => h.store.keys.Nodup) (fun h e h' hkeys hstep => ?_) hs.keys
      hrun
    obtain ⟨hfresh, s', happly, rfl⟩ := membershipStep_eq_some.mp hstep
    exact MembershipEvent.nodup_apply hkeys hfresh happly
  · exact stepsMeet_keepsMembers_iff hs

end

/-- A direct message channel of two users, both active. -/
def pair : History where
  store :=
    { channels := [⟨"c", "ann", some "dm", none, none⟩]
      members := [Store.newMembership 0 "c" "ann" "ann", Store.newMembership 0 "c" "ann" "bob"]
      messages := []
      files := []
      access := ⟨[], [], [], [], group_exists_nil⟩
      channel_ids := List.nodup_singleton _ }
  gone := []

/-- A message of Ann. -/
def postOfAnn : MembershipEvent :=
  .post 2 "m" "c" ⟨"hello", none, none, none, none⟩ ⟨"ann", "user"⟩

/-- Bob hides the channel, is removed from it and added again, and Ann posts a message. -/
def addedAgain : List MembershipEvent :=
  [.activate 1 "c" "bob" false, .remove "c" ["bob"], .add 2 "c" "ann" ["bob"] [], postOfAnn]

theorem sound_pair : pair.Sound := ⟨by decide, List.forall_mem_nil _⟩

theorem members_kept_addedAgain : StepsMeet membershipStep KeepsMembers pair addedAgain :=
  (members_kept pair sound_pair addedAgain).2.mpr (by decide)

/-- Bob leaves, and joining again does not make him a member. Bob leaves, and a message that Ann
posts makes him one. -/
theorem left_and_back :
    ¬ StepsMeet membershipStep KeepsMembers pair [.leave 1 "c" "bob", .join 2 "c" "bob"] ∧
      ¬ StepsMeet membershipStep KeepsMembers pair [.leave 1 "c" "bob", postOfAnn] := by
  rw [stepsMeet_keepsMembers_iff sound_pair, stepsMeet_keepsMembers_iff sound_pair]
  decide

end OpenLaunch.Channels
