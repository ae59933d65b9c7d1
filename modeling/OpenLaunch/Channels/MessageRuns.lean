import OpenLaunch.Channels.Messages
import OpenLaunch.Forest
import OpenLaunch.Transition

/-! # Messages stay in their channel

Over every run of requests that post, edit and delete messages, what a message answers and the
thread it is in belong to its channel, the answers have no cycle, and the readers of a channel
return no message of another one. -/

namespace OpenLaunch.Channels

open Python Access Forest Transition

/-! ## Runs -/

/-- The id occurs nowhere among the messages. -/
def Store.Fresh (s : Store) (uuid4 : String) : Prop :=
  uuid4 ≠ "" ∧ ∀ m ∈ s.messages,
    m.id ≠ uuid4 ∧ m.parent_id ≠ some uuid4 ∧ m.reply_to_id ≠ some uuid4

instance (s : Store) (uuid4 : String) : Decidable (s.Fresh uuid4) :=
  inferInstanceAs (Decidable (_ ∧ _))

/-- What happens to the messages, and to the other tables. -/
inductive MessageEvent
  | post (now : ℤ) (uuid4 id : String) (form_data : MessageForm) (user : User)
  | answer (now : ℤ) (uuid4 : String) (channel : Channel) (message : Message)
      (metadata : Dict String Json) (user : User)
  | webhook (now : ℤ) (uuid4 : String) (webhook : Store.ChannelWebhook) (content : String)
  | edit (now : ℤ) (id message_id : String) (form_data : MessageForm) (user : User)
  | delete (id message_id : String) (user : User)
  | elsewhere (tables : Store)

/-- An event happens. The ids that `uuid4` gives occur nowhere yet, so that an event with another
one cannot happen. -/
def Store.messageStep (s : Store) : MessageEvent → Option Store
  | .post now uuid4 id form_data user =>
    if s.Fresh uuid4 then some (s.new_message_handler now uuid4 id form_data user).2 else none
  | .answer now uuid4 channel message metadata user =>
    if s.Fresh uuid4 then some (s.model_response now uuid4 channel message metadata user).2
    else none
  | .webhook now uuid4 webhook content =>
    if s.Fresh uuid4 then some (s.post_webhook_message now uuid4 webhook content).2 else none
  | .edit now id message_id form_data user =>
    some (s.update_message_by_id now id message_id form_data user).2
  | .delete id message_id user => some (s.delete_message_by_id id message_id user).2
  | .elsewhere tables => some { tables with messages := s.messages }

/-! ## The invariant -/

/-- **References are to messages of the same channel, and answers are to earlier messages.** -/
structure Threads (messages : List Message) : Prop where
  ids : (messages.map Message.id).Nodup
  named : ∀ m ∈ messages, m.id ≠ ""
  confined : ∀ m ∈ messages, ∀ r ∈ messages,
    (m.parent_id = some r.id ∨ m.reply_to_id = some r.id) → r.channel_id = m.channel_id
  back : messages.Pairwise fun m r => m.reply_to_id ≠ some r.id
  irrefl : ∀ m ∈ messages, m.reply_to_id ≠ some m.id

section

variable {s s' : Store} {messages : List Message} {m r : Message} {id channel_id user_id : String}

theorem threads_nil : Threads [] :=
  ⟨List.nodup_nil, nofun, nofun, .nil, nofun⟩

theorem Threads.sublist (h : Threads messages) {messages' : List Message}
    (hsub : messages'.Sublist messages) : Threads messages' where
  ids := h.ids.sublist (hsub.map Message.id)
  named m hm := h.named m (hsub.subset hm)
  confined m hm r hr := h.confined m (hsub.subset hm) r (hsub.subset hr)
  back := h.back.sublist hsub
  irrefl m hm := h.irrefl m (hsub.subset hm)

/-- A new message whose references are to messages of its channel. -/
theorem Threads.append (h : Threads messages) (hnamed : m.id ≠ "")
    (hfresh : ∀ r ∈ messages, r.id ≠ m.id ∧ r.parent_id ≠ some m.id ∧ r.reply_to_id ≠ some m.id)
    (hirrefl : m.parent_id ≠ some m.id ∧ m.reply_to_id ≠ some m.id)
    (hrefs : ∀ r ∈ messages, (m.parent_id = some r.id ∨ m.reply_to_id = some r.id) →
      r.channel_id = m.channel_id) : Threads (messages ++ [m]) := by
  refine ⟨?_, ?_, ?_, ?_, ?_⟩
  · rw [List.map_append, List.map_singleton]
    refine List.nodup_append.mpr ⟨h.ids, List.nodup_singleton _, ?_⟩
    intro x hx y hy hxy
    obtain ⟨r, hr, rfl⟩ := List.mem_map.mp hx
    exact (hfresh r hr).1 (hxy.trans (List.mem_singleton.mp hy))
  · intro x hx
    rcases List.mem_append.mp hx with hx | hx
    · exact h.named x hx
    · rwa [List.mem_singleton.mp hx]
  · intro x hx r hr href
    rcases List.mem_append.mp hx with hx | hx <;> rcases List.mem_append.mp hr with hr | hr
    · exact h.confined x hx r hr href
    · -- an earlier message cannot refer to the new one
      rw [List.mem_singleton.mp hr] at href
      exact (href.elim (hfresh x hx).2.1 (hfresh x hx).2.2).elim
    · rw [List.mem_singleton.mp hx] at href ⊢
      exact hrefs r hr href
    · rw [List.mem_singleton.mp hx, List.mem_singleton.mp hr]
  · refine List.pairwise_append.mpr ⟨h.back, List.pairwise_singleton _ _, ?_⟩
    intro x hx r hr
    rw [List.mem_singleton.mp hr]
    exact (hfresh x hx).2.2
  · intro x hx
    rcases List.mem_append.mp hx with hx | hx
    · exact h.irrefl x hx
    · rw [List.mem_singleton.mp hx]
      exact hirrefl.2

/-- A message that is changed keeps its id, its channel and its references. -/
theorem Threads.map (h : Threads messages) {f : Message → Message}
    (hf : ∀ m, (f m).id = m.id ∧ (f m).channel_id = m.channel_id ∧
      (f m).parent_id = m.parent_id ∧ (f m).reply_to_id = m.reply_to_id) :
    Threads (messages.map f) := by
  refine ⟨?_, ?_, ?_, ?_, ?_⟩
  · rw [List.map_map]
    have hids : messages.map (Message.id ∘ f) = messages.map Message.id :=
      List.map_congr_left fun m _ => (hf m).1
    rw [hids]
    exact h.ids
  · intro x hx
    obtain ⟨m, hm, rfl⟩ := List.mem_map.mp hx
    rw [(hf m).1]
    exact h.named m hm
  · intro x hx y hy href
    obtain ⟨m, hm, rfl⟩ := List.mem_map.mp hx
    obtain ⟨r, hr, rfl⟩ := List.mem_map.mp hy
    rw [(hf m).2.2.1, (hf m).2.2.2, (hf r).1] at href
    rw [(hf m).2.1, (hf r).2.1]
    exact h.confined m hm r hr href
  · rw [List.pairwise_map]
    refine h.back.imp fun {m r} hne => ?_
    rw [(hf m).2.2.2, (hf r).1]
    exact hne
  · intro x hx
    obtain ⟨m, hm, rfl⟩ := List.mem_map.mp hx
    rw [(hf m).2.2.2, (hf m).1]
    exact h.irrefl m hm

/-! ## Following the answers -/

theorem given_eq_some {ref : Option String} (h : given ref = some id) : ref = some id :=
  (Option.filter_eq_some_iff.mp h).1

theorem Threads.get_message_eq_some (h : Threads s.messages) :
    s.get_message id = some m ↔ m ∈ s.messages ∧ m.id = id :=
  Keyed.find?_eq_some_iff h.ids

/-- What a message answers is before it. -/
theorem Threads.mem_of_replyTo (h : Threads s.messages) {l₁ l₂ : List Message}
    (hmessages : s.messages = l₁ ++ m :: l₂) (hr : r ∈ s.messages)
    (href : m.reply_to_id = some r.id) : r ∈ l₁ := by
  have hm : m ∈ s.messages := hmessages ▸ List.mem_append_right _ (List.mem_cons_self ..)
  have hback := h.back
  rw [hmessages, List.pairwise_append, List.pairwise_cons] at hback
  rw [hmessages] at hr
  rcases List.mem_append.mp hr with hr | hr
  · exact hr
  · rcases List.mem_cons.mp hr with rfl | hr
    · exact absurd href (h.irrefl _ hm)
    · exact absurd href (hback.2.1.1 r hr)

/-- **Following the answers ends**: each leads to an earlier message. -/
theorem Threads.exists_get_message_by_id (h : Threads s.messages) {l₁ l₂ : List Message} {fuel : ℕ}
    (hmessages : s.messages = l₁ ++ m :: l₂) (hfuel : l₁.length + 1 < fuel) :
    ∃ reply, s.get_message_by_id fuel m.id = .ok (some ⟨m, reply, none, 0⟩) ∧
      ∀ r ∈ reply, r ∈ s.messages ∧ m.reply_to_id = some r.id := by
  induction hn : l₁.length using Nat.strong_induction_on generalizing l₁ m l₂ fuel with
  | _ n ih =>
  obtain ⟨fuel, rfl⟩ : ∃ k, fuel = k + 1 := ⟨fuel - 1, by omega⟩
  have hm : m ∈ s.messages := hmessages ▸ List.mem_append_right _ (List.mem_cons_self ..)
  have hget : s.get_message m.id = some m := h.get_message_eq_some.mpr ⟨hm, rfl⟩
  rw [Store.get_message_by_id, hget]
  dsimp only
  cases hreply : given m.reply_to_id with
  | none => exact ⟨none, rfl, nofun⟩
  | some ref =>
    have href := given_eq_some hreply
    dsimp only
    cases hfound : s.get_message ref with
    | none =>
      obtain ⟨fuel, rfl⟩ : ∃ k, fuel = k + 1 := ⟨fuel - 1, by omega⟩
      rw [Store.get_message_by_id, hfound]
      exact ⟨none, rfl, nofun⟩
    | some r =>
      obtain ⟨hr, rfl⟩ := h.get_message_eq_some.mp hfound
      -- the message answered is before the answer
      have hbefore : r ∈ l₁ := h.mem_of_replyTo hmessages hr href
      obtain ⟨l₃, l₄, rfl⟩ := List.append_of_mem hbefore
      rw [List.length_append, List.length_cons] at hfuel hn
      have hmessages' : s.messages = l₃ ++ r :: (l₄ ++ m :: l₂) := by
        rw [hmessages, List.append_assoc, List.cons_append]
      have hfuel' : l₃.length + 1 < fuel := by omega
      obtain ⟨reply, hrec, -⟩ := ih l₃.length (by omega) hmessages' hfuel' rfl
      rw [hrec]
      refine ⟨some r, rfl, fun r' hr' => ?_⟩
      cases hr'
      exact ⟨hr, href⟩

theorem Threads.get_message_by_id_depth (h : Threads s.messages) (hm : m ∈ s.messages) :
    ∃ reply, s.get_message_by_id s.depth m.id = .ok (some ⟨m, reply, none, 0⟩) ∧
      ∀ r ∈ reply, r ∈ s.messages ∧ m.reply_to_id = some r.id := by
  obtain ⟨l₁, l₂, hmessages⟩ := List.append_of_mem hm
  refine h.exists_get_message_by_id hmessages ?_
  rw [Store.depth, hmessages, List.length_append, List.length_cons]
  omega

/-- What a lookup of any id returns. -/
theorem Threads.get_message_by_id_eq (h : Threads s.messages) (id : String) :
    (s.get_message id = none ∧ s.get_message_by_id s.depth id = .ok none) ∨
      ∃ m ∈ s.messages, m.id = id ∧ ∃ reply,
        s.get_message_by_id s.depth id = .ok (some ⟨m, reply, none, 0⟩) := by
  cases hget : s.get_message id with
  | none =>
    refine .inl ⟨rfl, ?_⟩
    rw [Store.depth, Store.get_message_by_id, hget]
  | some m =>
    obtain ⟨hm, rfl⟩ := h.get_message_eq_some.mp hget
    obtain ⟨reply, hreply, -⟩ := h.get_message_by_id_depth hm
    exact .inr ⟨m, hm, rfl, reply, hreply⟩

/-- A message of a list that the readers return, with what it answers. -/
theorem Threads.withReply_eq (h : Threads s.messages) (hm : m ∈ s.messages) :
    ∃ response, s.withReply m = .ok response ∧ response.message = m ∧
      ∀ r ∈ response.reply_to_message, r.channel_id = m.channel_id := by
  rw [Store.withReply]
  cases hreply : given m.reply_to_id with
  | none => exact ⟨⟨m, none, none, 0⟩, rfl, rfl, nofun⟩
  | some ref =>
    dsimp only
    rcases h.get_message_by_id_eq ref with ⟨-, hnone⟩ | ⟨r, hr, rfl, reply, hsome⟩
    · rw [hnone]
      exact ⟨⟨m, none, none, 0⟩, rfl, rfl, nofun⟩
    · rw [hsome]
      refine ⟨⟨m, some r, none, 0⟩, rfl, rfl, fun r' hr' => ?_⟩
      cases hr'
      exact h.confined m hm r hr (.inr (given_eq_some hreply))

theorem Threads.mapM_withReply (h : Threads s.messages) {all_messages : List Message}
    (hall : ∀ m ∈ all_messages, m ∈ s.messages) :
    ∃ responses, all_messages.mapM s.withReply = .ok responses ∧
      responses.map MessageResponse.message = all_messages ∧
      ∀ M ∈ responses, ∀ r ∈ M.reply_to_message, r.channel_id = M.message.channel_id := by
  induction all_messages with
  | nil => exact ⟨[], rfl, rfl, List.forall_mem_nil _⟩
  | cons m all_messages ih =>
    rw [List.forall_mem_cons] at hall
    obtain ⟨response, hresponse, rfl, hreply⟩ := h.withReply_eq hall.1
    obtain ⟨responses, hresponses, hmap, hreplies⟩ := ih hall.2
    refine ⟨response :: responses, by rw [List.mapM_cons, hresponse, hresponses]; rfl, ?_, ?_⟩
    · rw [List.map_cons, hmap]
    · exact List.forall_mem_cons.mpr ⟨hreply, hreplies⟩

theorem mem_newestFirst : m ∈ Store.newestFirst messages ↔ m ∈ messages := List.mem_mergeSort

/-- A page of messages. -/
theorem mem_page {skip limit : ℕ}
    (h : m ∈ ((Store.newestFirst messages).drop skip).take limit) : m ∈ messages :=
  mem_newestFirst.mp (List.mem_of_mem_drop (List.mem_of_mem_take h))

/-! ## What is confined -/

/-- What a message answers. -/
def Store.replyTo (s : Store) (id : String) : Option String :=
  (s.get_message id).bind fun m => given m.reply_to_id

/-- The messages of an answer to a reader, and what they answer, are in the channel. -/
def InChannel (channel_id : String) (result : Except PyErr (List MessageResponse)) : Prop :=
  ∃ responses, result = .ok responses ∧ ∀ M ∈ responses, M.message.channel_id = channel_id ∧
    ∀ r ∈ M.reply_to_message, r.channel_id = channel_id

/-- **Messages stay in their channel.** -/
structure Confined (s : Store) : Prop where
  references : ∀ m ∈ s.messages, ∀ r ∈ s.messages,
    (m.parent_id = some r.id ∨ m.reply_to_id = some r.id) → r.channel_id = m.channel_id
  acyclic : Acyclic s.replyTo
  terminates : ∀ id, ∃ response, s.get_message_by_id s.depth id = .ok response
  channel : ∀ channel_id skip limit,
    InChannel channel_id (s.get_messages_by_channel_id channel_id skip limit)
  thread : ∀ channel_id parent_id skip limit,
    InChannel channel_id (s.get_messages_by_parent_id channel_id parent_id skip limit)

theorem Threads.acyclic (h : Threads s.messages) : Acyclic s.replyTo := by
  refine acyclic_of_before (s := s.messages.map Message.id) (fun x y hedge hy => ?_)
    fun x y hedge => ?_
  · obtain ⟨m, hget, hreply⟩ := Option.bind_eq_some_iff.mp hedge
    obtain ⟨hm, rfl⟩ := h.get_message_eq_some.mp hget
    obtain ⟨r, hr, rfl⟩ := List.mem_map.mp hy
    obtain ⟨l₁, l₂, hmessages⟩ := List.append_of_mem hm
    have hbefore : r.id ∈ l₁.map Message.id :=
      List.mem_map_of_mem (h.mem_of_replyTo hmessages hr (given_eq_some hreply))
    have hnot : m.id ∉ l₁.map Message.id := by
      have hids := h.ids
      rw [hmessages, List.map_append, List.map_cons, List.nodup_append] at hids
      exact fun hmem => hids.2.2 m.id hmem m.id (List.mem_cons_self ..) rfl
    rw [hmessages, List.map_append, List.map_cons, List.idxOf_append_of_mem hbefore,
      List.idxOf_append_of_notMem hnot, List.idxOf_cons_self, Nat.add_zero]
    exact List.idxOf_lt_length_of_mem hbefore
  · obtain ⟨m, hget, -⟩ := Option.bind_eq_some_iff.mp hedge
    obtain ⟨hm, rfl⟩ := h.get_message_eq_some.mp hget
    exact List.mem_map_of_mem hm

theorem Threads.inChannel (h : Threads s.messages) {all_messages : List Message}
    (hall : ∀ m ∈ all_messages, m ∈ s.messages ∧ m.channel_id = channel_id) :
    InChannel channel_id (all_messages.mapM s.withReply) := by
  obtain ⟨responses, hresponses, hmap, hreplies⟩ :=
    h.mapM_withReply fun m hm => (hall m hm).1
  refine ⟨responses, hresponses, fun M hM => ?_⟩
  have hchannel : M.message.channel_id = channel_id :=
    (hall M.message (hmap ▸ List.mem_map_of_mem hM)).2
  exact ⟨hchannel, fun r hr => (hreplies M hM r hr).trans hchannel⟩

theorem Threads.confined_store (h : Threads s.messages) : Confined s where
  references := h.confined
  acyclic := h.acyclic
  terminates id := by
    rcases h.get_message_by_id_eq id with ⟨-, hnone⟩ | ⟨m, -, -, reply, hsome⟩
    · exact ⟨none, hnone⟩
    · exact ⟨_, hsome⟩
  channel channel_id skip limit := by
    refine h.inChannel fun m hm => ?_
    obtain ⟨hm, hcond⟩ := List.mem_filter.mp (mem_page hm)
    exact ⟨hm, (of_decide_eq_true hcond).1⟩
  thread channel_id parent_id skip limit := by
    rw [Store.get_messages_by_parent_id]
    cases hget : s.get_message parent_id with
    | none => exact ⟨[], rfl, List.forall_mem_nil _⟩
    | some message =>
      have hpage : ∀ m ∈ ((Store.newestFirst (s.messages.filter fun m =>
          m.channel_id = channel_id ∧ m.parent_id = some parent_id)).drop skip).take limit,
          m ∈ s.messages ∧ m.channel_id = channel_id := by
        intro m hm
        obtain ⟨hm, hcond⟩ := List.mem_filter.mp (mem_page hm)
        exact ⟨hm, (of_decide_eq_true hcond).1⟩
      dsimp only
      split_ifs with hne hshort
      · exact ⟨[], rfl, List.forall_mem_nil _⟩
      · refine h.inChannel fun m hm => ?_
        rcases List.mem_append.mp hm with hm | hm
        · exact hpage m hm
        · rw [List.mem_singleton.mp hm]
          exact ⟨(h.get_message_eq_some.mp hget).1, not_not.mp hne⟩
      · exact h.inChannel hpage

/-! ## Steps -/

theorem messages_reactivate (now : ℤ) (members : List ChannelMember) :
    (s.reactivate now channel_id members).messages = s.messages := by
  induction members generalizing s with
  | nil => rfl
  | cons member members ih =>
    rw [Store.reactivate, List.foldl_cons]
    refine ih.trans ?_
    split_ifs
    · rfl
    · exact Store.messages_update_member_active_status

theorem given_some (h : id ≠ "") : given (some id) = some id :=
  Option.filter_some_pos (decide_eq_true h)

/-- **A reference that passes the check** is to a message of the channel. -/
theorem Threads.exists_of_checkReference (h : Threads s.messages) (hid : id ≠ "")
    (hcheck : s.checkReference channel_id (some id) = .ok ()) :
    ∃ r ∈ s.messages, r.id = id ∧ r.channel_id = channel_id := by
  rw [Store.checkReference, given_some hid] at hcheck
  dsimp only at hcheck
  rcases h.get_message_by_id_eq id with ⟨-, hnone⟩ | ⟨r, hr, rfl, reply, hsome⟩
  · rw [hnone] at hcheck
    cases hcheck
  · rw [hsome] at hcheck
    dsimp only at hcheck
    split_ifs at hcheck with hne
    exact ⟨r, hr, rfl, not_not.mp hne⟩

theorem Threads.channel_of_checkReference (h : Threads s.messages) {ref_id : Option String}
    (hcheck : s.checkReference channel_id ref_id = .ok ()) (hr : r ∈ s.messages)
    (href : ref_id = some r.id) : r.channel_id = channel_id := by
  rw [href] at hcheck
  obtain ⟨r', hr', hid, hchannel⟩ := h.exists_of_checkReference (h.named r hr) hcheck
  rwa [Keyed.eq_of_key h.ids hr' hr hid] at hchannel

theorem Threads.ne_of_checkReference (h : Threads s.messages) {ref_id : Option String}
    {uuid4 : String} (hfresh : s.Fresh uuid4)
    (hcheck : s.checkReference channel_id ref_id = .ok ()) : ref_id ≠ some uuid4 := by
  rintro rfl
  obtain ⟨r, hr, hid, -⟩ := h.exists_of_checkReference hfresh.1 hcheck
  exact (hfresh.2 r hr).1 hid

/-- A message inserted by any of the writers. -/
theorem Threads.insert_new_message (h : Threads s.messages) {now : ℤ} {uuid4 : String}
    {form_data : MessageForm} (hfresh : s.Fresh uuid4)
    (hrefs : ∀ r ∈ s.messages, (form_data.parent_id = some r.id ∨
      form_data.reply_to_id = some r.id) → r.channel_id = channel_id)
    (hirrefl : form_data.parent_id ≠ some uuid4 ∧ form_data.reply_to_id ≠ some uuid4) :
    Threads (s.insert_new_message now uuid4 form_data channel_id user_id).2.messages := by
  show Threads ((s.join_channel now channel_id user_id).2.messages ++ [_])
  rw [Store.messages_join_channel]
  exact h.append hfresh.1 hfresh.2 hirrefl hrefs

theorem Threads.new_message_handler (h : Threads s.messages) {now : ℤ} {uuid4 : String}
    {form_data : MessageForm} {user : User} (hfresh : s.Fresh uuid4) :
    Threads (s.new_message_handler now uuid4 id form_data user).2.messages := by
  rw [Store.new_message_handler]
  cases hcheck : s.checkPost id form_data user with
  | error e => exact h
  | ok channel =>
    obtain ⟨-, hparent, hreply⟩ := Store.checkPost_eq_ok hcheck
    have hinsert : Threads (s.insert_new_message now uuid4 form_data channel.id user.id).2.messages :=
      h.insert_new_message hfresh
        (fun r hr href => href.elim (h.channel_of_checkReference hparent hr)
          (h.channel_of_checkReference hreply hr))
        ⟨h.ne_of_checkReference hfresh hparent, h.ne_of_checkReference hfresh hreply⟩
    dsimp only
    have hsame : ∀ s' : Store, (if channel.membersOnly then
        s'.reactivate now channel.id (s'.get_members_by_channel_id channel.id) else s').messages =
          s'.messages := by
      intro s'
      split_ifs
      · exact messages_reactivate now _
      · rfl
    split
    · rw [hsame]
      exact hinsert
    · rw [hsame]
      exact hinsert

theorem Threads.post_webhook_message (h : Threads s.messages) {now : ℤ} {uuid4 : String}
    {webhook : Store.ChannelWebhook} {content : String} (hfresh : s.Fresh uuid4) :
    Threads (s.post_webhook_message now uuid4 webhook content).2.messages := by
  rw [Store.post_webhook_message]
  cases s.get_channel_by_id webhook.channel_id with
  | none => exact h
  | some channel =>
    dsimp only
    split
    all_goals exact h.insert_new_message hfresh (fun r hr href => by simp at href) ⟨nofun, nofun⟩

theorem Threads.update_message_by_id (h : Threads s.messages) {now : ℤ} {message_id : String}
    {form_data : MessageForm} {user : User} :
    Threads (s.update_message_by_id now id message_id form_data user).2.messages := by
  have hedited : Threads (s.messages.map fun m =>
      if m.id = message_id then Store.edited now form_data m else m) := by
    refine h.map fun m => ?_
    split_ifs <;> exact ⟨rfl, rfl, rfl, rfl⟩
  rw [Store.update_message_by_id]
  cases s.checkEdit id message_id user with
  | error e => exact h
  | ok message =>
    dsimp only
    split
    · exact hedited
    · exact hedited

theorem Threads.delete_message_by_id (h : Threads s.messages) {message_id : String} {user : User} :
    Threads (s.delete_message_by_id id message_id user).2.messages := by
  rw [Store.delete_message_by_id]
  cases s.checkEdit id message_id user with
  | error e => exact h
  | ok message => exact h.sublist List.filter_sublist

/-- **Every event keeps the references in their channel.** -/
theorem Threads.step (h : Threads s.messages) {e : MessageEvent} (hstep : s.messageStep e = some s') :
    Threads s'.messages := by
  cases e with
  | post now uuid4 id form_data user =>
    obtain ⟨hfresh, hs⟩ := Option.ite_none_right_eq_some.mp hstep
    cases hs
    exact h.new_message_handler hfresh
  | answer now uuid4 channel message metadata user =>
    obtain ⟨hfresh, hs⟩ := Option.ite_none_right_eq_some.mp hstep
    cases hs
    exact h.new_message_handler hfresh
  | webhook now uuid4 webhook content =>
    obtain ⟨hfresh, hs⟩ := Option.ite_none_right_eq_some.mp hstep
    cases hs
    exact h.post_webhook_message hfresh
  | edit now id message_id form_data user =>
    cases hstep
    exact h.update_message_by_id
  | delete id message_id user =>
    cases hstep
    exact h.delete_message_by_id
  | elsewhere tables =>
    cases hstep
    exact h

end

/-- A group channel with one member. -/
def groupOfOne : Store where
  channels := [{ id := "c", user_id := "u", type := some "group", archived_at := none, deleted_at := none }]
  members := [Store.newMembership 0 "c" "u" "u"]
  messages := []
  files := []
  access := ⟨[], [], [], [], group_exists_nil⟩
  channel_ids := by decide

/-- A message, an answer to it, one of a webhook, and the first message is deleted. -/
def conversation : List MessageEvent :=
  [.post 1 "a" "c" ⟨"hello", none, none, none, none⟩ ⟨"u", "user"⟩,
    .post 2 "b" "c" ⟨"hello to you", some "a", some "a", none, none⟩ ⟨"u", "user"⟩,
    .webhook 3 "d" ⟨"w", "c", "u"⟩ "ping",
    .delete "c" "a" ⟨"u", "user"⟩]

end OpenLaunch.Channels
