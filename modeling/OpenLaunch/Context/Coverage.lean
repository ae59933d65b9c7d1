import OpenLaunch.Context.Branch
import OpenLaunch.Transition

/-! # Does compaction lose messages?

Every earlier message of the branch should be sent to the model or stand behind the summary in force.
Within one request that holds: what is not kept is summarised. Over several requests it depends on
the message that carries the checkpoint. Later requests start from the carrier, so the summary has to
stand for everything before it; but the summary is made from the messages before the boundary, and
the carrier is the request's user message, which as a rule comes after it. -/

namespace OpenLaunch.Context

open Python Transition

/-! ## Accounting for messages -/

/-- Message `i` of the branch is there, or was part of what the summary was made from. -/
def Accounts (messages : List Message) (summary : Option Summary) (i : ℕ) : Prop :=
  (∃ m ∈ messages, m.origin = some i) ∨ ∃ s, summary = some s ∧ i ∈ s.covers

/-- **No message of the branch has fallen out of a request.** -/
def Sent.Accounted (sent : Sent) : Prop := ∀ i < sent.loaded, Accounts sent.messages sent.summary i

/-- Every checkpoint on the branch stands for all messages before its carrier. -/
def Checkpointed (branch : List StoredMessage) : Prop :=
  ∀ (c : ℕ) (m : StoredMessage), branch[c]? = some m → summaryText m.fields ≠ none → ∀ i < c, i ∈ m.covers

/-- Messages from the branch are in the order of the branch. -/
def Ordered (messages : List Message) : Prop :=
  messages.Pairwise fun m m' => ∀ i j, m.origin = some i → m'.origin = some j → i < j

/-- **The first `n` messages of a branch with good checkpoints**, among others. Only the first
message may have a checkpoint without being on the branch. -/
structure Loads (messages : List Message) (n : ℕ) : Prop where
  ordered : Ordered messages
  complete : ∀ i < n, ∃ m ∈ messages, m.origin = some i
  checkpoint : ∀ (idx : ℕ) (m : Message) (s : Summary), messages[idx]? = some m → m.checkpoint = some s →
    idx = 0 ∨ ∃ c, m.origin = some c ∧ ∀ i < c, i ∈ s.covers

/-! ## The latest checkpoint -/

theorem latest_checkpoint_eq_some {messages : List Message} {s : Summary} {idx : ℕ}
    (h : latest_checkpoint messages = some (s, idx)) :
    ∃ m, messages[idx]? = some m ∧ m.checkpoint = some s := by
  refine List.foldlRecOn (motive := fun latest => latest = some (s, idx) →
    ∃ m, messages[idx]? = some m ∧ m.checkpoint = some s) messages.zipIdx _
    (fun hs => by cases hs) (fun latest ih e he hs => ?_) h
  cases hcheckpoint : e.1.checkpoint with
  | none =>
    rw [hcheckpoint] at hs
    exact ih hs
  | some s' =>
    rw [hcheckpoint] at hs
    cases hs
    exact ⟨e.1, List.mem_zipIdx_iff_getElem?.mp he, hcheckpoint⟩

/-- What is left from the latest checkpoint on is a part of the messages at their end. -/
theorem apply_eq_drop (messages : List Message) :
    ∃ idx, (apply_latest_summary_checkpoint messages).1 = messages.drop idx := by
  unfold apply_latest_summary_checkpoint
  split
  · rename_i summary summary_idx _
    exact ⟨summary_idx, rfl⟩
  · exact ⟨0, rfl⟩

/-- **Starting from the latest checkpoint loses nothing.** -/
theorem Loads.apply {messages : List Message} {n : ℕ} (h : Loads messages n) :
    Ordered (apply_latest_summary_checkpoint messages).1 ∧
      ∀ i < n, Accounts (apply_latest_summary_checkpoint messages).1
        (apply_latest_summary_checkpoint messages).2 i := by
  unfold apply_latest_summary_checkpoint
  cases hlatest : latest_checkpoint messages with
  | none => exact ⟨h.ordered, fun i hi => .inl (h.complete i hi)⟩
  | some latest =>
    obtain ⟨s, idx⟩ := latest
    obtain ⟨carrier, hcarrier, hs⟩ := latest_checkpoint_eq_some hlatest
    refine ⟨h.ordered.sublist (List.drop_sublist idx messages), fun i hi => ?_⟩
    obtain ⟨m, hm, horigin⟩ := h.complete i hi
    rcases h.checkpoint idx carrier s hcarrier hs with rfl | ⟨c, hc, hcovers⟩
    · exact .inl ⟨m, hm, horigin⟩
    · by_cases hic : i < c
      · exact .inr ⟨s, rfl, hcovers i hic⟩
      · -- a message that is not before the carrier is not dropped
        obtain ⟨k, hk⟩ := List.getElem?_of_mem hm
        refine .inl ⟨m, List.mem_of_getElem? (i := k - idx) ?_, horigin⟩
        rw [List.getElem?_drop]
        by_cases hk' : idx ≤ k
        · rw [Nat.add_sub_cancel' hk', hk]
        · exfalso
          obtain ⟨hklt, rfl⟩ := List.getElem?_eq_some_iff.mp hk
          obtain ⟨hidx, rfl⟩ := List.getElem?_eq_some_iff.mp hcarrier
          have := List.pairwise_iff_getElem.mp h.ordered k idx hklt hidx (by omega) i c horigin hc
          omega

/-! ## The boundary -/

theorem le_advance (messages : List Message) (split left : ℕ) :
    split ≤ advance messages split left := by
  induction left generalizing split with
  | zero => exact le_rfl
  | succ left ih =>
    unfold advance
    split
    · exact (Nat.le_succ split).trans (ih (split + 1))
    · exact le_rfl

/-- The loop gets past every position at which there is no cut, and no further. -/
theorem lt_advance_iff {messages : List Message} {c split left : ℕ} (hsplit : split ≤ c) :
    c < advance messages split left ↔
      c < split + left ∧ ∀ j ≤ c, split ≤ j → glued messages j = true := by
  induction left generalizing split with
  | zero =>
    constructor
    · intro h
      exact absurd h (Nat.not_lt.mpr hsplit)
    · rintro ⟨h, -⟩
      exact h
  | succ left ih =>
    unfold advance
    cases hglued : glued messages split with
    | false =>
      rw [if_neg Bool.false_ne_true]
      constructor
      · intro h
        exact absurd h (Nat.not_lt.mpr hsplit)
      · rintro ⟨-, h⟩
        rw [h split hsplit le_rfl] at hglued
        cases hglued
    | true =>
      rw [if_pos rfl]
      rcases Nat.eq_or_lt_of_le hsplit with rfl | hlt
      · refine ⟨fun _ => ⟨by omega, fun j hj hle => ?_⟩, fun _ => le_advance messages _ left⟩
        rw [← Nat.le_antisymm hle hj]
        exact hglued
      · rw [ih hlt]
        constructor
        · rintro ⟨hc, h⟩
          refine ⟨by omega, fun j hj hle => ?_⟩
          rcases Nat.eq_or_lt_of_le hle with rfl | hle
          · exact hglued
          · exact h j hj hle
        · rintro ⟨hc, h⟩
          exact ⟨by omega, fun j hj hle => h j hj (by omega)⟩

/-- The position `c` is not behind the boundary: there is no cut before it that keeps enough. -/
def BeforeCut (messages : List Message) (c : ℕ) : Prop :=
  c + 2 ≤ messages.length ∧
    ∀ j < c, messages.length - keepCount messages ≤ j → glued messages j = true

/-- **Which positions the boundary does not cut off.** -/
theorem le_find_compaction_boundary_iff {messages : List Message} (hlength : 3 < messages.length)
    (c : ℕ) : c ≤ find_compaction_boundary messages ↔ BeforeCut messages c := by
  have hkeep : 2 ≤ keepCount messages ∧ keepCount messages < messages.length := by
    unfold keepCount
    omega
  unfold find_compaction_boundary BeforeCut
  dsimp only
  rw [Nat.max_eq_right (by omega), Nat.le_min]
  generalize hsplit : messages.length - keepCount messages = split
  cases c with
  | zero => exact ⟨fun _ => ⟨by omega, fun j hj => absurd hj (Nat.not_lt_zero j)⟩, fun _ => by omega⟩
  | succ c =>
    rw [Nat.succ_le_iff]
    by_cases hc : split ≤ c
    · rw [lt_advance_iff hc]
      constructor
      · rintro ⟨⟨-, h⟩, hle⟩
        exact ⟨by omega, fun j hj hj' => h j (Nat.le_of_lt_succ hj) hj'⟩
      · rintro ⟨hle, h⟩
        exact ⟨⟨by omega, fun j hj hj' => h j (Nat.lt_succ_of_le hj) hj'⟩, by omega⟩
    · have hle := le_advance messages split (messages.length - 1 - split)
      exact ⟨fun h => ⟨by omega, fun j hj hj' => absurd hj' (by omega)⟩,
        fun h => ⟨by omega, by omega⟩⟩

/-! ## One compaction -/

section

variable {conv : Conversions} {config : Config} {configured system_prompt : Json}
  {messages : List Message} {response : Except PyErr String} {c : Compacted}

/-- **What compaction returns**: everything, the messages from the latest checkpoint on or, if these
have to be compacted, those from the boundary on. -/
theorem compact_messages_for_request_cases
    (h : compact_messages_for_request conv config configured messages system_prompt response = .ok c) :
    c = ⟨messages, none, false⟩ ∨
      c = ⟨(apply_latest_summary_checkpoint messages).1,
        (apply_latest_summary_checkpoint messages).2, false⟩ ∨
      (config.enable = true ∧
        needs_compaction conv config configured messages system_prompt = .ok true ∧
        ∃ text, c = ⟨(apply_latest_summary_checkpoint messages).1.drop
            (find_compaction_boundary (apply_latest_summary_checkpoint messages).1),
          some (newSummary text ((apply_latest_summary_checkpoint messages).1.take
            (find_compaction_boundary (apply_latest_summary_checkpoint messages).1))
            (apply_latest_summary_checkpoint messages).2), true⟩) := by
  unfold compact_messages_for_request at h
  split at h
  · rename_i henable
    obtain ⟨needed, hneeded, h⟩ := bind_eq_ok.mp h
    dsimp only at h
    cases needed with
    | false =>
      cases h
      exact .inr (.inl rfl)
    | true =>
      rw [if_pos rfl] at h
      split at h
      · cases h
        exact .inr (.inl rfl)
      · obtain ⟨text, -, h⟩ := bind_eq_ok.mp h
        cases h
        exact .inr (.inr ⟨henable, hneeded, text, rfl⟩)
  · cases h
    exact .inl rfl

/-- Only more than three messages are compacted. -/
theorem length_of_needs_compaction
    (h : needs_compaction conv config configured messages system_prompt = .ok true) :
    3 < (apply_latest_summary_checkpoint messages).1.length := by
  unfold needs_compaction at h
  dsimp only at h
  obtain ⟨threshold, -, h⟩ := bind_eq_ok.mp h
  obtain ⟨exceeds, -, h⟩ := bind_eq_ok.mp h
  have hboth : (exceeds && decide (3 < (apply_latest_summary_checkpoint messages).1.length)) = true :=
    Except.ok.inj h
  exact of_decide_eq_true (Bool.and_eq_true_iff.mp hboth).2

/-- What is not kept is summarised. -/
theorem accounts_cut {previous : Option Summary} {i : ℕ} (h : Accounts messages previous i)
    (boundary : ℕ) (text : String) :
    Accounts (messages.drop boundary)
      (some (newSummary text (messages.take boundary) previous)) i := by
  rcases h with ⟨m, hm, horigin⟩ | ⟨s, rfl, hcovers⟩
  · rw [← List.take_append_drop boundary messages, List.mem_append] at hm
    rcases hm with hm | hm
    · refine .inr ⟨_, rfl, List.mem_append_left _ ?_⟩
      exact List.mem_filterMap.mpr ⟨m, hm, horigin⟩
    · exact .inl ⟨m, hm, horigin⟩
  · exact .inr ⟨_, rfl, List.mem_append_right _ hcovers⟩

/-- **No message falls out of the request that compacts.** -/
theorem Loads.accounts_compacted {n : ℕ} (hloads : Loads messages n)
    (h : compact_messages_for_request conv config configured messages system_prompt response = .ok c) :
    ∀ i < n, Accounts c.messages c.summary i := by
  obtain ⟨-, haccounts⟩ := hloads.apply
  intro i hi
  rcases compact_messages_for_request_cases h with rfl | rfl | ⟨-, -, text, rfl⟩
  · exact .inl (hloads.complete i hi)
  · exact haccounts i hi
  · exact accounts_cut (haccounts i hi) _ text

/-- A summary stands for everything before a message that is not behind the boundary. -/
theorem covers_of_carrier {previous : Option Summary} {boundary k u : ℕ} {text : String}
    {carrier : Message} (hordered : Ordered messages) (hcarrier : messages[k]? = some carrier)
    (horigin : carrier.origin = some u) (hk : k ≤ boundary) {i : ℕ} (hi : i < u)
    (h : Accounts messages previous i) :
    i ∈ (newSummary text (messages.take boundary) previous).covers := by
  rcases h with ⟨m, hm, hmi⟩ | ⟨s, rfl, hcovers⟩
  · -- the message comes before the carrier
    obtain ⟨j, hj⟩ := List.getElem?_of_mem hm
    obtain ⟨hjlt, rfl⟩ := List.getElem?_eq_some_iff.mp hj
    obtain ⟨hklt, rfl⟩ := List.getElem?_eq_some_iff.mp hcarrier
    have hjk : j < k := by
      rcases Nat.lt_trichotomy j k with hlt | rfl | hgt
      · exact hlt
      · rw [hmi] at horigin
        cases horigin
        exact absurd hi (Nat.lt_irrefl _)
      · have := List.pairwise_iff_getElem.mp hordered k j hklt hjlt hgt u i horigin hmi
        omega
    refine List.mem_append_left _ (List.mem_filterMap.mpr ⟨messages[j], ?_, hmi⟩)
    rw [List.mem_take_iff_getElem]
    exact ⟨j, by omega, rfl⟩
  · exact List.mem_append_right _ hcovers

end

/-! ## What a request loads -/

/-- The messages of a branch, loaded in order between messages that are not on the branch. -/
theorem loads_of_branch {branch : List StoredMessage} (hgood : Checkpointed branch) {n : ℕ}
    (hn : n ≤ branch.length) {load : ℕ → StoredMessage → Message}
    (horigin : ∀ i m, (load i m).origin = some i)
    (hcheckpoint : ∀ i m s, (load i m).checkpoint = some s →
      summaryText m.fields ≠ none ∧ s.covers = m.covers)
    {pre post : List Message} (hpre : ∀ m ∈ pre, m.origin = none) (hone : pre.length ≤ 1)
    (hpost : ∀ m ∈ post, m.origin = none ∧ m.checkpoint = none) :
    Loads (pre ++ (branch.take n).mapIdx load ++ post) n := by
  refine ⟨?_, fun i hi => ?_, fun idx m s hm hs => ?_⟩
  · unfold Ordered
    rw [List.pairwise_append, List.pairwise_append]
    refine ⟨⟨?_, ?_, ?_⟩, ?_, ?_⟩
    · refine List.pairwise_of_forall_mem_list fun m hm m' _ i j hi _ => ?_
      rw [hpre m hm] at hi
      cases hi
    · refine List.pairwise_iff_getElem.mpr fun k l hk hl hkl i j hi hj => ?_
      rw [List.getElem_mapIdx, horigin] at hi hj
      cases hi
      cases hj
      exact hkl
    · intro m hm m' _ i j hi
      rw [hpre m hm] at hi
      cases hi
    · refine List.pairwise_of_forall_mem_list fun m hm m' _ i j hi _ => ?_
      rw [(hpost m hm).1] at hi
      cases hi
    · intro m _ m' hm' i j _ hj
      rw [(hpost m' hm').1] at hj
      cases hj
  · have hlt : i < ((branch.take n).mapIdx load).length := by
      rw [List.length_mapIdx, List.length_take]
      omega
    refine ⟨_, List.mem_append_left _ (List.mem_append_right _ (List.getElem_mem hlt)), ?_⟩
    rw [List.getElem_mapIdx, horigin]
  · by_cases hidx : idx < pre.length
    · exact .inl (by omega)
    · rw [List.append_assoc, List.getElem?_append_right (by omega)] at hm
      rcases List.mem_append.mp (List.mem_of_getElem? hm) with hmem | hmem
      · obtain ⟨c, hc, rfl⟩ := List.mem_mapIdx.mp hmem
        obtain ⟨hsome, hcovers⟩ := hcheckpoint _ _ _ hs
        refine .inr ⟨c, horigin _ _, fun i hi => ?_⟩
        rw [hcovers]
        refine hgood c _ ?_ hsome i hi
        rw [List.getElem_take]
        exact List.getElem?_eq_getElem _
      · rw [(hpost m hmem).2] at hs
        cases hs

/-- What `Loads` looks at. -/
def Message.mark (m : Message) : Option ℕ × Option Summary := (m.origin, m.checkpoint)

theorem Loads.of_marks {messages messages' : List Message} {n : ℕ} (h : Loads messages n)
    (hmarks : messages'.map Message.mark = messages.map Message.mark) : Loads messages' n := by
  have hget : ∀ (idx : ℕ) (m' : Message), messages'[idx]? = some m' →
      ∃ m, messages[idx]? = some m ∧ m.origin = m'.origin ∧ m.checkpoint = m'.checkpoint := by
    intro idx m' hm'
    have hmark : (messages.map Message.mark)[idx]? = some m'.mark := by
      rw [← hmarks, List.getElem?_map, hm']
      rfl
    rw [List.getElem?_map] at hmark
    obtain ⟨m, hm, heq⟩ := Option.map_eq_some_iff.mp hmark
    exact ⟨m, hm, congrArg Prod.fst heq, congrArg Prod.snd heq⟩
  refine ⟨?_, fun i hi => ?_, fun idx m' s hm' hs => ?_⟩
  · refine List.pairwise_iff_getElem.mpr fun k l hk hl hkl i j hi hj => ?_
    obtain ⟨m, hm, hmi, -⟩ := hget k _ (List.getElem?_eq_getElem hk)
    obtain ⟨m', hm', hmj, -⟩ := hget l _ (List.getElem?_eq_getElem hl)
    obtain ⟨hk', rfl⟩ := List.getElem?_eq_some_iff.mp hm
    obtain ⟨hl', rfl⟩ := List.getElem?_eq_some_iff.mp hm'
    exact List.pairwise_iff_getElem.mp h.ordered k l hk' hl' hkl i j (hmi.trans hi) (hmj.trans hj)
  · obtain ⟨m, hm, horigin⟩ := h.complete i hi
    have hmem : m.mark ∈ messages'.map Message.mark := hmarks ▸ List.mem_map_of_mem hm
    obtain ⟨m', hm', heq⟩ := List.mem_map.mp hmem
    exact ⟨m', hm', (congrArg Prod.fst heq).trans horigin⟩
  · obtain ⟨m, hm, horigin, hcheckpoint⟩ := hget idx m' hm'
    rw [← horigin]
    exact h.checkpoint idx m s hm (hcheckpoint.trans hs)

/-- The fields a summary is read from. -/
theorem summaryText_congr {fields fields' : Chats.Message}
    (h : ∀ key, key = "contextSummary" ∨ key = "context_summary" →
      fields'.field key = fields.field key) : summaryText fields' = summaryText fields := by
  unfold summaryText
  rw [h _ (.inl rfl), h _ (.inr rfl)]

theorem field_set_ne {fields : Chats.Message} {key key' : String} (h : key' ≠ key) (value : Json) :
    Chats.Message.field (Assoc.set fields key value) key' = fields.field key' := by
  unfold Chats.Message.field
  rw [Assoc.get?_set_ne _ h]

theorem field_erase_ne {fields : Chats.Message} {key key' : String} (h : key' ≠ key) :
    Chats.Message.field (Assoc.erase fields key) key' = fields.field key' := by
  unfold Chats.Message.field Assoc.erase
  rw [Assoc.get?_filter (fun k => k ≠ key), if_pos (by simpa using h)]

/-- The images of a message do not concern compaction. -/
theorem injectImages_mark {m m' : Message} (h : injectImages m = .ok m') : m'.mark = m.mark := by
  unfold injectImages at h
  obtain ⟨files, -, h⟩ := bind_eq_ok.mp h
  obtain ⟨image_files, -, h⟩ := bind_eq_ok.mp h
  obtain ⟨fields, hfields, h⟩ := bind_eq_ok.mp h
  cases h
  have hsame : summaryText fields = summaryText m.fields := by
    unfold withImages at hfields
    dsimp only at hfields
    split at hfields
    · obtain ⟨parts, -, hfields⟩ := bind_eq_ok.mp hfields
      cases hfields
      refine summaryText_congr fun key hkey => field_set_ne ?_ _
      rcases hkey with rfl | rfl <;> decide
    · cases hfields
      rfl
  have hfiles : summaryText (Assoc.erase fields "files") = summaryText fields := by
    refine summaryText_congr fun key hkey => field_erase_ne ?_
    rcases hkey with rfl | rfl <;> decide
  unfold Message.mark Message.checkpoint
  rw [hfiles, hsame]

/-- Loading drops every field but the five. -/
theorem summaryText_of_load {fields : Chats.Message} {text : String}
    (h : summaryText (fields.filter fun e => e.1 ∈ loadedKeys) = some text) :
    summaryText fields = some text := by
  have hkept : (Chats.Message.field (fields.filter fun e => e.1 ∈ loadedKeys) "contextSummary") =
      fields.field "contextSummary" := by
    unfold Chats.Message.field
    rw [Assoc.get?_filter (fun k => k ∈ loadedKeys)]
    rfl
  have hdropped : (Chats.Message.field (fields.filter fun e => e.1 ∈ loadedKeys) "context_summary") =
      .null := by
    unfold Chats.Message.field
    rw [Assoc.get?_filter (fun k => k ∈ loadedKeys)]
    rfl
  unfold summaryText at h ⊢
  rw [hkept, hdropped] at h
  unfold Json.or at h ⊢
  by_cases htruthy : (fields.field "contextSummary").truthy = true
  · rw [if_pos htruthy] at h ⊢
    exact h
  · rw [if_neg htruthy] at h
    cases h

theorem Request.loaded_le (r : Request) {branch : List StoredMessage}
    (h : r.user_message < branch.length) : r.loaded branch ≤ branch.length := by
  unfold Request.loaded
  split
  · rename_i hcond
    obtain ⟨m, hm, -⟩ := (Option.any_eq_true _ _).mp (Bool.and_eq_true_iff.mp hcond).2
    exact (List.getElem?_eq_some_iff.mp hm).1
  · exact h

theorem Request.user_message_lt_loaded (r : Request) (branch : List StoredMessage) :
    r.user_message < r.loaded branch := by
  unfold Request.loaded
  split <;> omega

/-- **A request loads the branch up to its message.** -/
theorem Request.loads {r : Request} {branch : List StoredMessage} {messages : List Message}
    (hgood : Checkpointed branch) (hlt : r.user_message < branch.length)
    (h : r.messages branch = .ok messages) : Loads messages (r.loaded branch) := by
  unfold Request.messages at h
  obtain ⟨injected, hinjected, h⟩ := bind_eq_ok.mp h
  cases h
  have hmarks := map_eq_of_mapM (fun _ _ => injectImages_mark) hinjected
  have hloads : Loads (r.loadMessages branch ++ r.regeneration) (r.loaded branch) := by
    refine loads_of_branch hgood (r.loaded_le hlt) (fun i m => rfl) (fun i m s hs => ?_) ?_ ?_ ?_
    · obtain ⟨text, htext, rfl⟩ := Option.map_eq_some_iff.mp hs
      refine ⟨?_, rfl⟩
      rw [summaryText_of_load htext]
      simp
    · intro m hm
      obtain ⟨fields, -, rfl⟩ := List.mem_map.mp hm
      rfl
    · rw [List.length_map]
      cases r.system_message <;> simp
    · intro m hm
      unfold Request.regeneration at hm
      split at hm
      · obtain rfl := List.mem_singleton.mp hm
        exact ⟨rfl, rfl⟩
      · cases hm
  refine hloads.of_marks ?_
  rw [List.map_append, List.map_append, hmarks]

/-! ## Runs -/

/-- What holds of a branch on which no message has been lost so far. -/
structure Kept (chat : Chat) : Prop where
  checkpointed : Checkpointed chat.branch
  accounted : ∀ sent ∈ chat.sent, sent.Accounted

section

variable {conv : Conversions} {chat chat' : Chat}

/-- The messages that a request has compacted, from the latest checkpoint on, if it does. -/
def compacting (conv : Conversions) (chat : Chat) (r : Request) : Option (List Message) :=
  match r.prepare chat.branch with
  | .error _ => none
  | .ok (messages, system_prompt) =>
    match needs_compaction conv r.config r.compact_token_threshold messages system_prompt with
    | .ok true => if r.config.enable then some (apply_latest_summary_checkpoint messages).1 else none
    | _ => none

/-- **The user message is not behind the boundary** when its request compacts. -/
def CarrierBeforeCut (conv : Conversions) (chat : Chat) : Event → Prop
  | .request r => ∀ messages, compacting conv chat r = some messages →
      ∃ k < messages.length, (messages[k]?).bind Message.origin = some r.user_message ∧
        BeforeCut messages k
  | _ => True

theorem checkpointed_storeSummary {branch : List StoredMessage} {i : ℕ} {summary : Summary}
    (h : Checkpointed branch) (hsummary : ∀ j < i, j ∈ summary.covers) :
    Checkpointed (storeSummary branch i summary) := by
  intro c m hm hsome j hj
  unfold storeSummary at hm
  rw [List.getElem?_modify] at hm
  obtain ⟨m', hm', rfl⟩ := Option.map_eq_some_iff.mp hm
  by_cases hic : i = c
  · subst hic
    simpa using hsummary j hj
  · simp only [hic, if_false] at hsome ⊢
    exact h c m' hm' hsome j hj

/-- A request is added to those made. -/
theorem Kept.send (h : Kept chat) {branch : List StoredMessage} {sent : Sent}
    (hbranch : Checkpointed branch) (hsent : sent.Accounted) :
    Kept { branch := branch, sent := chat.sent ++ [sent] } := by
  refine ⟨hbranch, fun sent' hmem => ?_⟩
  rcases List.mem_append.mp hmem with hmem | hmem
  · exact h.accounted sent' hmem
  · rw [List.mem_singleton.mp hmem]
    exact hsent

theorem prepare_eq_ok {r : Request} {branch : List StoredMessage} {messages : List Message}
    {system_prompt : Json} (h : r.prepare branch = .ok (messages, system_prompt)) :
    r.messages branch = .ok messages := by
  unfold Request.prepare at h
  obtain ⟨messages', hmessages, h⟩ := bind_eq_ok.mp h
  obtain ⟨prompt, -, h⟩ := bind_eq_ok.mp h
  cases h
  exact hmessages

/-- **One request.** -/
theorem process_chat_payload_kept {r : Request} (h : Kept chat)
    (hlt : r.user_message < chat.branch.length)
    (hcarrier : CarrierBeforeCut conv chat (.request r)) :
    Kept (process_chat_payload conv chat r) := by
  unfold process_chat_payload
  cases hprepare : r.prepare chat.branch with
  | error e => exact h
  | ok prepared =>
    obtain ⟨messages, system_prompt⟩ := prepared
    have hloads := Request.loads h.checkpointed hlt (prepare_eq_ok hprepare)
    dsimp only
    cases hcompact : compact_messages_for_request conv r.config r.compact_token_threshold messages
        system_prompt r.response with
    | error e => exact h.send h.checkpointed fun i hi => .inl (hloads.complete i hi)
    | ok c =>
      have hsent : Sent.Accounted ⟨r.loaded chat.branch, c.messages, c.summary⟩ :=
        hloads.accounts_compacted hcompact
      rcases compact_messages_for_request_cases hcompact with
        rfl | rfl | ⟨henable, hneeded, text, rfl⟩
      · exact h.send h.checkpointed hsent
      · refine h.send ?_ hsent
        cases (apply_latest_summary_checkpoint messages).2 <;> exact h.checkpointed
      · -- a checkpoint is stored: its carrier is not behind the boundary
        refine h.send (checkpointed_storeSummary h.checkpointed fun i hi => ?_) hsent
        have hcompacting : compacting conv chat r =
            some (apply_latest_summary_checkpoint messages).1 := by
          unfold compacting
          rw [hprepare]
          dsimp only
          rw [hneeded]
          exact if_pos henable
        obtain ⟨k, hk, hkorigin, hcut⟩ := hcarrier _ hcompacting
        obtain ⟨carrier, hkcarrier, horigin⟩ := Option.bind_eq_some_iff.mp hkorigin
        obtain ⟨hordered, haccounts⟩ := hloads.apply
        have hkb := (le_find_compaction_boundary_iff (length_of_needs_compaction hneeded) k).mpr hcut
        exact covers_of_carrier hordered hkcarrier horigin hkb hi
          (haccounts i (hi.trans (r.user_message_lt_loaded _)))

/-- The branch as `compact_chat_branch` reads it. -/
theorem loads_take {branch : List StoredMessage} (hgood : Checkpointed branch) {n : ℕ}
    (hn : n ≤ branch.length) :
    Loads ((branch.take n).mapIdx fun i m => ⟨m.fields, some i, m.covers⟩) n := by
  have hload : ∀ (i : ℕ) (m : StoredMessage) (s : Summary),
      (⟨m.fields, some i, m.covers⟩ : Message).checkpoint = some s →
      summaryText m.fields ≠ none ∧ s.covers = m.covers := by
    intro i m s hs
    obtain ⟨text, htext, rfl⟩ := Option.map_eq_some_iff.mp hs
    exact ⟨by rw [htext]; simp, rfl⟩
  have hloads := loads_of_branch hgood hn (fun i m => rfl) hload (List.forall_mem_nil _)
    (Nat.zero_le _) (List.forall_mem_nil _)
  rwa [List.nil_append, List.append_nil] at hloads

/-- `compact_chat_branch` stores the checkpoint on the message it keeps. -/
theorem compact_chat_branch_kept {current : ℕ} {enable : Bool} {response : Except PyErr String}
    (h : Kept chat) (hlt : current < chat.branch.length) :
    Kept (compact_chat_branch conv chat current enable response) := by
  unfold compact_chat_branch
  split
  · dsimp only
    have hloads := loads_take h.checkpointed (Nat.succ_le_of_lt hlt)
    have hlast : ((chat.branch.take (current + 1)).mapIdx fun i m =>
        (⟨m.fields, some i, m.covers⟩ : Message)).length = current + 1 := by
      rw [List.length_mapIdx, List.length_take]
      omega
    have horigin : ∀ m, ((chat.branch.take (current + 1)).mapIdx fun i m =>
        (⟨m.fields, some i, m.covers⟩ : Message))[current]? = some m → m.origin = some current := by
      intro m hm
      obtain ⟨hc, rfl⟩ := List.getElem?_eq_some_iff.mp hm
      rw [List.getElem_mapIdx]
    generalize ((chat.branch.take (current + 1)).mapIdx fun i m =>
      (⟨m.fields, some i, m.covers⟩ : Message)) = all at hloads hlast horigin
    obtain ⟨hordered, haccounts⟩ := hloads.apply
    obtain ⟨idx, hdrop⟩ := apply_eq_drop all
    split
    · exact h
    · rename_i hlength
      split
      · exact h
      · refine ⟨checkpointed_storeSummary h.checkpointed fun i hi => ?_, h.accounted⟩
        -- the message that is kept is the last of the branch
        have hdroplength : (apply_latest_summary_checkpoint all).1.length = current + 1 - idx := by
          rw [hdrop, List.length_drop, hlast]
        have hcarrier : (apply_latest_summary_checkpoint all).1[
            (apply_latest_summary_checkpoint all).1.length - 1]? = all[current]? := by
          rw [hdroplength, hdrop, List.getElem?_drop]
          congr 1
          omega
        obtain ⟨carrier, hget⟩ : ∃ carrier, all[current]? = some carrier :=
          ⟨_, List.getElem?_eq_getElem (by omega)⟩
        exact covers_of_carrier hordered (hcarrier.trans hget) (horigin carrier hget) le_rfl hi
          (haccounts i (by omega))
  · exact h

/-- A new message, or a change of another field, does not touch the checkpoints. -/
theorem step_kept {event : Event} (h : Kept chat) (hcarrier : CarrierBeforeCut conv chat event)
    (hstep : step conv chat event = some chat') : Kept chat' := by
  cases event with
  | append fields =>
    simp only [step, Option.ite_none_right_eq_some, Option.some.injEq] at hstep
    obtain ⟨hnone, rfl⟩ := hstep
    refine ⟨fun c m hm hsome i hi => ?_, h.accounted⟩
    rcases Nat.lt_or_ge c chat.branch.length with hc | hc
    · rw [List.getElem?_append_left hc] at hm
      exact h.checkpointed c m hm hsome i hi
    · rw [List.getElem?_append_right hc] at hm
      obtain rfl := List.mem_singleton.mp (List.mem_of_getElem? hm)
      exact absurd hnone hsome
  | write i key value =>
    simp only [step, Option.ite_none_right_eq_some, Option.some.injEq] at hstep
    obtain ⟨hkey, rfl⟩ := hstep
    refine ⟨fun c m hm hsome j hj => ?_, h.accounted⟩
    rw [List.getElem?_modify] at hm
    obtain ⟨m', hm', rfl⟩ := Option.map_eq_some_iff.mp hm
    by_cases hic : i = c
    · subst hic
      have hsame : summaryText (m'.fields.setField key value) = summaryText m'.fields := by
        refine summaryText_congr fun key' hkey' => field_set_ne ?_ value
        rcases hkey' with rfl | rfl
        · exact hkey.1.symm
        · exact hkey.2.symm
      rw [if_pos rfl, hsame] at hsome
      rw [if_pos rfl]
      exact h.checkpointed i m' hm' hsome j hj
    · rw [if_neg hic] at hsome ⊢
      exact h.checkpointed c m' hm' hsome j hj
  | request r =>
    simp only [step, Option.ite_none_right_eq_some, Option.some.injEq] at hstep
    obtain ⟨hlt, rfl⟩ := hstep
    exact process_chat_payload_kept h hlt hcarrier
  | compactBranch current enable response =>
    simp only [step, Option.ite_none_right_eq_some, Option.some.injEq] at hstep
    obtain ⟨hlt, rfl⟩ := hstep
    exact compact_chat_branch_kept h hlt

end

/-! ### Two runs -/

instance (messages : List Message) (summary : Option Summary) (i : ℕ) :
    Decidable (Accounts messages summary i) :=
  decidable_of_iff ((∃ m ∈ messages, m.origin = some i) ∨
    summary.any (fun s => decide (i ∈ s.covers)) = true) <|
    or_congr Iff.rfl <| by
      rw [Option.any_eq_true]
      simp only [decide_eq_true_eq]

instance (sent : Sent) : Decidable sent.Accounted :=
  inferInstanceAs (Decidable (∀ i < sent.loaded, Accounts sent.messages sent.summary i))

instance (messages : List Message) (c : ℕ) : Decidable (BeforeCut messages c) :=
  inferInstanceAs (Decidable (_ ∧ ∀ j < c, _ → _))

instance carrierBeforeCut_decidable (conv : Conversions) :
    (chat : Chat) → (event : Event) → Decidable (CarrierBeforeCut conv chat event)
  | chat, .request r =>
    match h : compacting conv chat r with
    | none => isTrue fun messages hm => by rw [h] at hm; cases hm
    | some messages =>
      decidable_of_iff (∃ k < messages.length,
          (messages[k]?).bind Message.origin = some r.user_message ∧ BeforeCut messages k)
        ⟨fun hk m hm => by rw [h] at hm; cases hm; exact hk, fun hk => hk messages h⟩
  | _, .append _ | _, .write _ _ _ | _, .compactBranch _ _ _ => isTrue trivial

/-- A message of a role is added. -/
def say (role : String) : Event := .append [("role", .str role), ("content", .str "text")]

/-- A request at position `u`, with a threshold that every branch of some messages exceeds. -/
def ask (u : ℕ) (continued : Bool) : Event :=
  .request ⟨u, continued, none, .null, ⟨true, 16⟩, .null, .ok "summary"⟩

/-- The third message is answered again and compacted; then the conversation goes on. -/
def continuedRun : List Event :=
  [say "user", say "assistant", say "user", say "assistant", ask 2 true, say "user", ask 4 false]

/-- The fifth message is answered and compacted; then the conversation goes on. -/
def ordinaryRun : List Event :=
  [say "user", say "assistant", say "user", say "assistant", say "user", ask 4 false,
    say "assistant", say "user", ask 6 false]

end OpenLaunch.Context

/-! ## Tool calls and their results

A provider rejects a conversation in which a tool result stands without the call it answers, so the
cut of a compaction must not come between the two. The boundary moves forward over positions inside
one use of tools, but it is bound to keep two messages, and it looks only at neighbours. -/

namespace OpenLaunch.Context

open Python

/-- The message issues the call with an identifier. -/
def Message.Issues (m : Message) (id : Json) : Prop :=
  ∃ calls, m.get "tool_calls" = .list calls ∧ ∃ call ∈ calls, call.get "id" = .ok id

/-- The message is the result of the call with an identifier. -/
def Message.Answers (m : Message) (id : Json) : Prop :=
  m.get "role" = .str "tool" ∧ m.get "tool_call_id" = id

/-- The message at place `j` answers a call that the one at place `i` before it issued. -/
def Pair (messages : List Message) (i j : ℕ) : Prop :=
  i < j ∧ ∃ m m' id, messages[i]? = some m ∧ messages[j]? = some m' ∧ m.Issues id ∧ m'.Answers id

/-- A cut at `b` comes between a call and its result. -/
def Separates (messages : List Message) (b : ℕ) : Prop :=
  ∃ i j, Pair messages i j ∧ i < b ∧ b ≤ j

/-- The pair is on one side of the cut. It is in the part that is summarised when every position
from the first candidate to the result is inside a use of tools, and two messages come after the
result. It is in the part that is kept when the call is one of the last two messages, or a position
from the first candidate to the call is outside. -/
def Together (messages : List Message) (i j : ℕ) : Prop :=
  (j + 3 ≤ messages.length ∧
    ∀ k ≤ j, messages.length - keepCount messages ≤ k → glued messages k = true) ∨
  messages.length < i + 3 ∨
    ∃ k ≤ i, messages.length - keepCount messages ≤ k ∧ glued messages k = false

/-- The boundary leaves a message to summarise and two to keep. -/
theorem find_compaction_boundary_bounds {messages : List Message} (hlength : 3 < messages.length) :
    1 ≤ find_compaction_boundary messages ∧
      find_compaction_boundary messages ≤ messages.length - 2 := by
  constructor
  · rw [le_find_compaction_boundary_iff hlength]
    have hkeep : keepCount messages + 1 ≤ messages.length := by
      unfold keepCount
      omega
    exact ⟨by omega, fun j hj hle => by omega⟩
  · exact Nat.min_le_right _ _

theorem lt_boundary_iff {messages : List Message} (hlength : 3 < messages.length) (j : ℕ) :
    j < find_compaction_boundary messages ↔ j + 3 ≤ messages.length ∧
      ∀ k ≤ j, messages.length - keepCount messages ≤ k → glued messages k = true := by
  rw [← Nat.succ_le_iff, le_find_compaction_boundary_iff hlength, BeforeCut]
  simp only [Nat.succ_eq_add_one, Nat.lt_succ_iff]

theorem boundary_le_iff {messages : List Message} (hlength : 3 < messages.length) (i : ℕ) :
    find_compaction_boundary messages ≤ i ↔ messages.length < i + 3 ∨
      ∃ k ≤ i, messages.length - keepCount messages ≤ k ∧ glued messages k = false := by
  rw [← Nat.not_lt, lt_boundary_iff hlength, not_and_or, Nat.not_le]
  refine or_congr Iff.rfl ?_
  simp only [not_forall, exists_prop, Bool.not_eq_true]

/-- **Calls and results stay together** exactly when every pair is on one side of the cut. -/
theorem boundary_keeps_pairs_iff (messages : List Message) (hlength : 3 < messages.length) :
    (1 ≤ find_compaction_boundary messages ∧
        find_compaction_boundary messages ≤ messages.length - 2 ∧
        ¬ Separates messages (find_compaction_boundary messages)) ↔
      ∀ i j, Pair messages i j → Together messages i j := by
  obtain ⟨hlow, hhigh⟩ := find_compaction_boundary_bounds hlength
  rw [and_iff_right hlow, and_iff_right hhigh]
  constructor
  · intro hsep i j hpair
    by_cases hj : j < find_compaction_boundary messages
    · exact .inl ((lt_boundary_iff hlength j).mp hj)
    · right
      refine (boundary_le_iff hlength i).mp (Nat.le_of_not_lt fun hi => hsep ⟨i, j, hpair, hi, ?_⟩)
      exact Nat.le_of_not_lt hj
  · rintro htogether ⟨i, j, hpair, hi, hj⟩
    rcases htogether i j hpair with h | h
    · exact absurd ((lt_boundary_iff hlength j).mpr h) (Nat.not_lt.mpr hj)
    · exact absurd ((boundary_le_iff hlength i).mpr h) (Nat.not_le.mpr hi)

/-! ## Small conversations -/

/-- A message with a text and nothing else. -/
def textMessage (role : String) : Message :=
  ⟨[("role", .str role), ("content", .str "…")], none, []⟩

/-- An assistant message that calls tools. -/
def callMessage (ids : List String) : Message :=
  ⟨[("role", .str "assistant"), ("tool_calls", .list (ids.map fun id => .dict [("id", .str id)]))],
    none, []⟩

/-- The result of a call. -/
def resultMessage (id : String) : Message :=
  ⟨[("role", .str "tool"), ("tool_call_id", .str id)], none, []⟩

/-- The calls and the results that a list of messages holds. -/
theorem pair_iff {messages : List Message} {i j : ℕ} :
    Pair messages i j ↔ i < j ∧ ∃ m m', messages[i]? = some m ∧ messages[j]? = some m' ∧
      m'.get "role" = .str "tool" ∧ m.Issues (m'.get "tool_call_id") := by
  constructor
  · rintro ⟨hlt, m, m', id, hm, hm', hissues, hrole, rfl⟩
    exact ⟨hlt, m, m', hm, hm', hrole, hissues⟩
  · rintro ⟨hlt, m, m', hm, hm', hrole, hissues⟩
    exact ⟨hlt, m, m', _, hm, hm', hissues, hrole, rfl⟩

/-- A use of tools that is followed by two messages is summarised as a whole. -/
theorem boundary_keeps_pairs_followed :
    ¬ Separates [textMessage "user", callMessage ["a"], resultMessage "a", textMessage "assistant",
        textMessage "user"]
      (find_compaction_boundary [textMessage "user", callMessage ["a"], resultMessage "a",
        textMessage "assistant", textMessage "user"]) := by
  refine ((boundary_keeps_pairs_iff _ (by decide)).mpr fun i j hpair => ?_).2.2
  obtain ⟨hlt, m, m', hm, hm', hrole, -⟩ := pair_iff.mp hpair
  -- The only result is at place 2.
  have hj : j = 2 := by
    have hlen : j < 5 := (List.getElem?_eq_some_iff.mp hm').1
    have hcases : j = 0 ∨ j = 1 ∨ j = 2 ∨ j = 3 ∨ j = 4 := by omega
    rcases hcases with rfl | rfl | rfl | rfl | rfl
    · cases hm'
      exact absurd hrole (by decide)
    · cases hm'
      exact absurd hrole (by decide)
    · rfl
    · cases hm'
      exact absurd hrole (by decide)
    · cases hm'
      exact absurd hrole (by decide)
  subst hj
  refine .inl ⟨by decide, fun k hk hle => ?_⟩
  have hfirst : 3 ≤ k := hle
  omega

/-- **A call separated from its results**: the results are the last two messages, which are kept in
any case. -/
theorem boundary_separates :
    find_compaction_boundary [textMessage "user", textMessage "assistant", callMessage ["a", "b"],
      resultMessage "a", resultMessage "b"] = 3 ∧
    Separates [textMessage "user", textMessage "assistant", callMessage ["a", "b"],
      resultMessage "a", resultMessage "b"] 3 := by
  refine ⟨by decide, 2, 3, pair_iff.mpr ⟨by decide, _, _, rfl, rfl, rfl, ?_⟩, by decide, by decide⟩
  exact ⟨_, rfl, _, List.mem_cons_self, rfl⟩

end OpenLaunch.Context
