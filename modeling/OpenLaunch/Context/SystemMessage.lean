import OpenLaunch.Context.Coverage

/-! # Does compaction keep the system message?

The messages of a request start with its system message, before those of the branch. Both the latest
checkpoint and the boundary cut the list by position, so the system message stays only where nothing
is cut. -/

namespace OpenLaunch.Context

open Python

/-! ## What is kept first -/

/-- A system message with the text of `system`. -/
def SameSystem (system m : Message) : Prop :=
  m.get "role" = .str "system" ∧ get_content_from_message m = get_content_from_message system

/-- **The text of the system message comes first.** -/
def SystemFirst (system : Message) (messages : List Message) : Prop :=
  ∃ m, messages.head? = some m ∧ SameSystem system m

/-- The position of the latest checkpoint, and the start without one. -/
def checkpointStart (messages : List Message) : ℕ :=
  ((latest_checkpoint messages).map Prod.snd).getD 0

section

variable (conv : Conversions) (r : Request) (messages : List Message) (system_prompt : Json)

/-- The messages that a request goes on with: those that compaction returns, or all if it raises. -/
def handedOn : List Message :=
  match compact_messages_for_request conv r.config r.compact_token_threshold messages system_prompt
      r.response with
  | .ok c => c.messages
  | .error _ => messages

/-- Whether the messages have to be compacted. -/
def needs : Except PyErr Bool :=
  needs_compaction conv r.config r.compact_token_threshold messages system_prompt

/-- The messages from the latest checkpoint on, and where these are cut. -/
def fromCheckpoint : List Message := (apply_latest_summary_checkpoint messages).1

/-- The summary of what comes before the boundary cannot be made. -/
def SummaryFails : Prop :=
  ∃ e, generate_summary conv r.response
    ((fromCheckpoint messages).take (find_compaction_boundary (fromCheckpoint messages)))
    (apply_latest_summary_checkpoint messages).2 = .error e

/-- **Nothing is cut**: compaction is off, it fails, or there is no checkpoint after the first
message and no need to compact. -/
def Uncut : Prop :=
  r.config.enable = false ∨ (∃ e, needs conv r messages system_prompt = .error e) ∨
    (needs conv r messages system_prompt = .ok false ∧
      ∀ m ∈ messages.tail, m.checkpoint = none) ∨
    needs conv r messages system_prompt = .ok true ∧ SummaryFails conv r messages

/-- What is cut ends at another system message with the same text. -/
def SystemAgain (system : Message) : Prop :=
  ∃ needed m, needs conv r messages system_prompt = .ok needed ∧
    messages[checkpointStart messages +
      if needed then find_compaction_boundary (fromCheckpoint messages) else 0]? = some m ∧
    SameSystem system m

end

/-! ## The two cuts -/

section Cuts

variable {conv : Conversions} {r : Request} {messages : List Message} {system_prompt : Json}
  {system : Message}

theorem fromCheckpoint_eq (messages : List Message) :
    fromCheckpoint messages = messages.drop (checkpointStart messages) := by
  unfold fromCheckpoint apply_latest_summary_checkpoint checkpointStart
  cases latest_checkpoint messages with
  | none => rfl
  | some latest => rfl

/-- Without a checkpoint after the first message nothing is cut at one. -/
theorem checkpointStart_eq_zero (h : ∀ m ∈ messages.tail, m.checkpoint = none) :
    checkpointStart messages = 0 := by
  unfold checkpointStart
  cases hlatest : latest_checkpoint messages with
  | none => rfl
  | some latest =>
    obtain ⟨s, idx⟩ := latest
    obtain ⟨m, hm, hs⟩ := latest_checkpoint_eq_some hlatest
    cases idx with
    | zero => rfl
    | succ idx =>
      have hmem : m ∈ messages.tail := by
        rw [← List.getElem?_tail] at hm
        exact List.mem_of_getElem? hm
      rw [h m hmem] at hs
      cases hs

/-- The boundary has messages before and after it. -/
theorem parts_not_empty (h : 3 < messages.length) :
    (messages.take (find_compaction_boundary messages)).isEmpty = false ∧
      (messages.drop (find_compaction_boundary messages)).isEmpty = false := by
  have hle := le_advance messages (max 1 (messages.length - keepCount messages))
    (messages.length - 1 - max 1 (messages.length - keepCount messages))
  have hpos : 0 < find_compaction_boundary messages := by
    unfold find_compaction_boundary
    dsimp only
    omega
  have hlt : find_compaction_boundary messages < messages.length := by
    unfold find_compaction_boundary
    dsimp only
    omega
  constructor
  · rw [List.isEmpty_eq_false_iff, ne_eq, List.take_eq_nil_iff]
    rintro (h | h)
    · omega
    · simp [h] at hlt
  · rw [List.isEmpty_eq_false_iff, ne_eq, List.drop_eq_nil_iff]
    omega

/-- **What is handed on** when compaction returns: the messages after the cut. -/
theorem handedOn_eq (henable : r.config.enable = true) {needed : Bool}
    (hneeds : needs conv r messages system_prompt = .ok needed)
    (hsummary : needed = true → ¬ SummaryFails conv r messages) :
    handedOn conv r messages system_prompt =
      messages.drop (checkpointStart messages +
        if needed then find_compaction_boundary (fromCheckpoint messages) else 0) := by
  unfold needs at hneeds
  unfold handedOn compact_messages_for_request
  rw [if_pos henable, hneeds]
  cases needed with
  | false => exact fromCheckpoint_eq messages
  | true =>
    have hparts := parts_not_empty (length_of_needs_compaction hneeds)
    have hgen (e : PyErr) (h : generate_summary conv r.response
        ((fromCheckpoint messages).take (find_compaction_boundary (fromCheckpoint messages)))
        (apply_latest_summary_checkpoint messages).2 = .error e) : False :=
      hsummary rfl ⟨e, h⟩
    rw [if_pos rfl, ← List.drop_drop, ← fromCheckpoint_eq]
    unfold fromCheckpoint at hgen ⊢
    generalize apply_latest_summary_checkpoint messages = applied at hparts hgen ⊢
    obtain ⟨kept, previous⟩ := applied
    dsimp only at hparts hgen ⊢
    -- neither part is empty, so a summary is made
    obtain ⟨hbefore, hafter⟩ := hparts
    cases hsum : generate_summary conv r.response (kept.take (find_compaction_boundary kept))
        previous with
    | error e => exact (hgen e hsum).elim
    | ok text =>
      simp only [bind, Except.bind, if_pos, hbefore, hafter, hsum, Bool.or_self, Bool.false_eq_true,
        if_false]
      rfl

/-- Where compaction is off or fails, all messages are handed on. -/
theorem handedOn_of_fails (h : r.config.enable = false ∨
    (∃ e, needs conv r messages system_prompt = .error e) ∨
    needs conv r messages system_prompt = .ok true ∧ SummaryFails conv r messages) :
    handedOn conv r messages system_prompt = messages := by
  unfold handedOn compact_messages_for_request
  by_cases henable : r.config.enable = true
  · rw [if_pos henable]
    rcases h with hdisabled | ⟨e, he⟩ | ⟨hneeds, hfails⟩
    · rw [henable] at hdisabled
      cases hdisabled
    · unfold needs at he
      rw [he]
      rfl
    · unfold needs at hneeds
      rw [hneeds]
      have hparts := parts_not_empty (length_of_needs_compaction hneeds)
      obtain ⟨e, he⟩ := hfails
      unfold fromCheckpoint at he
      generalize apply_latest_summary_checkpoint messages = applied at hparts he ⊢
      obtain ⟨kept, previous⟩ := applied
      dsimp only at hparts he ⊢
      obtain ⟨hbefore, hafter⟩ := hparts
      simp only [bind, Except.bind, if_pos, hbefore, hafter, he, Bool.or_self, Bool.false_eq_true,
        if_false]
  · rw [if_neg henable]
    rfl

/-- **The system message stays exactly where nothing is cut**, or the cut ends at one with the same
text. -/
theorem systemFirst_handedOn_iff (hfirst : SystemFirst system messages) :
    SystemFirst system (handedOn conv r messages system_prompt) ↔
      Uncut conv r messages system_prompt ∨ SystemAgain conv r messages system_prompt system := by
  by_cases hfails : r.config.enable = false ∨
      (∃ e, needs conv r messages system_prompt = .error e) ∨
      needs conv r messages system_prompt = .ok true ∧ SummaryFails conv r messages
  · rw [handedOn_of_fails hfails]
    refine iff_of_true hfirst (Or.inl ?_)
    rcases hfails with h | h | h
    · exact Or.inl h
    · exact Or.inr (Or.inl h)
    · exact Or.inr (Or.inr (Or.inr h))
  · simp only [not_or, not_and, Bool.not_eq_false] at hfails
    obtain ⟨henable, hnoerror, hsummary⟩ := hfails
    cases hneeds : needs conv r messages system_prompt with
    | error e => exact absurd ⟨e, hneeds⟩ hnoerror
    | ok needed =>
      rw [handedOn_eq henable hneeds fun h => hsummary (by rw [hneeds, h])]
      unfold SystemFirst SystemAgain Uncut
      rw [List.head?_drop, hneeds]
      constructor
      · rintro ⟨m, hm, hsame⟩
        exact Or.inr ⟨needed, m, rfl, hm, hsame⟩
      · rintro ((h | ⟨e, he⟩ | ⟨hnone, hcheckpoint⟩ | ⟨htrue, hfail⟩) | ⟨needed', m, hn, hm, hsame⟩)
        · rw [henable] at h
          cases h
        · cases he
        · cases hnone
          rw [checkpointStart_eq_zero hcheckpoint]
          simpa [SystemFirst, List.head?_eq_getElem?] using hfirst
        · cases htrue
          exact absurd hfail (hsummary hneeds)
        · cases hn
          exact ⟨m, hm, hsame⟩

end Cuts

/-! ## Requests -/

/-- The images of a request do not concern its system message. -/
theorem injectImages_system {m m' : Message} (h : injectImages m = .ok m')
    (hrole : m.get "role" = .str "system") :
    m'.get "role" = .str "system" ∧ m'.get "content" = m.get "content" := by
  unfold injectImages at h
  obtain ⟨files, -, h⟩ := bind_eq_ok.mp h
  obtain ⟨image_files, -, h⟩ := bind_eq_ok.mp h
  obtain ⟨fields, hfields, h⟩ := bind_eq_ok.mp h
  cases h
  have hsame : fields = m.fields := by
    unfold withImages at hfields
    dsimp only at hfields
    rw [if_neg (by simp [hrole])] at hfields
    cases hfields
    rfl
  unfold Message.get at hrole ⊢
  dsimp only
  rw [field_erase_ne (by decide), field_erase_ne (by decide), hsame]
  exact ⟨hrole, rfl⟩

/-- The messages of a request start with its system message. -/
theorem Request.systemFirst {r : Request} {branch : List StoredMessage} {messages : List Message}
    {system_prompt : Json} {fields : Chats.Message} (hsystem : r.system_message = some fields)
    (hrole : fields.field "role" = .str "system")
    (h : r.prepare branch = .ok (messages, system_prompt)) :
    SystemFirst ⟨fields, none, []⟩ messages := by
  have hmessages := prepare_eq_ok h
  unfold Request.messages Request.loadMessages at hmessages
  rw [hsystem, Option.toList_some, List.map_singleton, List.singleton_append,
    List.mapM_cons] at hmessages
  obtain ⟨loaded, hloaded, hmessages⟩ := bind_eq_ok.mp hmessages
  obtain ⟨first, hfirst, hloaded⟩ := bind_eq_ok.mp hloaded
  obtain ⟨rest, -, hloaded⟩ := bind_eq_ok.mp hloaded
  cases hloaded
  cases hmessages
  obtain ⟨hsame, hcontent⟩ := injectImages_system hfirst hrole
  refine ⟨first, rfl, hsame, ?_⟩
  unfold get_content_from_message
  rw [hcontent]

/-- **When compaction keeps the system message of a request.** What the request sends starts with
the text of its system message if and only if nothing is cut, or the cut ends at another system
message with the same text. -/
theorem process_chat_payload_system_iff (conv : Conversions) (chat : Chat) (r : Request)
    (fields : Chats.Message) (messages : List Message) (system_prompt : Json)
    (hsystem : r.system_message = some fields) (hrole : fields.field "role" = .str "system")
    (hprepare : r.prepare chat.branch = .ok (messages, system_prompt)) :
    ∃ sent, (process_chat_payload conv chat r).sent = chat.sent ++ [sent] ∧
      (SystemFirst ⟨fields, none, []⟩ sent.messages ↔
        Uncut conv r messages system_prompt ∨
          SystemAgain conv r messages system_prompt ⟨fields, none, []⟩) := by
  rw [← systemFirst_handedOn_iff (Request.systemFirst hsystem hrole hprepare)]
  unfold process_chat_payload handedOn
  rw [hprepare]
  dsimp only
  cases compact_messages_for_request conv r.config r.compact_token_threshold messages system_prompt
      r.response with
  | error e => exact ⟨_, rfl, Iff.rfl⟩
  | ok c => exact ⟨_, rfl, Iff.rfl⟩

/-- A user message, with or without a checkpoint. -/
def userMessage (checkpoint : Bool) : StoredMessage where
  fields := [("role", .str "user"), ("content", .str "text")] ++
    if checkpoint then [("contextSummary", .str "summary")] else []
  covers := []

/-- The system message of a request. -/
def briefSystem : Chats.Message := [("role", .str "system"), ("content", .str "Be brief.")]

/-- A request on a branch of one message, with the threshold that is configured by default. -/
def briefRequest : Request :=
  ⟨0, false, some briefSystem, .null, ⟨true, 80000⟩, .null, .ok "summary"⟩

/-- Without a checkpoint and without need to compact, the theorem applies. -/
theorem process_chat_payload_system_brief :
    ∃ sent, (process_chat_payload plainConversions ⟨[userMessage false], []⟩ briefRequest).sent =
        [] ++ [sent] ∧
      (SystemFirst ⟨briefSystem, none, []⟩ sent.messages ↔
        Uncut plainConversions briefRequest
            [⟨briefSystem, none, []⟩, ⟨(userMessage false).fields, some 0, []⟩] (.str "Be brief.") ∨
          SystemAgain plainConversions briefRequest
            [⟨briefSystem, none, []⟩, ⟨(userMessage false).fields, some 0, []⟩] (.str "Be brief.")
            ⟨briefSystem, none, []⟩) :=
  process_chat_payload_system_iff plainConversions ⟨[userMessage false], []⟩ briefRequest briefSystem
    [⟨briefSystem, none, []⟩, ⟨(userMessage false).fields, some 0, []⟩] (.str "Be brief.") rfl
    (by decide) rfl

/-- **A checkpoint on the first message of the branch drops the system message.** -/
theorem checkpoint_drops_system :
    ((process_chat_payload plainConversions ⟨[userMessage true], []⟩ briefRequest).sent.map
        fun sent => sent.messages.map fun m => m.get "role") = [[.str "user"]] ∧
      ∀ sent ∈ (process_chat_payload plainConversions ⟨[userMessage true], []⟩ briefRequest).sent,
        ¬ SystemFirst ⟨briefSystem, none, []⟩ sent.messages := by
  have hroles : ((process_chat_payload plainConversions ⟨[userMessage true], []⟩
      briefRequest).sent.map fun sent => sent.messages.map fun m => m.get "role") =
        [[.str "user"]] := by
    decide
  refine ⟨hroles, ?_⟩
  rintro sent hsent ⟨m, hm, hrole, -⟩
  have hmem : (sent.messages.map fun m => m.get "role") ∈ [[Json.str "user"]] := by
    rw [← hroles]
    exact List.mem_map_of_mem hsent
  rw [List.mem_singleton] at hmem
  have hhead : (sent.messages.map fun m => m.get "role").head? = some (.str "system") := by
    rw [List.head?_map, hm, Option.map_some, hrole]
  rw [hmem] at hhead
  simp at hhead

end OpenLaunch.Context
