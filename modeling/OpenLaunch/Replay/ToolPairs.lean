import OpenLaunch.Python.Json
import OpenLaunch.Python.Text

/-! # Tool pairs

A conversation that is replayed to a provider holds the tool calls of the assistant's messages and,
in messages of their own, the results of these calls. Stored output can be incomplete, so two
functions drop what has no partner: `reconcile_tool_pairs` from the messages that were made of
stored output, and `sanitize_tool_pairs` from a whole request.

Both go by the ids of the whole list. The pairing that a provider asks for is one in order: a call
is answered in the same turn, and a result comes after its call. -/

namespace OpenLaunch.Replay

open Python

/-! ## Messages -/

/-- A tool call of a message: its `id`, and its other fields. -/
structure ToolCall where
  id : Option String
  fields : List (String × Json)
  deriving DecidableEq

/-- A message in the shape of the chat completion interface. The fields that the two functions read
are apart from the others. -/
structure ChatMessage where
  role : String
  content : Option Json
  tool_calls : Option (List ToolCall)
  tool_call_id : Option String
  reasoning_content : Option Json
  reasoning_items : Option Json
  fields : List (String × Json)
  deriving DecidableEq

/-- `message.get('tool_calls') or []`. -/
def ChatMessage.calls (message : ChatMessage) : List ToolCall := message.tool_calls.getD []

/-- The tool calls of an assistant message. -/
def ChatMessage.issued (message : ChatMessage) : List ToolCall :=
  if message.role = "assistant" then message.calls else []

/-- The truth of an id. -/
def idTruthy (id : Option String) : Bool := id ≠ none ∧ id ≠ some ""

/-- The truth of a field that may be missing. -/
def fieldTruthy (field : Option Json) : Bool := (field.map Json.truthy).getD false

/-! ## The ids of a list -/

/-- `completed_tool_call_ids`, and the `tool_result_ids` of the other function. -/
def completed_tool_call_ids (messages : List ChatMessage) : List (Option String) :=
  (messages.filter fun message => message.role = "tool" ∧ idTruthy message.tool_call_id).map
    ChatMessage.tool_call_id

/-- All tool calls of assistant messages. -/
def toolCalls (messages : List ChatMessage) : List ToolCall := messages.flatMap ChatMessage.issued

/-- All tool messages. -/
def toolMessages (messages : List ChatMessage) : List ChatMessage :=
  messages.filter fun message => message.role = "tool"

/-- `requested_tool_call_ids`, and the `tool_call_ids` of the other function. -/
def requested_tool_call_ids (messages : List ChatMessage) : List (Option String) :=
  ((toolCalls messages).map ToolCall.id).filter idTruthy

/-! ## The two functions -/

/-- `has_meaningful_content`. -/
def has_meaningful_content (message : ChatMessage) : Bool :=
  match message.content with
  | some (.str s) => strip s.toList ≠ []
  | content => fieldTruthy content

/-- The body of the loop of `reconcile_tool_pairs`: what is appended for a message. -/
def reconcile_message (completed requested : List (Option String)) (message : ChatMessage) :
    Option ChatMessage :=
  if message.role = "tool" ∧ message.tool_call_id ∉ requested then none
  else if message.role ≠ "assistant" ∨ message.calls = [] then some message
  else
    let valid_tool_calls := message.calls.filter fun tool_call => tool_call.id ∈ completed
    if valid_tool_calls ≠ [] then some { message with tool_calls := some valid_tool_calls }
    else if has_meaningful_content message || fieldTruthy message.reasoning_content then
      some { message with tool_calls := none }
    else none

/-- `reconcile_tool_pairs`. -/
def reconcile_tool_pairs (messages : List ChatMessage) : List ChatMessage :=
  messages.filterMap
    (reconcile_message (completed_tool_call_ids messages) (requested_tool_call_ids messages))

/-- The body of the loop of `sanitize_tool_pairs`. -/
def sanitize_message (tool_result_ids tool_call_ids : List (Option String))
    (message : ChatMessage) : Option ChatMessage :=
  if message.role = "assistant" ∧ message.calls ≠ [] then
    let kept := message.calls.filter fun tool_call => tool_call.id ∈ tool_result_ids
    if kept ≠ [] then some { message with tool_calls := some kept }
    else
      let clean := { message with tool_calls := none, reasoning_items := none }
      if fieldTruthy clean.content then some clean else none
  else if message.role ≠ "tool" ∨ message.tool_call_id ∈ tool_call_ids then some message
  else none

/-- `sanitize_tool_pairs`. -/
def sanitize_tool_pairs (messages : List ChatMessage) : List ChatMessage :=
  messages.filterMap
    (sanitize_message (completed_tool_call_ids messages) (requested_tool_call_ids messages))

/-! ## Pairing -/

/-- **Pairing by id**: every tool call has a non-empty id that a tool message of the list has, and
every tool message a non-empty id that an assistant message of the list issued. -/
def PairedById (messages : List ChatMessage) : Prop :=
  (∀ tool_call ∈ toolCalls messages, idTruthy tool_call.id ∧
    ∃ result ∈ toolMessages messages, result.tool_call_id = tool_call.id) ∧
  ∀ result ∈ toolMessages messages, idTruthy result.tool_call_id ∧
    ∃ tool_call ∈ toolCalls messages, tool_call.id = result.tool_call_id

/-- The messages before the next assistant turn. -/
def turn (after : List ChatMessage) : List ChatMessage :=
  after.takeWhile fun message => message.role ≠ "assistant"

/-- **Pairing in order**, of the ids that satisfy `P`, in what follows messages that issued some
ids: every tool call is answered by a tool message before the next assistant turn, and every tool
message is preceded by an assistant message that issued its id. -/
def PairedFrom (P : Option String → Bool) (issuedIds : List (Option String)) :
    List ChatMessage → Prop
  | [] => True
  | message :: after =>
    (∀ tool_call ∈ message.issued, P tool_call.id →
      ∃ result ∈ turn after, result.role = "tool" ∧ result.tool_call_id = tool_call.id) ∧
    (message.role = "tool" → P message.tool_call_id → message.tool_call_id ∈ issuedIds) ∧
    PairedFrom P (issuedIds ++ message.issued.map ToolCall.id) after

instance decidablePairedFrom (P : Option String → Bool) : (issuedIds : List (Option String)) →
    (messages : List ChatMessage) → Decidable (PairedFrom P issuedIds messages)
  | _, [] => isTrue trivial
  | issuedIds, message :: after =>
    have := decidablePairedFrom P (issuedIds ++ message.issued.map ToolCall.id) after
    inferInstanceAs (Decidable (_ ∧ _ ∧ _))

/-- Every tool call and every tool message is paired in order. -/
def PairedInOrder (messages : List ChatMessage) : Prop := PairedFrom (fun _ => true) [] messages

instance (messages : List ChatMessage) : Decidable (PairedInOrder messages) :=
  decidablePairedFrom _ _ _

/-- The ids of a list that both a call and a result have. -/
def matched (messages : List ChatMessage) (id : Option String) : Bool :=
  id ∈ completed_tool_call_ids messages ∧ id ∈ requested_tool_call_ids messages

/-- No tool call and no tool message is without an id. -/
def NonEmptyIds (messages : List ChatMessage) : Prop :=
  (∀ tool_call ∈ toolCalls messages, idTruthy tool_call.id) ∧
    ∀ result ∈ toolMessages messages, idTruthy result.tool_call_id

instance (messages : List ChatMessage) : Decidable (NonEmptyIds messages) :=
  inferInstanceAs (Decidable (_ ∧ _))

/-! ## Repair

The two functions differ in what they do with an assistant message that loses all its calls. The
rest is one function of this treatment. -/

/-- What a repair keeps of a message, `orphaned` being its treatment of a message that loses all its
calls. -/
def repairMessage (orphaned : ChatMessage → Option ChatMessage)
    (completed requested : List (Option String)) (message : ChatMessage) : Option ChatMessage :=
  if message.role = "tool" then if message.tool_call_id ∈ requested then some message else none
  else if message.issued = [] then some message
  else
    let kept := message.issued.filter fun tool_call => tool_call.id ∈ completed
    if kept = [] then orphaned message else some { message with tool_calls := some kept }

/-- The repair of a list, by its own ids. -/
def repair (orphaned : ChatMessage → Option ChatMessage) (messages : List ChatMessage) :
    List ChatMessage :=
  messages.filterMap
    (repairMessage orphaned (completed_tool_call_ids messages) (requested_tool_call_ids messages))

/-- A treatment that takes the calls away and leaves the role. -/
def Strips (orphaned : ChatMessage → Option ChatMessage) : Prop :=
  ∀ message clean, orphaned message = some clean →
    clean.role = message.role ∧ clean.tool_calls = none

/-- How `reconcile_tool_pairs` treats a message that loses all its calls. -/
def reconcileOrphaned (message : ChatMessage) : Option ChatMessage :=
  if has_meaningful_content message || fieldTruthy message.reasoning_content then
    some { message with tool_calls := none }
  else none

/-- How `sanitize_tool_pairs` treats it. -/
def sanitizeOrphaned (message : ChatMessage) : Option ChatMessage :=
  if fieldTruthy message.content then
    some { message with tool_calls := none, reasoning_items := none }
  else none

theorem strips_reconcileOrphaned : Strips reconcileOrphaned := by
  intro message clean h
  unfold reconcileOrphaned at h
  split at h <;> simp at h
  simp [← h]

theorem strips_sanitizeOrphaned : Strips sanitizeOrphaned := by
  intro message clean h
  unfold sanitizeOrphaned at h
  split at h <;> simp at h
  simp [← h]

/-- `reconcile_tool_pairs` is a repair. -/
theorem reconcile_tool_pairs_eq (messages : List ChatMessage) :
    reconcile_tool_pairs messages = repair reconcileOrphaned messages := by
  unfold reconcile_tool_pairs repair
  congr 1
  funext message
  simp only [reconcile_message, repairMessage, reconcileOrphaned]
  by_cases hassistant : message.role = "assistant"
  · have htool : message.role ≠ "tool" := by simp [hassistant]
    have hissued : message.issued = message.calls := if_pos hassistant
    rw [if_neg fun h => htool h.1, if_neg htool, hissued]
    by_cases hcalls : message.calls = []
    · rw [if_pos (Or.inr hcalls), if_pos hcalls]
    · rw [if_neg (by simp [hassistant, hcalls]), if_neg hcalls, ite_not]
  · have hissued : message.issued = [] := if_neg hassistant
    rw [if_pos (Or.inl hassistant : message.role ≠ "assistant" ∨ _), if_pos hissued, ite_and]
    simp only [ite_not]

/-- `sanitize_tool_pairs` is a repair. -/
theorem sanitize_tool_pairs_eq (messages : List ChatMessage) :
    sanitize_tool_pairs messages = repair sanitizeOrphaned messages := by
  unfold sanitize_tool_pairs repair
  congr 1
  funext message
  simp only [sanitize_message, repairMessage, sanitizeOrphaned]
  by_cases hassistant : message.role = "assistant"
  · have htool : message.role ≠ "tool" := by simp [hassistant]
    have hissued : message.issued = message.calls := if_pos hassistant
    rw [if_neg htool, hissued]
    by_cases hcalls : message.calls = []
    · rw [if_neg fun h => h.2 hcalls, if_pos hcalls, if_pos (Or.inl htool)]
    · rw [if_pos ⟨hassistant, hcalls⟩, if_neg hcalls, ite_not]
  · have hissued : message.issued = [] := if_neg hassistant
    rw [if_neg fun h => hassistant h.1, if_pos hissued]
    by_cases htool : message.role = "tool"
    · rw [if_pos htool]
      exact if_congr (or_iff_right (not_not_intro htool)) rfl rfl
    · rw [if_neg htool, if_pos (Or.inl htool)]

/-! ### What a repair leaves -/

section Repair

variable {orphaned : ChatMessage → Option ChatMessage} {completed requested : List (Option String)}
  {message : ChatMessage}

/-- A message that stays has the role it had. -/
theorem role_repairMessage (horphaned : Strips orphaned) {clean : ChatMessage}
    (h : repairMessage orphaned completed requested message = some clean) :
    clean.role = message.role := by
  unfold repairMessage at h
  simp only at h
  split at h
  · split at h <;> simp at h
    rw [h]
  · split at h
    · simp at h
      rw [h]
    · split at h
      · exact (horphaned message clean h).1
      · simp at h
        rw [← h]

/-- The calls that stay are those whose id was answered. -/
theorem issued_repairMessage (horphaned : Strips orphaned) :
    (repairMessage orphaned completed requested message).toList.flatMap ChatMessage.issued =
      message.issued.filter fun tool_call => tool_call.id ∈ completed := by
  have hissued (htool : message.role = "tool") : message.issued = [] := by
    simp [ChatMessage.issued, htool]
  unfold repairMessage
  simp only
  split
  · next htool => split <;> simp [hissued htool]
  · split
    · next hnone => simp [hnone]
    · next htool hsome =>
      have hassistant : message.role = "assistant" := by
        by_contra hne
        exact hsome (if_neg hne)
      split
      · next hkept =>
        rw [hkept]
        cases hclean : orphaned message with
        | none => rfl
        | some clean =>
          simp [ChatMessage.issued, ChatMessage.calls, (horphaned message clean hclean).2]
      · simp [ChatMessage.issued, ChatMessage.calls, hassistant]

/-- The tool messages that stay are those whose id was issued. -/
theorem tools_repairMessage (horphaned : Strips orphaned) :
    toolMessages (repairMessage orphaned completed requested message).toList =
      (toolMessages [message]).filter fun result => result.tool_call_id ∈ requested := by
  by_cases htool : message.role = "tool"
  · by_cases hid : message.tool_call_id ∈ requested
    · simp [repairMessage, toolMessages, htool, hid]
    · simp [repairMessage, toolMessages, htool, hid]
  · cases hclean : repairMessage orphaned completed requested message with
    | none => simp [toolMessages, htool]
    | some clean =>
      have hrole := role_repairMessage horphaned hclean
      simp [toolMessages, hrole, htool]

theorem toolCalls_filterMap (horphaned : Strips orphaned) (messages : List ChatMessage) :
    toolCalls (messages.filterMap (repairMessage orphaned completed requested)) =
      (toolCalls messages).filter fun tool_call => tool_call.id ∈ completed := by
  induction messages with
  | nil => rfl
  | cons message messages ih =>
    have hhead := @issued_repairMessage orphaned completed requested message horphaned
    simp only [toolCalls, List.flatMap_cons, List.filter_append] at ih ⊢
    rw [← ih, ← hhead]
    cases h : repairMessage orphaned completed requested message with
    | none => simp [h]
    | some clean => simp [h]

theorem toolMessages_filterMap (horphaned : Strips orphaned) (messages : List ChatMessage) :
    toolMessages (messages.filterMap (repairMessage orphaned completed requested)) =
      (toolMessages messages).filter fun result => result.tool_call_id ∈ requested := by
  induction messages with
  | nil => rfl
  | cons message messages ih =>
    have hhead := @tools_repairMessage orphaned completed requested message horphaned
    have hsplit (m : ChatMessage) (ms : List ChatMessage) :
        toolMessages (m :: ms) = toolMessages [m] ++ toolMessages ms :=
      List.filter_append [m] ms
    rw [hsplit, List.filter_append, ← hhead, ← ih]
    cases h : repairMessage orphaned completed requested message with
    | none => simp [h, toolMessages]
    | some clean =>
      rw [List.filterMap_cons_some h]
      exact hsplit clean _

end Repair

section Ids

variable {messages : List ChatMessage} {id : Option String}

theorem mem_completed : id ∈ completed_tool_call_ids messages ↔
    idTruthy id ∧ ∃ result ∈ toolMessages messages, result.tool_call_id = id := by
  simp only [completed_tool_call_ids, toolMessages, List.mem_map, List.mem_filter,
    decide_eq_true_eq]
  constructor
  · rintro ⟨result, ⟨hmem, hrole, hid⟩, rfl⟩
    exact ⟨hid, result, ⟨hmem, hrole⟩, rfl⟩
  · rintro ⟨hid, result, ⟨hmem, hrole⟩, rfl⟩
    exact ⟨result, ⟨hmem, hrole, hid⟩, rfl⟩

theorem mem_requested : id ∈ requested_tool_call_ids messages ↔
    idTruthy id ∧ ∃ tool_call ∈ toolCalls messages, tool_call.id = id := by
  simp only [requested_tool_call_ids, List.mem_filter, List.mem_map]
  exact and_comm

end Ids

/-! ### The whole list -/

section Lists

variable {orphaned : ChatMessage → Option ChatMessage} {messages : List ChatMessage}

/-- **A repair leaves the calls whose id has a result**, in their order. -/
theorem toolCalls_repair (horphaned : Strips orphaned) :
    toolCalls (repair orphaned messages) =
      (toolCalls messages).filter fun tool_call =>
        tool_call.id ∈ completed_tool_call_ids messages :=
  toolCalls_filterMap horphaned messages

/-- **A repair leaves the results whose id has a call**, in their order. -/
theorem toolMessages_repair (horphaned : Strips orphaned) :
    toolMessages (repair orphaned messages) =
      (toolMessages messages).filter fun result =>
        result.tool_call_id ∈ requested_tool_call_ids messages :=
  toolMessages_filterMap horphaned messages

/-- After a repair everything is paired by id: the partner of what stays has an id of both kinds, so
it stays as well. -/
theorem pairedById_repair (horphaned : Strips orphaned) :
    PairedById (repair orphaned messages) := by
  unfold PairedById
  rw [toolCalls_repair horphaned, toolMessages_repair horphaned]
  simp only [List.mem_filter, decide_eq_true_eq, mem_completed, mem_requested]
  constructor
  · rintro tool_call ⟨hcall, hid, result, hresult, heq⟩
    refine ⟨hid, result, ⟨hresult, ?_⟩, heq⟩
    exact ⟨heq ▸ hid, tool_call, hcall, heq.symm⟩
  · rintro result ⟨hresult, hid, tool_call, hcall, heq⟩
    refine ⟨hid, tool_call, ⟨hcall, ?_⟩, heq⟩
    exact ⟨heq ▸ hid, result, hresult, heq.symm⟩

/-- A message whose ids all have a partner is left as it is. -/
theorem repairMessage_eq_self {completed requested : List (Option String)} {message : ChatMessage}
    (hcalls : ∀ tool_call ∈ message.issued, tool_call.id ∈ completed)
    (hresult : message.role = "tool" → message.tool_call_id ∈ requested) :
    repairMessage orphaned completed requested message = some message := by
  unfold repairMessage
  simp only
  split
  · next htool => rw [if_pos (hresult htool)]
  · split
    · rfl
    · next hissued =>
      have hassistant : message.role = "assistant" := by
        by_contra hne
        exact hissued (if_neg hne)
      have hkept : (message.issued.filter fun tool_call => tool_call.id ∈ completed) =
          message.issued := by
        rw [List.filter_eq_self]
        simpa using hcalls
      rw [hkept, if_neg hissued]
      -- the calls are those of a field that is there
      have hfield : some message.issued = message.tool_calls := by
        rw [ChatMessage.issued, if_pos hassistant] at hissued ⊢
        unfold ChatMessage.calls at hissued ⊢
        cases h : message.tool_calls with
        | none => simp [h] at hissued
        | some calls => rfl
      rw [hfield]

/-- **A list is left as it is if and only if it is paired by id.** -/
theorem repair_eq_self_iff (horphaned : Strips orphaned) :
    repair orphaned messages = messages ↔ PairedById messages := by
  constructor
  · intro h
    rw [← h]
    exact pairedById_repair horphaned
  · rintro ⟨hcalls, hresults⟩
    have hself : ∀ message ∈ messages, repairMessage orphaned (completed_tool_call_ids messages)
        (requested_tool_call_ids messages) message = some message := by
      intro message hmem
      apply repairMessage_eq_self
      · intro tool_call hcall
        exact mem_completed.mpr (hcalls tool_call (List.mem_flatMap.mpr ⟨message, hmem, hcall⟩))
      · intro htool
        exact mem_requested.mpr (hresults message (by simp [toolMessages, hmem, htool]))
    unfold repair
    rw [List.filterMap_congr hself, List.filterMap_some]

/-- A second repair, also by the other treatment, changes nothing. -/
theorem repair_repair {orphaned' : ChatMessage → Option ChatMessage} (horphaned : Strips orphaned)
    (horphaned' : Strips orphaned') :
    repair orphaned' (repair orphaned messages) = repair orphaned messages :=
  (repair_eq_self_iff horphaned').mpr (pairedById_repair horphaned)

end Lists

/-! ### The order -/

/-- What is paired in order has its partners somewhere. -/
theorem partners_of_pairedFrom {P : Option String → Bool} {issuedIds : List (Option String)}
    {messages : List ChatMessage} (h : PairedFrom P issuedIds messages) :
    (∀ tool_call ∈ toolCalls messages, P tool_call.id →
      ∃ result ∈ toolMessages messages, result.tool_call_id = tool_call.id) ∧
    ∀ result ∈ toolMessages messages, P result.tool_call_id →
      result.tool_call_id ∈ issuedIds ++ (toolCalls messages).map ToolCall.id := by
  induction messages generalizing issuedIds with
  | nil => simp [toolCalls, toolMessages]
  | cons message messages ih =>
    obtain ⟨hcalls, hresult, hrest⟩ := h
    obtain ⟨ihcalls, ihresults⟩ := ih hrest
    constructor
    · intro tool_call hmem hP
      rw [toolCalls, List.flatMap_cons, List.mem_append] at hmem
      rcases hmem with hmem | hmem
      · obtain ⟨result, hturn, hrole, hid⟩ := hcalls tool_call hmem hP
        have hresult : result ∈ messages := List.takeWhile_subset _ hturn
        exact ⟨result, by simp [toolMessages, hresult, hrole], hid⟩
      · obtain ⟨result, hmem', hid⟩ := ihcalls tool_call hmem hP
        rw [toolMessages, List.mem_filter] at hmem'
        exact ⟨result, by simp [toolMessages, hmem'.1, hmem'.2], hid⟩
    · intro result hmem hP
      simp only [toolCalls, List.flatMap_cons, List.map_append]
      rw [toolMessages, List.mem_filter, decide_eq_true_eq, List.mem_cons] at hmem
      rcases hmem.1 with rfl | hmem'
      · exact List.mem_append_left _ (hresult hmem.2 hP)
      · have := ihresults result (by simp [toolMessages, hmem', hmem.2]) hP
        rwa [List.append_assoc] at this

/-- A list that is paired in order is paired by id if and only if no id is empty. -/
theorem pairedById_iff_nonEmptyIds {messages : List ChatMessage} (h : PairedInOrder messages) :
    PairedById messages ↔ NonEmptyIds messages := by
  obtain ⟨hcalls, hresults⟩ := partners_of_pairedFrom h
  constructor
  · rintro ⟨hc, hr⟩
    exact ⟨fun tool_call hmem => (hc tool_call hmem).1, fun result hmem => (hr result hmem).1⟩
  · rintro ⟨hc, hr⟩
    refine ⟨fun tool_call hmem => ⟨hc tool_call hmem, hcalls tool_call hmem rfl⟩,
      fun result hmem => ⟨hr result hmem, ?_⟩⟩
    simpa using hresults result hmem rfl

/-- A result of a turn that stays is a result of the repaired turn. -/
theorem mem_turn_filterMap {f : ChatMessage → Option ChatMessage}
    (hrole : ∀ message clean, f message = some clean → clean.role = message.role)
    {after : List ChatMessage} {result : ChatMessage} (hmem : result ∈ turn after)
    (hself : f result = some result) : result ∈ turn (after.filterMap f) := by
  induction after with
  | nil => simp [turn] at hmem
  | cons message after ih =>
    unfold turn at hmem ih ⊢
    rw [List.takeWhile_cons] at hmem
    split at hmem
    · next hne =>
      rw [decide_eq_true_eq] at hne
      cases hf : f message with
      | none =>
        rw [List.filterMap_cons_none hf]
        rcases List.mem_cons.mp hmem with rfl | hmem
        · rw [hself] at hf
          cases hf
        · exact ih hmem
      | some clean =>
        rw [List.filterMap_cons_some hf, List.takeWhile_cons,
          if_pos (by simpa [hrole message clean hf] using hne)]
        rcases List.mem_cons.mp hmem with rfl | hmem
        · rw [hself, Option.some.injEq] at hf
          rw [hf]
          exact List.mem_cons_self
        · exact List.mem_cons_of_mem _ (ih hmem)
    · simp at hmem

/-- A repair of a list whose matched ids are paired in order is paired in order. The ids issued
before are carried along: those of them that have a result are still issued. -/
theorem pairedFrom_filterMap {orphaned : ChatMessage → Option ChatMessage}
    (horphaned : Strips orphaned) {completed requested issuedIds issuedIds' : List (Option String)}
    {messages : List ChatMessage}
    (hc : ∀ tool_call ∈ toolCalls messages, tool_call.id ∈ completed → tool_call.id ∈ requested)
    (hr : ∀ result ∈ toolMessages messages, result.tool_call_id ∈ requested →
      result.tool_call_id ∈ completed)
    (hids : ∀ id ∈ issuedIds, id ∈ completed → id ∈ issuedIds')
    (h : PairedFrom (fun id => id ∈ completed ∧ id ∈ requested) issuedIds messages) :
    PairedFrom (fun _ => true) issuedIds'
      (messages.filterMap (repairMessage orphaned completed requested)) := by
  induction messages generalizing issuedIds issuedIds' with
  | nil => trivial
  | cons message after ih =>
    obtain ⟨hcalls, hresult, hrest⟩ := h
    simp only [toolCalls, List.flatMap_cons, List.forall_mem_append] at hc
    have hr' : ∀ result ∈ toolMessages after, result.tool_call_id ∈ requested →
        result.tool_call_id ∈ completed := by
      intro result hmem
      refine hr result ?_
      rw [toolMessages, List.mem_filter] at hmem ⊢
      exact ⟨List.mem_cons_of_mem _ hmem.1, hmem.2⟩
    have hissued := @issued_repairMessage orphaned completed requested message horphaned
    cases hclean : repairMessage orphaned completed requested message with
    | none =>
      rw [List.filterMap_cons_none hclean]
      refine ih hc.2 hr' (fun id hmem hid => ?_) hrest
      -- a message that goes has no call whose id has a result
      rw [hclean] at hissued
      rcases List.mem_append.mp hmem with hmem | hmem
      · exact hids id hmem hid
      · obtain ⟨tool_call, hcall, rfl⟩ := List.mem_map.mp hmem
        have := List.filter_eq_nil_iff.mp hissued.symm tool_call hcall
        simp [hid] at this
    | some clean =>
      have hrole := role_repairMessage horphaned hclean
      have hclean' : clean.issued =
          message.issued.filter fun tool_call => tool_call.id ∈ completed := by
        simpa [hclean] using hissued
      rw [List.filterMap_cons_some hclean]
      refine ⟨fun tool_call hcall _ => ?_, fun htool _ => ?_, ?_⟩
      · rw [hclean', List.mem_filter, decide_eq_true_eq] at hcall
        have hreq := hc.1 tool_call hcall.1 hcall.2
        obtain ⟨result, hturn, hres, hid⟩ := hcalls tool_call hcall.1 (by simp [hcall.2, hreq])
        refine ⟨result, ?_, hres, hid⟩
        apply mem_turn_filterMap (fun m c => role_repairMessage horphaned) hturn
        rw [repairMessage, if_pos hres, if_pos (hid ▸ hreq)]
      · have htool' : message.role = "tool" := hrole ▸ htool
        have hreq : message.tool_call_id ∈ requested ∧ clean = message := by
          rw [repairMessage, if_pos htool'] at hclean
          split at hclean
          · next hreq => exact ⟨hreq, (Option.some.inj hclean).symm⟩
          · cases hclean
        have hcomp := hr message (by simp [toolMessages, htool']) hreq.1
        rw [hreq.2]
        exact hids _ (hresult htool' (by simp [hcomp, hreq.1])) hcomp
      · refine ih hc.2 hr' (fun id hmem hid => ?_) hrest
        rw [hclean', List.mem_append]
        rcases List.mem_append.mp hmem with hmem | hmem
        · exact Or.inl (hids id hmem hid)
        · obtain ⟨tool_call, hcall, rfl⟩ := List.mem_map.mp hmem
          refine Or.inr (List.mem_map_of_mem ?_)
          simp [hcall, hid]

/-- **A repair pairs in order** where the ids that both a call and a result have are paired so. -/
theorem pairedInOrder_repair {orphaned : ChatMessage → Option ChatMessage}
    (horphaned : Strips orphaned) {messages : List ChatMessage}
    (h : PairedFrom (matched messages) [] messages) :
    PairedInOrder (repair orphaned messages) := by
  refine pairedFrom_filterMap horphaned (fun tool_call hmem hid => ?_)
    (fun result hmem hid => ?_) (by simp) h
  · exact mem_requested.mpr ⟨(mem_completed.mp hid).1, tool_call, hmem, rfl⟩
  · exact mem_completed.mpr ⟨(mem_requested.mp hid).1, result, hmem, rfl⟩

/-! ## The results -/

/-- What a repair function guarantees of every list. -/
structure Repairs (f : List ChatMessage → List ChatMessage) (messages : List ChatMessage) :
    Prop where
  /-- The calls whose id has a result stay, in their order. -/
  calls : toolCalls (f messages) =
    (toolCalls messages).filter fun tool_call => tool_call.id ∈ completed_tool_call_ids messages
  /-- The results whose id has a call stay, in their order. -/
  results : toolMessages (f messages) =
    (toolMessages messages).filter fun result =>
      result.tool_call_id ∈ requested_tool_call_ids messages
  /-- What is left is paired by id. -/
  paired : PairedById (f messages)
  /-- It is paired in order if the ids that both a call and a result have are paired so. -/
  ordered : PairedFrom (matched messages) [] messages → PairedInOrder (f messages)
  /-- A list that is paired in order is left as it is if and only if no id is empty. -/
  unchanged : PairedInOrder messages → (f messages = messages ↔ NonEmptyIds messages)
  /-- A second application changes nothing. -/
  idempotent : f (f messages) = f messages

theorem repairs_repair {orphaned : ChatMessage → Option ChatMessage} (horphaned : Strips orphaned)
    (messages : List ChatMessage) : Repairs (repair orphaned) messages where
  calls := toolCalls_repair horphaned
  results := toolMessages_repair horphaned
  paired := pairedById_repair horphaned
  ordered := pairedInOrder_repair horphaned
  unchanged h := (repair_eq_self_iff horphaned).trans (pairedById_iff_nonEmptyIds h)
  idempotent := repair_repair horphaned horphaned

/-- **Both functions repair every list by id, and leave the same calls and the same results.** What
they leave is paired in order only where the list pairs its ids so, and a pair without an id goes.
-/
theorem tool_pairs_repaired (messages : List ChatMessage) :
    Repairs reconcile_tool_pairs messages ∧ Repairs sanitize_tool_pairs messages ∧
      toolCalls (reconcile_tool_pairs messages) = toolCalls (sanitize_tool_pairs messages) ∧
      toolMessages (reconcile_tool_pairs messages) =
        toolMessages (sanitize_tool_pairs messages) := by
  have hreconcile : reconcile_tool_pairs = repair reconcileOrphaned :=
    funext reconcile_tool_pairs_eq
  have hsanitize : sanitize_tool_pairs = repair sanitizeOrphaned := funext sanitize_tool_pairs_eq
  rw [hreconcile, hsanitize]
  refine ⟨repairs_repair strips_reconcileOrphaned messages,
    repairs_repair strips_sanitizeOrphaned messages, ?_, ?_⟩
  · rw [toolCalls_repair strips_reconcileOrphaned, toolCalls_repair strips_sanitizeOrphaned]
  · rw [toolMessages_repair strips_reconcileOrphaned, toolMessages_repair strips_sanitizeOrphaned]

/-- An assistant message with one call of an id. -/
def callMessage (id : String) : ChatMessage :=
  ⟨"assistant", some (.str ""), some [⟨some id, []⟩], none, none, none, []⟩

/-- A tool message for an id. -/
def resultMessage (id : String) : ChatMessage :=
  ⟨"tool", some (.str "done"), none, some id, none, none, []⟩

/-- A result that comes before its call stays, with the call; and a call with an empty id that is
answered at once goes, with its result. -/
theorem tool_pairs_out_of_order :
    (¬ PairedInOrder (reconcile_tool_pairs [resultMessage "a", callMessage "a"]) ∧
      ¬ PairedInOrder (sanitize_tool_pairs [resultMessage "a", callMessage "a"])) ∧
    PairedInOrder [callMessage "", resultMessage ""] ∧
      reconcile_tool_pairs [callMessage "", resultMessage ""] = [] ∧
      sanitize_tool_pairs [callMessage "", resultMessage ""] = [] := by
  decide

end OpenLaunch.Replay
