import OpenLaunch.Anthropic.Payload
import Mathlib.Data.List.Chain

/-! # The turns of a native request

The roles of the messages alternate, and their blocks are those of the messages of the
OpenAI-shaped request, in order. The texts of its system messages are in the system field. -/

namespace OpenLaunch.Anthropic.Payload

open Python

/-! ## What is expected -/

/-- A message that calls tools has calls that are dictionaries with functions. -/
def ShapedCall (tool_call : Json) : Prop :=
  ∃ kvs function, tool_call = .dict kvs ∧
    ((Assoc.get? kvs "function").getD .null).or (.dict []) = .dict function

/-- A message is a dictionary whose calls are a list. -/
def ShapedMessage (message : Json) : Prop :=
  ∃ kvs tool_calls, message = .dict kvs ∧
    ((Assoc.get? kvs "tool_calls").getD .null).or (.list []) = .list tool_calls ∧
    ∀ tool_call ∈ tool_calls, ShapedCall tool_call

/-- **An OpenAI-shaped payload** with the messages. -/
structure Shaped (kvs : List (String × Json)) (messages : List Json) : Prop where
  messages_eq : (Assoc.get? kvs "messages").getD (.list []) = .list messages
  messages_shaped : ∀ message ∈ messages, ShapedMessage message
  tools : ∃ tools, ((Assoc.get? kvs "tools").getD .null).or (.list []) = .list tools
  tool_choice : ∀ tool_choice, Assoc.get? kvs "tool_choice" = some (.dict tool_choice) →
    ∃ function, ((Assoc.get? tool_choice "function").getD .null).or (.dict []) = .dict function

section

variable (conv : Conversions) (fr : FloatRepr) (uuid4 : ℕ → ℕ → String)

/-- The texts and images of a content. -/
def contentBlocks : Json → List (List (String × Json))
  | .str s => [textBlock (.str s)]
  | .list parts => parts.filterMap openai_part_to_anthropic
  | .null => []
  | content => [textBlock (.str (conv.str content))]

/-- The `tool_use` of a call, with its id, its name and its arguments. -/
def callBlock (uuid4 : String) (tool_call : Json) : List (String × Json) :=
  let call := tool_call.entries
  let function := (((Assoc.get? call "function").getD .null).or (.dict [])).entries
  [("type", .str "tool_use"),
    ("id", ((Assoc.get? call "id").getD .null).or (.str ("toolu_" ++ uuid4))),
    ("name", (Assoc.get? function "name").getD (.str "")),
    ("input", toolInput fr ((Assoc.get? function "arguments").getD (.dict [])))]

/-- The role that a message has in the OpenAI-shaped payload. -/
def roleOf (message : Json) : Json := (Assoc.get? message.entries "role").getD (.str "user")

/-- The content that it has. -/
def contentOf (message : Json) : Json := (Assoc.get? message.entries "content").getD (.str "")

/-- It is a system message. -/
def IsSystem (message : Json) : Prop :=
  roleOf message = .str "system" ∨ roleOf message = .str "developer"

instance (message : Json) : Decidable (IsSystem message) := inferInstanceAs (Decidable (_ ∨ _))

/-- The blocks that are expected of the `i`th message, each with its role. -/
def expected (i : ℕ) (message : Json) : List (Role × List (String × Json)) :=
  if IsSystem message then []
  else if roleOf message = .str "assistant" then
    let calls := (((Assoc.get? message.entries "tool_calls").getD .null).or (.list [])).elems
    (contentBlocks conv (contentOf message) ++
      calls.mapIdx fun j tool_call => callBlock fr (uuid4 i j) tool_call).map (Role.assistant, ·)
  else if roleOf message = .str "tool" then
    [(Role.user, toolResult message.entries
      (openai_content_to_anthropic conv (contentOf message)))]
  else (contentBlocks conv (contentOf message)).map (Role.user, ·)

/-- The texts that are expected in the system field. -/
def expectedSystem (message : Json) : List (List (String × Json)) :=
  if IsSystem message then systemTexts (openai_content_to_anthropic conv (contentOf message))
  else []

/-- The block is no empty text. -/
def nonEmpty (block : Role × List (String × Json)) : Bool :=
  ¬ (Assoc.get? block.2 "type" = some (.str "text") ∧ Assoc.get? block.2 "text" = some (.str ""))

/-- The blocks of the turns, each with the role of its turn. -/
def flatten (turns : List Turn) : List (Role × List (String × Json)) :=
  turns.flatMap fun t => (anthropic_content_blocks t.content).map (t.role, ·)

end

/-! ## Appending turns -/

section

variable {conv : Conversions} {fr : FloatRepr} {uuid4 : ℕ → ℕ → String} {messages : List Turn}
  {role : Role} {content : Content} {message : Json}

theorem flatten_append (turns turns' : List Turn) :
    flatten (turns ++ turns') = flatten turns ++ flatten turns' := List.flatMap_append

/-- Appending a content appends its blocks, whether it becomes a turn or part of the last one. -/
theorem flatten_append_message : flatten (append_anthropic_message messages role content) =
    flatten messages ++ (anthropic_content_blocks content).map (role, ·) := by
  rw [append_anthropic_message]
  split
  · next last hlast =>
    split_ifs with hrole
    · obtain ⟨init, rfl⟩ : ∃ init, messages = init ++ [last] :=
        ⟨_, (List.dropLast_append_getLast? last hlast).symm⟩
      rw [List.dropLast_concat, flatten_append, flatten_append, List.append_assoc]
      simp [flatten, anthropic_content_blocks, hrole]
    · rw [flatten_append]
      simp [flatten]
  · next hnone =>
    rw [List.getLast?_eq_none_iff] at hnone
    subst hnone
    simp [flatten]

/-- The roles alternate. -/
def Alternate (turns : List Turn) : Prop := (turns.map Turn.role).IsChain (· ≠ ·)

theorem alternate_append_message (h : Alternate messages) :
    Alternate (append_anthropic_message messages role content) := by
  rw [append_anthropic_message]
  split
  · next last hlast =>
    obtain ⟨init, rfl⟩ : ∃ init, messages = init ++ [last] :=
      ⟨_, (List.dropLast_append_getLast? last hlast).symm⟩
    split_ifs with hrole
    · rw [List.dropLast_concat]
      rw [Alternate, List.map_append] at h ⊢
      exact h
    · rw [Alternate, List.map_append, List.isChain_append]
      refine ⟨h, List.isChain_singleton _, fun x hx y hy => ?_⟩
      rw [List.map_append, List.map_singleton, List.getLast?_concat] at hx
      cases hx
      cases hy
      exact hrole
  · exact List.isChain_singleton _

/-! ## One message -/

/-- The blocks of a converted content are the texts and images of the content, up to an empty
text. -/
theorem filter_content_blocks (role : Role) (content : Json) :
    ((anthropic_content_blocks (openai_content_to_anthropic conv content)).map
        (role, ·)).filter nonEmpty =
      ((contentBlocks conv content).map (role, ·)).filter nonEmpty := by
  have htext : ∀ s : String, ((anthropic_content_blocks (.text s)).map (role, ·)).filter nonEmpty =
      ([textBlock (.str s)].map (role, ·)).filter nonEmpty := by
    intro s
    rw [anthropic_content_blocks]
    split_ifs with hs
    · subst hs
      simp [nonEmpty, textBlock, Assoc.get?_cons]
    · rfl
  cases content with
  | null => rfl
  | list parts => rfl
  | str s => exact htext s
  | bool b => exact htext _
  | int n => exact htext _
  | float x => exact htext _
  | dict kvs => exact htext _

theorem toolUse_eq {uuid4 : String} {tool_call : Json} (h : ShapedCall tool_call) :
    toolUse fr uuid4 tool_call = .ok (callBlock fr uuid4 tool_call) := by
  obtain ⟨kvs, function, rfl, hfunction⟩ := h
  simp only [toolUse, callBlock, Json.get, Json.getD, Json.entries, bind, Except.bind, pure,
    Except.pure, hfunction]

theorem toolUses_eq {uuid4 : ℕ → String} {tool_calls : List Json}
    (h : ∀ tool_call ∈ tool_calls, ShapedCall tool_call) (j : ℕ) :
    toolUses fr uuid4 j tool_calls =
      .ok (tool_calls.mapIdx fun k tool_call => callBlock fr (uuid4 (j + k)) tool_call) := by
  induction tool_calls generalizing j with
  | nil => rfl
  | cons tool_call tool_calls ih =>
    rw [List.forall_mem_cons] at h
    have hrest : (fun k tool_call => callBlock fr (uuid4 (j + 1 + k)) tool_call) =
        fun k tool_call => callBlock fr (uuid4 (j + (k + 1))) tool_call := by
      funext k tool_call
      rw [Nat.add_assoc, Nat.add_comm 1 k]
    rw [toolUses, toolUse_eq h.1, ih h.2 (j + 1), hrest, List.mapIdx_cons]
    rfl

theorem blocks_assistantContent (converted : Content) (tool_uses : List (List (String × Json))) :
    anthropic_content_blocks (assistantContent converted tool_uses) =
      anthropic_content_blocks converted ++ tool_uses := by
  rw [assistantContent]
  split_ifs with h
  · rw [h]
    rfl
  · rfl

theorem expected_of_assistant {i : ℕ} (hsystem : ¬ IsSystem message)
    (h : roleOf message = .str "assistant") :
    expected conv fr uuid4 i message = (contentBlocks conv (contentOf message) ++
      (((Assoc.get? message.entries "tool_calls").getD .null).or (.list [])).elems.mapIdx
        fun j tool_call => callBlock fr (uuid4 i j) tool_call).map (Role.assistant, ·) := by
  rw [expected, if_neg hsystem, if_pos h]

theorem expected_of_tool {i : ℕ} (hsystem : ¬ IsSystem message)
    (h : roleOf message = .str "tool") :
    expected conv fr uuid4 i message = [(Role.user, toolResult message.entries
      (openai_content_to_anthropic conv (contentOf message)))] := by
  rw [expected, if_neg hsystem, if_neg (by rw [h]; decide), if_pos h]

theorem expected_of_user {i : ℕ} (hsystem : ¬ IsSystem message)
    (hassistant : roleOf message ≠ .str "assistant") (htool : roleOf message ≠ .str "tool") :
    expected conv fr uuid4 i message =
      (contentBlocks conv (contentOf message)).map (Role.user, ·) := by
  rw [expected, if_neg hsystem, if_neg hassistant, if_neg htool]

/-- **What one message adds.** -/
theorem convertMessage_eq (conv : Conversions) (fr : FloatRepr) (uuid4 : ℕ → ℕ → String)
    (h : ShapedMessage message) (i : ℕ) (b : Built) :
    ∃ b', convertMessage conv fr (uuid4 i) b message = .ok b' ∧
      (Alternate b.messages → Alternate b'.messages) ∧
      (flatten b'.messages).filter nonEmpty =
        (flatten b.messages).filter nonEmpty ++
          (expected conv fr uuid4 i message).filter nonEmpty ∧
      b'.system_blocks = b.system_blocks ++ expectedSystem conv message := by
  obtain ⟨kvs, tool_calls, rfl, hcalls, hshaped⟩ := h
  have hrole : (Json.dict kvs).getD "role" (.str "user") = .ok (roleOf (.dict kvs)) := rfl
  have hcontent : (Json.dict kvs).getD "content" (.str "") = .ok (contentOf (.dict kvs)) := rfl
  have hiter : (Json.list tool_calls).iter = .ok tool_calls := rfl
  have helems : (Json.list tool_calls).elems = tool_calls := rfl
  simp only [convertMessage, hrole, hcontent, bind, Except.bind, pure, Except.pure]
  by_cases h : roleOf (.dict kvs) = .str "system" ∨ roleOf (.dict kvs) = .str "developer"
  · have hsystem : IsSystem (.dict kvs) := h
    rw [if_pos h]
    refine ⟨_, rfl, fun h => h, ?_, ?_⟩
    · rw [expected, if_pos hsystem]
      exact (List.append_nil _).symm
    · rw [expectedSystem, if_pos hsystem]
  · have hsystem : ¬ IsSystem (.dict kvs) := h
    have hnone : expectedSystem conv (.dict kvs) = [] := if_neg hsystem
    rw [if_neg h, hnone]
    simp only [List.append_nil]
    by_cases hassistant : roleOf (.dict kvs) = .str "assistant"
    · rw [if_pos hassistant]
      simp only [Json.get, Json.getD, hcalls, hiter, toolUses_eq hshaped 0]
      refine ⟨_, rfl, alternate_append_message, ?_, rfl⟩
      rw [flatten_append_message, List.filter_append, blocks_assistantContent, List.map_append,
        List.filter_append, filter_content_blocks, expected_of_assistant hsystem hassistant,
        Json.entries, hcalls, helems, List.map_append, List.filter_append]
      simp only [Nat.zero_add]
    · rw [if_neg hassistant]
      by_cases htool : roleOf (.dict kvs) = .str "tool"
      · rw [if_pos htool]
        refine ⟨_, rfl, alternate_append_message, ?_, rfl⟩
        rw [flatten_append_message, List.filter_append, expected_of_tool hsystem htool]
        rfl
      · rw [if_neg htool]
        refine ⟨_, rfl, alternate_append_message, ?_, rfl⟩
        rw [flatten_append_message, List.filter_append, filter_content_blocks,
          expected_of_user hsystem hassistant htool]

/-! ## All messages -/

/-- **What the messages add**, one after the other. -/
theorem convertMessages_eq (conv : Conversions) (fr : FloatRepr) (uuid4 : ℕ → ℕ → String)
    {input : List Json} (h : ∀ message ∈ input, ShapedMessage message)
    (i : ℕ) (b : Built) :
    ∃ b', convertMessages conv fr uuid4 i b input = .ok b' ∧
      (Alternate b.messages → Alternate b'.messages) ∧
      (flatten b'.messages).filter nonEmpty =
        (flatten b.messages).filter nonEmpty ++ ((input.mapIdx fun j message =>
          expected conv fr uuid4 (i + j) message).flatten).filter nonEmpty ∧
      b'.system_blocks = b.system_blocks ++ input.flatMap (expectedSystem conv) := by
  induction input generalizing i b with
  | nil => exact ⟨b, rfl, fun h => h, (List.append_nil _).symm, (List.append_nil _).symm⟩
  | cons message input ih =>
    rw [List.forall_mem_cons] at h
    obtain ⟨b₁, hrun₁, halt₁, hflat₁, hsystem₁⟩ :=
      convertMessage_eq conv fr uuid4 h.1 i b
    obtain ⟨b', hrun, halt, hflat, hsystem⟩ := ih h.2 (i + 1) b₁
    have hrest : (fun j message => expected conv fr uuid4 (i + 1 + j) message) =
        fun j message => expected conv fr uuid4 (i + (j + 1)) message := by
      funext j message
      rw [Nat.add_assoc, Nat.add_comm 1 j]
    refine ⟨b', ?_, fun h => halt (halt₁ h), ?_, ?_⟩
    · rw [convertMessages, hrun₁]
      exact hrun
    · rw [hflat, hflat₁, hrest, List.mapIdx_cons, List.flatten_cons, List.filter_append,
        List.append_assoc]
      rfl
    · rw [hsystem, hsystem₁, List.flatMap_cons, List.append_assoc]

/-! ## The payload -/

theorem exists_toolsOf {kvs : List (String × Json)} {input : List Json} (h : Shaped kvs input) :
    ∃ fields, toolsOf kvs = .ok fields ∧ ∀ e ∈ fields, e.1 = "tools" := by
  obtain ⟨tools, htools⟩ := h.tools
  simp only [toolsOf, htools, Json.iter, bind, Except.bind, pure, Except.pure]
  refine ⟨_, rfl, fun e he => ?_⟩
  split_ifs at he
  · cases he
  · rw [List.mem_singleton.mp he]

theorem exists_toolChoiceOf {kvs : List (String × Json)} {input : List Json}
    (h : Shaped kvs input) :
    ∃ fields, toolChoiceOf kvs = .ok fields ∧ ∀ e ∈ fields, e.1 = "tool_choice" := by
  rw [toolChoiceOf]
  split
  · exact ⟨_, rfl, fun e he => by rw [List.mem_singleton.mp he]⟩
  · exact ⟨_, rfl, fun e he => by rw [List.mem_singleton.mp he]⟩
  · exact ⟨_, rfl, fun e he => by rw [List.mem_singleton.mp he]⟩
  · next tool_choice hchoice =>
    split_ifs with hnil
    · exact ⟨_, rfl, List.forall_mem_nil _⟩
    · obtain ⟨v, hv⟩ : ∃ v, Assoc.get? kvs "tool_choice" = some v := by
        cases hget : Assoc.get? kvs "tool_choice" with
        | none =>
          rw [hget] at hchoice
          cases hchoice
        | some v => exact ⟨v, rfl⟩
      rw [hv, Option.getD_some] at hchoice
      subst hchoice
      obtain ⟨function, hfunction⟩ := h.tool_choice tool_choice hv
      simp only [hfunction, Json.get, Json.getD, bind, Except.bind, pure, Except.pure]
      refine ⟨_, rfl, fun e he => ?_⟩
      split_ifs at he
      · rw [List.mem_singleton.mp he]
      · cases he
  · exact ⟨_, rfl, List.forall_mem_nil _⟩

/-- The other fields have other keys than the messages and the system field. -/
theorem get?_other {kvs fields choice : List (String × Json)} {key : String}
    (htools : ∀ e ∈ fields, e.1 = "tools") (hchoice : ∀ e ∈ choice, e.1 = "tool_choice")
    (hkey : key = "system" ∨ key = "messages") :
    Assoc.get? (params kvs ++ metadataOf conv kvs ++ fields ++ choice) key = none := by
  rw [Assoc.get?_eq_none_iff, Assoc.keys, List.mem_map]
  rintro ⟨e, he, rfl⟩
  simp only [List.mem_append] at he
  rcases he with ((he | he) | he) | he
  · obtain ⟨p, hp, hpe⟩ := List.mem_filterMap.mp he
    have htarget : e.1 = p.2 := by
      split at hpe
      · cases hpe
      · cases hpe
      · cases hpe
        rfl
    have htargets : ∀ p ∈ param_map, ¬ (p.2 = "system" ∨ p.2 = "messages") := by decide
    exact htargets p hp (htarget ▸ hkey)
  · rw [metadataOf] at he
    split at he
    · dsimp only at he
      split_ifs at he
      · rw [List.mem_singleton.mp he] at hkey
        simp at hkey
      · cases he
    · cases he
  · rw [htools e he] at hkey
    revert hkey
    decide
  · rw [hchoice e he] at hkey
    revert hkey
    decide

end

/-- **The native request says what the OpenAI-shaped one says.** Its roles alternate, the blocks of
its messages are those of the messages of the payload that are no system messages, in order and
each with its role, and the texts of the system messages are in the system field, in order. -/
theorem convert_payload_turns (conv : Conversions) (fr : FloatRepr) (uuid4 : ℕ → ℕ → String)
    (default_max_tokens : ℤ) {kvs : List (String × Json)} {input : List Json}
    (h : Shaped kvs input) :
    ∃ result turns,
      convert_openai_to_anthropic_payload conv fr uuid4 (.dict kvs) default_max_tokens =
        .ok result ∧
      Assoc.get? result "messages" = some (.list (turns.map Turn.json)) ∧
      Alternate turns ∧
      (flatten turns).filter nonEmpty =
        ((input.mapIdx fun i message => expected conv fr uuid4 i message).flatten).filter nonEmpty ∧
      Assoc.get? result "system" =
        if input.flatMap (expectedSystem conv) = [] then none
        else some (.list ((input.flatMap (expectedSystem conv)).map .dict)) := by
  obtain ⟨b, hrun, halt, hflat, hsystem⟩ :=
    convertMessages_eq conv fr uuid4 h.messages_shaped 0 ⟨[], []⟩
  obtain ⟨tools, htools, htoolkeys⟩ := exists_toolsOf h
  obtain ⟨choice, hchoice, hchoicekeys⟩ := exists_toolChoiceOf h
  rw [List.nil_append] at hsystem
  have hmessages : (Json.dict kvs).getD "messages" (.list []) = .ok (.list input) := by
    rw [Json.getD, h.messages_eq]
  have hconvert : convert_openai_to_anthropic_payload conv fr uuid4 (.dict kvs) default_max_tokens =
      .ok (nativePayload ((Assoc.get? kvs "model").getD (.str ""))
        ((((Assoc.get? kvs "max_completion_tokens").getD .null).or
          ((Assoc.get? kvs "max_tokens").getD .null)).or (.int default_max_tokens)) b
        (params kvs ++ metadataOf conv kvs ++ tools ++ choice)) := by
    rw [convert_openai_to_anthropic_payload, hmessages]
    simp only [Json.get, Json.getD, Json.iter, Json.entries, hrun, htools, hchoice, bind,
      Except.bind, pure, Except.pure]
  refine ⟨_, b.messages, hconvert, ?_, halt List.isChain_nil, ?_, ?_⟩
  · simp [nativePayload, Assoc.get?_cons]
  · simp only [Nat.zero_add] at hflat
    exact hflat
  · have hnone :
        Assoc.get? (params kvs ++ metadataOf conv kvs ++ tools ++ choice) "system" = none :=
      get?_other htoolkeys hchoicekeys (.inl rfl)
    generalize params kvs ++ metadataOf conv kvs ++ tools ++ choice = rest at hnone
    rw [← hsystem, nativePayload]
    split_ifs with hnil
    · simp [Assoc.get?_cons, hnone]
    · simp [Assoc.get?_cons]

/-- A conversation with a tool. -/
def toolConversation : List Json :=
  [.dict [("role", .str "system"), ("content", .str "Be concise.")],
    .dict [("role", .str "user"), ("content", .str "Look it up.")],
    .dict [("role", .str "assistant"), ("content", .str ""), ("tool_calls", .list
      [.dict [("id", .str "call_1"), ("function", .dict
        [("name", .str "lookup"), ("arguments", .str "\x7b\x7d")])]])],
    .dict [("role", .str "tool"), ("tool_call_id", .str "call_1"), ("content", .str "found")],
    .dict [("role", .str "user"), ("content", .list [.str "And now?"])]]

theorem toolConversation_shaped :
    Shaped [("messages", .list toolConversation)] toolConversation where
  messages_eq := rfl
  messages_shaped := by
    simp only [toolConversation, List.forall_mem_cons]
    exact ⟨⟨_, [], rfl, rfl, List.forall_mem_nil _⟩, ⟨_, [], rfl, rfl, List.forall_mem_nil _⟩,
      ⟨_, _, rfl, rfl, List.forall_mem_singleton.mpr ⟨_, _, rfl, rfl⟩⟩,
      ⟨_, [], rfl, rfl, List.forall_mem_nil _⟩, ⟨_, [], rfl, rfl, List.forall_mem_nil _⟩,
      List.forall_mem_nil _⟩
  tools := ⟨[], rfl⟩
  tool_choice _ h := nomatch h

/-- The result of the tool and the next message of the user are one turn. -/
theorem toolConversation_turns :
    ∃ result turns,
      convert_openai_to_anthropic_payload plainConversions exactRepr (fun _ _ => "")
        (.dict [("messages", .list toolConversation)]) 4096 = .ok result ∧
      Assoc.get? result "messages" = some (.list (turns.map Turn.json)) ∧
      Alternate turns ∧
      (flatten turns).filter nonEmpty =
        ((toolConversation.mapIdx fun i message =>
          expected plainConversions exactRepr (fun _ _ => "") i message).flatten).filter nonEmpty ∧
      Assoc.get? result "system" =
        if toolConversation.flatMap (expectedSystem plainConversions) = [] then none
        else some (.list
          ((toolConversation.flatMap (expectedSystem plainConversions)).map .dict)) :=
  convert_payload_turns plainConversions exactRepr (fun _ _ => "") 4096 toolConversation_shaped

end OpenLaunch.Anthropic.Payload
