import OpenLaunch.Anthropic.Responses

/-! # What of a message survives both conversions

A message whose content is a text and tool uses is converted to a chat completion and back. Its
blocks, the counts of its usage and its reason to stop are the same, if no tool use has an empty id
and the usage has no details of the other interface that are no dictionary. -/

namespace OpenLaunch.Anthropic.Responses

open Python

/-! ## Messages -/

/-- A `tool_use` block, as far as it is converted. -/
structure ToolUse where
  id : String
  name : String
  input : List (String × Json)

/-- A block of a message, as far as it is converted. -/
inductive Block
  | text (text : String)
  | tool_use (block : ToolUse)

/-- What a `tool_use` block has. -/
def readToolUse (kvs : List (String × Json)) : Option ToolUse :=
  match Assoc.get? kvs "id", Assoc.get? kvs "name", Assoc.get? kvs "input" with
  | some (.str id), some (.str name), some (.dict input) => some ⟨id, name, input⟩
  | _, _, _ => none

/-- What a block has. -/
def readBlock : Json → Option Block
  | .dict kvs =>
    if Assoc.get? kvs "type" = some (.str "text") then
      ((Assoc.get? kvs "text").bind Json.str?).map .text
    else if Assoc.get? kvs "type" = some (.str "tool_use") then (readToolUse kvs).map .tool_use
    else none
  | _ => none

/-- At most one text, and tool uses. -/
def blocksOf (text : Option String) (tools : List ToolUse) : List Block :=
  text.toList.map .text ++ tools.map .tool_use

/-- The counts of the usage. -/
def countKeys : List String :=
  ["input_tokens", "output_tokens", "cache_creation_input_tokens", "cache_read_input_tokens"]

/-- **A message of the native interface** whose content is at most one text and tool uses with
objects as inputs. The inputs are objects that `json.loads` returns. -/
structure Native (fr : FloatRepr) (response : Json) (text : Option String) (tools : List ToolUse)
    (usage : List (String × Json)) : Prop where
  content : ∃ kvs blocks, response = .dict kvs ∧ Assoc.get? kvs "content" = some (.list blocks) ∧
    blocks.mapM readBlock = some (blocksOf text tools)
  text_ne : text ≠ some ""
  inputs : ∀ t ∈ tools, fr.Canonical (.dict t.input)
  usage_eq : response.get "usage" = .ok (.dict usage)
  usage_keys : (Assoc.keys usage).Nodup
  counts : ∀ key ∈ countKeys, ∀ v, Assoc.get? usage key = some v → v = .null ∨ ∃ n : ℕ, v = .int n
  stop_reason : ∃ v, response.get "stop_reason" = .ok v ∧ (v = .null ∨ ∃ s, v = .str s)

/-- **The message survives**: the blocks, the counts and the reasons to stop are the same. -/
def Survives (conv : Conversions) (response : Json) (text : Option String) (tools : List ToolUse)
    (usage : List (String × Json)) (result : Except PyErr Json) : Prop :=
  ∃ message content usage', result = .ok (.dict message) ∧
    Assoc.get? message "content" = some (.list content) ∧
    content.mapM readBlock = some (blocksOf text tools) ∧
    Assoc.get? message "usage" = some (.dict usage') ∧
    (∀ key ∈ countKeys, NativeStream.tokens conv usage' key = NativeStream.tokens conv usage key) ∧
    ∀ s ∈ ["end_turn", "max_tokens", "tool_use"], response.get "stop_reason" = .ok (.str s) →
      Assoc.get? message "stop_reason" = some (.str s)

/-! ## Blocks -/

section

variable {fr : FloatRepr} {conv : Conversions} {uuid4 : ℕ → String} {block : Json}
  {t : ToolUse} {tools : List ToolUse} {text : Option String} {p : Parts}

theorem readToolUse_eq_some {kvs : List (String × Json)} (h : readToolUse kvs = some t) :
    Assoc.get? kvs "id" = some (.str t.id) ∧ Assoc.get? kvs "name" = some (.str t.name) ∧
      Assoc.get? kvs "input" = some (.dict t.input) := by
  rw [readToolUse] at h
  split at h
  · next id name input hid hname hinput =>
    cases h
    exact ⟨hid, hname, hinput⟩
  · cases h

theorem readBlock_eq_text {s : String} (h : readBlock block = some (.text s)) :
    ∃ kvs, block = .dict kvs ∧ Assoc.get? kvs "type" = some (.str "text") ∧
      Assoc.get? kvs "text" = some (.str s) := by
  cases block with
  | dict kvs =>
    rw [readBlock] at h
    split_ifs at h with htext
    · obtain ⟨s', hs, hs'⟩ := Option.map_eq_some_iff.mp h
      cases hs'
      obtain ⟨v, hv, hstr⟩ := Option.bind_eq_some_iff.mp hs
      cases v <;> cases hstr
      exact ⟨kvs, rfl, htext, hv⟩
    · obtain ⟨t, -, ht⟩ := Option.map_eq_some_iff.mp h
      cases ht
  | _ => cases h

theorem readBlock_eq_tool_use (h : readBlock block = some (.tool_use t)) :
    ∃ kvs, block = .dict kvs ∧ Assoc.get? kvs "type" = some (.str "tool_use") ∧
      readToolUse kvs = some t := by
  cases block with
  | dict kvs =>
    rw [readBlock] at h
    split_ifs at h with htext htool
    · obtain ⟨s, -, hs⟩ := Option.map_eq_some_iff.mp h
      cases hs
    · obtain ⟨t', ht, ht'⟩ := Option.map_eq_some_iff.mp h
      cases ht'
      exact ⟨kvs, rfl, htool, ht⟩
  | _ => cases h

/-- A text goes to the texts. -/
theorem add_of_text {s : String} (h : readBlock block = some (.text s)) :
    p.add uuid4 block = .ok { p with text_parts := p.text_parts ++ [.str s] } := by
  obtain ⟨kvs, rfl, htype, htext⟩ := readBlock_eq_text h
  simp [Parts.add, Json.get, Json.getD, htype, htext, bind, Except.bind, pure, Except.pure]

/-- The tool call that is made of a tool use. -/
def callOf (t : ToolUse) : Json :=
  .dict [("id", .str t.id), ("type", .str "function"), ("function", .dict
    [("name", .str t.name), ("arguments", .str (String.ofList (dumps .compact (.dict t.input))))])]

theorem str_or {s : String} (h : s ≠ "") (v : Json) : (Json.str s).or v = .str s := by
  rw [Json.or, if_pos (by simpa [Json.truthy] using h)]

/-- An empty dictionary is replaced by an empty dictionary. -/
theorem dict_or (kvs : List (String × Json)) : (Json.dict kvs).or (.dict []) = .dict kvs := by
  cases kvs <;> rfl

theorem add_of_tool_use (hid : t.id ≠ "") (h : readBlock block = some (.tool_use t)) :
    p.add uuid4 block = .ok { p with tool_calls := p.tool_calls ++ [callOf t] } := by
  obtain ⟨kvs, rfl, htype, hread⟩ := readBlock_eq_tool_use h
  obtain ⟨hid', hname, hinput⟩ := readToolUse_eq_some hread
  have hcall : toolCall (uuid4 p.tool_calls.length) (.dict kvs) = .ok (callOf t) := by
    simp [toolCall, Json.get, Json.getD, hid', hname, hinput, str_or hid, dict_or, callOf, bind,
      Except.bind, pure, Except.pure]
  simp [Parts.add, Json.get, Json.getD, htype, hcall, bind, Except.bind, pure, Except.pure]

/-- The block that is made of a tool call. -/
def useOf (t : ToolUse) : Json :=
  .dict [("type", .str "tool_use"), ("id", .str t.id), ("name", .str t.name),
    ("input", .dict t.input)]

theorem toolUse_callOf (u : String) (h : fr.Canonical (.dict t.input)) :
    toolUse fr u (callOf t) = .ok (useOf t) := by
  have hloads := FloatRepr.loads_dumps compact_readable h
  simp [toolUse, callOf, useOf, Json.getD, Assoc.get?, hloads, bind, Except.bind, pure, Except.pure]

theorem readBlock_useOf (t : ToolUse) : readBlock (useOf t) = some (.tool_use t) := by
  simp [useOf, readBlock, readToolUse, Assoc.get?]

/-- The blocks go to the parts one after the other. -/
theorem foldlM_tools {blocks : List Json} (hids : ∀ t ∈ tools, t.id ≠ "")
    (h : blocks.mapM readBlock = some (tools.map .tool_use)) :
    blocks.foldlM (Parts.add uuid4) p =
      .ok { p with tool_calls := p.tool_calls ++ tools.map callOf } := by
  induction blocks generalizing tools p with
  | nil =>
    cases tools with
    | nil =>
      rw [List.map_nil, List.append_nil]
      rfl
    | cons t tools => cases h
  | cons block blocks ih =>
    rw [List.mapM_cons] at h
    obtain ⟨b, hb, h⟩ := Option.bind_eq_some_iff.mp h
    obtain ⟨bs, hbs, h⟩ := Option.bind_eq_some_iff.mp h
    cases tools with
    | nil => cases h
    | cons t tools =>
      cases h
      rw [List.forall_mem_cons] at hids
      rw [List.foldlM_cons, add_of_tool_use hids.1 hb]
      refine (ih hids.2 hbs).trans ?_
      rw [List.map_cons, List.append_assoc, List.singleton_append]

theorem foldlM_blocks {blocks : List Json} (hids : ∀ t ∈ tools, t.id ≠ "")
    (h : blocks.mapM readBlock = some (blocksOf text tools)) :
    blocks.foldlM (Parts.add uuid4) ⟨[], [], []⟩ =
      .ok ⟨text.toList.map .str, tools.map callOf, []⟩ := by
  cases text with
  | none => exact foldlM_tools hids h
  | some s =>
    cases blocks with
    | nil => cases h
    | cons block blocks =>
      rw [List.mapM_cons] at h
      obtain ⟨b, hb, h⟩ := Option.bind_eq_some_iff.mp h
      obtain ⟨bs, hbs, h⟩ := Option.bind_eq_some_iff.mp h
      cases h
      rw [List.foldlM_cons, add_of_text hb]
      exact foldlM_tools hids hbs

theorem mapM_joined (text : Option String) :
    (text.toList.map Json.str).mapM joined = .ok text.toList := by
  cases text <;> rfl

theorem toolUses_callOf (n : ℕ) (h : ∀ t ∈ tools, fr.Canonical (.dict t.input)) :
    toolUses fr uuid4 n (tools.map callOf) = .ok (tools.map useOf) := by
  induction tools generalizing n with
  | nil => rfl
  | cons t tools ih =>
    rw [List.forall_mem_cons] at h
    rw [List.map_cons, toolUses, toolUse_callOf _ h.1, ih (n + 1) h.2]
    rfl

theorem mapM_readBlock_tools (tools : List ToolUse) :
    (tools.map useOf).mapM readBlock = some (tools.map .tool_use) := by
  induction tools with
  | nil => rfl
  | cons t tools ih =>
    rw [List.map_cons, List.mapM_cons, readBlock_useOf, ih]
    rfl

end

/-! ## Usage -/

section

variable {conv : Conversions} {usage : List (String × Json)}

/-- What is counted, where the count is missing, null or a number. -/
def countOf : Option Json → ℤ
  | some (.int n) => n
  | _ => 0

theorem tokens_eq {key : String}
    (h : ∀ v, Assoc.get? usage key = some v → v = .null ∨ ∃ n : ℕ, v = .int n) :
    NativeStream.tokens conv usage key = .ok (countOf (Assoc.get? usage key)) := by
  rw [NativeStream.tokens]
  cases hv : Assoc.get? usage key with
  | none => rfl
  | some v =>
    rcases h v hv with rfl | ⟨n, rfl⟩
    · rfl
    · cases n <;> rfl

theorem tokens_int {key : String} {n : ℤ} (h : Assoc.get? usage key = some (.int n)) :
    NativeStream.tokens conv usage key = .ok n := by
  rw [NativeStream.tokens, h, Option.getD_some, Json.or]
  by_cases hn : n = 0
  · subst hn
    rfl
  · rw [if_pos (by simpa [Json.truthy] using hn)]
    rfl

/-- The keys that the conversion of the usage sets. -/
def setKeys : List String :=
  ["anthropic_input_tokens", "anthropic_output_tokens", "input_tokens", "output_tokens",
    "prompt_tokens", "completion_tokens", "total_tokens", "prompt_tokens_details"]

/-- **The usage of the completion** keeps the counts of the native interface beside its own. -/
theorem convert_usage (conv : Conversions) (hkeys : (Assoc.keys usage).Nodup)
    (hcounts : ∀ key ∈ countKeys, ∀ v, Assoc.get? usage key = some v →
      v = .null ∨ ∃ n : ℕ, v = .int n)
    (hdetails : ∃ details, NativeStream.entries
      (((Assoc.get? usage "prompt_tokens_details").getD .null).or (.dict [])) = .ok details) :
    ∃ usage', NativeStream.convert_anthropic_usage_to_openai conv (.dict usage) = .ok usage' ∧
      Assoc.get? usage' "anthropic_input_tokens" =
        some (.int (countOf (Assoc.get? usage "input_tokens"))) ∧
      Assoc.get? usage' "anthropic_output_tokens" =
        some (.int (countOf (Assoc.get? usage "output_tokens"))) ∧
      ∀ key ∉ setKeys, Assoc.get? usage' key = Assoc.get? usage key := by
  have hcount : ∀ key ∈ countKeys,
      NativeStream.tokens conv usage key = .ok (countOf (Assoc.get? usage key)) :=
    fun key hkey => tokens_eq (hcounts key hkey)
  have hupdate : Assoc.update [] usage = usage := Assoc.update_of_nodup hkeys
  obtain ⟨details, hdetails⟩ := hdetails
  rw [NativeStream.convert_anthropic_usage_to_openai, dict_or]
  simp only [NativeStream.entries, bind, Except.bind, hupdate,
    hcount _ (show "input_tokens" ∈ countKeys by decide),
    hcount _ (show "output_tokens" ∈ countKeys by decide),
    hcount _ (show "cache_creation_input_tokens" ∈ countKeys by decide),
    hcount _ (show "cache_read_input_tokens" ∈ countKeys by decide)]
  generalize countOf (Assoc.get? usage "cache_read_input_tokens") = cache_read
  generalize countOf (Assoc.get? usage "cache_creation_input_tokens") = cache_creation
  generalize hset : Assoc.update usage _ = updated
  have hget : ∀ key, Assoc.get? updated key = _ := fun key =>
    hset ▸ Assoc.get?_update (by simp) usage key
  have hnot : ∀ key ∉ setKeys, Assoc.get? updated key = Assoc.get? usage key := by
    intro key hkey
    rw [hget]
    simp only [setKeys, List.mem_cons, not_or] at hkey
    simp [Assoc.get?_cons, hkey, eq_comm]
  have hdetails' : Assoc.get? updated "prompt_tokens_details" =
      Assoc.get? usage "prompt_tokens_details" := by
    rw [hget]
    simp [Assoc.get?_cons]
  have hinput : Assoc.get? updated "anthropic_input_tokens" =
      some (.int (countOf (Assoc.get? usage "input_tokens"))) := by
    rw [hget]
    simp [Assoc.get?_cons]
  have houtput : Assoc.get? updated "anthropic_output_tokens" =
      some (.int (countOf (Assoc.get? usage "output_tokens"))) := by
    rw [hget]
    simp [Assoc.get?_cons]
  by_cases hread : cache_read = 0
  · rw [if_neg (not_not.mpr hread)]
    exact ⟨updated, rfl, hinput, houtput, hnot⟩
  · rw [if_pos hread, NativeStream.withCachedTokens, hdetails', hdetails]
    refine ⟨_, rfl, ?_, ?_, fun key hkey => ?_⟩
    · rw [Assoc.get?_set_ne _ (by decide), hinput]
    · rw [Assoc.get?_set_ne _ (by decide), houtput]
    · rw [Assoc.get?_set_ne _ ?_, hnot key hkey]
      rintro rfl
      exact hkey (by decide)

end

/-! ## The round trip -/

/-- The usage has no `prompt_tokens_details` that cannot be read as a dictionary. -/
def ReadableDetails (usage : List (String × Json)) : Prop :=
  ∃ details, NativeStream.entries
    (((Assoc.get? usage "prompt_tokens_details").getD .null).or (.dict [])) = .ok details

section

variable {fr : FloatRepr} {conv : Conversions} {uuid4 : ℕ → String} {response : Json}
  {text : Option String} {tools : List ToolUse} {usage : List (String × Json)}

theorem key_of_stop_reason {v : Json} (h : v = .null ∨ ∃ s, v = .str s) :
    ∃ k, v.key = .ok k ∧ ∀ s, v = .str s → k = .str s := by
  rcases h with rfl | ⟨s, rfl⟩
  · exact ⟨_, rfl, fun s h => nomatch h⟩
  · refine ⟨_, rfl, fun s' h => ?_⟩
    cases h
    rfl

/-- **The completion of a message.** -/
theorem convert_native (conv : Conversions) (uuid4 : ℕ → String) (now : ℤ)
    (request_id : Option String) (h : Native fr response text tools usage) (hids : ∀ t ∈ tools, t.id ≠ "")
    (hdetails : ReadableDetails usage) :
    ∃ id model k usage' stop_sequence,
      convert_anthropic_to_openai_response conv uuid4 now response request_id =
        .ok (.dict (completion id now model
          (messageOf ⟨text.toList.map .str, tools.map callOf, []⟩ (String.join text.toList))
          (NativeStream.finishReason k) usage' (request_id.getD "") stop_sequence)) ∧
      (∀ s, response.get "stop_reason" = .ok (.str s) → k = .str s) ∧
      Assoc.get? usage' "anthropic_input_tokens" =
        some (.int (countOf (Assoc.get? usage "input_tokens"))) ∧
      Assoc.get? usage' "anthropic_output_tokens" =
        some (.int (countOf (Assoc.get? usage "output_tokens"))) ∧
      ∀ key ∉ setKeys, Assoc.get? usage' key = Assoc.get? usage key := by
  obtain ⟨fields, blocks, rfl, hcontent, hblocks⟩ := h.content
  obtain ⟨stop_reason, hstop, hvalue⟩ := h.stop_reason
  obtain ⟨k, hkey, hk⟩ := key_of_stop_reason hvalue
  obtain ⟨usage', husage', hinput, houtput, hrest⟩ :=
    convert_usage conv h.usage_keys h.counts hdetails
  have hget : (Json.dict fields).get "content" = .ok (.list blocks) := by
    rw [Json.get, Json.getD, hcontent, Option.getD_some]
  have hiter : ((Json.list blocks).or (.list [])).iter = .ok blocks := by
    cases blocks <;> rfl
  refine ⟨((Assoc.get? fields "id").getD .null).or
      (.str ("chatcmpl-" ++ uuid4 (tools.map callOf).length)),
    (Assoc.get? fields "model").getD (.str ""), k, usage',
    (Assoc.get? fields "stop_sequence").getD .null, ?_, fun s hs => ?_, hinput, houtput, hrest⟩
  · rw [convert_anthropic_to_openai_response]
    simp only [hget, hiter, foldlM_blocks hids hblocks, mapM_joined, hstop, hkey, h.usage_eq,
      husage', bind, Except.bind, pure, Except.pure]
    rfl
  · rw [hstop] at hs
    exact hk s (Except.ok.inj hs)

/-- The usage of the native interface is read off the completion's. -/
theorem nativeUsage_eq {input output : Json}
    (hinput : Assoc.get? usage "anthropic_input_tokens" = some input)
    (houtput : Assoc.get? usage "anthropic_output_tokens" = some output) :
    ∃ usage', nativeUsage (.dict usage) = .ok (.dict usage') ∧
      Assoc.get? usage' "input_tokens" = some input ∧
      Assoc.get? usage' "output_tokens" = some output ∧
      Assoc.get? usage' "cache_creation_input_tokens" =
        Assoc.get? usage "cache_creation_input_tokens" ∧
      Assoc.get? usage' "cache_read_input_tokens" = Assoc.get? usage "cache_read_input_tokens" := by
  simp only [nativeUsage, Json.getD, hinput, houtput, Option.getD_some, bind, Except.bind, pure,
    Except.pure, Except.ok.injEq, Json.dict.injEq, exists_eq_left']
  cases Assoc.get? usage "cache_creation_input_tokens" <;>
    cases Assoc.get? usage "cache_read_input_tokens" <;> simp [Assoc.get?_cons]

theorem join_option (text : Option String) : String.join text.toList = text.getD "" := by
  cases text with
  | none => rfl
  | some s => simp [String.join]

/-- The tool calls of the message of a completion. -/
theorem get_tool_calls (text : Option String) (calls : List Json) (content : String) :
    ∃ v, (Json.dict (messageOf ⟨text.toList.map .str, calls, []⟩ content)).get "tool_calls" =
      .ok v ∧ (v.or (.list [])).iter = .ok calls := by
  cases calls with
  | nil => exact ⟨.null, by simp [messageOf, Json.get, Json.getD, Assoc.get?_cons], rfl⟩
  | cons call calls =>
    exact ⟨.list (call :: calls), by simp [messageOf, Json.get, Json.getD, Assoc.get?_cons], rfl⟩

/-- The text and the tool calls of a completion that was made of a message. -/
theorem convert_completion (uuid4 : ℕ → String) (id : Json) (now : ℤ) (model : Json) (k : Json.Key)
    (usage : List (String × Json)) (request_id : String) (stop_sequence : Json) (model' : String)
    {usage' : Json} (htext : text ≠ some "") (hinputs : ∀ t ∈ tools, fr.Canonical (.dict t.input))
    (husage : nativeUsage (.dict usage) = .ok usage') :
    convert_openai_to_anthropic_response fr uuid4 (.dict (completion id now model
        (messageOf ⟨text.toList.map .str, tools.map callOf, []⟩ (String.join text.toList))
        (NativeStream.finishReason k) usage request_id stop_sequence)) model' =
      .ok (.dict (nativeMessage id
        ((text.toList.map fun s => .dict [("type", .str "text"), ("text", .str s)]) ++
          tools.map useOf) ((Json.str model').or model)
        (StreamState.stopReason (.str (NativeStream.finishReason k))) usage')) := by
  obtain ⟨tool_calls, hcalls, hiter⟩ :=
    get_tool_calls text (tools.map callOf) (String.join text.toList)
  have hcontent : (Json.dict (messageOf ⟨text.toList.map .str, tools.map callOf, []⟩
      (String.join text.toList))).get "content" = .ok (.str (text.getD "")) := by
    simp [messageOf, Json.get, Json.getD, Assoc.get?_cons, join_option]
  have htexts : (if (Json.str (text.getD "")).truthy then
      [Json.dict [("type", .str "text"), ("text", .str (text.getD ""))]] else []) =
        text.toList.map fun s => .dict [("type", .str "text"), ("text", .str s)] := by
    cases text with
    | none => rfl
    | some s => simp [Json.truthy, show s ≠ "" from fun h => htext (congrArg some h)]
  generalize hmessage : messageOf _ _ = message at hcalls hcontent ⊢
  have hget : ∀ key v, Assoc.get? (completion id now model message
      (NativeStream.finishReason k) usage request_id stop_sequence) key = some v → ∀ w,
        (Json.dict (completion id now model message
          (NativeStream.finishReason k) usage request_id stop_sequence)).getD key w = .ok v :=
    fun key v h w => by rw [Json.getD, h, Option.getD_some]
  have hchoices := hget "choices" (.list [choiceOf message (NativeStream.finishReason k)])
    (by simp [completion, Assoc.get?_cons]) .null
  have husage' := hget "usage" (.dict usage) (by simp [completion, Assoc.get?_cons]) (.dict [])
  have hid := hget "id" id (by simp [completion]) (.str ("msg_" ++ uuid4 (tools.map callOf).length))
  have hmodel := hget "model" model (by simp [completion, Assoc.get?_cons]) (.str "")
  -- the only choice, and what it has
  have htruthy : (Json.list [choiceOf message (NativeStream.finishReason k)]).truthy = true := rfl
  have hfirst : (Json.list [choiceOf message (NativeStream.finishReason k)]).first =
      .ok (choiceOf message (NativeStream.finishReason k)) := rfl
  have hmsg : (choiceOf message (NativeStream.finishReason k)).getD "message" (.dict []) =
      .ok (.dict message) := by simp [choiceOf, Json.getD, Assoc.get?_cons]
  have hfinish : (choiceOf message (NativeStream.finishReason k)).getD "finish_reason"
      (.str "stop") = .ok (.str (NativeStream.finishReason k)) := by
    simp [choiceOf, Json.getD, Assoc.get?_cons]
  have hkey : (Json.str (NativeStream.finishReason k)).key =
      .ok (.str (NativeStream.finishReason k)) := rfl
  rw [convert_openai_to_anthropic_response]
  simp only [Json.get] at hcalls hcontent ⊢
  simp only [hchoices, htruthy, hfirst, hmsg, hfinish, hkey, hcalls, hiter, hcontent, htexts,
    husage', husage, hid, hmodel, toolUses_callOf 0 hinputs, bind, Except.bind, pure, Except.pure,
    if_true]

/-- The blocks of the message that comes back. -/
theorem mapM_readBlock (text : Option String) (tools : List ToolUse) :
    ((text.toList.map fun s => Json.dict [("type", .str "text"), ("text", .str s)]) ++
      tools.map useOf).mapM readBlock = some (blocksOf text tools) := by
  cases text with
  | none => exact mapM_readBlock_tools tools
  | some s =>
    have hblock : readBlock (.dict [("type", .str "text"), ("text", .str s)]) = some (.text s) := by
      simp [readBlock, Assoc.get?_cons, Json.str?]
    rw [Option.toList_some, List.map_singleton, List.singleton_append, List.mapM_cons, hblock,
      mapM_readBlock_tools]
    rfl

/-- The reasons to stop that are kept. -/
theorem stopReason_finishReason {s : String} (hs : s ∈ ["end_turn", "max_tokens", "tool_use"]) :
    StreamState.stopReason (.str (NativeStream.finishReason (.str s))) = s := by
  simp only [List.mem_cons, List.not_mem_nil, or_false] at hs
  rcases hs with rfl | rfl | rfl <;> rfl

end

/-- **A message survives both conversions**: its blocks, the four counts of its usage, and each of
the reasons to stop that have a counterpart. -/
theorem response_round_trip (fr : FloatRepr) (conv : Conversions) (uuid4 uuid4' : ℕ → String)
    (now : ℤ) (request_id : Option String) (model : String) {response : Json}
    {text : Option String} {tools : List ToolUse} {usage : List (String × Json)}
    (h : Native fr response text tools usage) (hids : ∀ t ∈ tools, t.id ≠ "")
    (hdetails : ReadableDetails usage) :
    Survives conv response text tools usage
      (convert_anthropic_to_openai_response conv uuid4 now response request_id >>= fun r =>
        convert_openai_to_anthropic_response fr uuid4' r model) := by
  obtain ⟨id, model', k, completion_usage, stop_sequence, hconvert, hstop, hinput, houtput,
    hrest⟩ := convert_native conv uuid4 now request_id h hids hdetails
  obtain ⟨usage', husage', hinput', houtput', hcreation, hread⟩ := nativeUsage_eq hinput houtput
  have hback := convert_completion uuid4' id now model' k completion_usage (request_id.getD "")
    stop_sequence model h.text_ne h.inputs husage'
  refine ⟨_, _, usage', bind_eq_ok.mpr ⟨_, hconvert, hback⟩,
    by simp only [nativeMessage, Assoc.get?_cons]; rfl, mapM_readBlock text tools,
    by simp [nativeMessage, Assoc.get?_cons], fun key hkey => ?_, fun s hs hs' => ?_⟩
  · have hcount : NativeStream.tokens conv usage key = .ok (countOf (Assoc.get? usage key)) :=
      tokens_eq (h.counts key hkey)
    rw [hrest _ (by decide)] at hcreation hread
    simp only [countKeys, List.mem_cons, List.not_mem_nil, or_false] at hkey
    rcases hkey with rfl | rfl | rfl | rfl
    · rw [tokens_int hinput', hcount]
    · rw [tokens_int houtput', hcount]
    · rw [NativeStream.tokens, hcreation, NativeStream.tokens]
    · rw [NativeStream.tokens, hread, NativeStream.tokens]
  · rw [hstop s hs', stopReason_finishReason hs]
    simp [nativeMessage, Assoc.get?_cons]

/-! ## Messages that survive and messages that do not -/

/-- A message with a text, a tool use with the id, and the usage. -/
def messageWith (id : String) (usage : List (String × Json)) : Json :=
  .dict
    [("content", .list
      [.dict [("type", .str "text"), ("text", .str "Checking.")], useOf ⟨id, "lookup", []⟩]),
      ("stop_reason", .str "tool_use"), ("usage", .dict usage)]

/-- The usage of a message that has read from the cache. -/
def cachedUsage : List (String × Json) :=
  [("input_tokens", .int 10), ("cache_read_input_tokens", .int 6), ("output_tokens", .int 3)]

theorem native_messageWith (id : String) {usage : List (String × Json)}
    (hkeys : (Assoc.keys usage).Nodup)
    (hcounts : ∀ key ∈ countKeys, ∀ v, Assoc.get? usage key = some v →
      v = .null ∨ ∃ n : ℕ, v = .int n) :
    Native exactRepr (messageWith id usage) (some "Checking.") [⟨id, "lookup", []⟩] usage where
  content := ⟨_, _, rfl, rfl, mapM_readBlock (some "Checking.") [⟨id, "lookup", []⟩]⟩
  text_ne h := nomatch h
  inputs := List.forall_mem_singleton.mpr
    ⟨.dict List.nodup_nil (List.forall_mem_nil _), rfl⟩
  usage_eq := rfl
  usage_keys := hkeys
  counts := hcounts
  stop_reason := ⟨_, rfl, .inr ⟨_, rfl⟩⟩

/-- A tool use with an id survives. -/
theorem messageWith_survives :
    Survives plainConversions (messageWith "toolu_1" cachedUsage) (some "Checking.")
      [⟨"toolu_1", "lookup", []⟩] cachedUsage
      (convert_anthropic_to_openai_response plainConversions (fun _ => "") 0
        (messageWith "toolu_1" cachedUsage) none >>= fun r =>
          convert_openai_to_anthropic_response exactRepr (fun _ => "") r "") := by
  refine response_round_trip exactRepr plainConversions (fun _ => "") (fun _ => "") 0 none ""
    (native_messageWith "toolu_1" (by decide) fun key hkey v hv => ?_)
    (List.forall_mem_singleton.mpr (by decide)) ⟨[], rfl⟩
  simp only [countKeys, List.mem_cons, List.not_mem_nil, or_false] at hkey
  rcases hkey with rfl | rfl | rfl | rfl <;> cases hv
  · exact .inr ⟨10, rfl⟩
  · exact .inr ⟨3, rfl⟩
  · exact .inr ⟨6, rfl⟩

/-- An empty id is replaced, and details of the usage that are no dictionary raise. -/
theorem messages_lost :
    (Native exactRepr (messageWith "" []) (some "Checking.") [⟨"", "lookup", []⟩] [] ∧
      ¬ Survives plainConversions (messageWith "" []) (some "Checking.") [⟨"", "lookup", []⟩] []
        (convert_anthropic_to_openai_response plainConversions (fun _ => "") 0
          (messageWith "" []) none >>= fun r =>
            convert_openai_to_anthropic_response exactRepr (fun _ => "") r "")) ∧
    Native exactRepr (messageWith "toolu_1"
        [("cache_read_input_tokens", .int 6), ("prompt_tokens_details", .int 1)])
        (some "Checking.") [⟨"toolu_1", "lookup", []⟩]
        [("cache_read_input_tokens", .int 6), ("prompt_tokens_details", .int 1)] ∧
      convert_anthropic_to_openai_response plainConversions (fun _ => "") 0
        (messageWith "toolu_1"
          [("cache_read_input_tokens", .int 6), ("prompt_tokens_details", .int 1)]) none =
        .error .typeError := by
  refine ⟨⟨native_messageWith "" List.nodup_nil fun key _ v hv => (by cases hv), ?_⟩,
    native_messageWith "toolu_1" (by decide) fun key hkey v hv => ?_, by decide⟩
  · rintro ⟨message, content, usage', hrun, hcontent, hblocks, -⟩
    have hresult : (convert_anthropic_to_openai_response plainConversions (fun _ => "") 0
        (messageWith "" []) none >>= fun r =>
          convert_openai_to_anthropic_response exactRepr (fun _ => "") r "") =
        .ok (.dict (nativeMessage (.str "chatcmpl-")
          [.dict [("type", .str "text"), ("text", .str "Checking.")],
            useOf ⟨"call_", "lookup", []⟩] (.str "") "tool_use"
          (.dict [("input_tokens", .int 0), ("output_tokens", .int 0)]))) := by
      decide
    cases hresult.symm.trans hrun
    cases hcontent
    have hread := mapM_readBlock (some "Checking.") [⟨"call_", "lookup", []⟩]
    have hids : "call_" = "" := by simpa [blocksOf] using hread.symm.trans hblocks
    exact absurd hids (by decide)
  · simp only [countKeys, List.mem_cons, List.not_mem_nil, or_false] at hkey
    rcases hkey with rfl | rfl | rfl | rfl <;> cases hv
    exact .inr ⟨6, rfl⟩

end OpenLaunch.Anthropic.Responses
