import OpenLaunch.Streams.ToolCalls

/-! # Ollama streams

The chunks of an Ollama stream are converted into chunks of an OpenAI stream, one for each. The
reason to finish is decided by what a chunk holds and not by whether it is the last one: a chunk
that holds nothing stops the stream, and one that holds something does not, unless it is done and
tools were called. -/

namespace OpenLaunch.Streams

open Python

/-! ## The conversion -/

/-- The counts and the times, in nanoseconds, at the end of an Ollama stream. -/
structure OllamaCounts where
  prompt_eval_count : Option ℤ
  eval_count : Option ℤ
  prompt_eval_duration : Option ℤ
  eval_duration : Option ℤ
  total_duration : Option ℤ
  load_duration : Option ℤ

/-- A chunk of an Ollama stream. What its message does not have is `none`. -/
structure OllamaChunk where
  model : Option String
  content : Option String
  thinking : Option String
  tool_calls : List OllamaToolCall
  done : Bool
  counts : OllamaCounts

/-- `f'{s // 3600}h{(s % 3600) // 60}m{s % 60}s'`. -/
def approximateTotal (s : ℤ) : String :=
  toString (s / 3600) ++ "h" ++ toString (s % 3600 / 60) ++ "m" ++ toString (s % 60) ++ "s"

/-- `convert_ollama_usage_to_openai`, with `rate` for the rounded quotient of a count and a
duration. -/
def convert_ollama_usage_to_openai (rate : ℤ → ℤ → Json) (data : OllamaCounts) :
    List (String × Json) :=
  let input_tokens := data.prompt_eval_count.getD 0
  let output_tokens := data.eval_count.getD 0
  let perSecond (count duration : Option ℤ) : Json :=
    if duration.getD 0 > 0 then rate (count.getD 0) (duration.getD 0) else .str "N/A"
  [("input_tokens", .int input_tokens),
    ("output_tokens", .int output_tokens),
    ("total_tokens", .int (input_tokens + output_tokens)),
    ("prompt_tokens", .int input_tokens),
    ("completion_tokens", .int output_tokens),
    ("response_token/s", perSecond data.eval_count data.eval_duration),
    ("prompt_token/s", perSecond data.prompt_eval_count data.prompt_eval_duration),
    ("total_duration", .int (data.total_duration.getD 0)),
    ("load_duration", .int (data.load_duration.getD 0)),
    ("prompt_eval_count", .int (data.prompt_eval_count.getD 0)),
    ("prompt_eval_duration", .int (data.prompt_eval_duration.getD 0)),
    ("eval_count", .int (data.eval_count.getD 0)),
    ("eval_duration", .int (data.eval_duration.getD 0)),
    ("approximate_total", .str (approximateTotal (data.total_duration.getD 0 / 1000000000))),
    ("completion_tokens_details", .dict [("reasoning_tokens", .int 0),
      ("accepted_prediction_tokens", .int 0), ("rejected_prediction_tokens", .int 0)])]

/-- `choices[0].delta`. -/
structure Delta where
  role : Option String
  content : Option String
  reasoning_content : Option String
  tool_calls : Option (List ToolCall)

/-- A chunk of an OpenAI stream, with one choice. -/
structure ChatChunk where
  id : String
  model : String
  finish_reason : Option String
  delta : Delta
  usage : Option (List (String × Json))

/-- `content`, if it is true as a condition. -/
def filled (content : Option String) : Option String := content.filter fun s => s ≠ ""

/-- `openai_chat_chunk_message_template`, with an id that is replaced by the one of the stream. -/
def openai_chat_chunk_message_template (id model : String) (content reasoning_content :
    Option String) (tool_calls : List ToolCall) (usage : Option (List (String × Json))) :
    ChatChunk where
  id := id
  model := model
  finish_reason :=
    if (filled content).isNone && (filled reasoning_content).isNone && tool_calls.isEmpty then
      some "stop"
    else none
  delta :=
    { role := none
      content := filled content
      reasoning_content := filled reasoning_content
      tool_calls := if tool_calls.isEmpty then none else some tool_calls }
  usage := usage.filter fun kvs => !kvs.isEmpty

/-- What the conversion remembers. -/
structure StreamState where
  has_tool_calls : Bool
  first : Bool

/-- A line of the converted stream. -/
inductive StreamLine
  /-- `data: ` and the text of a chunk. -/
  | data (chunk : ChatChunk)
  /-- `data: [DONE]`. -/
  | done

section Conversion

variable (rate : ℤ → ℤ → Json) (completion_id : String)

/-- The state after a chunk. -/
def StreamState.after (s : StreamState) (data : OllamaChunk) : StreamState where
  has_tool_calls := s.has_tool_calls || !data.tool_calls.isEmpty
  first := false

/-- One turn of the loop. -/
def convertChunk (s : StreamState) (data : OllamaChunk) : ChatChunk :=
  let chunk := openai_chat_chunk_message_template completion_id (data.model.getD "ollama")
    data.content data.thinking (convert_ollama_tool_call_to_openai data.tool_calls)
    (if data.done then some (convert_ollama_usage_to_openai rate data.counts) else none)
  { chunk with
    delta := { chunk.delta with role := if s.first then some "assistant" else none }
    finish_reason :=
      if data.done && (s.after data).has_tool_calls then some "tool_calls"
      else chunk.finish_reason }

/-- The chunks of the loop. -/
def convertFrom (s : StreamState) : List OllamaChunk → List ChatChunk
  | [] => []
  | data :: rest => convertChunk rate completion_id s data :: convertFrom (s.after data) rest

/-- `convert_streaming_response_ollama_to_openai`. -/
def convert_streaming_response_ollama_to_openai (chunks : List OllamaChunk) : List StreamLine :=
  (convertFrom rate completion_id ⟨false, true⟩ chunks).map .data ++ [.done]

end Conversion

/-! ## What a conversion keeps -/

/-- The chunk holds no content, no reasoning and no call of a tool. -/
def OllamaChunk.Empty (data : OllamaChunk) : Prop :=
  data.content.getD "" = "" ∧ data.thinking.getD "" = "" ∧ data.tool_calls = []

/-- A call of a tool that is the given one: its arguments are read back from their text. -/
structure SameCall (call : OllamaToolCall) (converted : ToolCall) : Prop where
  index : converted.index = call.effectiveIndex
  name : converted.name = call.calledName
  arguments : loads converted.arguments = .ok call.calledArguments.json

/-- Together the converted chunks hold what the given ones hold, and the stream is finished by the
chunk that is done and by no other. -/
structure Conversion (chunks : List OllamaChunk) (converted : List ChatChunk) : Prop where
  content : converted.flatMap (fun c => (c.delta.content.getD "").toList) =
    chunks.flatMap fun c => (c.content.getD "").toList
  reasoning : converted.flatMap (fun c => (c.delta.reasoning_content.getD "").toList) =
    chunks.flatMap fun c => (c.thinking.getD "").toList
  tool_calls : List.Forall₂ SameCall (chunks.flatMap OllamaChunk.tool_calls)
    (converted.flatMap fun c => c.delta.tool_calls.getD [])
  finished : List.Forall₂ (fun c c' => c'.finish_reason.isSome = c.done) chunks converted

/-- The chunk is not taken for the end, or for none: it is empty exactly if it is done, but for a
last chunk after calls of tools. -/
def Fits (called : Bool) (data : OllamaChunk) : Prop :=
  if data.done then data.Empty ∨ called = true else ¬ data.Empty

section Proofs

variable {rate : ℤ → ℤ → Json} {completion_id : String}

theorem filled_getD (content : Option String) : (filled content).getD "" = content.getD "" := by
  cases content with
  | none => rfl
  | some s =>
    by_cases hs : s = ""
    · subst hs
      rfl
    · simp [filled, Option.filter, hs]

theorem isNone_filled_iff (content : Option String) :
    (filled content).isNone = true ↔ content.getD "" = "" := by
  cases content with
  | none => simp [filled]
  | some s => simp [filled, Option.filter_eq_none_iff]

theorem template_finish_iff (id model : String) (data : OllamaChunk)
    (usage : Option (List (String × Json))) :
    (openai_chat_chunk_message_template id model data.content data.thinking
      (convert_ollama_tool_call_to_openai data.tool_calls) usage).finish_reason.isSome = true ↔
      data.Empty := by
  have hempty : (convert_ollama_tool_call_to_openai data.tool_calls).isEmpty = true ↔
      data.tool_calls = [] := by
    rw [List.isEmpty_iff, convert_ollama_tool_call_to_openai, List.map_eq_nil_iff]
  unfold OllamaChunk.Empty
  rw [← isNone_filled_iff data.content, ← isNone_filled_iff data.thinking, ← hempty, ← and_assoc,
    ← Bool.and_eq_true, ← Bool.and_eq_true]
  show (ite _ (some "stop") none).isSome = true ↔ _
  split
  · next h => exact iff_of_true rfl h
  · next h => exact iff_of_false Bool.false_ne_true h

/-- The reason of one chunk is right exactly if the chunk is not taken for another. -/
theorem finished_iff (s : StreamState) (data : OllamaChunk) :
    (convertChunk rate completion_id s data).finish_reason.isSome = data.done ↔
      Fits (s.after data).has_tool_calls data := by
  unfold Fits
  cases hdone : data.done with
  | false =>
    rw [if_neg Bool.false_ne_true, ← template_finish_iff completion_id (data.model.getD "ollama")
      data none, Bool.not_eq_true]
    simp only [convertChunk, hdone, Bool.false_and, Bool.false_eq_true, if_false]
  | true =>
    rw [if_pos rfl, ← template_finish_iff completion_id (data.model.getD "ollama") data
      (some (convert_ollama_usage_to_openai rate data.counts))]
    simp only [convertChunk, hdone, Bool.true_and, if_true]
    cases (s.after data).has_tool_calls with
    | false => simp
    | true => simp

theorem content_convertChunk (s : StreamState) (data : OllamaChunk) :
    (convertChunk rate completion_id s data).delta.content.getD "" = data.content.getD "" :=
  filled_getD data.content

theorem reasoning_convertChunk (s : StreamState) (data : OllamaChunk) :
    (convertChunk rate completion_id s data).delta.reasoning_content.getD "" =
      data.thinking.getD "" :=
  filled_getD data.thinking

theorem tool_calls_convertChunk (s : StreamState) (data : OllamaChunk) :
    (convertChunk rate completion_id s data).delta.tool_calls.getD [] =
      convert_ollama_tool_call_to_openai data.tool_calls := by
  show (ite _ none (some _) : Option (List ToolCall)).getD [] = _
  split
  · next h => exact (List.isEmpty_iff.mp h).symm
  · rfl

theorem sameCall_convert (calls : List OllamaToolCall) :
    List.Forall₂ SameCall calls (convert_ollama_tool_call_to_openai calls) := by
  unfold convert_ollama_tool_call_to_openai
  rw [List.forall₂_map_right_iff, List.forall₂_same]
  intro call _
  exact ⟨rfl, rfl, loads_dumps standard_readable call.calledArguments.wellFormed⟩

/-- What holds of every element with those before it, of a longer list. -/
theorem forall_split_cons {α : Type} {P : List α → α → Prop} {x : α} {xs : List α} :
    (∀ before y after, x :: xs = before ++ y :: after → P before y) ↔
      P [] x ∧ ∀ before y after, xs = before ++ y :: after → P (x :: before) y := by
  constructor
  · intro h
    exact ⟨h [] x xs rfl, fun before y after hsplit => h (x :: before) y after (by rw [hsplit]; rfl)⟩
  · rintro ⟨hhead, htail⟩ before y after hsplit
    cases before with
    | nil =>
      cases hsplit
      exact hhead
    | cons z before =>
      rw [List.cons_append, List.cons.injEq] at hsplit
      obtain ⟨rfl, hrest⟩ := hsplit
      exact htail before y after hrest

/-- What each converted chunk holds of its own chunk, the converted chunks hold together. -/
theorem flatMap_convertFrom {β : Type} {f : ChatChunk → List β} {g : OllamaChunk → List β}
    (h : ∀ s data, f (convertChunk rate completion_id s data) = g data) (s : StreamState)
    (chunks : List OllamaChunk) :
    (convertFrom rate completion_id s chunks).flatMap f = chunks.flatMap g := by
  induction chunks generalizing s with
  | nil => rfl
  | cons data chunks ih => rw [convertFrom, List.flatMap_cons, List.flatMap_cons, h, ih]

/-- The reasons of a run from any state: the calls of tools before it count for a chunk. -/
theorem finished_convertFrom_iff (s : StreamState) (chunks : List OllamaChunk) :
    List.Forall₂ (fun c c' => c'.finish_reason.isSome = c.done) chunks
        (convertFrom rate completion_id s chunks) ↔
      ∀ before data after, chunks = before ++ data :: after →
        Fits (s.has_tool_calls || (before ++ [data]).any fun c => !c.tool_calls.isEmpty) data := by
  induction chunks generalizing s with
  | nil =>
    refine iff_of_true .nil fun before data after hsplit => ?_
    exact absurd hsplit (by simp)
  | cons data chunks ih =>
    rw [convertFrom, List.forall₂_cons, finished_iff, ih (s.after data), forall_split_cons]
    simp only [StreamState.after, List.nil_append, List.cons_append, List.any_cons, List.any_nil,
      Bool.or_false, Bool.or_assoc]

/-- The chunks in the lines of a converted stream. -/
theorem converted_eq {chunks : List OllamaChunk} {converted : List ChatChunk}
    (h : convert_streaming_response_ollama_to_openai rate completion_id chunks =
      converted.map .data ++ [.done]) :
    convertFrom rate completion_id ⟨false, true⟩ chunks = converted := by
  have hmap := List.append_cancel_right h
  exact (List.map_injective_iff.mpr fun _ _ hline => StreamLine.data.inj hline) hmap

/-- **The conversion of a stream.** The contents, the reasoning and the calls of tools are kept; and
the stream is finished by the done chunk alone exactly if every chunk before it holds something, and
it holds nothing itself or tools were called. -/
theorem conversion_iff (rate : ℤ → ℤ → Json) (completion_id : String)
    (chunks : List OllamaChunk) :
    (∃ converted, convert_streaming_response_ollama_to_openai rate completion_id chunks =
        converted.map .data ++ [.done] ∧ Conversion chunks converted) ↔
      ∀ before data after, chunks = before ++ data :: after →
        if data.done then data.Empty ∨ ∃ c ∈ before ++ [data], c.tool_calls ≠ []
        else ¬ data.Empty := by
  have hfits : ∀ before (data : OllamaChunk),
      Fits (false || (before ++ [data]).any fun c => !c.tool_calls.isEmpty) data ↔
        if data.done then data.Empty ∨ ∃ c ∈ before ++ [data], c.tool_calls ≠ []
        else ¬ data.Empty := by
    intro before data
    simp only [Fits, Bool.false_or, List.any_eq_true, Bool.not_eq_true', List.isEmpty_eq_false_iff]
  simp only [← hfits]
  rw [← @finished_convertFrom_iff rate completion_id ⟨false, true⟩]
  constructor
  · rintro ⟨converted, hlines, hconversion⟩
    rw [← converted_eq hlines] at hconversion
    exact hconversion.finished
  · intro hfinished
    refine ⟨_, rfl, ?_, ?_, ?_, hfinished⟩
    · exact flatMap_convertFrom (fun s data => by rw [content_convertChunk]) _ chunks
    · exact flatMap_convertFrom (fun s data => by rw [reasoning_convertChunk]) _ chunks
    · rw [flatMap_convertFrom (fun s data => tool_calls_convertChunk s data)]
      have hcalls : chunks.flatMap (fun c => convert_ollama_tool_call_to_openai c.tool_calls) =
          convert_ollama_tool_call_to_openai (chunks.flatMap OllamaChunk.tool_calls) := by
        unfold convert_ollama_tool_call_to_openai
        rw [List.map_flatMap]
      rw [hcalls]
      exact sameCall_convert _

end Proofs

/-! ## Chunks that are taken for another -/

/-- A chunk with a text, or with the empty one. -/
def textChunk (content : String) (done : Bool) : OllamaChunk :=
  ⟨none, some content, none, [], done, ⟨none, none, none, none, none, none⟩⟩

/-- A stream whose first chunk is empty and whose last one is not. -/
def hiStream : List OllamaChunk := [textChunk "" false, textChunk "hi" false, textChunk "!" true]

/-- **An end that is none, and an end that is missed**: an empty chunk before the last stops the
stream, and a last chunk with a text does not finish it. -/
theorem finish_counterexample :
    (convertFrom (fun _ _ => .null) "id" ⟨false, true⟩ hiStream).map ChatChunk.finish_reason =
        [some "stop", none, none] ∧
      ¬ ∃ converted, convert_streaming_response_ollama_to_openai (fun _ _ => .null) "id" hiStream =
          converted.map .data ++ [.done] ∧ Conversion hiStream converted := by
  refine ⟨rfl, ?_⟩
  rintro ⟨converted, hlines, hconversion⟩
  rw [← converted_eq hlines] at hconversion
  have hfirst := (List.forall₂_cons.mp hconversion.finished).1
  exact absurd hfirst (by decide)

end OpenLaunch.Streams
