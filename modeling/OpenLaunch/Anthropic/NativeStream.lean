import OpenLaunch.Python.Conversions
import OpenLaunch.Python.Effect
import OpenLaunch.Python.Frames
import OpenLaunch.Python.JsonText
import OpenLaunch.Python.TextCuts

/-! # Anthropic streams as OpenAI streams

`anthropic_stream_to_openai_stream` reads the bytes of an Anthropic event stream, in the chunks in
which they arrive, and yields OpenAI chunks. Each chunk is decoded by itself, the text goes to a
buffer in which `\r\n` is replaced by `\n`, and the complete frames are taken off and handled one by
one. What remains in the buffer at the end is handled as a last frame.

The completion id and the time of creation are parameters. -/

namespace OpenLaunch.Anthropic.NativeStream

open Python

/-! ## Usage and errors -/

/-- An element of a sequence that updates a dictionary; its key is taken to be a string. -/
def entryOf (v : Json) : Except PyErr (String × Json) := do
  match ← v.iter with
  | [.str k, w] => return (k, w)
  | [_, _] => .error .typeError
  | _ => .error .valueError

/-- The entries of a mapping, or of a sequence of pairs. -/
def entries : Json → Except PyErr (List (String × Json))
  | .dict kvs => .ok kvs
  | v => do (← v.iter).mapM entryOf

/-- `int(usage.get(key) or 0)`. -/
def tokens (conv : Conversions) (usage : List (String × Json)) (key : String) : Except PyErr ℤ :=
  conv.int (((Assoc.get? usage key).getD .null).or (.int 0))

/-- `details['cached_tokens'] = cache_read`, in a copy of the details. -/
def withCachedTokens (usage : List (String × Json)) (cache_read : ℤ) :
    Except PyErr (List (String × Json)) := do
  let details ← entries (((Assoc.get? usage "prompt_tokens_details").getD .null).or (.dict []))
  let details := Assoc.set (Assoc.update [] details) "cached_tokens" (.int cache_read)
  return Assoc.set usage "prompt_tokens_details" (.dict details)

/-- `convert_anthropic_usage_to_openai`. -/
def convert_anthropic_usage_to_openai (conv : Conversions) (usage : Json) :
    Except PyErr (List (String × Json)) := do
  let usage := Assoc.update [] (← entries (usage.or (.dict [])))
  let uncached ← tokens conv usage "input_tokens"
  let cache_creation ← tokens conv usage "cache_creation_input_tokens"
  let cache_read ← tokens conv usage "cache_read_input_tokens"
  let prompt_tokens := uncached + cache_creation + cache_read
  let completion_tokens ← tokens conv usage "output_tokens"
  let usage := Assoc.update usage
    [("anthropic_input_tokens", .int uncached), ("anthropic_output_tokens", .int completion_tokens),
      ("input_tokens", .int prompt_tokens), ("output_tokens", .int completion_tokens),
      ("prompt_tokens", .int prompt_tokens), ("completion_tokens", .int completion_tokens),
      ("total_tokens", .int (prompt_tokens + completion_tokens))]
  if cache_read ≠ 0 then withCachedTokens usage cache_read else return usage

/-- The message and the type of an error. -/
def errorFields (conv : Conversions) : Json → Json × Json
  | .dict kvs => ((Assoc.get? kvs "message").getD (.str (conv.str (.dict kvs))),
      (Assoc.get? kvs "type").getD (.str "api_error"))
  | source => (.str (conv.str source), .str "api_error")

/-- `convert_anthropic_error_to_openai`. -/
def convert_anthropic_error_to_openai (conv : Conversions) (error request_id : Json) : Json :=
  match error with
  | .dict kvs =>
    let (message, error_type) := errorFields conv ((Assoc.get? kvs "error").getD error)
    let request_id := request_id.or ((Assoc.get? kvs "request_id").getD .null)
    let result := [("error", Json.dict
      [("message", message), ("type", error_type), ("code", error_type)])]
    .dict (if request_id.truthy then result ++ [("request_id", request_id)] else result)
  | error =>
    let result := [("error", Json.dict [("message", .str (conv.str error)),
      ("type", .str "api_error"), ("code", .str "api_error")])]
    .dict (if request_id.truthy then result ++ [("request_id", request_id)] else result)

/-! ## Events -/

/-- What is fixed for one stream. -/
structure Setting where
  conv : Conversions
  completion_id : String
  created : ℤ

/-- The variables that the events change, and the objects yielded. -/
structure ConvState where
  model : Json
  usage : List (String × Json)
  tool_indices : Dict ℤ ℕ
  out : List Json
  deriving DecidableEq

/-- `chunk(delta, finish_reason, chunk_usage)`. -/
def chunk (c : Setting) (model delta finish_reason : Json) (chunk_usage : List (String × Json)) :
    Json :=
  .dict ([("id", .str c.completion_id), ("object", .str "chat.completion.chunk"),
    ("created", .int c.created), ("model", model),
    ("choices", .list [.dict
      [("index", .int 0), ("delta", delta), ("finish_reason", finish_reason)]])] ++ chunk_usage)

/-- A chunk with a delta is yielded. -/
def emitDelta (c : Setting) (delta : Json) : Py ConvState Unit :=
  Py.update fun s => { s with out := s.out ++ [chunk c s.model delta .null []] }

/-- `usage.update(v or {})`. -/
def updateUsage (v : Json) : Py ConvState Unit := do
  let kvs ← Py.lift (entries (v.or (.dict [])))
  Py.update fun s => { s with usage := Assoc.update s.usage kvs }

/-- `message_start`. -/
def onMessageStart (c : Setting) (data : Json) : Py ConvState Unit := do
  let message := (← Py.lift (data.get "message")).or (.dict [])
  let model ← Py.lift (message.get "model")
  Py.update fun s => { s with model := model.or s.model }
  let usage ← Py.lift (message.get "usage")
  updateUsage usage
  emitDelta c (.dict [("role", .str "assistant")])

/-- The index under which a tool call is known; a block that starts gets the next one. -/
def startTool (index : ℤ) : Py ConvState ℕ := do
  let s ← Py.state
  Py.update fun s => { s with tool_indices := s.tool_indices.set index s.tool_indices.keys.length }
  return s.tool_indices.keys.length

/-- `tool_indices.setdefault(index, len(tool_indices))`. -/
def toolIndex (index : ℤ) : Py ConvState ℕ := do
  let s ← Py.state
  match s.tool_indices.get? index with
  | some n => return n
  | none => startTool index

/-- `content_block_start` with a tool. -/
def onToolStart (c : Setting) (data block : Json) : Py ConvState Unit := do
  let index ← Py.lift (data.getD "index" (.int 0))
  let index ← Py.lift (c.conv.int index)
  let n ← startTool index
  let id ← Py.lift (block.getD "id" (.str ""))
  let name ← Py.lift (block.getD "name" (.str ""))
  emitDelta c (.dict [("tool_calls", .list [.dict [("index", .int n), ("id", id),
    ("type", .str "function"),
    ("function", .dict [("name", name), ("arguments", .str "")])]])])

/-- `content_block_start`. -/
def onBlockStart (c : Setting) (data : Json) : Py ConvState Unit := do
  let block := (← Py.lift (data.get "content_block")).or (.dict [])
  let block_type ← Py.lift (block.get "type")
  let text ← Py.lift (block.get "text")
  if block_type = .str "text" ∧ text.truthy then emitDelta c (.dict [("content", text)])
  else if block_type = .str "tool_use" then onToolStart c data block
  else pure ()

/-- `content_block_delta` with a fragment of a tool's input. -/
def onInputDelta (c : Setting) (data delta : Json) : Py ConvState Unit := do
  let index ← Py.lift (data.getD "index" (.int 0))
  let index ← Py.lift (c.conv.int index)
  let n ← toolIndex index
  let partial_json ← Py.lift (delta.getD "partial_json" (.str ""))
  emitDelta c (.dict [("tool_calls", .list [.dict [("index", .int n),
    ("function", .dict [("arguments", partial_json)])]])])

/-- `content_block_delta`. -/
def onBlockDelta (c : Setting) (data : Json) : Py ConvState Unit := do
  let delta := (← Py.lift (data.get "delta")).or (.dict [])
  let delta_type ← Py.lift (delta.get "type")
  let text ← Py.lift (delta.getD "text" (.str ""))
  if delta_type = .str "text_delta" then emitDelta c (.dict [("content", text)])
  else if delta_type = .str "input_json_delta" then onInputDelta c data delta
  else pure ()

/-- `finish_map.get(stop_reason, 'stop')`. -/
def finishReason : Json.Key → String
  | .str "end_turn" => "stop"
  | .str "stop_sequence" => "stop"
  | .str "max_tokens" => "length"
  | .str "tool_use" => "tool_calls"
  | .str "pause_turn" => "stop"
  | .str "refusal" => "content_filter"
  | _ => "stop"

/-- `finish_map.get(stop_reason, 'stop') if stop_reason else None`. -/
def finish_reason (stop_reason : Json) : Except PyErr Json :=
  if stop_reason.truthy then do
    let k ← stop_reason.key
    return .str (finishReason k)
  else return .null

/-- `message_delta`. -/
def onMessageDelta (c : Setting) (data : Json) : Py ConvState Unit := do
  let usage ← Py.lift (data.get "usage")
  updateUsage usage
  let delta := (← Py.lift (data.get "delta")).or (.dict [])
  let stop_reason ← Py.lift (delta.get "stop_reason")
  let reason ← Py.lift (finish_reason stop_reason)
  let s ← Py.state
  let chunk_usage ← Py.lift (convert_anthropic_usage_to_openai c.conv (.dict s.usage))
  Py.update fun s => { s with
    out := s.out ++ [chunk c s.model (.dict []) reason [("usage", .dict chunk_usage)]] }

/-- `data.get('type') or event_name`, compared with a name. -/
def isEvent (event_type : Json) (event_name : Option String) (name : String) : Bool :=
  if event_type.truthy then event_type = .str name else event_name = some name

/-- The object of an event, by its type or else by its name. -/
def onData (c : Setting) (event_name : Option String) (data : Json) : Py ConvState Unit := do
  let event_type ← Py.lift (data.get "type")
  if isEvent event_type event_name "message_start" then onMessageStart c data
  else if isEvent event_type event_name "content_block_start" then onBlockStart c data
  else if isEvent event_type event_name "content_block_delta" then onBlockDelta c data
  else if isEvent event_type event_name "message_delta" then onMessageDelta c data
  else if isEvent event_type event_name "error" then
    Py.update fun s => { s with
      out := s.out ++ [convert_anthropic_error_to_openai c.conv data .null] }
  else pure ()

/-- `handle_event`: data that is no JSON text is skipped. -/
def handle_event (c : Setting) (event_name : Option String) (raw_data : List Char) :
    Py ConvState Unit :=
  match loads raw_data with
  | .ok data => onData c event_name data
  | .error _ => pure ()

/-! ## Frames -/

/-- `line[5:].lstrip()` for a `data:` line. -/
def dataLine (line : List Char) : Option (List Char) :=
  if "data:".toList.isPrefixOf line then some ((line.drop 5).dropWhile isSpace) else none

/-- `line[6:].strip()` for an `event:` line. -/
def eventLine (line : List Char) : Option String :=
  if "event:".toList.isPrefixOf line then some (String.ofList (strip (line.drop 6))) else none

/-- The `data:` lines of a frame, joined, are handled under the name the last `event:` line gives.
Between two frames `current_event` is `None`. -/
def onLines (c : Setting) (lines : List (List Char)) (event_name : Option String) :
    Py ConvState Unit :=
  match lines.filterMap dataLine with
  | [] => pure ()
  | data_lines => handle_event c event_name (['\n'].intercalate data_lines)

/-- One frame. -/
def onFrame (c : Setting) (frame : List Char) : Py ConvState Unit :=
  let lines := (replaceCrlf frame).splitOn '\n'
  onLines c lines (lines.filterMap eventLine).getLast?

/-- The line boundaries of `str.splitlines`. -/
def isLineEnd (c : Char) : Bool :=
  let n := c.toNat
  (10 ≤ n && n ≤ 13) || (0x1c ≤ n && n ≤ 0x1e) || n = 0x85 || n = 0x2028 || n = 0x2029

/-- The lines of a text, the current one given as far as it has been read. -/
def splitlinesFrom (line : List Char) : List Char → List (List Char)
  | '\r' :: '\n' :: cs => line :: splitlinesFrom [] cs
  | c :: cs => if isLineEnd c then line :: splitlinesFrom [] cs else splitlinesFrom (line ++ [c]) cs
  | [] => if line = [] then [] else [line]

/-- `buffer.splitlines()`. -/
def splitlines (cs : List Char) : List (List Char) := splitlinesFrom [] cs

/-- What remains in the buffer at the end of the stream; an `event:` line in it is not read. -/
def onRest (c : Setting) (buffer : List Char) : Py ConvState Unit :=
  if strip buffer ≠ [] then onLines c (splitlines buffer) none else pure ()

/-! ## Chunks -/

/-- A chunk that arrives: bytes, or the text of another object. -/
inductive RawChunk
  | bytes (bs : List UInt8)
  | str (cs : List Char)

/-- The text of a chunk. -/
def RawChunk.text : RawChunk → List Char
  | .bytes bs => decode .replace bs
  | .str cs => cs

/-- One chunk: the frames it completes are taken off the buffer and handled. -/
def onChunk (c : Setting) (raw_chunk : RawChunk) : Py (List Char × ConvState) Unit := do
  let s ← Py.state
  let split := splitFrames (replaceCrlf (s.1 ++ raw_chunk.text))
  Py.update fun s => (split.2, s.2)
  Py.second (Py.forEach (onFrame c) split.1)

/-- The whole stream. -/
def onStream (c : Setting) (chunks : List RawChunk) : Py (List Char × ConvState) Unit := do
  Py.forEach (onChunk c) chunks
  let s ← Py.state
  Py.second (onRest c s.1)

/-- The state before the first chunk. -/
def ConvState.start (model : Json) : ConvState := ⟨model, [], .empty, []⟩

/-- `f'data: {json.dumps(data)}\n\n'.encode()`. -/
def frameBytes (data : Json) : List UInt8 :=
  encode ("data: ".toList ++ dumps .standard data ++ "\n\n".toList)

/-- `anthropic_stream_to_openai_stream`: what is yielded, and the exception that ends it, if one
does. -/
def anthropic_stream_to_openai_stream (c : Setting) (model : Json) (chunks : List RawChunk) :
    List (List UInt8) × Option PyErr :=
  match onStream c chunks ([], .start model) with
  | (.ok (), s) => (s.2.out.map frameBytes ++ [encode "data: [DONE]\n\n".toList], none)
  | (.error e, s) => (s.2.out.map frameBytes, some e)

end OpenLaunch.Anthropic.NativeStream

/-! ## The chunks in which an Anthropic stream arrives

The output of `anthropic_stream_to_openai_stream` is a function of the frames of its text and of
what remains after them. These do not depend on the chunks as long as the text does not, that is, as
long as no chunk ends inside a character; a chunk may end anywhere else. -/

namespace OpenLaunch.Anthropic.NativeStream

open Python

variable (c : Setting)

/-! ## One pass over the frames -/

/-- Frames taken off after some others. -/
theorem foldl_feed (frames : List (List Char)) (buffer : List Char) (texts : List (List Char)) :
    texts.foldl feed (frames, buffer) =
      (frames ++ (texts.foldl feed ([], buffer)).1, (texts.foldl feed ([], buffer)).2) := by
  induction texts generalizing frames buffer with
  | nil => simp
  | cons text texts ih =>
    rw [List.foldl_cons, List.foldl_cons, feed, feed, ih, ih (([] : List (List Char)) ++ _)]
    simp

/-- **The loop over the chunks is the loop over the frames they complete**; if it returns, the
buffer holds what remains. -/
theorem forEach_onChunk (chunks : List RawChunk) (buffer : List Char) (s : ConvState) :
    ∃ rest, Py.forEach (onChunk c) chunks (buffer, s) =
        ((Py.forEach (onFrame c) ((chunks.map RawChunk.text).foldl feed ([], buffer)).1 s).1,
          (rest,
            (Py.forEach (onFrame c) ((chunks.map RawChunk.text).foldl feed ([], buffer)).1 s).2)) ∧
      ((Py.forEach (onFrame c) ((chunks.map RawChunk.text).foldl feed ([], buffer)).1 s).1 = .ok () →
        rest = ((chunks.map RawChunk.text).foldl feed ([], buffer)).2) := by
  induction chunks generalizing buffer s with
  | nil => exact ⟨buffer, rfl, fun _ => rfl⟩
  | cons raw_chunk chunks ih =>
    have hfeed : ((raw_chunk :: chunks).map RawChunk.text).foldl feed ([], buffer) =
        ((splitFrames (replaceCrlf (buffer ++ raw_chunk.text))).1 ++
            ((chunks.map RawChunk.text).foldl feed
              ([], (splitFrames (replaceCrlf (buffer ++ raw_chunk.text))).2)).1,
          ((chunks.map RawChunk.text).foldl feed
            ([], (splitFrames (replaceCrlf (buffer ++ raw_chunk.text))).2)).2) := by
      rw [List.map_cons, List.foldl_cons, feed, foldl_feed]
      rfl
    rw [hfeed, Py.forEach_append]
    generalize hsplit : splitFrames (replaceCrlf (buffer ++ raw_chunk.text)) = split
    have hchunk : onChunk c raw_chunk (buffer, s) =
        ((Py.forEach (onFrame c) split.1 s).1,
          (split.2, (Py.forEach (onFrame c) split.1 s).2)) := by
      rw [← hsplit]
      rfl
    show ∃ rest, (onChunk c raw_chunk >>= fun _ => Py.forEach (onChunk c) chunks) (buffer, s) =
      _ ∧ _
    cases hframes : Py.forEach (onFrame c) split.1 s with
    | mk r s' =>
      rw [hframes] at hchunk
      cases r with
      | ok u =>
        rw [Py.bind_ok hframes, Py.bind_ok hchunk]
        exact ih split.2 s'
      | error e =>
        -- the exception ends both loops, whatever is in the buffer
        rw [Py.bind_error hframes, Py.bind_error hchunk]
        exact ⟨split.2, rfl, fun h => nomatch h⟩

/-- How the stream ends, and with what output, given the frames and what remains after them. -/
def onFrames (frames : List (List Char) × List Char) : Py ConvState Unit := do
  Py.forEach (onFrame c) frames.1
  onRest c frames.2

/-- **The stream is its frames.** -/
theorem onStream_eq (chunks : List RawChunk) (s : ConvState) :
    ∃ rest, onStream c chunks ([], s) =
      ((onFrames c ((chunks.map RawChunk.text).foldl feed ([], [])) s).1,
        (rest, (onFrames c ((chunks.map RawChunk.text).foldl feed ([], [])) s).2)) := by
  obtain ⟨rest, hrun, hrest⟩ := forEach_onChunk c chunks [] s
  generalize (chunks.map RawChunk.text).foldl feed ([], []) = frames at hrun hrest ⊢
  refine ⟨rest, ?_⟩
  unfold onStream onFrames
  cases hframes : Py.forEach (onFrame c) frames.1 s with
  | mk r s' =>
    rw [hframes] at hrun hrest
    cases r with
    | ok u =>
      rw [Py.bind_ok hrun, Py.bind_ok hframes, ← hrest rfl]
      rfl
    | error e =>
      rw [Py.bind_error hrun, Py.bind_error hframes]

/-- Streams with the same frames have the same output. -/
theorem stream_congr (model : Json) {chunks chunks' : List RawChunk}
    (h : (chunks.map RawChunk.text).foldl feed ([], []) =
      (chunks'.map RawChunk.text).foldl feed ([], [])) :
    anthropic_stream_to_openai_stream c model chunks =
      anthropic_stream_to_openai_stream c model chunks' := by
  obtain ⟨rest, hrun⟩ := onStream_eq c chunks (.start model)
  obtain ⟨rest', hrun'⟩ := onStream_eq c chunks' (.start model)
  rw [← h] at hrun'
  unfold anthropic_stream_to_openai_stream
  rw [hrun, hrun']
  cases (onFrames c ((chunks.map RawChunk.text).foldl feed ([], [])) (.start model)).1 with
  | ok u => rfl
  | error e => rfl

/-! ## The cuts -/

/-- The frames of bytes, in whatever clean chunks they arrive. -/
theorem foldl_feed_bytes (chunks : List (List UInt8)) (hcuts : CleanCuts chunks)
    (hcrlf : ¬ HasCrCrlf (decode .replace chunks.flatten)) :
    ((chunks.map RawChunk.bytes).map RawChunk.text).foldl feed ([], []) =
      splitFrames (replaceCrlf (decode .replace chunks.flatten)) := by
  have htexts : (chunks.map RawChunk.bytes).map RawChunk.text = chunks.map (decode .replace) := by
    rw [List.map_map]
    rfl
  have hflat : (chunks.map (decode .replace)).flatten = decode .replace chunks.flatten := by
    rw [← List.flatMap_def]
    exact (flatMap_decode_iff chunks).mpr hcuts
  rw [htexts, feed_foldl _ (by rwa [hflat]), hflat]

/-- **The output does not depend on the chunks** in which the bytes arrive, if no chunk ends inside
a character and the text has no `\r\r\n`. -/
theorem anthropic_stream_to_openai_stream_flatten (model : Json) (chunks : List (List UInt8))
    (hcuts : CleanCuts chunks) (hcrlf : ¬ HasCrCrlf (decode .replace chunks.flatten)) :
    anthropic_stream_to_openai_stream c model (chunks.map .bytes) =
      anthropic_stream_to_openai_stream c model [.bytes chunks.flatten] := by
  have hone : CleanCuts [chunks.flatten] := by
    refine ⟨fun p _ hgoes => ?_, trivial⟩
    obtain ⟨b, hb, -⟩ := hgoes
    cases hb
  have hflat : [chunks.flatten].flatten = chunks.flatten := List.flatten_singleton
  have hwhole := foldl_feed_bytes [chunks.flatten] hone (by rwa [hflat])
  rw [hflat] at hwhole
  apply stream_congr
  rw [foldl_feed_bytes chunks hcuts hcrlf]
  exact hwhole.symm

/-- A stream with one piece of text. -/
def textStream (text : String) : List Char :=
  "event: content_block_delta\r\ndata: ".toList ++ dumps .unicode
    (.dict [("type", .str "content_block_delta"),
      ("delta", .dict [("type", .str "text_delta"), ("text", .str text)])]) ++ "\r\n\r\n".toList

/-- The setting of an example. -/
def plainSetting : Setting := ⟨plainConversions, "chatcmpl-1", 0⟩

/-- That stream, cut inside a line end, before a character and inside the frame separator. -/
def pieces : List (List Char) :=
  [(textStream "é").take 27, ((textStream "é").drop 27).take 80, ((textStream "é").drop 107).take 5,
    (textStream "é").drop 112]

theorem pieces_same :
    anthropic_stream_to_openai_stream plainSetting (.str "") ((pieces.map encode).map .bytes) =
      anthropic_stream_to_openai_stream plainSetting (.str "")
        [.bytes (pieces.map encode).flatten] :=
  anthropic_stream_to_openai_stream_flatten plainSetting (.str "") (pieces.map encode)
    (cleanCuts_encode pieces)
    (show ¬ ['\r', '\r', '\n'] <:+: decode .replace (pieces.map encode).flatten by decide +kernel)

/-- **A cut inside a character changes the text**: each half is replaced by U+FFFD. -/
theorem cutCharacter_differs :
    ∃ chunks : List (List UInt8), chunks.flatten = encode (textStream "é") ∧
      anthropic_stream_to_openai_stream plainSetting (.str "") (chunks.map .bytes) ≠
        anthropic_stream_to_openai_stream plainSetting (.str "") [.bytes chunks.flatten] :=
  ⟨[(encode (textStream "é")).take 108, (encode (textStream "é")).drop 108],
    by decide +kernel, by decide +kernel⟩

end OpenLaunch.Anthropic.NativeStream
