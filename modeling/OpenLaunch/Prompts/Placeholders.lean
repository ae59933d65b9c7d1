import OpenLaunch.Python.Items
import OpenLaunch.Python.Conversions
import OpenLaunch.Python.Replace
import OpenLaunch.Python.Slices

/-! # The placeholders of task templates

A template has placeholders for the prompt and for the messages of a chat: for all of it, for its
start, for its end, or for both ends without the middle. A placeholder for messages may name a
filter that cuts the text of each of them. The matches of a pattern are found from left to right,
and the template with holes for them is filled. -/

namespace OpenLaunch.Prompts

open Python

/-- The properties of characters and the cases of texts. -/
structure Unicode where
  /-- The value of a character that `\d` matches. -/
  digit : Char → Option ℕ
  /-- Whether `\w` matches a character. -/
  isWord : Char → Bool
  /-- Whether a character of a pattern matches a character under `(?i)`. -/
  ignoreCase : Char → Char → Bool
  /-- `s.lower()`. -/
  lower : List Char → List Char
  /-- `s.upper()`. -/
  upper : String → String

/-- A variant of a placeholder. -/
inductive Variant
  /-- Everything. -/
  | bare
  /-- One end or both, with a length. -/
  | cut (part : Part) (length : ℕ)
  deriving DecidableEq

/-- A filter of the contents of messages, `\w+:\d+`. -/
structure ContentFilter where
  mode : List Char
  max_chars : ℕ
  deriving DecidableEq

/-- A placeholder for messages. -/
structure MessagesPlaceholder where
  variant : Variant
  content_filter : Option ContentFilter
  deriving DecidableEq

/-! ## Matching -/

section Matching

variable (unicode : Unicode)

/-- The text after a literal part of a pattern, with `same` for the comparison of characters. -/
def afterLiteral (same : Char → Char → Bool) : List Char → List Char → Option (List Char)
  | [], s => some s
  | _ :: _, [] => none
  | p :: ps, c :: s => if same p c then afterLiteral same ps s else none

/-- The digits at the start of a text, as the number that starts with `n`, and the rest. -/
def digitsFrom (n : ℕ) : List Char → ℕ × List Char
  | [] => (n, [])
  | c :: s =>
    match unicode.digit c with
    | some d => digitsFrom (10 * n + d) s
    | none => (n, c :: s)

/-- `(\d+)`, and `int` of what it matches. -/
def number : List Char → Option (ℕ × List Char)
  | [] => none
  | c :: s => (unicode.digit c).map fun d => digitsFrom unicode d s

/-- `(?:\|(\w+:\d+))?`. No shorter match of a part leads further, since neither `|` nor a digit is
the start of what follows. -/
def optionalFilter : List Char → Option (Option ContentFilter × List Char)
  | '|' :: s =>
    match s.span unicode.isWord with
    | ([], _) => none
    | (mode, ':' :: rest) =>
      (number unicode rest).map fun (max_chars, rest) => (some ⟨mode, max_chars⟩, rest)
    | (_ :: _, _) => none
  | s => some (none, s)

/-- An alternative of the pattern for the prompt: its first part, and a number unless it is bare. -/
def promptAlternative (part : Option Part) (first : String) (s : List Char) :
    Option (Variant × List Char) := do
  let rest ← afterLiteral unicode.ignoreCase first.toList s
  match part with
  | none => some (.bare, rest)
  | some part =>
    let (length, rest) ← number unicode rest
    let rest ← afterLiteral unicode.ignoreCase "\x7d\x7d".toList rest
    some (.cut part length, rest)

/-- The match of the pattern for the prompt at the start of a text, and the rest of the text. -/
def promptMatch (s : List Char) : Option (Variant × List Char) :=
  promptAlternative unicode none "\x7b\x7bprompt\x7d\x7d" s <|>
  promptAlternative unicode (some .start) "\x7b\x7bprompt:start:" s <|>
  promptAlternative unicode (some .end) "\x7b\x7bprompt:end:" s <|>
  promptAlternative unicode (some .middletruncate) "\x7b\x7bprompt:middletruncate:" s

/-- An alternative of the pattern for messages. -/
def messagesAlternative (part : Option Part) (first : List Char) (s : List Char) :
    Option (MessagesPlaceholder × List Char) := do
  let rest ← afterLiteral (· == ·) first s
  let (variant, rest) ←
    match part with
    | none => some (Variant.bare, rest)
    | some part => (number unicode rest).map fun (length, rest) => (.cut part length, rest)
  let (content_filter, rest) ← optionalFilter unicode rest
  let rest ← afterLiteral (· == ·) "\x7d\x7d".toList rest
  some (⟨variant, content_filter⟩, rest)

/-- The match of the pattern for the messages of a variable, and the rest of the text. -/
def messagesMatch (variable_name : List Char) (s : List Char) :
    Option (MessagesPlaceholder × List Char) :=
  let opened := "\x7b\x7b".toList ++ variable_name
  messagesAlternative unicode none opened s <|>
  messagesAlternative unicode (some .start) (opened ++ ":START:".toList) s <|>
  messagesAlternative unicode (some .end) (opened ++ ":END:".toList) s <|>
  messagesAlternative unicode (some .middletruncate) (opened ++ ":MIDDLETRUNCATE:".toList) s

/-- The pieces of a text that are matched, and the other characters: the match at each position is
the given one, and the characters of a match are passed over. -/
def piecesFrom {ι : Type} (found : List Char → Option (ι × List Char)) :
    ℕ → List Char → List (Piece Char ι)
  | _, [] => []
  | skip + 1, _ :: s => piecesFrom found skip s
  | 0, c :: s =>
    match found (c :: s) with
    | some (i, rest) => .hole i :: piecesFrom found (s.length - rest.length) s
    | none => .lit c :: piecesFrom found 0 s

/-- The placeholders for the prompt in a template, with what is around them. -/
def promptPieces (template : List Char) : List (Piece Char Variant) :=
  piecesFrom (promptMatch unicode) 0 template

/-- The placeholders for messages in a template, with what is around them. -/
def messagesPieces (variable_name template : List Char) : List (Piece Char MessagesPlaceholder) :=
  piecesFrom (messagesMatch unicode variable_name) 0 template

end Matching

/-! ## The prompt -/

/-- `'...'`. -/
def ellipsis : List Char := ['.', '.', '.']

/-- What replaces a placeholder for the prompt. -/
def promptReplacement (prompt : List Char) : Variant → List Char
  | .bare => prompt
  | .cut .start start_length => prompt.take start_length
  | .cut .end end_length => lastSlice end_length prompt
  | .cut .middletruncate middle_length =>
    if prompt.length ≤ middle_length then prompt
    else
      let start := prompt.take ((middle_length + 1) / 2)
      let «end» := lastSlice (middle_length / 2) prompt
      start ++ ellipsis ++ «end»

/-- `replace_prompt_variable`. -/
def replace_prompt_variable (unicode : Unicode) (template prompt : List Char) : List Char :=
  Piece.fill (promptReplacement prompt) (promptPieces unicode template)

/-! ## Filters of contents -/

/-- `truncate_content`. -/
def truncate_content (content : List Char) (max_chars : ℕ) (mode : Part) : List Char :=
  if max_chars = 0 then []
  else if content.length ≤ max_chars then content
  else
    match mode with
    | .start => content.take max_chars
    | .end => lastSlice max_chars content
    | .middletruncate =>
      let half := max_chars / 2
      content.take half ++ ellipsis ++ lastSlice (max_chars - half) content

section Messages

variable (unicode : Unicode) (conv : Conversions)

/-- `truncate_content` on the text of an item, which may be any value: what has a length and no
slices raises. -/
def truncateValue (max_chars : ℕ) (mode : Part) (content : Json) : Except PyErr Json :=
  if max_chars = 0 then .ok (.str "")
  else if !content.truthy then .ok content
  else
    match content with
    | .str s => .ok (.str (String.ofList (truncate_content s.toList max_chars mode)))
    | .list xs =>
      if xs.length ≤ max_chars then .ok content
      else
        match mode with
        | .start => .ok (.list (xs.take max_chars))
        | .end => .ok (.list (lastSlice max_chars xs))
        | .middletruncate =>
          let half := max_chars / 2
          .ok (.str (conv.str (.list (xs.take half)) ++ "..." ++
            conv.str (.list (lastSlice (max_chars - half) xs))))
    | .dict kvs => if kvs.length ≤ max_chars then .ok content else .error .typeError
    | _ => .error .typeError

/-- An item of a content with its text truncated: an item of another type is kept. -/
def truncateItem (max_chars : ℕ) (mode : Part) : Json → Except PyErr Json
  | .dict item =>
    if Assoc.get? item "type" = some (.str "text") then do
      let text ← truncateValue conv max_chars mode ((Assoc.get? item "text").getD (.str ""))
      .ok (.dict (Assoc.set item "text" text))
    else .ok (.dict item)
  | item => .ok item

/-- A message with its content truncated. -/
def truncateMessage (max_chars : ℕ) (mode : Part) (msg : List (String × Json)) :
    Except PyErr (List (String × Json)) :=
  match Assoc.get? msg "content" with
  | some (.str content) =>
    .ok (Assoc.set msg "content"
      (.str (String.ofList (truncate_content content.toList max_chars mode))))
  | some (.list items) => do
    let new_content ← items.mapM (truncateItem conv max_chars mode)
    .ok (Assoc.set msg "content" (.list new_content))
  | _ => .ok msg

/-- The mode that a text names. -/
def modeOf (mode : List Char) : Option Part :=
  if mode = "middletruncate".toList then some .middletruncate
  else if mode = "start".toList then some .start
  else if mode = "end".toList then some .end
  else none

/-- `apply_content_filter`: messages are kept as they are for a mode that it does not know. -/
def apply_content_filter (messages : List (List (String × Json))) (filter : ContentFilter) :
    Except PyErr (List (List (String × Json))) :=
  match modeOf (unicode.lower filter.mode) with
  | none => .ok messages
  | some mode => messages.mapM (truncateMessage conv filter.max_chars mode)

/-! ## The messages -/

/-- The messages that a variant selects. -/
def selectMessages {α : Type} (messages : List α) : Variant → List α
  | .bare => messages
  | .cut .start start_length => messages.take start_length
  | .cut .end end_length => lastSlice end_length messages
  | .cut .middletruncate mid =>
    if messages.length ≤ mid then messages
    else
      let half := mid / 2
      let start_msgs := messages.take half
      let end_msgs :=
        if mid % 2 = 0 then lastSlice half messages else lastSlice (half + 1) messages
      start_msgs ++ end_msgs

/-- The text of the first item of the type `text`. -/
def firstText : List Json → Except PyErr Json
  | [] => .ok .null
  | item :: items => do
    let type ← item.item "type"
    if type = .str "text" then item.item "text" else firstText items

/-- `get_content_from_message`. -/
def get_content_from_message (message : List (String × Json)) : Except PyErr Json :=
  match Assoc.get? message "content" with
  | some (.list items) => firstText items
  | some content => .ok content
  | none => .ok .null

/-- A line of `get_messages_content`. -/
def messageLine (message : List (String × Json)) : Except PyErr (List Char) :=
  match Assoc.get? message "role" with
  | none => .error .keyError
  | some (.str role) => do
    let content ← get_content_from_message message
    .ok ((unicode.upper role).toList ++ ": ".toList ++ (conv.str content).toList)
  | some _ => .error .attributeError

/-- `get_messages_content`. -/
def get_messages_content (messages : List (List (String × Json))) : Except PyErr (List Char) := do
  let lines ← messages.mapM (messageLine unicode conv)
  .ok (['\n'].intercalate lines)

/-- What replaces a placeholder for messages. -/
def messagesReplacement (messages : Option (List (List (String × Json)))) (p : MessagesPlaceholder) :
    Except PyErr (List Char) :=
  match messages with
  | none => .ok []
  | some messages => do
    let selected := selectMessages messages p.variant
    match p.content_filter with
    | some filter =>
      let selected ← apply_content_filter unicode conv selected filter
      get_messages_content unicode conv selected
    | none => get_messages_content unicode conv selected

/-- A text with each hole filled by what may raise. -/
def fillEach {ι : Type} (f : ι → Except PyErr (List Char)) :
    List (Piece Char ι) → Except PyErr (List Char)
  | [] => .ok []
  | .lit c :: pieces => do
    let rest ← fillEach f pieces
    .ok (c :: rest)
  | .hole i :: pieces => do
    let text ← f i
    let rest ← fillEach f pieces
    .ok (text ++ rest)

/-- `replace_messages_variable`. -/
def replace_messages_variable (template : List Char)
    (messages : Option (List (List (String × Json)))) (variable_name : List Char) :
    Except PyErr (List Char) :=
  fillEach (messagesReplacement unicode conv messages)
    (messagesPieces unicode variable_name template)

end Messages

end OpenLaunch.Prompts
