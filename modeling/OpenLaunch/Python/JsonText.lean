import OpenLaunch.Python.Json
import Mathlib.Data.List.Basic

/-! # `json.dumps` and `json.loads`

The text of a value (`dumps`) and the value of a text (`loads`), following the standard library's
encoder and its strict decoder: the short escapes and `\uXXXX` with surrogate pairs, `NaN` and the
infinities, whitespace between tokens, the last of two entries with one key. The interpreter's
limits on nesting depth and on the digits of an `int` are not modelled, and an escape that names a
lone surrogate, which is no Unicode scalar value, is read as U+FFFD. -/

namespace Python

/-! ## Writing -/

/-- The options of `json.dumps` that change its text. -/
structure Format where
  /-- `ensure_ascii`. -/
  ensureAscii : Bool
  /-- The separator between items. -/
  itemSep : List Char
  /-- The separator between a key and its value. -/
  keySep : List Char

/-- `json.dumps(value)`. -/
def Format.standard : Format := ⟨true, ", ".toList, ": ".toList⟩

/-- `json.dumps(value, ensure_ascii=False)`. -/
def Format.unicode : Format := ⟨false, ", ".toList, ": ".toList⟩

/-- `json.dumps(value, separators=(',', ':'))`. -/
def Format.compact : Format := ⟨true, ",".toList, ":".toList⟩

/-- The lower-case hexadecimal digit of `n < 16`. -/
def hexDigit (n : Nat) : Char := if n < 10 then Char.ofNat (48 + n) else Char.ofNat (87 + n)

/-- `'{0:04x}'.format(n)` for `n < 65536`. -/
def hex4 (n : Nat) : List Char :=
  [hexDigit (n / 4096 % 16), hexDigit (n / 256 % 16), hexDigit (n / 16 % 16), hexDigit (n % 16)]

/-- The escape `\uXXXX` of a 16-bit code unit. -/
def unicodeEscape (n : Nat) : List Char := '\\' :: 'u' :: hex4 n

/-- The text of one character inside a string literal. -/
def escapeChar (ensureAscii : Bool) (c : Char) : List Char :=
  if c = '"' then ['\\', '"']
  else if c = '\\' then ['\\', '\\']
  else if c = '\n' then ['\\', 'n']
  else if c = '\r' then ['\\', 'r']
  else if c = '\t' then ['\\', 't']
  else if c = '\x0c' then ['\\', 'f']
  else if c = '\x08' then ['\\', 'b']
  else if c.toNat < 0x20 then unicodeEscape c.toNat
  else if !ensureAscii || c.toNat < 0x7f then [c]
  else if c.toNat < 0x10000 then unicodeEscape c.toNat
  else
    -- a character outside the basic plane is written as its surrogate pair
    unicodeEscape (0xd800 + (c.toNat - 0x10000) / 0x400) ++
      unicodeEscape (0xdc00 + (c.toNat - 0x10000) % 0x400)

/-- The string literal of a string. -/
def quote (ensureAscii : Bool) (cs : List Char) : List Char :=
  '"' :: cs.flatMap (escapeChar ensureAscii) ++ ['"']

/-- The decimal text of an `int`. -/
def intText (n : Int) : List Char :=
  if n < 0 then '-' :: Nat.toDigits 10 n.natAbs else Nat.toDigits 10 n.natAbs

mutual

/-- `json.dumps(value)` under the given options. -/
def dumps (f : Format) : Json → List Char
  | .null => "null".toList
  | .bool true => "true".toList
  | .bool false => "false".toList
  | .int n => intText n
  | .float x => x.text
  | .str s => quote f.ensureAscii s.toList
  | .list [] => "[]".toList
  | .list (x :: xs) => '[' :: (dumps f x ++ dumpsItems f xs)
  | .dict [] => "{}".toList
  | .dict ((k, v) :: kvs) =>
    '{' :: (quote f.ensureAscii k.toList ++ f.keySep ++ dumps f v ++ dumpsMembers f kvs)

/-- The items after the first, and the closing bracket. -/
def dumpsItems (f : Format) : List Json → List Char
  | [] => [']']
  | x :: xs => f.itemSep ++ dumps f x ++ dumpsItems f xs

/-- The entries after the first, and the closing brace. -/
def dumpsMembers (f : Format) : List (String × Json) → List Char
  | [] => ['}']
  | (k, v) :: kvs =>
    f.itemSep ++ quote f.ensureAscii k.toList ++ f.keySep ++ dumps f v ++ dumpsMembers f kvs

end

/-! ## Reading -/

/-- The whitespace of JSON text: `[ \t\n\r]*`. -/
def isJsonSpace (c : Char) : Bool := c = ' ' || c = '\t' || c = '\n' || c = '\r'

/-- Skip whitespace. -/
def skipSpace (cs : List Char) : List Char := cs.dropWhile isJsonSpace

/-- The value of a hexadecimal digit. -/
def hexVal? (c : Char) : Option Nat :=
  if '0' ≤ c ∧ c ≤ '9' then some (c.toNat - 48)
  else if 'a' ≤ c ∧ c ≤ 'f' then some (c.toNat - 87)
  else if 'A' ≤ c ∧ c ≤ 'F' then some (c.toNat - 55)
  else none

/-- The four hexadecimal digits of a `\u` escape, and what follows them. -/
def readHex4 : List Char → Option (Nat × List Char)
  | a :: b :: c :: d :: cs => do
    let a ← hexVal? a
    let b ← hexVal? b
    let c ← hexVal? c
    let d ← hexVal? d
    some (a * 4096 + b * 256 + c * 16 + d, cs)
  | _ => none

/-- The character of a code unit; a lone surrogate becomes U+FFFD. -/
def charOfUnit (n : Nat) : Char := if 0xd800 ≤ n ∧ n ≤ 0xdfff then '\ufffd' else Char.ofNat n

/-- The code unit after `\u`, joined with the low surrogate that follows a high one. -/
def readUnicode (cs : List Char) : Option (Char × List Char) := do
  let (n, rest) ← readHex4 cs
  if 0xd800 ≤ n ∧ n ≤ 0xdbff then
    match rest with
    | '\\' :: 'u' :: cs' =>
      match readHex4 cs' with
      | some (m, rest') =>
        if 0xdc00 ≤ m ∧ m ≤ 0xdfff then
          some (Char.ofNat (0x10000 + (n - 0xd800) * 0x400 + (m - 0xdc00)), rest')
        else some ('\ufffd', rest)
      | none => some ('\ufffd', rest)
    | _ => some ('\ufffd', rest)
  else some (charOfUnit n, rest)

/-- The character an escape denotes, given the text after the backslash. -/
def readEscape : List Char → Option (Char × List Char)
  | [] => none
  | c :: cs =>
    if c = '"' then some ('"', cs)
    else if c = '\\' then some ('\\', cs)
    else if c = '/' then some ('/', cs)
    else if c = 'b' then some ('\x08', cs)
    else if c = 'f' then some ('\x0c', cs)
    else if c = 'n' then some ('\n', cs)
    else if c = 'r' then some ('\r', cs)
    else if c = 't' then some ('\t', cs)
    else if c = 'u' then readUnicode cs
    else none

/-- The characters up to the closing quote, and what follows it. The first argument bounds the
number of characters. -/
def scanString : Nat → List Char → Except PyErr (List Char × List Char)
  | 0, _ => .error .jsonDecodeError
  | _ + 1, [] => .error .jsonDecodeError
  | n + 1, c :: cs =>
    if c = '"' then .ok ([], cs)
    else if c = '\\' then
      match readEscape cs with
      | some (d, rest) => do
        let (ds, rest) ← scanString n rest
        .ok (d :: ds, rest)
      | none => .error .jsonDecodeError
    else if c.toNat < 0x20 then .error .jsonDecodeError
    else do
      let (ds, rest) ← scanString n cs
      .ok (c :: ds, rest)

/-- The string whose opening quote has been read. -/
def readString (cs : List Char) : Except PyErr (List Char × List Char) :=
  scanString (cs.length + 1) cs

/-- The number literal at the start of the text, its sign already read. -/
def scanNumber (neg : Bool) (cs : List Char) : Except PyErr (Json × List Char) :=
  let (ds, r₁) := spanInt cs
  let (fs, r₂) := spanFrac r₁
  let (es, r₃) := spanExp r₂
  if ds = [] then .error .jsonDecodeError
  else if fs = [] ∧ es = [] then
    let n : Int := Nat.ofDigitChars 10 ds 0
    .ok (.int (if neg then -n else n), r₃)
  else
    let text := (if neg then ['-'] else []) ++ ds ++ fs ++ es
    if h : isFloatText text = true then .ok (.float ⟨text, h⟩, r₃) else .error .jsonDecodeError

/-- `text` read as a literal of the grammar. -/
def scanLiteral (text : List Char) (v : Json) (cs : List Char) : Except PyErr (Json × List Char) :=
  if text <+: cs then .ok (v, cs.drop text.length) else .error .jsonDecodeError

/-- A value that is neither a string, an array nor an object. -/
def scanAtom : List Char → Except PyErr (Json × List Char)
  | [] => .error .jsonDecodeError
  | c :: cs =>
    if c = 'n' then scanLiteral "null".toList .null (c :: cs)
    else if c = 't' then scanLiteral "true".toList (.bool true) (c :: cs)
    else if c = 'f' then scanLiteral "false".toList (.bool false) (c :: cs)
    else if c = 'N' then scanLiteral "NaN".toList (.float ⟨"NaN".toList, by decide⟩) (c :: cs)
    else if c = 'I' then
      scanLiteral "Infinity".toList (.float ⟨"Infinity".toList, by decide⟩) (c :: cs)
    else if c = '-' then
      match cs with
      | 'I' :: _ =>
        scanLiteral "-Infinity".toList (.float ⟨"-Infinity".toList, by decide⟩) (c :: cs)
      | _ => scanNumber true cs
    else scanNumber false (c :: cs)

/-- `dict(pairs)`: the last of two pairs with one key wins. -/
def dictOfPairs (kvs : List (String × Json)) : List (String × Json) :=
  kvs.foldl (fun d e => Assoc.set d e.1 e.2) []

mutual

/-- The value at the start of the text, and what follows it. The first argument bounds the number
of values and items. -/
def scanValue : Nat → List Char → Except PyErr (Json × List Char)
  | 0, _ => .error .jsonDecodeError
  | _ + 1, [] => .error .jsonDecodeError
  | n + 1, c :: cs =>
    if c = '"' then do
      let (s, rest) ← readString cs
      .ok (.str (String.ofList s), rest)
    else if c = '[' then
      if (skipSpace cs).head? = some ']' then .ok (.list [], (skipSpace cs).tail)
      else do
        let (xs, rest) ← scanItems n (skipSpace cs)
        .ok (.list xs, rest)
    else if c = '{' then
      if (skipSpace cs).head? = some '}' then .ok (.dict [], (skipSpace cs).tail)
      else do
        let (kvs, rest) ← scanMembers n (skipSpace cs)
        .ok (.dict (dictOfPairs kvs), rest)
    else scanAtom (c :: cs)

/-- The items of an array up to its closing bracket. -/
def scanItems : Nat → List Char → Except PyErr (List Json × List Char)
  | 0, _ => .error .jsonDecodeError
  | n + 1, cs => do
    let (x, rest) ← scanValue n cs
    match skipSpace rest with
    | ',' :: rest => do
      let (xs, rest) ← scanItems n (skipSpace rest)
      .ok (x :: xs, rest)
    | ']' :: rest => .ok ([x], rest)
    | _ => .error .jsonDecodeError

/-- The members of an object up to its closing brace. -/
def scanMembers : Nat → List Char → Except PyErr (List (String × Json) × List Char)
  | 0, _ => .error .jsonDecodeError
  | n + 1, '"' :: cs => do
    let (k, rest) ← readString cs
    match skipSpace rest with
    | ':' :: rest => do
      let (v, rest) ← scanValue n (skipSpace rest)
      match skipSpace rest with
      | ',' :: rest => do
        let (kvs, rest) ← scanMembers n (skipSpace rest)
        .ok ((String.ofList k, v) :: kvs, rest)
      | '}' :: rest => .ok ([(String.ofList k, v)], rest)
      | _ => .error .jsonDecodeError
    | _ => .error .jsonDecodeError
  | _ + 1, _ => .error .jsonDecodeError

end

/-- `json.loads(text)`. -/
def loads (cs : List Char) : Except PyErr Json :=
  if cs.head? = some '\ufeff' then .error .jsonDecodeError
  else do
    let (v, rest) ← scanValue (cs.length + 1) (skipSpace cs)
    if skipSpace rest = [] then .ok v else .error .jsonDecodeError

example : loads "[1, -2.50e3, \"\\u00e9\\ud83d\\ude00\" , null] ".toList =
    .ok (.list [.int 1, .float ⟨"-2.50e3".toList, by decide⟩, .str "é😀", .null]) := by
  decide +kernel

end Python
