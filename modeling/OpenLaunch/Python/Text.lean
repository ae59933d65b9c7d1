import OpenLaunch.Python.Json
import Mathlib.Data.List.DropRight

/-! # Text and bytes

`str.strip` and the UTF-8 decoder of `bytes.decode`, as functions on lists of characters and bytes.
The decoder reads one byte at a time, so that what it does with a text cut into pieces can be read
off its state at the cut. Ill-formed input is handled as the standard library does: each maximal
prefix of a character that does not go on is one error. -/

namespace Python

/-! ## Whitespace -/

/-- `c.isspace()`. -/
def isSpace (c : Char) : Bool :=
  let n := c.toNat
  (9 ≤ n && n ≤ 13) || (0x1c ≤ n && n ≤ 0x20) || n = 0x85 || n = 0xa0 || n = 0x1680 ||
    (0x2000 ≤ n && n ≤ 0x200a) || n = 0x2028 || n = 0x2029 || n = 0x202f || n = 0x205f || n = 0x3000

/-- `s.strip()`. -/
def strip (cs : List Char) : List Char := (cs.dropWhile isSpace).rdropWhile isSpace

/-- `s.strip()` of a string. -/
def stripped (s : String) : String := String.ofList (strip s.toList)

/-! ## UTF-8 -/

/-- A character begun: the bits read, the number of bytes to come, and the range of the next, which
is never the first byte of a character. -/
structure Pending where
  bits : ℕ
  need : ℕ
  low : ℕ
  high : ℕ
  tail : 0x80 ≤ low ∧ high ≤ 0xbf
  deriving DecidableEq

/-- What the decoder does at an error: `errors='replace'` or `errors='ignore'`. -/
inductive OnError
  | replace
  | ignore
  deriving DecidableEq

/-- The text an error leaves. -/
def OnError.text : OnError → List Char
  | .replace => ['\ufffd']
  | .ignore => []

/-- A byte between two characters: the text it completes and the character it begins. -/
def firstByte (onError : OnError) (b : UInt8) : List Char × Option Pending :=
  let n := b.toNat
  if n < 0x80 then ([Char.ofNat n], none)
  else if n < 0xc2 then (onError.text, none)
  else if n < 0xe0 then ([], some ⟨n - 0xc0, 1, 0x80, 0xbf, by decide⟩)
  else if n = 0xe0 then ([], some ⟨0, 2, 0xa0, 0xbf, by decide⟩)
  else if n = 0xed then ([], some ⟨0xd, 2, 0x80, 0x9f, by decide⟩)
  else if n < 0xf0 then ([], some ⟨n - 0xe0, 2, 0x80, 0xbf, by decide⟩)
  else if n = 0xf0 then ([], some ⟨0, 3, 0x90, 0xbf, by decide⟩)
  else if n < 0xf4 then ([], some ⟨n - 0xf0, 3, 0x80, 0xbf, by decide⟩)
  else if n = 0xf4 then ([], some ⟨4, 3, 0x80, 0x8f, by decide⟩)
  else (onError.text, none)

/-- One byte: the text it completes and the character left unfinished. -/
def decodeByte (onError : OnError) : Option Pending → UInt8 → List Char × Option Pending
  | none, b => firstByte onError b
  | some p, b =>
    if p.low ≤ b.toNat ∧ b.toNat ≤ p.high then
      let bits := p.bits * 64 + (b.toNat - 0x80)
      if p.need = 1 then ([Char.ofNat bits], none)
      else ([], some ⟨bits, p.need - 1, 0x80, 0xbf, by decide⟩)
    else
      -- the character begun is an error, and the byte is looked at afresh
      (onError.text ++ (firstByte onError b).1, (firstByte onError b).2)

/-- The bytes one by one: the text they complete and the character left unfinished. -/
def decodeFrom (onError : OnError) :
    Option Pending → List UInt8 → List Char × Option Pending
  | p, [] => ([], p)
  | p, b :: bs =>
    ((decodeByte onError p b).1 ++ (decodeFrom onError (decodeByte onError p b).2 bs).1,
      (decodeFrom onError (decodeByte onError p b).2 bs).2)

/-- `bs.decode('utf-8', errors=onError)`. -/
def decode (onError : OnError) (bs : List UInt8) : List Char :=
  match decodeFrom onError none bs with
  | (cs, none) => cs
  | (cs, some _) => cs ++ onError.text

/-- `s.encode('utf-8')`. -/
def encode (cs : List Char) : List UInt8 := cs.flatMap String.utf8EncodeChar

end Python
