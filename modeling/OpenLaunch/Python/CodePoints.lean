import OpenLaunch.Python.TextCuts
import OpenLaunch.Python.Replace

/-! # Strings with surrogates

A Python string may hold code points that are no characters: lone surrogates. They are encoded like
characters by `errors='surrogatepass'`, and the decoder takes each of their bytes for an error. -/

namespace Python

/-- A code point of a string: a character or a lone surrogate. -/
inductive CodePoint
  | char (c : Char)
  | surrogate (n : Fin 0x800)
  deriving DecidableEq

namespace CodePoint

/-- The character, if it is one. -/
def char? : CodePoint → Option Char
  | .char c => some c
  | .surrogate _ => none

/-- The bytes of a code point under `errors='surrogatepass'`. -/
def bytes : CodePoint → List UInt8
  | .char c => String.utf8EncodeChar c
  | .surrogate n =>
    let v := 0xd800 + n.val
    [UInt8.ofNat (v / 4096 % 0x10 + 0xe0), UInt8.ofNat (v / 64 % 0x40 + 0x80),
      UInt8.ofNat (v % 0x40 + 0x80)]

end CodePoint

/-- `s.encode('utf-8', errors='surrogatepass')`. -/
def encodePass (s : List CodePoint) : List UInt8 := s.flatMap CodePoint.bytes

/-- A byte that goes on with a character, where none is begun. -/
theorem firstByte_continuation {x : ℕ} (h : x < 0x40) :
    firstByte .ignore (UInt8.ofNat (x + 0x80)) = ([], none) := by
  have hbyte : (UInt8.ofNat (x + 0x80)).toNat = x + 0x80 := toNat_ofNat_of_lt (by omega)
  unfold firstByte
  simp only [hbyte]
  rw [if_neg (by omega), if_pos (by omega)]
  rfl

/-- Each byte of a surrogate is passed over: the second one does not go on with the first one. -/
theorem decodeFrom_surrogate (n : Fin 0x800) :
    decodeFrom .ignore none (CodePoint.surrogate n).bytes = ([], none) := by
  obtain ⟨n, hn⟩ := n
  have hfirst : (0xd800 + n) / 4096 % 0x10 + 0xe0 = 0xed := by omega
  have hsecond : 0x20 ≤ (0xd800 + n) / 64 % 0x40 := by omega
  have hbyte : (UInt8.ofNat ((0xd800 + n) / 64 % 0x40 + 0x80)).toNat =
      (0xd800 + n) / 64 % 0x40 + 0x80 := toNat_ofNat_of_lt (by omega)
  have hbegun : firstByte .ignore (UInt8.ofNat 0xed) =
      ([], some ⟨0xd, 2, 0x80, 0x9f, by decide⟩) := by decide
  simp only [CodePoint.bytes, decodeFrom, decodeByte, hfirst, hbegun, hbyte]
  rw [if_neg (by omega)]
  simp only [firstByte_continuation (show (0xd800 + n) / 64 % 0x40 < 0x40 by omega),
    firstByte_continuation (show (0xd800 + n) % 0x40 < 0x40 by omega), OnError.text]
  rfl

theorem decodeFrom_bytes (c : CodePoint) :
    decodeFrom .ignore none c.bytes = (c.char?.toList, none) := by
  cases c with
  | char c => exact decodeFrom_encodeChar .ignore c
  | surrogate n => exact decodeFrom_surrogate n

/-- **What the way through bytes keeps of a string**: its characters. -/
theorem decode_encodePass (s : List CodePoint) :
    decode .ignore (encodePass s) = s.filterMap CodePoint.char? := by
  have hrun : decodeFrom .ignore none (encodePass s) = (s.filterMap CodePoint.char?, none) := by
    induction s with
    | nil => rfl
    | cons c s ih =>
      rw [encodePass, List.flatMap_cons, decodeFrom_append, decodeFrom_bytes]
      rw [encodePass] at ih
      rw [ih]
      cases c with
      | char c => rfl
      | surrogate n => rfl
  rw [decode, hrun]

/-- Removing an element. -/
theorem replace_singleton_nil {α : Type} [DecidableEq α] (a : α) (s : List α) :
    replace [a] [] s = s.filter fun b => b ≠ a := by
  induction s with
  | nil => rfl
  | cons b s ih =>
    by_cases hb : b = a
    · subst hb
      rw [List.filter_cons_of_neg (by simp), ← ih]
      exact replace_append (List.cons_ne_nil b []) [] s
    · rw [List.filter_cons_of_pos (by simpa using hb), ← ih]
      apply replace_cons
      intro hprefix
      exact hb (List.cons_prefix_cons.mp hprefix).1.symm

end Python
