import OpenLaunch.Python.Json
import Mathlib.Algebra.GroupWithZero.Nat
import Mathlib.Data.Int.Notation

/-! # Conversions between numbers and text

`int`, `float` and `str` on the values of JSON text. What the interpreter makes of values whose text
has to be parsed or printed is a parameter, `Conversions`. -/

namespace Python

/-- Conversions of the interpreter that parse or print the text of a value. -/
structure Conversions where
  /-- `int(x)` for a float `x`. -/
  intOfFloat : FloatLit → Except PyErr ℤ
  /-- `int(s)` for a string `s`. -/
  intOfStr : String → Except PyErr ℤ
  /-- Whether `float(s)` raises for a string `s`. -/
  floatOfStr : String → Except PyErr Unit
  /-- `str(v)` for a value `v` that is no string. -/
  strOf : Json → String

/-- `int(v)`. -/
def Conversions.int (conv : Conversions) : Json → Except PyErr ℤ
  | .int n => .ok n
  | .bool b => .ok (if b then 1 else 0)
  | .float x => conv.intOfFloat x
  | .str s => conv.intOfStr s
  | .null | .list _ | .dict _ => .error .typeError

/-- `float(v)`, up to its value: an `int` that rounds to `2 ^ 1024` or more overflows. -/
def Conversions.float (conv : Conversions) : Json → Except PyErr Unit
  | .int n => if n.natAbs < 2 ^ 1024 - 2 ^ 970 then .ok () else .error .overflowError
  | .bool _ | .float _ => .ok ()
  | .str s => conv.floatOfStr s
  | .null | .list _ | .dict _ => .error .typeError

/-- `str(v)`. -/
def Conversions.str (conv : Conversions) : Json → String
  | .str s => s
  | v => conv.strOf v

/-- Conversions for values that hold no text and no float. -/
def plainConversions : Conversions where
  intOfFloat _ := .error .valueError
  intOfStr _ := .error .valueError
  floatOfStr _ := .error .valueError
  strOf _ := ""

end Python
