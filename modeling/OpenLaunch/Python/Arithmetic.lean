import OpenLaunch.Python.Conversions

/-! # Sums and comparisons

`+` and `==` on the values of JSON text. Integers are added and compared exactly; what comes of two
numbers one of which is a float is a parameter, `Floats`. -/

namespace Python

/-- Floating-point arithmetic, on numbers one of which is a float. -/
structure Floats where
  /-- `a + b`. -/
  add : Json → Json → FloatLit
  /-- `a == b`. -/
  eq : Json → Json → Bool

/-- The integer that an `int` or a `bool` is. -/
def Json.int? : Json → Option ℤ
  | .int n => some n
  | .bool b => some (if b then 1 else 0)
  | _ => none

/-- `isinstance(v, Number)`. -/
def Json.isReal : Json → Bool
  | .int _ | .bool _ | .float _ => true
  | _ => false

/-- `isinstance(v, Number) and not isinstance(v, bool)`. -/
def Json.isNumber : Json → Bool
  | .int _ | .float _ => true
  | _ => false

/-- `float(v)` does not overflow. -/
def Json.fitsFloat : Json → Bool
  | .int n => decide (n.natAbs < 2 ^ 1024 - 2 ^ 970)
  | _ => true

/-- `a + b`. -/
def Floats.plus (floats : Floats) (a b : Json) : Except PyErr Json :=
  match a, b with
  | .str a, .str b => .ok (.str (a ++ b))
  | .list a, .list b => .ok (.list (a ++ b))
  | a, b =>
    match a.int?, b.int? with
    | some m, some n => .ok (.int (m + n))
    | _, _ =>
      if a.isReal ∧ b.isReal then
        if a.fitsFloat ∧ b.fitsFloat then .ok (.float (floats.add a b)) else .error .overflowError
      else .error .typeError

mutual

/-- `a == b`. -/
def Floats.equal (floats : Floats) : Json → Json → Bool
  | .null, b => b = .null
  | .bool x, b => floats.equalNumbers (.bool x) b
  | .int n, b => floats.equalNumbers (.int n) b
  | .float x, b => floats.equalNumbers (.float x) b
  | .str s, b => b = .str s
  | .list xs, b =>
    match b with
    | .list ys => floats.equalItems xs ys
    | _ => false
  | .dict kvs, b =>
    match b with
    | .dict kvs' => kvs.length = kvs'.length && floats.equalEntries kvs kvs'
    | _ => false

/-- `a == b` for a number `a`. -/
def Floats.equalNumbers (floats : Floats) (a b : Json) : Bool :=
  match a.int?, b.int? with
  | some m, some n => m = n
  | _, _ => a.isReal && b.isReal && floats.eq a b

/-- The items of two lists are equal, one by one. -/
def Floats.equalItems (floats : Floats) : List Json → List Json → Bool
  | [], ys => ys.isEmpty
  | x :: xs, ys =>
    match ys with
    | [] => false
    | y :: ys => floats.equal x y && floats.equalItems xs ys

/-- Every entry has an equal one in the other dictionary. -/
def Floats.equalEntries (floats : Floats) : List (String × Json) → List (String × Json) → Bool
  | [], _ => true
  | (k, v) :: kvs, kvs' =>
    (match Assoc.get? kvs' k with
      | some w => floats.equal v w
      | none => false) && floats.equalEntries kvs kvs'

end

/-- Arithmetic for values that hold no float. -/
def noFloats : Floats where
  add _ _ := ⟨"0.0".toList, rfl⟩
  eq _ _ := false

variable {floats : Floats}

theorem plus_int (m n : ℤ) : floats.plus (.int m) (.int n) = .ok (.int (m + n)) := rfl

/-- Two dictionaries are equal when every entry has an equal one and the sizes agree. -/
theorem equalEntries_iff {kvs kvs' : List (String × Json)} :
    floats.equalEntries kvs kvs' = true ↔
      ∀ e ∈ kvs, ∃ w, Assoc.get? kvs' e.1 = some w ∧ floats.equal e.2 w = true := by
  induction kvs with
  | nil => simp [Floats.equalEntries]
  | cons e kvs ih =>
    rw [Floats.equalEntries, Bool.and_eq_true, ih, List.forall_mem_cons]
    cases Assoc.get? kvs' e.1 <;> simp

end Python
