import OpenLaunch.Python.CodePoints
import OpenLaunch.Python.JsonText

/-! # Text for the database

The database stores no text with a NUL, and none that is not valid. Before a value is stored its
strings are cleaned, unless the text of the value shows that there is no NUL in it. -/

namespace OpenLaunch.Storage

open Python

/-! ## Values -/

/-- A value made of lists and dictionaries, whose strings may hold lone surrogates. -/
inductive DbValue
  | null
  | bool (b : Bool)
  | int (n : ℤ)
  | float (x : FloatLit)
  | str (s : List CodePoint)
  | list (xs : List DbValue)
  | dict (kvs : List (List CodePoint × DbValue))

namespace DbValue

/-- Induction over a value, with a hypothesis for each element and each entry. -/
@[elab_as_elim, induction_eliminator]
theorem ind {motive : DbValue → Prop} (null : motive .null) (bool : ∀ b, motive (.bool b))
    (int : ∀ n, motive (.int n)) (float : ∀ x, motive (.float x)) (str : ∀ s, motive (.str s))
    (list : ∀ xs, (∀ x ∈ xs, motive x) → motive (.list xs))
    (dict : ∀ kvs, (∀ e ∈ kvs, motive e.2) → motive (.dict kvs)) (v : DbValue) : motive v :=
  @DbValue.rec motive (fun xs => ∀ x ∈ xs, motive x) (fun kvs => ∀ e ∈ kvs, motive e.2)
    (fun e => motive e.2) null bool int float str list dict (by simp)
    (fun _ _ hx hxs => List.forall_mem_cons.mpr ⟨hx, hxs⟩) (by simp)
    (fun _ _ he hkvs => List.forall_mem_cons.mpr ⟨he, hkvs⟩) (fun _ _ h => h) v

mutual

/-- The value with other keys and other strings. -/
def mapStrings (key str : List CodePoint → List CodePoint) : DbValue → DbValue
  | .str s => .str (str s)
  | .list xs => .list (mapItems key str xs)
  | .dict kvs => .dict (mapEntries key str kvs)
  | .null => .null
  | .bool b => .bool b
  | .int n => .int n
  | .float x => .float x

/-- The elements with other keys and other strings. -/
def mapItems (key str : List CodePoint → List CodePoint) : List DbValue → List DbValue
  | [] => []
  | x :: xs => mapStrings key str x :: mapItems key str xs

/-- The entries with other keys and other strings. -/
def mapEntries (key str : List CodePoint → List CodePoint) :
    List (List CodePoint × DbValue) → List (List CodePoint × DbValue)
  | [] => []
  | (k, v) :: kvs => (key k, mapStrings key str v) :: mapEntries key str kvs

end

mutual

/-- The keys of the dictionaries in a value. -/
def keys : DbValue → List (List CodePoint)
  | .list xs => keysOfItems xs
  | .dict kvs => keysOfEntries kvs
  | .null | .bool _ | .int _ | .float _ | .str _ => []

/-- The keys of the dictionaries in elements. -/
def keysOfItems : List DbValue → List (List CodePoint)
  | [] => []
  | x :: xs => keys x ++ keysOfItems xs

/-- The keys of entries and of the dictionaries in them. -/
def keysOfEntries : List (List CodePoint × DbValue) → List (List CodePoint)
  | [] => []
  | (k, v) :: kvs => k :: (keys v ++ keysOfEntries kvs)

end

mutual

/-- The strings in a value that are no keys. -/
def strings : DbValue → List (List CodePoint)
  | .str s => [s]
  | .list xs => stringsOfItems xs
  | .dict kvs => stringsOfEntries kvs
  | .null | .bool _ | .int _ | .float _ => []

/-- The strings in elements. -/
def stringsOfItems : List DbValue → List (List CodePoint)
  | [] => []
  | x :: xs => strings x ++ stringsOfItems xs

/-- The strings in the values of entries. -/
def stringsOfEntries : List (List CodePoint × DbValue) → List (List CodePoint)
  | [] => []
  | (_, v) :: kvs => strings v ++ stringsOfEntries kvs

end

end DbValue

/-! ## Cleaning -/

/-- `'\x00'`. -/
def nul : CodePoint := .char '\x00'

/-- `sanitize_text_for_db`. -/
def sanitize_text_for_db (text : List CodePoint) : List CodePoint :=
  if nul ∉ text then text
  else
    let text := replace [nul] [] (replace [nul] [] text)
    (decode .ignore (encodePass text)).map .char

mutual

/-- `_strip_null_bytes_deep`. -/
def strip_null_bytes_deep : DbValue → DbValue
  | .str s => .str (sanitize_text_for_db s)
  | .dict kvs => .dict (stripEntries kvs)
  | .list xs => .list (stripItems xs)
  | .null => .null
  | .bool b => .bool b
  | .int n => .int n
  | .float x => .float x

/-- `[_strip_null_bytes_deep(v) for v in obj]`. -/
def stripItems : List DbValue → List DbValue
  | [] => []
  | v :: vs => strip_null_bytes_deep v :: stripItems vs

/-- `{k: _strip_null_bytes_deep(v) for k, v in obj.items()}`. -/
def stripEntries : List (List CodePoint × DbValue) → List (List CodePoint × DbValue)
  | [] => []
  | (k, v) :: kvs => (k, strip_null_bytes_deep v) :: stripEntries kvs

end

/-- The text of a code point inside a string literal, without `ensure_ascii`. -/
def escapePoint : CodePoint → List CodePoint
  | .char c => (escapeChar false c).map .char
  | .surrogate n => [.surrogate n]

/-- Characters as code points. -/
def points (cs : List Char) : List CodePoint := cs.map .char

/-- The string literal of a string. -/
def literal (s : List CodePoint) : List CodePoint :=
  points ['"'] ++ s.flatMap escapePoint ++ points ['"']

mutual

/-- `json.dumps(obj, ensure_ascii=False)`. -/
def dumpsPoints : DbValue → List CodePoint
  | .null => points "null".toList
  | .bool true => points "true".toList
  | .bool false => points "false".toList
  | .int n => points (intText n)
  | .float x => points x.text
  | .str s => literal s
  | .list [] => points "[]".toList
  | .list (x :: xs) => points ['['] ++ dumpsPoints x ++ dumpsItemsPoints xs
  | .dict [] => points "\x7b\x7d".toList
  | .dict ((k, v) :: kvs) =>
    points ['\x7b'] ++ literal k ++ points ": ".toList ++ dumpsPoints v ++ dumpsEntriesPoints kvs

/-- The items after the first, and the closing bracket. -/
def dumpsItemsPoints : List DbValue → List CodePoint
  | [] => points [']']
  | x :: xs => points ", ".toList ++ dumpsPoints x ++ dumpsItemsPoints xs

/-- The entries after the first, and the closing brace. -/
def dumpsEntriesPoints : List (List CodePoint × DbValue) → List CodePoint
  | [] => points ['\x7d']
  | (k, v) :: kvs =>
    points ", ".toList ++ literal k ++ points ": ".toList ++ dumpsPoints v ++
      dumpsEntriesPoints kvs

end

/-- `'\\u0000'`. -/
def escapedNul : List CodePoint := points (unicodeEscape 0)

/-- `sanitize_data_for_db`. -/
def sanitize_data_for_db (obj : DbValue) : DbValue :=
  match obj with
  | .str s => .str (sanitize_text_for_db s)
  | obj => if ¬ escapedNul <:+: dumpsPoints obj then obj else strip_null_bytes_deep obj

end OpenLaunch.Storage
