import OpenLaunch.Python.Json

/-! # `fnmatch.fnmatchcase`

Shell patterns: `*` stands for any text, `?` for any character, `[seq]` for a character of a set and
`[!seq]` for one outside it. A pattern is read into its pieces, as `fnmatch.translate` reads it, and
the pieces are matched against the whole name. -/

namespace Python

/-- One item of a set: a character, or the characters from one to another. -/
inductive SetItem
  | one (c : Char)
  | range (lo hi : Char)
  deriving DecidableEq

/-- Whether the item has the character. -/
def SetItem.has : SetItem → Char → Bool
  | .one d, c => c = d
  | .range lo hi, c => lo ≤ c && c ≤ hi

/-- One piece of a pattern. -/
inductive GlobPiece
  /-- `*`. -/
  | star
  /-- `?`. -/
  | any
  /-- A character that stands for itself. -/
  | char (c : Char)
  /-- `[seq]`, and `[!seq]` when negated. -/
  | set (neg : Bool) (items : List SetItem)
  deriving DecidableEq

/-! ## Reading a pattern -/

/-- The text between `[` and the `]` that closes it, and what follows: a `]` right at the start, or
right after `!`, does not close the set. -/
def bracketText (cs : List Char) : Option (List Char × List Char) :=
  let neg := if cs.head? = some '!' then ['!'] else []
  let rest := cs.drop neg.length
  let close := if rest.head? = some ']' then [']'] else []
  let body := (rest.drop close.length).takeWhile (· ≠ ']')
  match rest.drop (close.length + body.length) with
  | [] => none
  | _ :: after => some (neg ++ close ++ body, after)

/-- The items of a set: a hyphen between two characters makes a range of them. -/
def setItems : List Char → List SetItem
  | c :: '-' :: d :: cs => .range c d :: setItems cs
  | c :: cs => .one c :: setItems cs
  | [] => []

/-- A range that runs backwards has no character and is dropped. -/
def SetItem.isBackwards : SetItem → Bool
  | .one _ => false
  | .range lo hi => hi < lo

/-- The set that the text between the brackets stands for. -/
def setOfText (stuff : List Char) : GlobPiece :=
  match stuff with
  | '!' :: body => .set true ((setItems body).filter (!·.isBackwards))
  | body =>
    -- a backwards range at the start is dropped first, and what is left may start with `!`
    match (setItems body).filter (!·.isBackwards) with
    | .one '!' :: items => .set true items
    | .range '!' hi :: items => .set true (.one '-' :: .one hi :: items)
    | items => .set false items

/-- The pieces of a pattern. The first argument bounds their number. -/
def globPieces : ℕ → List Char → List GlobPiece
  | 0, _ => []
  | _ + 1, [] => []
  | n + 1, c :: cs =>
    if c = '*' then .star :: globPieces n cs
    else if c = '?' then .any :: globPieces n cs
    else if c = '[' then
      match bracketText cs with
      | some (stuff, rest) => setOfText stuff :: globPieces n rest
      | none => .char '[' :: globPieces n cs
    else .char c :: globPieces n cs

/-! ## Matching -/

/-- Whether the piece stands for the character. -/
def GlobPiece.accepts : GlobPiece → Char → Bool
  | .star, _ => false
  | .any, _ => true
  | .char d, c => c = d
  | .set neg items, c => items.any (·.has c) != neg

/-- Whether the pieces match the whole name. -/
def globMatch : List GlobPiece → List Char → Bool
  | [], cs => cs.isEmpty
  | .star :: ps, cs => cs.tails.any (globMatch ps)
  | _ :: _, [] => false
  | p :: ps, c :: cs => p.accepts c && globMatch ps cs

/-- `fnmatch.fnmatchcase(name, pat)`. -/
def fnmatchcase (name pat : String) : Bool :=
  globMatch (globPieces pat.length pat.toList) name.toList

/-- A character with a meaning of its own in a pattern. -/
def isGlobChar (c : Char) : Bool := c = '*' || c = '?' || c = '['

example : fnmatchcase "analytics.orders" "analytics.*" = true := by decide

example : fnmatchcase "b" "[!a-c]" = false := by decide

end Python
