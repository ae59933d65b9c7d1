import OpenLaunch.Python.Dict

/-! # The values `json.loads` returns

`Json` is the type of the Python objects that JSON text decodes to, with the dynamic operations a
program applies to them: `.get`, truthiness, iteration, `int(·)`, hashing as a dictionary key. An
operation that raises returns `Except PyErr`, so a caller sees where an ill-typed value stops it.

Strings are Lean strings, that is, sequences of Unicode scalar values. A float is carried as the
number literal that denotes it; no operation here computes with its value beyond comparing it with
zero. -/

namespace Python

/-- The exception classes the modelled operations raise. -/
inductive PyErr
  | attributeError
  | typeError
  | keyError
  | indexError
  | valueError
  | jsonDecodeError
  | overflowError
  | runtimeError
  | upstream
  deriving DecidableEq, Repr

/-- Where two parts that may raise return. -/
theorem bind_eq_ok {ε α β : Type} {x : Except ε α} {f : α → Except ε β} {b : β} :
    (x >>= f) = .ok b ↔ ∃ a, x = .ok a ∧ f a = .ok b := by
  cases x with
  | ok a =>
    constructor
    · intro h
      exact ⟨a, rfl, h⟩
    · rintro ⟨a', ha, h⟩
      cases ha
      exact h
  | error e =>
    constructor
    · intro h
      cases h
    · rintro ⟨a', ha, -⟩
      cases ha

/-- Two continuations that agree where the first part returns. -/
theorem bind_congr_ok {ε α β : Type} {x : Except ε α} {f g : α → Except ε β}
    (h : ∀ a, x = .ok a → f a = g a) : (x >>= f) = (x >>= g) := by
  cases x with
  | ok a => exact h a rfl
  | error e => rfl

theorem map_eq_ok {α β : Type} {x : Except PyErr α} {f : α → β} {b : β} :
    f <$> x = .ok b ↔ ∃ a, x = .ok a ∧ f a = b := by
  cases x with
  | ok a => simp [Functor.map, Except.map]
  | error e => simp [Functor.map, Except.map]

/-- A comprehension whose element expression never raises. -/
theorem mapM_eq_ok {α β : Type*} {f : α → Except PyErr β} {g : α → β} {xs : List α}
    (h : ∀ x ∈ xs, f x = .ok (g x)) : xs.mapM f = .ok (xs.map g) := by
  induction xs with
  | nil => rfl
  | cons x xs ih =>
    rw [List.mapM_cons, h x (by simp), ih fun y hy => h y (by simp [hy])]
    rfl

/-- A comprehension returns when its element expression returns for every element. -/
theorem exists_mapM {α β : Type} {f : α → Except PyErr β} {xs : List α}
    (h : ∀ x ∈ xs, ∃ y, f x = .ok y) : ∃ ys, xs.mapM f = .ok ys := by
  induction xs with
  | nil => exact ⟨[], rfl⟩
  | cons x xs ih =>
    rw [List.forall_mem_cons] at h
    obtain ⟨y, hy⟩ := h.1
    obtain ⟨ys, hys⟩ := ih h.2
    refine ⟨y :: ys, ?_⟩
    rw [List.mapM_cons, hy, hys]
    rfl

/-- A comprehension whose element expression keeps `g` keeps it of every element. -/
theorem map_eq_of_mapM {α β γ : Type} {f : α → Except PyErr β} {g : α → γ} {g' : β → γ}
    (h : ∀ x y, f x = .ok y → g' y = g x) {xs : List α} {ys : List β} (hxs : xs.mapM f = .ok ys) :
    ys.map g' = xs.map g := by
  induction xs generalizing ys with
  | nil =>
    cases hxs
    rfl
  | cons x xs ih =>
    rw [List.mapM_cons] at hxs
    obtain ⟨y, hy, hxs⟩ := bind_eq_ok.mp hxs
    obtain ⟨ys', hys, hxs⟩ := bind_eq_ok.mp hxs
    cases hxs
    rw [List.map_cons, List.map_cons, h x y hy, ih hys]

/-- What a comprehension returns, element by element. -/
theorem forall₂_of_mapM {ε α β : Type} {f : α → Except ε β} {xs : List α} {ys : List β}
    (h : xs.mapM f = .ok ys) : List.Forall₂ (fun x y => f x = .ok y) xs ys := by
  induction xs generalizing ys with
  | nil =>
    cases h
    exact .nil
  | cons x xs ih =>
    rw [List.mapM_cons] at h
    obtain ⟨y, hy, h⟩ := bind_eq_ok.mp h
    obtain ⟨ys', hys, h⟩ := bind_eq_ok.mp h
    cases h
    exact .cons hy (ih hys)

/-- Every element of the result of a comprehension comes from an element, and every element goes
into the result. -/
theorem mem_of_mapM {ε α β : Type} {f : α → Except ε β} {xs : List α} {ys : List β}
    (h : xs.mapM f = .ok ys) :
    (∀ y ∈ ys, ∃ x ∈ xs, f x = .ok y) ∧ ∀ x ∈ xs, ∃ y ∈ ys, f x = .ok y := by
  have hall := forall₂_of_mapM h
  clear h
  induction hall with
  | nil => simp
  | cons hxy _ ih =>
    refine ⟨List.forall_mem_cons.mpr ⟨⟨_, by simp, hxy⟩, fun y hy => ?_⟩,
      List.forall_mem_cons.mpr ⟨⟨_, by simp, hxy⟩, fun x hx => ?_⟩⟩
    · obtain ⟨x, hx, hf⟩ := ih.1 y hy
      exact ⟨x, List.mem_cons_of_mem _ hx, hf⟩
    · obtain ⟨y, hy, hf⟩ := ih.2 x hx
      exact ⟨y, List.mem_cons_of_mem _ hy, hf⟩

/-- A comprehension over the entries of a dictionary that keeps the keys. -/
theorem get?_of_mapM {α β : Type} {f : String × α → Except PyErr β} {kvs : List (String × α)}
    {ys : List (String × β)}
    (h : kvs.mapM (fun e => Prod.mk e.1 <$> f e) = .ok ys) :
    Assoc.keys ys = Assoc.keys kvs ∧
      ∀ k v, Assoc.get? kvs k = some v → ∃ w, f (k, v) = .ok w ∧ Assoc.get? ys k = some w := by
  induction kvs generalizing ys with
  | nil =>
    cases h
    exact ⟨rfl, fun k v hv => nomatch hv⟩
  | cons e kvs ih =>
    obtain ⟨k', v'⟩ := e
    rw [List.mapM_cons] at h
    obtain ⟨y, hy, h⟩ := bind_eq_ok.mp h
    obtain ⟨w, hw, rfl⟩ := map_eq_ok.mp hy
    obtain ⟨ys', hys, h⟩ := bind_eq_ok.mp h
    cases h
    obtain ⟨hkeys, hget⟩ := ih hys
    refine ⟨by rw [Assoc.keys_cons, Assoc.keys_cons, hkeys], fun k v hv => ?_⟩
    by_cases hk : k' = k
    · subst hk
      rw [Assoc.get?_cons_self] at hv
      cases hv
      exact ⟨w, hw, Assoc.get?_cons_self _ _ _⟩
    · rw [Assoc.get?_cons_ne hk] at hv
      rw [Assoc.get?_cons_ne hk]
      exact hget k v hv

/-- Such a comprehension has the result that it has key by key. -/
theorem mapM_of_get? {α β : Type} {f : String × α → Except PyErr β} {kvs : List (String × α)}
    {ys : List (String × β)} (hd : (Assoc.keys kvs).Nodup) (hkeys : Assoc.keys ys = Assoc.keys kvs)
    (h : ∀ k v w, Assoc.get? kvs k = some v → Assoc.get? ys k = some w → f (k, v) = .ok w) :
    kvs.mapM (fun e => Prod.mk e.1 <$> f e) = .ok ys := by
  induction kvs generalizing ys with
  | nil =>
    cases ys with
    | nil => rfl
    | cons y ys => cases hkeys
  | cons e kvs ih =>
    cases ys with
    | nil => cases hkeys
    | cons y ys =>
      obtain ⟨k, v⟩ := e
      obtain ⟨k', w⟩ := y
      rw [Assoc.keys_cons, Assoc.keys_cons, List.cons.injEq] at hkeys
      obtain ⟨hk, hrest⟩ := hkeys
      dsimp only at hk
      subst hk
      rw [Assoc.keys_cons, List.nodup_cons] at hd
      have hhead := h k' v w (Assoc.get?_cons_self _ _ _) (Assoc.get?_cons_self _ _ _)
      have htail := ih hd.2 hrest fun k₂ v₂ w₂ hv hw => by
        have hne : k' ≠ k₂ := by
          rintro rfl
          rw [(Assoc.get?_eq_none_iff kvs k').mpr hd.1] at hv
          cases hv
        refine h k₂ v₂ w₂ ?_ ?_
        · rw [Assoc.get?_cons_ne hne, hv]
        · rw [Assoc.get?_cons_ne hne, hw]
      rw [List.mapM_cons, hhead, htail]
      rfl

/-! ## Number literals -/

/-- ASCII decimal digits, the only ones the JSON scanner accepts. -/
def isDigit (c : Char) : Bool := '0' ≤ c && c ≤ '9'

/-- The digits a literal starts with, and what follows them. -/
def spanDigits (cs : List Char) : List Char × List Char := cs.span isDigit

/-- The optional fraction of a number literal: `(\.\d+)?`. -/
def spanFrac : List Char → List Char × List Char
  | '.' :: cs =>
    match spanDigits cs with
    | ([], _) => ([], '.' :: cs)
    | (ds, rest) => ('.' :: ds, rest)
  | cs => ([], cs)

/-- The optional sign of an exponent. -/
def spanSign : List Char → List Char × List Char
  | '+' :: cs => (['+'], cs)
  | '-' :: cs => (['-'], cs)
  | cs => ([], cs)

/-- The optional exponent of a number literal: `([eE][-+]?\d+)?`. -/
def spanExp : List Char → List Char × List Char
  | c :: cs =>
    if c = 'e' ∨ c = 'E' then
      match spanDigits (spanSign cs).2 with
      | ([], _) => ([], c :: cs)
      | (ds, rest) => (c :: (spanSign cs).1 ++ ds, rest)
    else ([], c :: cs)
  | [] => ([], [])

/-- The integer part of a number literal: `0|[1-9]\d*`. -/
def spanInt : List Char → List Char × List Char
  | '0' :: cs => (['0'], cs)
  | cs => spanDigits cs

/-- Whether the text is a number literal (sign aside) with a fraction or an exponent. -/
def isFloatBody (cs : List Char) : Bool :=
  let (ds, r₁) := spanInt cs
  let (fs, r₂) := spanFrac r₁
  let (es, r₃) := spanExp r₂
  ds ≠ [] && (fs ≠ [] || es ≠ []) && r₃ = []

/-- Whether the text is a literal that `json.loads` turns into a float. -/
def isFloatText (cs : List Char) : Bool :=
  cs = "NaN".toList || cs = "Infinity".toList || cs = "-Infinity".toList ||
    match cs with
    | '-' :: cs => isFloatBody cs
    | cs => isFloatBody cs

/-- A float, as the literal that denotes it. -/
structure FloatLit where
  /-- The literal. -/
  text : List Char
  /-- It has the form of a float. -/
  valid : isFloatText text = true
  deriving DecidableEq

/-- Whether the literal denotes zero: every digit before the exponent is `0`. -/
def FloatLit.isZero (x : FloatLit) : Bool :=
  (x.text.takeWhile fun c => c ≠ 'e' ∧ c ≠ 'E' ∧ c ≠ 'N' ∧ c ≠ 'I').all
      (fun c => c = '0' ∨ c = '.' ∨ c = '-') &&
    x.text.any isDigit

/-! ## Values -/

/-- A Python object that JSON text decodes to. -/
inductive Json
  /-- `None`. -/
  | null
  /-- `True` and `False`. -/
  | bool (b : Bool)
  /-- An `int`. -/
  | int (n : Int)
  /-- A `float`. -/
  | float (x : FloatLit)
  /-- A `str`. -/
  | str (s : String)
  /-- A `list`. -/
  | list (xs : List Json)
  /-- A `dict` with `str` keys, in insertion order. -/
  | dict (kvs : List (String × Json))

namespace Json

/-- No object inside the value has a key twice. -/
inductive WellFormed : Json → Prop
  | null : WellFormed .null
  | bool (b : Bool) : WellFormed (.bool b)
  | int (n : Int) : WellFormed (.int n)
  | float (x : FloatLit) : WellFormed (.float x)
  | str (s : String) : WellFormed (.str s)
  | list {xs : List Json} (h : ∀ x ∈ xs, WellFormed x) : WellFormed (.list xs)
  | dict {kvs : List (String × Json)} (hkeys : (Assoc.keys kvs).Nodup)
      (h : ∀ e ∈ kvs, WellFormed e.2) : WellFormed (.dict kvs)

/-- Induction over a value, with a hypothesis for each element and each entry. -/
@[elab_as_elim, induction_eliminator]
theorem ind {motive : Json → Prop} (null : motive .null) (bool : ∀ b, motive (.bool b))
    (int : ∀ n, motive (.int n)) (float : ∀ x, motive (.float x)) (str : ∀ s, motive (.str s))
    (list : ∀ xs, (∀ x ∈ xs, motive x) → motive (.list xs))
    (dict : ∀ kvs, (∀ e ∈ kvs, motive e.2) → motive (.dict kvs)) (j : Json) : motive j :=
  Json.rec (motive_2 := fun xs => ∀ x ∈ xs, motive x) (motive_3 := fun kvs => ∀ e ∈ kvs, motive e.2)
    (motive_4 := fun e => motive e.2) null bool int float str list dict
    (by simp) (fun x xs hx hxs => List.forall_mem_cons.mpr ⟨hx, hxs⟩)
    (by simp) (fun e kvs he hkvs => List.forall_mem_cons.mpr ⟨he, hkvs⟩) (fun _ _ h => h) j

mutual

/-- Equality of two values, entry order included. -/
def decEq : (a b : Json) → Decidable (a = b)
  | .null, .null => isTrue rfl
  | .bool a, .bool b => decidable_of_iff (a = b) (by simp)
  | .int a, .int b => decidable_of_iff (a = b) (by simp)
  | .float a, .float b => decidable_of_iff (a = b) (by simp)
  | .str a, .str b => decidable_of_iff (a = b) (by simp)
  | .list a, .list b =>
    match decEqList a b with
    | isTrue h => isTrue (by rw [h])
    | isFalse h => isFalse (by simpa using h)
  | .dict a, .dict b =>
    match decEqEntries a b with
    | isTrue h => isTrue (by rw [h])
    | isFalse h => isFalse (by simpa using h)
  | .null, .bool _ | .null, .int _ | .null, .float _ | .null, .str _ | .null, .list _
  | .null, .dict _ | .bool _, .null | .bool _, .int _ | .bool _, .float _ | .bool _, .str _
  | .bool _, .list _ | .bool _, .dict _ | .int _, .null | .int _, .bool _ | .int _, .float _
  | .int _, .str _ | .int _, .list _ | .int _, .dict _ | .float _, .null | .float _, .bool _
  | .float _, .int _ | .float _, .str _ | .float _, .list _ | .float _, .dict _ | .str _, .null
  | .str _, .bool _ | .str _, .int _ | .str _, .float _ | .str _, .list _ | .str _, .dict _
  | .list _, .null | .list _, .bool _ | .list _, .int _ | .list _, .float _ | .list _, .str _
  | .list _, .dict _ | .dict _, .null | .dict _, .bool _ | .dict _, .int _ | .dict _, .float _
  | .dict _, .str _ | .dict _, .list _ => isFalse (by simp)

/-- Equality of two lists of values. -/
def decEqList : (a b : List Json) → Decidable (a = b)
  | [], [] => isTrue rfl
  | [], _ :: _ | _ :: _, [] => isFalse (by simp)
  | a :: as, b :: bs =>
    match decEq a b, decEqList as bs with
    | isTrue h, isTrue hs => isTrue (by rw [h, hs])
    | isFalse h, _ => isFalse (by simp [h])
    | _, isFalse hs => isFalse (by simp [hs])

/-- Equality of two entry lists. -/
def decEqEntries : (a b : List (String × Json)) → Decidable (a = b)
  | [], [] => isTrue rfl
  | [], _ :: _ | _ :: _, [] => isFalse (by simp)
  | (k, a) :: as, (l, b) :: bs =>
    match decidable_of_iff (k = l) Iff.rfl, decEq a b, decEqEntries as bs with
    | isTrue hk, isTrue h, isTrue hs => isTrue (by rw [hk, h, hs])
    | isFalse hk, _, _ => isFalse (by simp [hk])
    | _, isFalse h, _ => isFalse (by simp [h])
    | _, _, isFalse hs => isFalse (by simp [hs])

end

instance : DecidableEq Json := decEq

instance : Inhabited Json := ⟨.null⟩

/-! ### Dynamic operations -/

/-- `bool(j)`. -/
def truthy : Json → Bool
  | .null => false
  | .bool b => b
  | .int n => n ≠ 0
  | .float x => !x.isZero
  | .str s => s ≠ ""
  | .list xs => xs ≠ []
  | .dict kvs => kvs ≠ []

/-- `a or b`. -/
def or (a b : Json) : Json := if a.truthy then a else b

/-- `j.get(k, default)`, which only a `dict` has. -/
def getD : Json → String → Json → Except PyErr Json
  | .dict kvs, k, default => .ok ((Assoc.get? kvs k).getD default)
  | _, _, _ => .error .attributeError

/-- `j.get(k)`. -/
def get (j : Json) (k : String) : Except PyErr Json := j.getD k .null

/-- The elements of a `for` loop over `j`. -/
def iter : Json → Except PyErr (List Json)
  | .list xs => .ok xs
  | .str s => .ok (s.toList.map fun c => .str (String.ofList [c]))
  | .dict kvs => .ok (kvs.map fun e => .str e.1)
  | _ => .error .typeError

/-- `j[0]`. -/
def first : Json → Except PyErr Json
  | .list (x :: _) => .ok x
  | .list [] => .error .indexError
  | .str s => match s.toList with
    | c :: _ => .ok (.str (String.ofList [c]))
    | [] => .error .indexError
  | .dict _ => .error .keyError
  | _ => .error .typeError

/-- `j[-1]`. -/
def last : Json → Except PyErr Json
  | .list xs => match xs.getLast? with
    | some x => .ok x
    | none => .error .indexError
  | .str s => match s.toList.getLast? with
    | some c => .ok (.str (String.ofList [c]))
    | none => .error .indexError
  | .dict _ => .error .keyError
  | _ => .error .typeError

/-- A hashable value, up to the equality dictionaries use: `True` is the key `1`. -/
inductive Key
  | none
  | num (n : Int)
  | float (x : FloatLit)
  | str (s : String)
  deriving DecidableEq

/-- `hash(j)` as the key it selects; lists and dicts are unhashable. -/
def key : Json → Except PyErr Key
  | .null => .ok .none
  | .bool b => .ok (.num (if b then 1 else 0))
  | .int n => .ok (.num n)
  | .float x => .ok (.float x)
  | .str s => .ok (.str s)
  | .list _ | .dict _ => .error .typeError

/-- `isinstance(j, str)`. -/
def isStr : Json → Bool
  | .str _ => true
  | _ => false

/-- `isinstance(j, list)`. -/
def isList : Json → Bool
  | .list _ => true
  | _ => false

/-- `isinstance(j, dict)`. -/
def isDict : Json → Bool
  | .dict _ => true
  | _ => false

/-- The string, if the value is one. -/
def str? : Json → Option String
  | .str s => some s
  | _ => none

/-- The elements, if the value is a list. -/
def elems : Json → List Json
  | .list xs => xs
  | _ => []

theorem str?_eq_some {j : Json} {s : String} : j.str? = some s ↔ j = .str s := by
  cases j <;> simp [str?]

@[simp] theorem map_str_inj {xs ys : List String} : xs.map Json.str = ys.map Json.str ↔ xs = ys :=
  (List.map_injective_iff.mpr fun _ _ => Json.str.inj).eq_iff

@[simp] theorem truthy_null : Json.null.truthy = false := rfl

@[simp] theorem truthy_str (s : String) : (Json.str s).truthy = decide (s ≠ "") := rfl

@[simp] theorem truthy_list (xs : List Json) : (Json.list xs).truthy = decide (xs ≠ []) := rfl

@[simp] theorem truthy_dict (kvs : List (String × Json)) :
    (Json.dict kvs).truthy = decide (kvs ≠ []) := rfl

@[simp] theorem getD_dict (kvs : List (String × Json)) (k : String) (default : Json) :
    (Json.dict kvs).getD k default = .ok ((Assoc.get? kvs k).getD default) := rfl

@[simp] theorem get_dict (kvs : List (String × Json)) (k : String) :
    (Json.dict kvs).get k = .ok ((Assoc.get? kvs k).getD .null) := rfl

/-- `v or []` iterates over the elements of a list `v`. -/
@[simp] theorem iter_or_list (xs : List Json) :
    ((Json.list xs).or (.list [])).iter = .ok xs := by cases xs <;> rfl

@[simp] theorem iter_list (xs : List Json) : (Json.list xs).iter = .ok xs := rfl

@[simp] theorem key_str (s : String) : (Json.str s).key = .ok (.str s) := rfl

@[simp] theorem key_int (n : Int) : (Json.int n).key = .ok (.num n) := rfl

end Json

end Python
