import OpenLaunch.Python.Arithmetic
import OpenLaunch.Python.Glob
import OpenLaunch.Python.JsonRoundTrip
import OpenLaunch.Python.Text

/-! # What a data source may return

`apply_result_governance` stands between the result of a query and the model: the cells of masked
columns are replaced, and rows are dropped from the end until the result fits the export cap and the
byte cap of the policy. -/

namespace OpenLaunch.Tools

open Python

/-- What the policy code takes from the interpreter: the case of text, the conversions of values,
and the arithmetic and the text of floats. -/
structure Interpreter where
  /-- `s.lower()`. -/
  lower : String → String
  /-- `s.upper()`. -/
  upper : String → String
  /-- `int` and `str`. -/
  conv : Conversions
  /-- `==` on floats. -/
  floats : Floats
  /-- `repr` of a float. -/
  fr : FloatRepr

variable (py : Interpreter)

/-! ## The masked columns -/

/-- `_matches(value, patterns)`: the patterns are tried in order, and one that is no string has no
`lower`. -/
def _matches (value : String) : List Json → Except PyErr Bool
  | [] => .ok false
  | .str pattern :: patterns =>
    if fnmatchcase (py.lower value) (py.lower pattern) then .ok true else _matches value patterns
  | _ :: _ => .error .attributeError

/-- `set(items)`: every item is hashable. -/
def pySet (items : List Json) : Except PyErr (List Json) := do
  let _ ← items.mapM Json.key
  .ok items

/-- `value in items` for a set `items`. -/
def inSet (value : Json) (items : List Json) : Except PyErr Bool := do
  let _ ← value.key
  .ok (items.any fun item => py.floats.equal value item)

/-- The part of a policy that says which columns are masked. -/
structure Masks where
  /-- `column_masks`. -/
  masks : List Json
  /-- `pii_labels`. -/
  pii_labels : Json
  /-- `mask_pii_labels`. -/
  mask_labels : List Json

/-- The masks of a policy, each with its default. -/
def readMasks (policy : Json) : Except PyErr Masks := do
  let masks ← ((← policy.get "column_masks").or (.list [])).iter
  let pii_labels := (← policy.get "pii_labels").or (.dict [])
  let labels ← ((← policy.get "mask_pii_labels").or (.list [])).iter
  let mask_labels ← pySet labels
  .ok ⟨masks, pii_labels, mask_labels⟩

/-- Whether a column is masked: by its name, or by the label of its name. -/
def isMasked (m : Masks) (column : Json) : Except PyErr Bool := do
  if ← _matches py (py.conv.str column) m.masks then .ok true
  else inSet py (← m.pii_labels.get (py.conv.str column)) m.mask_labels

/-- `masked_indexes`, as one flag for each column. -/
def maskedIndexes (m : Masks) (columns : List Json) : Except PyErr (List Bool) :=
  columns.mapM (isMasked py m)

/-- `"[REDACTED]"`. -/
def redacted : Json := .str "[REDACTED]"

/-- The cells of a row with those of the masked columns replaced. -/
def maskCells : List Bool → List Json → List Json
  | masked :: flags, cell :: cells => (if masked then redacted else cell) :: maskCells flags cells
  | _, cells => cells

/-- Only a row that is a list is masked. -/
def maskRow (flags : List Bool) : Json → Json
  | .list cells => .list (maskCells flags cells)
  | row => row

/-! ## The caps -/

/-- `max(0, int(policy.get("max_export_rows", len(rows))))`. -/
def maxRows (policy : Json) (rows : List Json) : Except PyErr ℕ := do
  let n ← py.conv.int (← policy.getD "max_export_rows" (.int rows.length))
  .ok (max 0 n).toNat

/-- `max(256, int(policy.get("max_result_bytes", 1024 * 1024)))`. -/
def maxBytes (policy : Json) : Except PyErr ℕ := do
  let n ← py.conv.int (← policy.getD "max_result_bytes" (.int (1024 * 1024)))
  .ok (max 256 n).toNat

/-- `json.dumps(payload, ensure_ascii=False, separators=(",", ":"))`. -/
def resultFormat : Format := ⟨false, [','], [':']⟩

/-- The payload holding these rows, encoded. The list of rows is the one in the payload, so a change
to it shows there. -/
def encodeRows (payload : List (String × Json)) (rows : List Json) : List Char :=
  dumps resultFormat (.dict (Assoc.set payload "rows" (.list rows)))

/-- The size of a text in bytes. -/
def size (text : List Char) : ℕ := (encode text).length

/-- The rows after the export cap. -/
def capRows (max_rows : ℕ) (payload : List (String × Json)) (rows : List Json) :
    List (String × Json) × List Json :=
  if rows.length > max_rows then
    (Assoc.set payload "truncated" (.bool true), rows.take max_rows)
  else (payload, rows)

/-- The loop over the byte cap: rows are popped while there are any and the text is too long. The
first argument is the number of rows. -/
def fitRows (max_bytes : ℕ) : ℕ → List (String × Json) → List Json → List Char
  | 0, payload, rows => encodeRows payload rows
  | n + 1, payload, rows =>
    if size (encodeRows payload rows) > max_bytes then
      fitRows max_bytes n
        (Assoc.set (Assoc.set payload "row_count" (.int n)) "truncated" (.bool true)) rows.dropLast
    else encodeRows payload rows

/-- The text that takes the place of a result that does not fit without any row. -/
def limitError : List Char :=
  dumps .standard (.dict [("error", .str "The data source result exceeds its policy limit."),
    ("truncated", .bool true)])

/-! ## Governance -/

/-- Masking and the caps, on a payload whose `columns` and `rows` are lists. -/
def governRows (policy : Json) (payload : List (String × Json)) (columns rows : List Json) :
    Except PyErr (List Char) := do
  let m ← readMasks policy
  let flags ← maskedIndexes py m columns
  let max_rows ← maxRows py policy rows
  let (payload, rows) := capRows max_rows payload (rows.map (maskRow flags))
  let payload := Assoc.set payload "row_count" (.int rows.length)
  let max_bytes ← maxBytes py policy
  let encoded := fitRows max_bytes rows.length payload rows
  if size encoded > max_bytes then .ok limitError else .ok encoded

/-- `apply_result_governance(encoded_result, policy)`. -/
def apply_result_governance (encoded_result : List Char) (policy : Json) :
    Except PyErr (List Char) :=
  match py.fr.loads encoded_result with
  | .error _ => .ok encoded_result
  | .ok payload => do
    let columns ← payload.get "columns"
    let rows ← payload.get "rows"
    match payload, columns, rows with
    | .dict payload, .list columns, .list rows =>
      governRows py (policy.or (.dict [])) payload columns rows
    | _, _, _ => .ok encoded_result

variable {py}

/-! ## Masked rows -/

/-- A row after masking: the cells of the masked columns are replaced and the others kept; a row
that is no list is kept as it is. -/
def Redacted (flags : List Bool) (row row' : Json) : Prop :=
  match row with
  | .list cells =>
    ∃ cells' : List Json, row' = .list cells' ∧ cells'.length = cells.length ∧
      ∀ (i : ℕ) (cell : Json), cells[i]? = some cell →
        cells'[i]? = some (if flags[i]? = some true then redacted else cell)
  | row => row' = row

theorem maskCells_length (flags : List Bool) (cells : List Json) :
    (maskCells flags cells).length = cells.length := by
  induction flags generalizing cells with
  | nil => rfl
  | cons masked flags ih =>
    cases cells with
    | nil => rfl
    | cons cell cells => rw [maskCells, List.length_cons, List.length_cons, ih]

theorem getElem?_maskCells {flags : List Bool} {cells : List Json} {i : ℕ} {cell : Json}
    (h : cells[i]? = some cell) :
    (maskCells flags cells)[i]? = some (if flags[i]? = some true then redacted else cell) := by
  induction flags generalizing cells i with
  | nil => simpa [maskCells] using h
  | cons masked flags ih =>
    cases cells with
    | nil => simp at h
    | cons c cells =>
      cases i with
      | zero =>
        cases h
        simp [maskCells]
      | succ i =>
        rw [List.getElem?_cons_succ] at h
        simpa [maskCells] using ih h

theorem redacted_maskRow (flags : List Bool) (row : Json) :
    Redacted flags row (maskRow flags row) := by
  cases row with
  | list cells => exact ⟨_, rfl, maskCells_length flags cells, fun i cell => getElem?_maskCells⟩
  | _ => exact rfl

/-- Masking twice is masking once. -/
theorem maskCells_maskCells (flags : List Bool) (cells : List Json) :
    maskCells flags (maskCells flags cells) = maskCells flags cells := by
  induction flags generalizing cells with
  | nil => rfl
  | cons masked flags ih =>
    cases cells with
    | nil => rfl
    | cons cell cells =>
      rw [maskCells, maskCells, ih]
      split <;> rfl

theorem maskRow_maskRow (flags : List Bool) (row : Json) :
    maskRow flags (maskRow flags row) = maskRow flags row := by
  cases row with
  | list cells => exact congrArg Json.list (maskCells_maskCells flags cells)
  | _ => rfl

theorem canonical_maskRow {flags : List Bool} {row : Json} (h : py.fr.Canonical row) :
    py.fr.Canonical (maskRow flags row) := by
  cases row with
  | list cells =>
    rw [FloatRepr.canonical_list] at h
    refine FloatRepr.canonical_list.mpr ?_
    induction flags generalizing cells with
    | nil => exact h
    | cons masked flags ih =>
      cases cells with
      | nil => exact h
      | cons cell cells =>
        rw [List.forall_mem_cons] at h
        refine List.forall_mem_cons.mpr ⟨?_, ih cells h.2⟩
        split
        · exact FloatRepr.canonical_str _
        · exact h.1
  | _ => exact h

/-! ## The text that is sent -/

/-- A payload that is sent: the columns of the result, the rows that are kept, and their number. -/
structure Sent (columns kept : List Json) (sent : List (String × Json)) : Prop where
  columns : Assoc.get? sent "columns" = some (.list columns)
  rows : Assoc.get? sent "rows" = some (.list kept)
  row_count : Assoc.get? sent "row_count" = some (.int kept.length)

theorem resultFormat_readable : resultFormat.Readable :=
  ⟨⟨[], rfl, by simp⟩, ⟨[], rfl, by simp⟩⟩

section

variable {payload : List (String × Json)} {columns rows : List Json}

theorem sent_set_rows (hcols : Assoc.get? payload "columns" = some (.list columns))
    (hcount : Assoc.get? payload "row_count" = some (.int rows.length)) :
    Sent columns rows (Assoc.set payload "rows" (.list rows)) where
  columns := by rw [Assoc.get?_set_ne _ (by decide), hcols]
  rows := Assoc.get?_set_self _ _ _
  row_count := by rw [Assoc.get?_set_ne _ (by decide), hcount]

theorem encodeRows_sent (hpayload : py.fr.Canonical (.dict payload))
    (hrows : ∀ row ∈ rows, py.fr.Canonical row)
    (hcols : Assoc.get? payload "columns" = some (.list columns))
    (hcount : Assoc.get? payload "row_count" = some (.int rows.length)) :
    ∃ k sent, encodeRows payload rows = dumps resultFormat (.dict sent) ∧
      py.fr.Canonical (.dict sent) ∧ Sent columns (rows.take k) sent := by
  refine ⟨rows.length, _, rfl, hpayload.set _ (FloatRepr.canonical_list.mpr hrows), ?_⟩
  rw [List.take_length]
  exact sent_set_rows hcols hcount

/-- **The loop over the byte cap sends a prefix of the rows**, with their number. -/
theorem fitRows_sent (max_bytes : ℕ) {n : ℕ} (hn : rows.length = n)
    (hpayload : py.fr.Canonical (.dict payload)) (hrows : ∀ row ∈ rows, py.fr.Canonical row)
    (hcols : Assoc.get? payload "columns" = some (.list columns))
    (hcount : Assoc.get? payload "row_count" = some (.int rows.length)) :
    ∃ k sent, fitRows max_bytes n payload rows = dumps resultFormat (.dict sent) ∧
      py.fr.Canonical (.dict sent) ∧ Sent columns (rows.take k) sent := by
  induction n generalizing payload rows with
  | zero => exact encodeRows_sent hpayload hrows hcols hcount
  | succ n ih =>
    rw [fitRows]
    split_ifs with hsize
    · have hlen : rows.dropLast.length = n := by
        rw [List.length_dropLast]
        omega
      -- a popped row leaves a payload that holds the number of the rows that are left
      obtain ⟨k, sent, hfit, hcan, hsent⟩ := @ih
        (Assoc.set (Assoc.set payload "row_count" (.int n)) "truncated" (.bool true)) rows.dropLast
        hlen
        ((hpayload.set _ (FloatRepr.canonical_int _)).set _ (FloatRepr.canonical_bool _))
        (fun row hrow => hrows row (List.dropLast_subset rows hrow))
        (by rw [Assoc.get?_set_ne _ (by decide), Assoc.get?_set_ne _ (by decide), hcols])
        (by rw [Assoc.get?_set_ne _ (by decide), Assoc.get?_set_self, hlen])
      rw [List.dropLast_eq_take, List.take_take] at hsent
      exact ⟨_, sent, hfit, hcan, hsent⟩
    · exact encodeRows_sent hpayload hrows hcols hcount

/-- A payload that fits is left as it is. -/
theorem fitRows_of_sent {max_bytes n : ℕ} (h : Sent columns rows payload)
    (hsize : size (dumps resultFormat (.dict payload)) ≤ max_bytes) :
    fitRows max_bytes n payload rows = dumps resultFormat (.dict payload) := by
  have hencode : encodeRows payload rows = dumps resultFormat (.dict payload) := by
    rw [encodeRows, Assoc.set_of_get? h.rows]
  cases n with
  | zero => exact hencode
  | succ n => rw [fitRows, hencode, if_neg (by omega)]

/-- **What the export cap leaves**: a prefix of the rows, no longer than the cap. -/
theorem capRows_eq (max_rows : ℕ) (rows : List Json) (hpayload : py.fr.Canonical (.dict payload))
    (hcols : Assoc.get? payload "columns" = some (.list columns)) :
    (capRows max_rows payload rows).2 = rows.take max_rows ∧
      py.fr.Canonical (.dict (capRows max_rows payload rows).1) ∧
      Assoc.get? (capRows max_rows payload rows).1 "columns" = some (.list columns) := by
  by_cases h : rows.length > max_rows
  · rw [capRows, if_pos h]
    exact ⟨rfl, hpayload.set _ (FloatRepr.canonical_bool _),
      by rw [Assoc.get?_set_ne _ (by decide), hcols]⟩
  · rw [capRows, if_neg h]
    exact ⟨(List.take_of_length_le (Nat.not_lt.mp h)).symm, hpayload, hcols⟩

theorem capRows_of_le {max_rows : ℕ} (h : rows.length ≤ max_rows) :
    capRows max_rows payload rows = (payload, rows) := if_neg (Nat.not_lt.mpr h)

end

/-! ## The limits -/

theorem le_maxBytes {policy : Json} {max_bytes : ℕ} (h : maxBytes py policy = .ok max_bytes) :
    256 ≤ max_bytes := by
  obtain ⟨v, -, h⟩ := bind_eq_ok.mp h
  obtain ⟨n, -, h⟩ := bind_eq_ok.mp h
  cases h
  omega

theorem size_limitError : size limitError = 80 := by decide +kernel

/-- The cap on the rows does not depend on the rows, unless it is their number. -/
theorem maxRows_again {policy : Json} {rows kept : List Json} {max_rows : ℕ}
    (h : maxRows py policy rows = .ok max_rows) (hle : kept.length ≤ max_rows) :
    ∃ max_rows', maxRows py policy kept = .ok max_rows' ∧ kept.length ≤ max_rows' := by
  obtain ⟨v, hv, h⟩ := bind_eq_ok.mp h
  cases policy with
  | dict kvs =>
    rw [Json.getD_dict] at hv
    cases hkey : Assoc.get? kvs "max_export_rows" with
    | none =>
      refine ⟨kept.length, ?_, Nat.le_refl _⟩
      rw [maxRows, Json.getD_dict, hkey]
      rfl
    | some w =>
      rw [hkey] at hv
      cases hv
      refine ⟨max_rows, ?_, hle⟩
      rw [maxRows, Json.getD_dict, hkey]
      exact h
  | _ => cases hv

/-! ## What is promised -/

/-- The text `out` that a result with these columns and rows is returned as. It is within the byte
cap, and is the error text or the text of a payload with the same columns, whose rows are a masked
prefix of the result's rows, counted and within the export cap. -/
def Governed (py : Interpreter) (policy : Json) (columns rows : List Json) (out : List Char) :
    Prop :=
  ∃ m flags max_rows max_bytes, readMasks policy = .ok m ∧ maskedIndexes py m columns = .ok flags ∧
    maxRows py policy rows = .ok max_rows ∧ maxBytes py policy = .ok max_bytes ∧
    size out ≤ max_bytes ∧
    (out = limitError ∨ ∃ sent kept k, py.fr.loads out = .ok (.dict sent) ∧
      Sent columns kept sent ∧ kept.length ≤ max_rows ∧
      List.Forall₂ (Redacted flags) (rows.take k) kept)

/-- What `governRows` returns: the error text, or the text of a payload that is sent. -/
theorem governRows_ok {policy : Json} {payload : List (String × Json)} {columns rows : List Json}
    {out : List Char} (h : governRows py policy payload columns rows = .ok out)
    (hpayload : py.fr.Canonical (.dict payload))
    (hcols : Assoc.get? payload "columns" = some (.list columns))
    (hrows : Assoc.get? payload "rows" = some (.list rows)) :
    ∃ m flags max_rows max_bytes, readMasks policy = .ok m ∧
      maskedIndexes py m columns = .ok flags ∧ maxRows py policy rows = .ok max_rows ∧
      maxBytes py policy = .ok max_bytes ∧ size out ≤ max_bytes ∧
      (out = limitError ∨ ∃ k sent, out = dumps resultFormat (.dict sent) ∧
        py.fr.Canonical (.dict sent) ∧ k ≤ max_rows ∧
        Sent columns ((rows.map (maskRow flags)).take k) sent) := by
  obtain ⟨m, hm, h⟩ := bind_eq_ok.mp h
  obtain ⟨flags, hflags, h⟩ := bind_eq_ok.mp h
  obtain ⟨max_rows, hmax, h⟩ := bind_eq_ok.mp h
  obtain ⟨max_bytes, hbytes, h⟩ := bind_eq_ok.mp h
  refine ⟨m, flags, max_rows, max_bytes, hm, hflags, hmax, hbytes, ?_⟩
  obtain ⟨hcapped, hcan, hcols'⟩ :=
    capRows_eq max_rows (rows.map (maskRow flags)) hpayload hcols
  have hmasked : ∀ row ∈ rows.map (maskRow flags), py.fr.Canonical row := by
    rw [List.forall_mem_map]
    have hcells := FloatRepr.canonical_list.mp (hpayload.get? hrows)
    exact fun row hrow => canonical_maskRow (hcells row hrow)
  obtain ⟨k, sent, hfit, hsent⟩ := fitRows_sent max_bytes rfl
    (hcan.set "row_count"
      (FloatRepr.canonical_int (capRows max_rows payload (rows.map (maskRow flags))).2.length))
    (fun row hrow => hmasked row (List.mem_of_mem_take (hcapped ▸ hrow)))
    (by rw [Assoc.get?_set_ne _ (by decide), hcols']) (Assoc.get?_set_self _ _ _)
  dsimp only at h
  split_ifs at h with hsize
  · cases h
    refine ⟨?_, .inl rfl⟩
    rw [size_limitError]
    exact Nat.le_trans (by decide) (le_maxBytes hbytes)
  · cases h
    refine ⟨Nat.not_lt.mp hsize,
      .inr ⟨min k max_rows, sent, hfit, hsent.1, Nat.min_le_right _ _, ?_⟩⟩
    rw [← List.take_take, ← hcapped]
    exact hsent.2

/-- A payload whose `columns` and `rows` are lists is governed. -/
theorem apply_tabular {encoded : List Char} {policy : Json} {payload : List (String × Json)}
    {columns rows : List Json} (hload : py.fr.loads encoded = .ok (.dict payload))
    (hcols : Assoc.get? payload "columns" = some (.list columns))
    (hrows : Assoc.get? payload "rows" = some (.list rows)) :
    apply_result_governance py encoded policy =
      governRows py (policy.or (.dict [])) payload columns rows := by
  rw [apply_result_governance, hload]
  simp only [Json.get_dict, hcols, hrows, Option.getD_some, bind, Except.bind]

/-- Any other payload is returned as it came. -/
theorem apply_cases {encoded out : List Char} {policy : Json}
    (h : apply_result_governance py encoded policy = .ok out) :
    out = encoded ∨ ∃ payload columns rows, py.fr.loads encoded = .ok (.dict payload) ∧
      Assoc.get? payload "columns" = some (.list columns) ∧
      Assoc.get? payload "rows" = some (.list rows) ∧
      governRows py (policy.or (.dict [])) payload columns rows = .ok out := by
  have happly := h
  rw [apply_result_governance] at h
  cases hload : py.fr.loads encoded with
  | error e =>
    rw [hload] at h
    cases h
    exact .inl rfl
  | ok v =>
    rw [hload] at h
    obtain ⟨columns, hcols, h⟩ := bind_eq_ok.mp h
    obtain ⟨rows, hrows, h⟩ := bind_eq_ok.mp h
    cases v with
    | dict payload =>
      have hget (k : String) (xs : List Json) (hk : (Json.dict payload).get k = .ok (.list xs)) :
          Assoc.get? payload k = some (.list xs) := by
        rw [Json.get_dict] at hk
        cases hv : Assoc.get? payload k with
        | none => rw [hv] at hk; cases hk
        | some w =>
          rw [hv] at hk
          cases hk
          rfl
      cases columns with
      | list columns =>
        cases rows with
        | list rows => exact .inr ⟨_, _, _, rfl, hget _ _ hcols, hget _ _ hrows, h⟩
        | _ =>
          cases h
          exact .inl rfl
      | _ =>
        cases h
        exact .inl rfl
    | _ => cases hcols

/-- A payload that is sent passes through unchanged when it is governed again. -/
theorem governRows_again {policy : Json} {sent : List (String × Json)} {columns kept : List Json}
    {m : Masks} {flags : List Bool} {max_rows max_bytes : ℕ} (hm : readMasks policy = .ok m)
    (hflags : maskedIndexes py m columns = .ok flags) (hmax : maxRows py policy kept = .ok max_rows)
    (hle : kept.length ≤ max_rows) (hbytes : maxBytes py policy = .ok max_bytes)
    (hsent : Sent columns kept sent) (hmasked : kept.map (maskRow flags) = kept)
    (hsize : size (dumps resultFormat (.dict sent)) ≤ max_bytes) :
    governRows py policy sent columns kept = .ok (dumps resultFormat (.dict sent)) := by
  have hcount : Assoc.set sent "row_count" (.int kept.length) = sent :=
    Assoc.set_of_get? hsent.row_count
  simp only [governRows, hm, hflags, hmax, hbytes, bind, Except.bind, hmasked, capRows_of_le hle,
    hcount, fitRows_of_sent hsent hsize]
  rw [if_neg (Nat.not_lt.mpr hsize)]

/-- **Governing a governed text changes nothing.** -/
theorem apply_again {encoded out : List Char} {policy : Json}
    (h : apply_result_governance py encoded policy = .ok out) :
    apply_result_governance py out policy = .ok out := by
  rcases apply_cases h with rfl | ⟨payload, columns, rows, hload, hcols, hrows, hgovern⟩
  · exact h
  obtain ⟨m, flags, max_rows, max_bytes, hm, hflags, hmax, hbytes, hsize, hout⟩ :=
    governRows_ok hgovern (FloatRepr.canonical_of_loads hload) hcols hrows
  rcases hout with rfl | ⟨k, sent, rfl, hcan, hk, hsent⟩
  · -- the error text has no columns
    have hload : py.fr.loads limitError = .ok (.dict [("error",
        .str "The data source result exceeds its policy limit."), ("truncated", .bool true)]) := by
      apply FloatRepr.loads_dumps standard_readable
      exact FloatRepr.canonical_dict.mpr ⟨by decide, List.forall_mem_cons.mpr
        ⟨FloatRepr.canonical_str _, List.forall_mem_singleton.mpr (FloatRepr.canonical_bool _)⟩⟩
    rw [apply_result_governance, hload]
    rfl
  · have hlen : ((rows.map (maskRow flags)).take k).length ≤ max_rows :=
      Nat.le_trans (List.length_take_le k _) hk
    obtain ⟨max_rows', hmax', hle⟩ := maxRows_again hmax hlen
    rw [apply_tabular (FloatRepr.loads_dumps resultFormat_readable hcan) hsent.columns hsent.rows]
    refine governRows_again hm hflags hmax' hle hbytes hsent ?_ hsize
    rw [List.map_take, List.map_map]
    congr 2
    funext row
    exact maskRow_maskRow flags row

/-! ## Policies with fields of the documented types -/

/-- Every field of the policy that governance reads, when it is there, has its documented type. -/
structure DocumentedPolicy (policy : List (String × Json)) : Prop where
  column_masks : ∀ v, Assoc.get? policy "column_masks" = some v →
    ∃ names : List String, v = .list (names.map .str)
  pii_labels : ∀ v, Assoc.get? policy "pii_labels" = some v →
    ∃ labels : List (String × String), v = .dict (labels.map fun e => (e.1, .str e.2))
  mask_pii_labels : ∀ v, Assoc.get? policy "mask_pii_labels" = some v →
    ∃ names : List String, v = .list (names.map .str)
  max_export_rows : ∀ v, Assoc.get? policy "max_export_rows" = some v → ∃ n, v = .int n
  max_result_bytes : ∀ v, Assoc.get? policy "max_result_bytes" = some v → ∃ n, v = .int n

section

variable {policy : List (String × Json)}

/-- A list of strings, or nothing in its place. -/
theorem iter_strings {key : String}
    (h : ∀ v, Assoc.get? policy key = some v → ∃ names : List String, v = .list (names.map .str)) :
    ∃ names : List String, ((((Assoc.get? policy key).getD .null).or (.list [])).iter =
      .ok (names.map Json.str)) := by
  cases hkey : Assoc.get? policy key with
  | none => exact ⟨[], rfl⟩
  | some v =>
    obtain ⟨names, rfl⟩ := h v hkey
    exact ⟨names, Json.iter_or_list _⟩

theorem pySet_strings (names : List String) : pySet (names.map .str) = .ok (names.map .str) := by
  have hhashable : ∀ v ∈ names.map Json.str, ∃ key, v.key = .ok key := by
    intro v hv
    obtain ⟨name, -, rfl⟩ := List.mem_map.mp hv
    exact ⟨.str name, rfl⟩
  obtain ⟨keys, hkeys⟩ := exists_mapM hhashable
  rw [pySet, hkeys]
  rfl

theorem matches_strings (py : Interpreter) (value : String) (names : List String) :
    ∃ b, _matches py value (names.map .str) = .ok b := by
  induction names with
  | nil => exact ⟨false, rfl⟩
  | cons name names ih =>
    rw [List.map_cons, _matches]
    by_cases h : fnmatchcase (py.lower value) (py.lower name) = true
    · exact ⟨true, if_pos h⟩
    · rw [if_neg h]
      exact ih

/-- Masks that are strings, with labels that are strings. -/
def Masks.ofStrings (masks : List String) (labels : List (String × String))
    (mask_labels : List String) : Masks :=
  ⟨masks.map .str, .dict (labels.map fun e => (e.1, .str e.2)), mask_labels.map .str⟩

theorem readMasks_ok (h : DocumentedPolicy policy) :
    ∃ masks labels mask_labels,
      readMasks (.dict policy) = .ok (Masks.ofStrings masks labels mask_labels) := by
  obtain ⟨masks, hmasks⟩ := iter_strings h.column_masks
  obtain ⟨mask_labels, hlabels⟩ := iter_strings h.mask_pii_labels
  have hpii : ∃ labels : List (String × String),
      ((Assoc.get? policy "pii_labels").getD .null).or (.dict []) =
        .dict (labels.map fun e => (e.1, Json.str e.2)) := by
    cases hkey : Assoc.get? policy "pii_labels" with
    | none => exact ⟨[], rfl⟩
    | some v =>
      obtain ⟨labels, rfl⟩ := h.pii_labels v hkey
      cases labels with
      | nil => exact ⟨[], rfl⟩
      | cons e labels => exact ⟨e :: labels, rfl⟩
  obtain ⟨labels, hpii⟩ := hpii
  refine ⟨masks, labels, mask_labels, ?_⟩
  simp only [readMasks, Json.get_dict, bind, Except.bind, hmasks, hpii, hlabels, pySet_strings,
    Masks.ofStrings]

theorem isMasked_ok (masks mask_labels : List String) (labels : List (String × String))
    (column : Json) :
    ∃ b, isMasked py (Masks.ofStrings masks labels mask_labels) column = .ok b := by
  obtain ⟨b, hb⟩ := matches_strings py (py.conv.str column) masks
  have hget := Assoc.get?_map (fun _ (v : String) => Json.str v) labels (py.conv.str column)
  simp only [isMasked, Masks.ofStrings, hb, bind, Except.bind]
  cases b with
  | true => exact ⟨true, rfl⟩
  | false =>
    simp only [Json.get_dict, hget, inSet]
    cases Assoc.get? labels (py.conv.str column) <;> exact ⟨_, rfl⟩

theorem int_ok (py : Interpreter) {key : String}
    (h : ∀ v, Assoc.get? policy key = some v → ∃ n, v = .int n) (d : ℤ) :
    ∃ n, py.conv.int ((Assoc.get? policy key).getD (.int d)) = .ok n := by
  cases hkey : Assoc.get? policy key with
  | none => exact ⟨d, rfl⟩
  | some v =>
    obtain ⟨n, rfl⟩ := h v hkey
    exact ⟨n, rfl⟩

/-- **Governance returns a text** for every object payload, under every documented policy. -/
theorem apply_returns (h : DocumentedPolicy policy) {encoded : List Char}
    {payload : List (String × Json)} (hload : py.fr.loads encoded = .ok (.dict payload)) :
    ∃ out, apply_result_governance py encoded (.dict policy) = .ok out := by
  have hor : (Json.dict policy).or (.dict []) = .dict policy := by cases policy <;> rfl
  rw [apply_result_governance, hload]
  simp only [Json.get_dict, bind, Except.bind]
  split
  · next kvs columns rows heq _ _ =>
    obtain ⟨masks, labels, mask_labels, hmasks⟩ := readMasks_ok h
    obtain ⟨n, hn⟩ := int_ok py h.max_export_rows rows.length
    obtain ⟨b, hb⟩ := int_ok py h.max_result_bytes (1024 * 1024)
    have hflags : ∃ flags,
        maskedIndexes py (Masks.ofStrings masks labels mask_labels) columns = .ok flags :=
      exists_mapM fun column _ => isMasked_ok masks mask_labels labels column
    obtain ⟨flags, hflags⟩ := hflags
    simp only [governRows, hor, hmasks, hflags, maxRows, maxBytes, Json.getD_dict, hn, hb, bind,
      Except.bind]
    split <;> exact ⟨_, rfl⟩
  · exact ⟨_, rfl⟩

end

/-- **Result governance.** Under a documented policy every object payload is returned as some text.
Every text returned is its own governed text, and when the payload has a list of columns and a list
of rows, the text is within the byte cap and is the error text or holds those columns and a masked,
counted prefix of those rows within the export cap. Any other payload is returned as it came. -/
theorem result_governance (py : Interpreter) (encoded : List Char) (policy : Json) :
    (∀ payload fields, py.fr.loads encoded = .ok (.dict payload) → policy = .dict fields →
      DocumentedPolicy fields → ∃ out, apply_result_governance py encoded policy = .ok out) ∧
    ∀ out, apply_result_governance py encoded policy = .ok out →
      apply_result_governance py out policy = .ok out ∧
      ((¬∃ payload columns rows, py.fr.loads encoded = .ok (.dict payload) ∧
        Assoc.get? payload "columns" = some (.list columns) ∧
        Assoc.get? payload "rows" = some (.list rows)) → out = encoded) ∧
      ∀ payload columns rows, py.fr.loads encoded = .ok (.dict payload) →
        Assoc.get? payload "columns" = some (.list columns) →
        Assoc.get? payload "rows" = some (.list rows) →
        Governed py (policy.or (.dict [])) columns rows out := by
  refine ⟨?_, fun out h => ⟨apply_again h, ?_, ?_⟩⟩
  · rintro payload fields hload rfl hpolicy
    exact apply_returns hpolicy hload
  · intro hother
    rcases apply_cases h with hsame | ⟨payload, columns, rows, hload, hcols, hrows, -⟩
    · exact hsame
    · exact absurd ⟨payload, columns, rows, hload, hcols, hrows⟩ hother
  · intro payload columns rows hload hcols hrows
    rw [apply_tabular hload hcols hrows] at h
    obtain ⟨m, flags, max_rows, max_bytes, hm, hflags, hmax, hbytes, hsize, hout⟩ :=
      governRows_ok h (FloatRepr.canonical_of_loads hload) hcols hrows
    refine ⟨m, flags, max_rows, max_bytes, hm, hflags, hmax, hbytes, hsize, hout.imp_right ?_⟩
    rintro ⟨k, sent, rfl, hcan, hk, hsent⟩
    refine ⟨sent, _, k, FloatRepr.loads_dumps resultFormat_readable hcan, hsent,
      Nat.le_trans (List.length_take_le k _) hk, ?_⟩
    rw [← List.map_take, List.forall₂_map_right_iff]
    exact List.forall₂_same.mpr fun row _ => redacted_maskRow flags row

/-- The interpreter on ASCII text and values without floats. -/
def asciiInterpreter : Interpreter :=
  ⟨fun s => String.ofList (s.toList.map Char.toLower),
    fun s => String.ofList (s.toList.map Char.toUpper), plainConversions, noFloats, exactRepr⟩

/-- A policy that masks the column `email` and exports one row. -/
def maskEmail : Json := .dict [("column_masks", .list [.str "email"]), ("max_export_rows", .int 1)]

/-- Two orders. -/
def ordersResult : List Char :=
  ("\x7b\"columns\": [\"id\", \"email\"], \"rows\": [[1, \"a@x.org\"], [2, \"b@x.org\"]], " ++
    "\"row_count\": 2\x7d").toList

/-- The first order, masked. -/
def ordersGoverned : List Char :=
  ("\x7b\"columns\":[\"id\",\"email\"],\"rows\":[[1,\"[REDACTED]\"]]," ++
    "\"row_count\":1,\"truncated\":true\x7d").toList

theorem result_governance_orders :
    apply_result_governance asciiInterpreter ordersResult maskEmail = .ok ordersGoverned ∧
      apply_result_governance asciiInterpreter ordersGoverned maskEmail = .ok ordersGoverned ∧
      Governed asciiInterpreter maskEmail [.str "id", .str "email"]
        [.list [.int 1, .str "a@x.org"], .list [.int 2, .str "b@x.org"]] ordersGoverned := by
  have happly :
      apply_result_governance asciiInterpreter ordersResult maskEmail = .ok ordersGoverned := by
    decide +kernel
  have hload : asciiInterpreter.fr.loads ordersResult = .ok (.dict
      [("columns", .list [.str "id", .str "email"]),
        ("rows", .list [.list [.int 1, .str "a@x.org"], .list [.int 2, .str "b@x.org"]]),
        ("row_count", .int 2)]) := by
    decide +kernel
  obtain ⟨hagain, -, hgoverned⟩ :=
    (result_governance asciiInterpreter ordersResult maskEmail).2 ordersGoverned happly
  exact ⟨happly, hagain, hgoverned _ _ _ hload rfl rfl⟩

/-- A row that is a dictionary keeps the value of a masked column. -/
theorem dictRow_kept :
    maskedIndexes asciiInterpreter ⟨[.str "email"], .dict [], []⟩ [.str "email"] = .ok [true] ∧
      apply_result_governance asciiInterpreter
        "\x7b\"columns\": [\"email\"], \"rows\": [\x7b\"email\": \"a@x.org\"\x7d]\x7d".toList
        maskEmail =
        .ok ("\x7b\"columns\":[\"email\"],\"rows\":[\x7b\"email\":\"a@x.org\"\x7d]," ++
          "\"row_count\":1\x7d").toList := by
  decide +kernel

end OpenLaunch.Tools
