import OpenLaunch.Tools.SqlPolicyComplete

/-! # Masked columns, from the query to the text

A query that only projects columns decides how the columns of its result are named, and governance
masks the columns of the result by these names. This module follows a base table's values through
such a query, the adapter and governance, and says when the text that comes out tells nothing about
the masked ones. -/

namespace OpenLaunch.Tools

open Python

/-! ## Queries that project columns -/

/-- One item of a SELECT list. -/
inductive Item
  /-- `*`, or `qualifier.*`. -/
  | star (qualifier : String)
  /-- A column, with its qualifier and its alias. -/
  | column (qualifier name : String) (asName : Option String)

/-- A base table, or `SELECT items FROM source AS alias`. -/
inductive Projection
  | table (name : TableName)
  | select (items : List Item) (asName : String) (source : Projection)

namespace Projection

/-- The base table at the bottom. -/
def base : Projection → TableName
  | .table name => name
  | .select _ _ source => source.base

/-- The node of an item; its column is one of the base table. -/
def itemNode (base : TableName) : Item → SqlNode
  | .star qualifier =>
    if qualifier = "" then .node .star []
    else .node (.column qualifier "*" (some base)) [.node .star []]
  | .column qualifier name none => .node (.column qualifier name (some base)) []
  | .column qualifier name (some _) =>
    .node (.other "alias") [.node (.column qualifier name (some base)) []]

/-- The node of a FROM clause. -/
def fromNode : Projection → SqlNode → SqlNode
  | .table _, n => .node (.other "from") [n]
  | .select _ _ _, n => .node (.other "from") [.node (.other "subquery") [n]]

/-- The statement, with these conditions in the WHERE of every SELECT. -/
def tree (conditions : List SqlNode) : Projection → SqlNode
  | .table name => .node (.table name true) []
  | .select items _ source =>
    .node .select (items.map (itemNode source.base) ++ [fromNode source (source.tree conditions)] ++
      conditions.map whereNode)

theorem addArgs_itemNode (base : TableName) (item : Item) (extra : List SqlNode) :
    (itemNode base item).addArgs (· = .select) extra = itemNode base item := by
  cases item with
  | star qualifier =>
    rw [itemNode]
    split_ifs <;> rfl
  | column qualifier name asName => cases asName <;> rfl

theorem addArgs_fromNode (source : Projection) (n : SqlNode) (extra : List SqlNode) :
    (fromNode source n).addArgs (· = .select) extra =
      fromNode source (n.addArgs (· = .select) extra) := by
  cases source <;> rfl

/-- **Appending conditions to every SELECT** of a projection gives the projection with them. -/
theorem addArgs_tree (q : Projection) (conditions : List SqlNode) :
    (q.tree []).addArgs (· = .select) (conditions.map whereNode) = q.tree conditions := by
  induction q with
  | table name => rfl
  | select items asName source ih =>
    have hitems : (items.map (itemNode source.base)).map
        (SyntaxTree.addArgs (· = .select) (conditions.map whereNode)) =
        items.map (itemNode source.base) := by
      rw [List.map_map]
      exact List.map_congr_left fun item _ => addArgs_itemNode _ item _
    rw [tree, SyntaxTree.addArgs, SyntaxTree.addArgsOf_eq_map, List.map_nil, List.append_nil,
      List.map_append, hitems, List.map_singleton, addArgs_fromNode, ih]
    rfl

end Projection

/-! ## What a projection returns -/

/-- A column of a result: its name, and the column of the base table that its values come from. -/
structure ResultColumn where
  name : String
  origin : String
  deriving DecidableEq

/-- A row of a base table, by column. -/
abbrev BaseRow := String → Json

/-- A base table. Its values are what the adapter makes of the driver's values: no object has a key
twice, and floats are printed by `repr`. -/
structure BaseTable (fr : FloatRepr) where
  columns : List String
  rows : List BaseRow
  canonical : ∀ r ∈ rows, ∀ c, fr.Canonical (r c)

/-- The columns an item selects. A name that no column or that several columns have is an error. -/
def selectItem (columns : List ResultColumn) (asName : String) : Item → Option (List ResultColumn)
  | .star qualifier => if qualifier = "" ∨ qualifier = asName then some columns else none
  | .column qualifier name columnAs =>
    if qualifier = "" ∨ qualifier = asName then
      match columns.filter (·.name = name) with
      | [c] => some [⟨columnAs.getD name, c.origin⟩]
      | _ => none
    else none

/-- The columns of the result, over a base table with these columns: an alias names its column. -/
def Projection.columns (base : List String) : Projection → Option (List ResultColumn)
  | .table _ => some (base.map fun c => ⟨c, c⟩)
  | .select items asName source => do
    let columns ← source.columns base
    let selected ← items.mapM (selectItem columns asName)
    some selected.flatten

/-- What a condition makes of a row of the source that it stands over, by name. -/
abbrev Conditions := SqlNode → String → List (String × Json) → Bool

/-- Whether a row of the base table passes the conditions of every SELECT. -/
def Projection.passes (holds : Conditions) (conditions : List SqlNode) (base : List String)
    (r : BaseRow) : Projection → Bool
  | .table _ => true
  | .select _ asName source =>
    source.passes holds conditions base r && match source.columns base with
      | some columns =>
        conditions.all fun c => holds c asName (columns.map fun col => (col.name, r col.origin))
      | none => false

/-- One row of the result. -/
def resultRow (columns : List ResultColumn) (r : BaseRow) : Json :=
  .list (columns.map fun c => r c.origin)

/-! ## The adapter -/

/-- A data source, with the limits of the adapter. -/
structure DataSource where
  connection_id : String
  type : String
  /-- `DATA_SOURCE_MAX_ROWS`. -/
  max_rows : ℕ
  /-- `DATA_SOURCE_MAX_RESULT_BYTES`. -/
  max_bytes : ℕ

/-- The payload of a tabular result. -/
def tabular (s : DataSource) (columns : List ResultColumn) (rows : List Json) (row_count : ℕ)
    (truncated : Bool) : List (String × Json) :=
  [("connection_id", .str s.connection_id), ("type", .str s.type),
    ("columns", .list (columns.map fun c => .str c.name)), ("rows", .list rows),
    ("row_count", .int row_count), ("truncated", .bool truncated)]

/-- The text that takes the place of a result above the limit of the adapter. -/
def outputLimitError : List Char :=
  dumps .standard (.dict
    [("error", .str "The data source result exceeds the configured output limit."),
      ("truncated", .bool true)])

/-- `_fit_tabular_result(connection, columns, rows, truncated)`. -/
def _fit_tabular_result (s : DataSource) (columns : List ResultColumn) (rows : List Json)
    (truncated : Bool) : List Char :=
  let encoded := fitRows s.max_bytes rows.length (tabular s columns rows rows.length truncated) rows
  if size encoded > s.max_bytes then outputLimitError else encoded

/-- The text of a call that fails. -/
def failedText : List Char :=
  dumps .standard (.dict [("error", .str "The data source query failed.")])

/-- The rows that the adapter fetches and sends. -/
def sentRows {fr : FloatRepr} (s : DataSource) (holds : Conditions) (conditions : List SqlNode)
    (q : Projection) (columns : List ResultColumn) (t : BaseTable fr) : List Json :=
  ((t.rows.filter fun r => q.passes holds conditions t.columns r).map (resultRow columns)).take
    s.max_rows

/-- Whether there are rows that the adapter does not send. -/
def hasMoreRows {fr : FloatRepr} (s : DataSource) (holds : Conditions) (conditions : List SqlNode)
    (q : Projection) (t : BaseTable fr) : Bool :=
  (t.rows.filter fun r => q.passes holds conditions t.columns r).length > s.max_rows

/-- What `query_data_source` returns for an accepted projection over the base table `t`. -/
def queryText (py : Interpreter) (s : DataSource) (holds : Conditions) (policy : Json)
    (conditions : List SqlNode) (q : Projection) (t : BaseTable py.fr) : List Char :=
  match q.columns t.columns with
  | none => failedText
  | some columns =>
    match apply_result_governance py (_fit_tabular_result s columns
        (sentRows s holds conditions q columns t) (hasMoreRows s holds conditions q t)) policy with
    | .ok text => text
    | .error _ => failedText

/-! ## Payloads of tabular results -/

section

variable {s : DataSource} {columns : List ResultColumn} {rows : List Json} {k : ℕ} {b : Bool}

theorem set_rows (rows' : List Json) :
    Assoc.set (tabular s columns rows k b) "rows" (.list rows') = tabular s columns rows' k b := by
  simp [tabular, Assoc.set]

theorem set_row_count (k' : ℕ) :
    Assoc.set (tabular s columns rows k b) "row_count" (.int k') = tabular s columns rows k' b := by
  simp [tabular, Assoc.set]

theorem set_truncated :
    Assoc.set (tabular s columns rows k b) "truncated" (.bool true) =
      tabular s columns rows k true := by
  simp [tabular, Assoc.set]

theorem encodeRows_tabular (rows' : List Json) :
    encodeRows (tabular s columns rows k b) rows' =
      dumps resultFormat (.dict (tabular s columns rows' k b)) := by
  rw [encodeRows, set_rows]

/-- The loop over the byte cap does not look at the rows that the payload came with. -/
theorem fitRows_tabular (max_bytes n : ℕ) (kept rows' : List Json) :
    fitRows max_bytes n (tabular s columns rows k b) kept =
      fitRows max_bytes n (tabular s columns rows' k b) kept := by
  induction n generalizing k b kept with
  | zero => rw [fitRows, fitRows, encodeRows_tabular, encodeRows_tabular]
  | succ n ih =>
    rw [fitRows, fitRows, encodeRows_tabular, encodeRows_tabular, set_row_count, set_row_count,
      set_truncated, set_truncated, ih]

/-- Neither does the export cap. -/
theorem capRows_tabular (s : DataSource) (columns : List ResultColumn) (k : ℕ) (b : Bool)
    (max_rows : ℕ) (kept : List Json) :
    ∃ b' kept', ∀ rows, capRows max_rows (tabular s columns rows k b) kept =
      (tabular s columns rows k b', kept') := by
  by_cases h : kept.length > max_rows
  · refine ⟨true, kept.take max_rows, fun rows => ?_⟩
    rw [capRows, if_pos h, set_truncated]
  · exact ⟨b, kept, fun rows => if_neg h⟩

/-- A result within the limit of the adapter is sent whole. -/
theorem fit_of_size (h : size (dumps resultFormat (.dict (tabular s columns rows rows.length b))) ≤
      s.max_bytes) :
    _fit_tabular_result s columns rows b =
      dumps resultFormat (.dict (tabular s columns rows rows.length b)) := by
  have hfit : fitRows s.max_bytes rows.length (tabular s columns rows rows.length b) rows =
      dumps resultFormat (.dict (tabular s columns rows rows.length b)) := by
    cases hn : rows.length with
    | zero => rw [fitRows, encodeRows_tabular]
    | succ n =>
      rw [hn] at h
      rw [fitRows, encodeRows_tabular, if_neg (by omega)]
  rw [_fit_tabular_result, hfit, if_neg (by omega)]

variable {py : Interpreter} {policy : Json}

/-- **Two results that are masked to the same rows are governed to the same text.** -/
theorem governRows_congr {rows' : List Json} (hlen : rows.length = rows'.length) {cols : List Json}
    (hmask : ∀ m flags, readMasks policy = .ok m → maskedIndexes py m cols = .ok flags →
      rows.map (maskRow flags) = rows'.map (maskRow flags)) :
    governRows py policy (tabular s columns rows k b) cols rows =
      governRows py policy (tabular s columns rows' k b) cols rows' := by
  have hmax : maxRows py policy rows = maxRows py policy rows' := by rw [maxRows, maxRows, hlen]
  rw [governRows, governRows, hmax]
  refine bind_congr_ok fun m hm => bind_congr_ok fun flags hflags => ?_
  rw [hmask m flags hm hflags]
  refine bind_congr_ok fun max_rows _ => ?_
  obtain ⟨b', kept, hcap⟩ :=
    capRows_tabular s columns k b max_rows (rows'.map (maskRow flags))
  simp only [hcap, set_row_count]
  refine bind_congr_ok fun max_bytes _ => ?_
  rw [fitRows_tabular max_bytes kept.length kept rows']

end

/-! ## Masked columns of a base table -/

/-- The policy masks a column of this name. -/
def maskedName (py : Interpreter) (policy : Json) (name : String) : Bool :=
  match readMasks (policy.or (.dict [])) with
  | .ok m => match isMasked py m (.str name) with
    | .ok masked => masked
    | .error _ => false
  | .error _ => false

/-- Two rows that differ at most in hidden columns. -/
def RowsAgree (hidden : String → Bool) (r r' : BaseRow) : Prop := ∀ c, hidden c = false → r c = r' c

/-- Two base tables that differ at most in the values of hidden columns. -/
structure TablesAgree {fr : FloatRepr} (hidden : String → Bool) (t t' : BaseTable fr) : Prop where
  columns : t.columns = t'.columns
  rows : List.Forall₂ (RowsAgree hidden) t.rows t'.rows

/-- The conditions select the same rows, whatever the hidden columns hold. -/
def Blind (holds : Conditions) (conditions : List SqlNode) (hidden : String → Bool)
    (base : List String) (q : Projection) : Prop :=
  ∀ r r', RowsAgree hidden r r' →
    q.passes holds conditions base r = q.passes holds conditions base r'

/-- **The condition**: every column of the result that holds values of a hidden column has a name
that is hidden too. -/
def NamesHide (hidden : String → Bool) (columns : List ResultColumn) : Prop :=
  ∀ c ∈ columns, hidden c.origin = true → hidden c.name = true

/-- The result over a table is within the limit of the adapter. -/
def AnswerFits {fr : FloatRepr} (s : DataSource) (holds : Conditions) (conditions : List SqlNode)
    (q : Projection) (columns : List ResultColumn) (t : BaseTable fr) : Prop :=
  size (dumps resultFormat (.dict (tabular s columns (sentRows s holds conditions q columns t)
    (sentRows s holds conditions q columns t).length (hasMoreRows s holds conditions q t)))) ≤
      s.max_bytes

section

variable {py : Interpreter} {policy : Json}

theorem maskedName_of_flag {m : Masks} {name : String} {flag : Bool}
    (hm : readMasks (policy.or (.dict [])) = .ok m) (hflag : isMasked py m (.str name) = .ok flag) :
    maskedName py policy name = flag := by
  rw [maskedName, hm]
  simp only [hflag]

/-- Two rows that agree off the masked columns are masked to the same row. -/
theorem maskRow_resultRow {columns : List ResultColumn} {m : Masks} {flags : List Bool}
    (hm : readMasks (policy.or (.dict [])) = .ok m)
    (hflags : maskedIndexes py m (columns.map fun c => .str c.name) = .ok flags)
    (hnames : NamesHide (maskedName py policy) columns) {r r' : BaseRow}
    (hrows : RowsAgree (maskedName py policy) r r') :
    maskRow flags (resultRow columns r) = maskRow flags (resultRow columns r') := by
  have hall := List.forall₂_map_left_iff.mp (forall₂_of_mapM hflags)
  clear hflags
  refine congrArg Json.list ?_
  induction hall with
  | nil => rfl
  | @cons c flag columns flags hflag _ ih =>
    rw [NamesHide, List.forall_mem_cons] at hnames
    have hcell : (if flag then redacted else r c.origin) =
        if flag then redacted else r' c.origin := by
      cases flag with
      | true => rfl
      | false =>
        have horigin : maskedName py policy c.origin = false := by
          by_contra h
          have hname := hnames.1 (by simpa using h)
          rw [maskedName_of_flag hm hflag] at hname
          cases hname
        exact hrows c.origin horigin
    rw [List.map_cons, List.map_cons, maskCells, maskCells, hcell, ih hnames.2]

variable {s : DataSource} {holds : Conditions} {conditions : List SqlNode} {q : Projection}

/-- The rows that pass agree, and there are as many. -/
theorem forall₂_filter {base : List String} {hidden : String → Bool} {rs rs' : List BaseRow}
    (hblind : Blind holds conditions hidden base q) (h : List.Forall₂ (RowsAgree hidden) rs rs') :
    List.Forall₂ (RowsAgree hidden) (rs.filter (q.passes holds conditions base ·))
      (rs'.filter (q.passes holds conditions base ·)) := by
  induction h with
  | nil => exact .nil
  | @cons r r' rs rs' hr _ ih =>
    rw [List.filter_cons, List.filter_cons, hblind r r' hr]
    split_ifs
    · exact .cons hr ih
    · exact ih

/-- A text that governance returns, or the text of a failed call. -/
def orFailed : Except PyErr (List Char) → List Char
  | .ok text => text
  | .error _ => failedText

/-- The payload of a result has no key twice, and its floats are printed by `repr`. -/
theorem canonical_tabular {columns : List ResultColumn} {rows : List Json} {k : ℕ} {b : Bool}
    (hrows : ∀ row ∈ rows, py.fr.Canonical row) :
    py.fr.Canonical (.dict (tabular s columns rows k b)) := by
  have hcolumns : py.fr.Canonical (.list (columns.map fun c => .str c.name)) :=
    FloatRepr.canonical_list.mpr (List.forall_mem_map.mpr fun c _ => FloatRepr.canonical_str c.name)
  refine FloatRepr.canonical_dict.mpr ⟨?_, ?_⟩
  · simp [tabular, Assoc.keys]
  · simp only [tabular, List.forall_mem_cons]
    exact ⟨FloatRepr.canonical_str _, FloatRepr.canonical_str _, hcolumns,
      FloatRepr.canonical_list.mpr hrows, FloatRepr.canonical_int _, FloatRepr.canonical_bool _,
      by simp⟩

theorem canonical_sentRows {columns : List ResultColumn} (t : BaseTable py.fr) :
    ∀ row ∈ sentRows s holds conditions q columns t, py.fr.Canonical row := by
  intro row hrow
  obtain ⟨r, hr, rfl⟩ := List.mem_map.mp (List.mem_of_mem_take hrow)
  exact FloatRepr.canonical_list.mpr
    (List.forall_mem_map.mpr fun c _ => t.canonical r (List.mem_filter.mp hr).1 c.origin)

/-- **A result within the limit of the adapter reaches governance as it is.** -/
theorem queryText_of_fits {columns : List ResultColumn} {t : BaseTable py.fr}
    (hcols : q.columns t.columns = some columns) (hfits : AnswerFits s holds conditions q columns t) :
    queryText py s holds policy conditions q t =
      orFailed (governRows py (policy.or (.dict []))
        (tabular s columns (sentRows s holds conditions q columns t)
          (sentRows s holds conditions q columns t).length (hasMoreRows s holds conditions q t))
        (columns.map fun c => .str c.name) (sentRows s holds conditions q columns t)) := by
  have hcan : py.fr.Canonical (.dict (tabular s columns (sentRows s holds conditions q columns t)
      (sentRows s holds conditions q columns t).length (hasMoreRows s holds conditions q t))) :=
    canonical_tabular (canonical_sentRows t)
  rw [queryText, hcols]
  simp only [fit_of_size hfits]
  rw [apply_tabular (FloatRepr.loads_dumps resultFormat_readable hcan) rfl rfl]
  rfl

/-- What is sent of two tables that agree: as many rows, masked to the same ones. -/
theorem sentRows_agree {columns : List ResultColumn} {t t' : BaseTable py.fr}
    (hagree : TablesAgree (maskedName py policy) t t')
    (hblind : Blind holds conditions (maskedName py policy) t.columns q)
    (hnames : NamesHide (maskedName py policy) columns) :
    (sentRows s holds conditions q columns t).length =
        (sentRows s holds conditions q columns t').length ∧
      hasMoreRows s holds conditions q t = hasMoreRows s holds conditions q t' ∧
      ∀ m flags, readMasks (policy.or (.dict [])) = .ok m →
        maskedIndexes py m (columns.map fun c => .str c.name) = .ok flags →
        (sentRows s holds conditions q columns t).map (maskRow flags) =
          (sentRows s holds conditions q columns t').map (maskRow flags) := by
  have hfilter := forall₂_filter hblind hagree.rows
  have hlen := hfilter.length_eq
  rw [sentRows, sentRows, hasMoreRows, hasMoreRows, ← hagree.columns]
  refine ⟨?_, ?_, fun m flags hm hflags => ?_⟩
  · rw [List.length_take, List.length_take, List.length_map, List.length_map, hlen]
  · rw [hlen]
  · rw [← List.map_take, ← List.map_take, List.map_map, List.map_map]
    have htake := List.forall₂_take s.max_rows hfilter
    have hmap := htake.imp fun r r' hr => maskRow_resultRow hm hflags hnames hr
    exact List.forall₂_eq_eq_eq ▸
      List.forall₂_map_left_iff.mpr (List.forall₂_map_right_iff.mpr hmap)

/-- **Masked names hide masked values.** Two tables that differ at most in the masked columns give
the same text, when every column that holds masked values has a masked name. -/
theorem queryText_congr {columns : List ResultColumn} {t t' : BaseTable py.fr}
    (hcols : q.columns t.columns = some columns) (hagree : TablesAgree (maskedName py policy) t t')
    (hblind : Blind holds conditions (maskedName py policy) t.columns q)
    (hnames : NamesHide (maskedName py policy) columns)
    (hfits : AnswerFits s holds conditions q columns t)
    (hfits' : AnswerFits s holds conditions q columns t') :
    queryText py s holds policy conditions q t = queryText py s holds policy conditions q t' := by
  obtain ⟨hlen, hmore, hmask⟩ := sentRows_agree (s := s) hagree hblind hnames
  have hcols' : q.columns t'.columns = some columns := by rw [← hagree.columns, hcols]
  rw [queryText_of_fits hcols hfits, queryText_of_fits hcols' hfits', hlen, hmore,
    governRows_congr hlen hmask]

/-! ## Names that are not masked -/

/-- A row of integers. -/
def intRow (f : String → ℤ) : BaseRow := fun c => .int (f c)

/-- A table with one row of integers. -/
def intTable (fr : FloatRepr) (base : List String) (f : String → ℤ) : BaseTable fr where
  columns := base
  rows := [intRow f]
  canonical := by simp [intRow, FloatRepr.canonical_int]

/-- A row that gets through: it passes the conditions, and a result with it alone is within every
limit. -/
structure RowAdmitted (py : Interpreter) (s : DataSource) (holds : Conditions) (policy : Json)
    (conditions : List SqlNode) (q : Projection) (base : List String)
    (columns : List ResultColumn) (r : BaseRow) : Prop where
  passes : q.passes holds conditions base r = true
  fetched : 1 ≤ s.max_rows
  fits : size (dumps resultFormat (.dict (tabular s columns [resultRow columns r] 1 false))) ≤
    s.max_bytes
  governed : ∃ m flags max_rows max_bytes, readMasks (policy.or (.dict [])) = .ok m ∧
    maskedIndexes py m (columns.map fun c => .str c.name) = .ok flags ∧
    maxRows py (policy.or (.dict [])) [resultRow columns r] = .ok max_rows ∧ 1 ≤ max_rows ∧
    maxBytes py (policy.or (.dict [])) = .ok max_bytes ∧
    size (dumps resultFormat
      (.dict (tabular s columns [maskRow flags (resultRow columns r)] 1 false))) ≤ max_bytes

section

variable {base : List String} {columns : List ResultColumn} {f : String → ℤ}

theorem sent_intTable
    (h : RowAdmitted py s holds policy conditions q base columns (intRow f)) :
    sentRows s holds conditions q columns (intTable py.fr base f) = [resultRow columns (intRow f)] ∧
      hasMoreRows s holds conditions q (intTable py.fr base f) = false := by
  have hfilter : (intTable py.fr base f).rows.filter (q.passes holds conditions base ·) =
      [intRow f] := by
    rw [intTable, List.filter_singleton, h.passes]
    rfl
  have hbase : (intTable py.fr base f).columns = base := rfl
  rw [sentRows, hasMoreRows, hbase, hfilter]
  exact ⟨List.take_of_length_le h.fetched, decide_eq_false (Nat.not_lt.mpr h.fetched)⟩

theorem answerFits_intTable (h : RowAdmitted py s holds policy conditions q base columns (intRow f)) :
    AnswerFits s holds conditions q columns (intTable py.fr base f) := by
  obtain ⟨hsent, hmore⟩ := sent_intTable h
  rw [AnswerFits, hsent, hmore]
  exact h.fits

/-- **The text of an admitted row** is the row, masked. -/
theorem queryText_intTable (hcols : q.columns base = some columns)
    (h : RowAdmitted py s holds policy conditions q base columns (intRow f)) :
    ∃ m flags, readMasks (policy.or (.dict [])) = .ok m ∧
      maskedIndexes py m (columns.map fun c => .str c.name) = .ok flags ∧
      queryText py s holds policy conditions q (intTable py.fr base f) =
        dumps resultFormat
          (.dict (tabular s columns [maskRow flags (resultRow columns (intRow f))] 1 false)) := by
  obtain ⟨m, flags, max_rows, max_bytes, hm, hflags, hmax, hone, hbytes, hsize⟩ := h.governed
  obtain ⟨hsent, hmore⟩ := sent_intTable h
  refine ⟨m, flags, hm, hflags, ?_⟩
  rw [queryText_of_fits (t := intTable py.fr base f) hcols (answerFits_intTable h), hsent, hmore]
  have hfit : fitRows max_bytes 1 (tabular s columns [resultRow columns (intRow f)] 1 false)
      [maskRow flags (resultRow columns (intRow f))] = dumps resultFormat
        (.dict (tabular s columns [maskRow flags (resultRow columns (intRow f))] 1 false)) := by
    rw [fitRows, encodeRows_tabular, if_neg (by omega)]
  simp only [governRows, hm, hflags, hmax, hbytes, bind, Except.bind, List.map_singleton,
    List.length_singleton]
  rw [capRows_of_le (by simpa using hone)]
  simp only [set_row_count, List.length_singleton, hfit]
  rw [if_neg (by omega)]
  rfl

/-- Rows that are masked to the same row agree where the name is not masked. -/
theorem eq_of_maskRow_eq {m : Masks} {flags : List Bool}
    (hm : readMasks (policy.or (.dict [])) = .ok m)
    (hflags : maskedIndexes py m (columns.map fun c => .str c.name) = .ok flags) {r r' : BaseRow}
    (h : maskRow flags (resultRow columns r) = maskRow flags (resultRow columns r')) :
    ∀ c ∈ columns, maskedName py policy c.name = false → r c.origin = r' c.origin := by
  have hall := List.forall₂_map_left_iff.mp (forall₂_of_mapM hflags)
  have hcells := Json.list.inj h
  clear hflags h
  induction hall with
  | nil => simp
  | @cons c flag columns flags hflag _ ih =>
    rw [List.map_cons, List.map_cons, maskCells, maskCells, List.cons.injEq] at hcells
    refine List.forall_mem_cons.mpr ⟨fun hname => ?_, ih hcells.2⟩
    rw [maskedName_of_flag hm hflag] at hname
    subst hname
    exact hcells.1

end

/-- Zeros everywhere. -/
def zeros : String → ℤ := fun _ => 0

/-- Ones in the masked columns, zeros elsewhere. -/
def maskedOnes (py : Interpreter) (policy : Json) : String → ℤ :=
  fun c => if maskedName py policy c then 1 else 0

theorem canonical_maskedRow {columns : List ResultColumn} (flags : List Bool) (f : String → ℤ) :
    py.fr.Canonical
      (.dict (tabular s columns [maskRow flags (resultRow columns (intRow f))] 1 false)) := by
  refine canonical_tabular (List.forall_mem_singleton.mpr (canonical_maskRow ?_))
  exact FloatRepr.canonical_list.mpr
    (List.forall_mem_map.mpr fun c _ => FloatRepr.canonical_int (f c.origin))

/-- The claim about one query: tables that differ at most in the masked columns, and whose results
are within the limit of the adapter, give the same text. -/
def HidesMasked (py : Interpreter) (s : DataSource) (holds : Conditions) (policy : Json)
    (conditions : List SqlNode) (q : Projection) (base : List String)
    (columns : List ResultColumn) : Prop :=
  ∀ t t' : BaseTable py.fr, t.columns = base → TablesAgree (maskedName py policy) t t' →
    AnswerFits s holds conditions q columns t → AnswerFits s holds conditions q columns t' →
    queryText py s holds policy conditions q t = queryText py s holds policy conditions q t'

/-- **A masked column under another name is revealed**, as soon as a row gets through. -/
theorem namesHide_of_hidesMasked {base : List String} {columns : List ResultColumn}
    (hcols : q.columns base = some columns)
    (hzeros : RowAdmitted py s holds policy conditions q base columns (intRow zeros))
    (hones : RowAdmitted py s holds policy conditions q base columns (intRow (maskedOnes py policy)))
    (h : HidesMasked py s holds policy conditions q base columns) :
    NamesHide (maskedName py policy) columns := by
  intro c hc horigin
  by_contra hname
  obtain ⟨m, flags, hm, hflags, htext⟩ := queryText_intTable hcols hzeros
  obtain ⟨m', flags', hm', hflags', htext'⟩ := queryText_intTable hcols hones
  cases hm.symm.trans hm'
  cases hflags.symm.trans hflags'
  have hagree : TablesAgree (maskedName py policy) (intTable py.fr base zeros)
      (intTable py.fr base (maskedOnes py policy)) := by
    refine ⟨rfl, .cons (fun c hc => ?_) .nil⟩
    simp [intRow, zeros, maskedOnes, hc]
  have hsame := h _ _ rfl hagree (answerFits_intTable hzeros) (answerFits_intTable hones)
  rw [htext, htext'] at hsame
  have hpayload := FloatRepr.dumps_inj resultFormat_readable
    (@canonical_maskedRow py s columns flags zeros)
    (canonical_maskedRow flags (maskedOnes py policy)) hsame
  have hrow : maskRow flags (resultRow columns (intRow zeros)) =
      maskRow flags (resultRow columns (intRow (maskedOnes py policy))) := by
    simpa [tabular] using hpayload
  have hcell := eq_of_maskRow_eq hm hflags hrow c hc (by simpa using hname)
  simp [intRow, zeros, maskedOnes, horigin] at hcell

end

/-! ## From the query to the text -/

/-- What is appended are conditions of a WHERE. -/
theorem appended_eq_map (py : Interpreter) (glot : SqlGlot) (c : PolicyCase) :
    ∃ conditions : List SqlNode, c.appended py glot = conditions.map whereNode := by
  have hmap (predicates : List Json) : ∃ conditions : List SqlNode,
      predicates.filterMap (conditionNode? py glot c.dialect) = conditions.map whereNode := by
    induction predicates with
    | nil => exact ⟨[], rfl⟩
    | cons p ps ih =>
      obtain ⟨conditions, hps⟩ := ih
      rw [List.filterMap_cons, hps, conditionNode?]
      rcases conditionOf py glot c.dialect p with e | _ | condition
      · exact ⟨conditions, rfl⟩
      · exact ⟨conditions, rfl⟩
      · exact ⟨condition :: conditions, rfl⟩
  rw [PolicyCase.appended]
  split_ifs
  · exact hmap _
  · exact ⟨[], rfl⟩

/-- **An accepted projection hides the masked columns when their names do**, and only then, unless
no row gets through. The conditions that the policy appends are to be blind to masked columns. -/
theorem masking_of_names (py : Interpreter) (glot : SqlGlot) (s : DataSource) (holds : Conditions)
    {query provider_type : String} {policy : Json} {d : SQLPolicyDecision} {q : Projection}
    (hparse : ∀ dialect, dialectOf provider_type = .ok dialect →
      glot.parse query dialect = .ok [some (q.tree [])])
    (h : enforce_sql_policy py glot query provider_type policy = .ok d) :
    ∃ conditions dialect, d.query = glot.sql (q.tree conditions) dialect ∧
      ∀ base columns, q.columns base = some columns →
        (Blind holds conditions (maskedName py policy) base q →
          NamesHide (maskedName py policy) columns →
          HidesMasked py s holds policy conditions q base columns) ∧
        (RowAdmitted py s holds policy conditions q base columns (intRow zeros) →
          RowAdmitted py s holds policy conditions q base columns (intRow (maskedOnes py policy)) →
          HidesMasked py s holds policy conditions q base columns →
          NamesHide (maskedName py policy) columns) := by
  obtain ⟨c, hreads, -, hquery⟩ := enforce_ok h
  obtain ⟨conditions, happended⟩ := appended_eq_map py glot c
  have hexpression : c.expression = q.tree [] := by
    obtain ⟨⟨⟩, -, hread⟩ := bind_eq_ok.mp hreads.expression
    rw [hparse c.dialect hreads.dialect] at hread
    exact (Except.ok.inj hread).symm
  refine ⟨conditions, c.dialect, ?_, fun base columns hcols => ⟨?_, ?_⟩⟩
  · rw [hquery, PolicyCase.rewritten, hexpression, happended, Projection.addArgs_tree]
  · intro hblind hnames t t' hbase hagree hfits hfits'
    subst hbase
    exact queryText_congr hcols hagree hblind hnames hfits hfits'
  · exact namesHide_of_hidesMasked hcols

/-- A parser that knows one query, with its text and fingerprint. -/
def oneQuery (query fingerprint : String) (n : SqlNode) : SqlGlot where
  parse text _ := if text = query then .ok [some n] else .error .parseError
  readOnly _ := true
  sql _ _ := query
  fingerprint _ _ := fingerprint

/-- A PostgreSQL data source. -/
def usersSource : DataSource := ⟨"users", "postgresql", 200, 65536⟩

/-- Nothing is filtered. -/
def keepAll : Conditions := fun _ _ _ => true

/-- A policy that masks the column `email`. -/
def emailPolicy : Json := .dict [("column_masks", .list [.str "email"])]

/-- `SELECT email FROM users`, with an alias for the column. -/
def selectEmail (columnAs : Option String) : Projection :=
  .select [.column "" "email" columnAs] "users" (.table users)

/-- `SELECT email FROM users`, as it is parsed. -/
def emailGlot : SqlGlot :=
  oneQuery "SELECT email FROM users"
    "69d418f1b3f410b05375ee17f2b325ad9d1bb8e60e4c2f8d4d0be5d9ea5acd59" ((selectEmail none).tree [])

theorem masking_of_names_email :
    ∃ conditions dialect, "SELECT email FROM users" =
        emailGlot.sql ((selectEmail none).tree conditions) dialect ∧
      ∀ base columns, (selectEmail none).columns base = some columns →
        (Blind keepAll conditions (maskedName asciiInterpreter emailPolicy) base
            (selectEmail none) →
          NamesHide (maskedName asciiInterpreter emailPolicy) columns →
          HidesMasked asciiInterpreter usersSource keepAll emailPolicy conditions (selectEmail none)
            base columns) ∧
        (RowAdmitted asciiInterpreter usersSource keepAll emailPolicy conditions
            (selectEmail none) base columns (intRow zeros) →
          RowAdmitted asciiInterpreter usersSource keepAll emailPolicy conditions (selectEmail none)
            base columns (intRow (maskedOnes asciiInterpreter emailPolicy)) →
          HidesMasked asciiInterpreter usersSource keepAll emailPolicy conditions (selectEmail none)
            base columns →
          NamesHide (maskedName asciiInterpreter emailPolicy) columns) := by
  have haccepted : enforce_sql_policy asciiInterpreter emailGlot "SELECT email FROM users"
      "postgresql" emailPolicy =
      .ok ⟨"SELECT email FROM users", "postgres", ["users"], ["email"],
        "69d418f1b3f410b05375ee17f2b325ad9d1bb8e60e4c2f8d4d0be5d9ea5acd59", 0⟩ := by
    decide
  have hparse : ∀ dialect, emailGlot.parse "SELECT email FROM users" dialect =
      .ok [some ((selectEmail none).tree [])] := by
    simp [emailGlot, oneQuery]
  exact masking_of_names asciiInterpreter emailGlot usersSource keepAll
    (fun dialect _ => hparse dialect) haccepted

/-- One user. -/
def oneUser (email : String) : BaseTable exactRepr where
  columns := ["id", "email"]
  rows := [fun c => if c = "email" then .str email else .int 1]
  canonical := by
    intro r hr c
    rw [List.mem_singleton.mp hr]
    dsimp only
    split_ifs
    · exact FloatRepr.canonical_str email
    · exact FloatRepr.canonical_int 1

/-- `SELECT email AS e FROM users`, as it is parsed. -/
def renamedGlot : SqlGlot :=
  oneQuery "SELECT email AS e FROM users"
    "71e4fe2edd23f3631310085ad7544d3e0f5f88d07772367ce421f8196bb4c6f4"
    ((selectEmail (some "e")).tree [])

/-- A masked column is revealed under another name. -/
theorem renamedColumn_revealed :
    enforce_sql_policy asciiInterpreter renamedGlot "SELECT email AS e FROM users" "postgresql"
        emailPolicy =
        .ok ⟨"SELECT email AS e FROM users", "postgres", ["users"], ["email"],
          "71e4fe2edd23f3631310085ad7544d3e0f5f88d07772367ce421f8196bb4c6f4", 0⟩ ∧
      TablesAgree (maskedName asciiInterpreter emailPolicy) (oneUser "a@x.org")
        (oneUser "b@x.org") ∧
      queryText asciiInterpreter usersSource keepAll emailPolicy [] (selectEmail (some "e"))
          (oneUser "a@x.org") ≠
        queryText asciiInterpreter usersSource keepAll emailPolicy [] (selectEmail (some "e"))
          (oneUser "b@x.org") := by
  refine ⟨by decide +kernel, ⟨rfl, .cons (fun c hc => ?_) .nil⟩, by decide +kernel⟩
  have hne : c ≠ "email" := by
    rintro rfl
    exact absurd hc (by decide)
  simp [hne]

end OpenLaunch.Tools

/-! ## The rows that a data source sends

The result of a query goes to the model as one JSON text within a limit in bytes. Rows are popped
from the end until the text fits. The number of rows and the flag are part of the text, so its
length is not simply that of the rows; the loop nevertheless stops at the longest prefix that
fits. -/

namespace OpenLaunch.Tools

open Python Python.Json

/-! ## The values of a row -/

/-- A value that a database driver returns, as far as its class matters. -/
inductive SqlValue
  /-- `None`. -/
  | null
  /-- A `bool`. -/
  | bool (b : Bool)
  /-- An `int`. -/
  | int (n : ℤ)
  /-- A `float`. -/
  | float (x : FloatLit)
  /-- A `str`. -/
  | str (s : String)
  /-- A `datetime`, `date` or `time`, with its `isoformat()`. -/
  | dated (isoformat : String)
  /-- A `bytes`, `bytearray` or `memoryview`. -/
  | bytes (data : List UInt8)
  /-- A `list`, `tuple` or `set`, in the order in which it is iterated over. -/
  | list (items : List SqlValue)
  /-- A `dict`, with the texts of its keys. -/
  | dict (entries : List (String × SqlValue))
  /-- A `Decimal`, a `UUID` or a value of another class, with its text. -/
  | other (text : String)

/-- `bytes(value).decode("utf-8")`, where it does not raise. -/
def decodeStrict (data : List UInt8) : Option (List Char) :=
  if encode (decode .replace data) = data then some (decode .replace data) else none

mutual

/-- `_json_value`. -/
def _json_value : SqlValue → Json
  | .null => .null
  | .bool b => .bool b
  | .int n => .int n
  | .float x => .float x
  | .str s => .str s
  | .dated isoformat => .str isoformat
  | .bytes data =>
    match decodeStrict data with
    | some text => .str (String.ofList text)
    | none => .str ("<binary data: " ++ toString data.length ++ " bytes>")
  | .list items => .list (jsonItems items)
  | .dict entries => .dict (jsonEntries [] entries)
  | .other text => .str text

/-- `[_json_value(item) for item in value]`. -/
def jsonItems : List SqlValue → List Json
  | [] => []
  | item :: items => _json_value item :: jsonItems items

/-- `{str(key): _json_value(item) for key, item in value.items()}`, onto the entries before. -/
def jsonEntries (done : List (String × Json)) : List (String × SqlValue) → List (String × Json)
  | [] => done
  | (key, item) :: entries => jsonEntries (Assoc.set done key (_json_value item)) entries

end

/-- `[[_json_value(value) for value in row] for row in rows]`. -/
def jsonRows (rows : List (List SqlValue)) : List Json := rows.map fun row => .list (jsonItems row)

/-! ## The text for a prefix -/

/-- The payload that holds the first `k` rows: their number, and whether some are missing. -/
def prefixPayload (s : DataSource) (columns : List ResultColumn) (rows : List Json)
    (truncated : Bool) (k : ℕ) : List (String × Json) :=
  tabular s columns (rows.take k) k (truncated || k < rows.length)

/-- The text that holds the first `k` rows. -/
def prefixText (s : DataSource) (columns : List ResultColumn) (rows : List Json)
    (truncated : Bool) (k : ℕ) : List Char :=
  dumps resultFormat (.dict (prefixPayload s columns rows truncated k))

section Fit

variable {s : DataSource} {columns : List ResultColumn} {rows : List Json} {truncated : Bool}

/-- The payload of the loop when `k` rows are left. -/
theorem encodeRows_prefix (rows' : List Json) {k : ℕ} :
    encodeRows (tabular s columns rows' k (truncated || k < rows.length)) (rows.take k) =
      prefixText s columns rows truncated k := by
  rw [encodeRows_tabular]
  rfl

/-- The loop from `n` rows on: the text of the longest prefix that fits, or of none. -/
theorem prefix_fitRows (rows' : List Json) {n : ℕ} (hn : n ≤ rows.length) :
    ∃ k ≤ n, fitRows s.max_bytes n
        (tabular s columns rows' n (truncated || n < rows.length)) (rows.take n) =
      prefixText s columns rows truncated k ∧
      (k = 0 ∨ size (prefixText s columns rows truncated k) ≤ s.max_bytes) ∧
      ∀ j, k < j → j ≤ n → s.max_bytes < size (prefixText s columns rows truncated j) := by
  induction n with
  | zero => exact ⟨0, Nat.le_refl _, encodeRows_prefix rows', .inl rfl, fun j hj hj' => by omega⟩
  | succ n ih =>
    rw [fitRows, encodeRows_prefix]
    by_cases hsize : size (prefixText s columns rows truncated (n + 1)) > s.max_bytes
    · -- Popping a row leaves the payload of the next shorter prefix.
      have hdrop : (rows.take (n + 1)).dropLast = rows.take n := by
        rw [List.dropLast_eq_take, List.length_take, List.take_take]
        congr 1
        omega
      have hflag : (truncated || decide (n < rows.length)) = true := by
        rw [decide_eq_true (by omega), Bool.or_true]
      obtain ⟨k, hk, hfit, hsmall, hlarge⟩ := ih (Nat.le_of_succ_le hn)
      rw [hflag] at hfit
      refine ⟨k, Nat.le_succ_of_le hk, ?_, hsmall, fun j hj hj' => ?_⟩
      · rw [if_pos hsize, set_row_count, set_truncated, hdrop]
        exact hfit
      · rcases Nat.lt_or_eq_of_le hj' with hlt | heq
        · exact hlarge j hj (Nat.le_of_lt_succ hlt)
        · exact heq ▸ hsize
    · rw [if_neg hsize]
      exact ⟨n + 1, Nat.le_refl _, rfl, .inr (Nat.le_of_not_lt hsize), fun j hj hj' => by omega⟩

/-- What is sent for rows of JSON values: the error if no prefix fits, else the longest that does. -/
theorem sends_longest_prefix (s : DataSource) (columns : List ResultColumn) (rows : List Json)
    (truncated : Bool) :
    (_fit_tabular_result s columns rows truncated = outputLimitError ∧
      ∀ k ≤ rows.length, s.max_bytes < size (prefixText s columns rows truncated k)) ∨
    ∃ k ≤ rows.length,
      _fit_tabular_result s columns rows truncated = prefixText s columns rows truncated k ∧
      size (prefixText s columns rows truncated k) ≤ s.max_bytes ∧
      ∀ j, k < j → j ≤ rows.length →
        s.max_bytes < size (prefixText s columns rows truncated j) := by
  obtain ⟨k, hk, hfit, hsmall, hlarge⟩ :=
    @prefix_fitRows s columns rows truncated rows _ (Nat.le_refl _)
  have hnone : (truncated || decide (rows.length < rows.length)) = truncated := by simp
  rw [hnone, List.take_length] at hfit
  rw [_fit_tabular_result, hfit]
  by_cases hsize : size (prefixText s columns rows truncated k) > s.max_bytes
  · left
    rw [if_pos hsize]
    refine ⟨rfl, fun j hj => ?_⟩
    have hzero : k = 0 := hsmall.resolve_right (Nat.not_le_of_lt hsize)
    rcases Nat.eq_zero_or_pos j with rfl | hpos
    · exact hzero ▸ hsize
    · exact hlarge j (hzero ▸ hpos) hj
  · right
    rw [if_neg hsize]
    exact ⟨k, hk, rfl, Nat.le_of_not_lt hsize, hlarge⟩

end Fit

/-- **The longest prefix that fits.** For all columns, rows and limits: either no prefix fits, not
even that without rows, and the text is the error; or the text holds the longest prefix of the rows
that fits, with its length, and with the flag set exactly when rows were dropped before or are
dropped here. -/
theorem fit_tabular_result (s : DataSource) (columns : List ResultColumn)
    (rows : List (List SqlValue)) (truncated : Bool) :
    (_fit_tabular_result s columns (jsonRows rows) truncated = outputLimitError ∧
      ∀ k ≤ rows.length, s.max_bytes < size (prefixText s columns (jsonRows rows) truncated k)) ∨
    ∃ k ≤ rows.length,
      _fit_tabular_result s columns (jsonRows rows) truncated =
        dumps resultFormat (.dict (tabular s columns (jsonRows (rows.take k)) k
          (truncated || k < rows.length))) ∧
      size (_fit_tabular_result s columns (jsonRows rows) truncated) ≤ s.max_bytes ∧
      ∀ j, k < j → j ≤ rows.length →
        s.max_bytes < size (prefixText s columns (jsonRows rows) truncated j) := by
  have hlen : (jsonRows rows).length = rows.length := List.length_map _
  rcases sends_longest_prefix s columns (jsonRows rows) truncated with
    ⟨herror, hlarge⟩ | ⟨k, hk, hfit, hsize, hlarge⟩
  · exact .inl ⟨herror, fun k hk => hlarge k (hlen ▸ hk)⟩
  · refine .inr ⟨k, hlen ▸ hk, ?_, hfit ▸ hsize, fun j hj hj' => hlarge j hj (hlen ▸ hj')⟩
    have htake : (jsonRows rows).take k = jsonRows (rows.take k) := List.map_take.symm
    rw [hfit, prefixText, prefixPayload, htake, hlen]

end OpenLaunch.Tools
