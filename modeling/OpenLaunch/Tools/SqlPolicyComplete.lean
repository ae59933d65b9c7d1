import OpenLaunch.Tools.SqlPolicy

/-! # What an accepted query reads

The policy compares texts: the tables and columns of a statement as they are written, against the
patterns of the policy as they are written. The database resolves a name, so one table has several
names. This module says what completeness of the policy means over all the names of a table, and
exactly when the comparison of texts gives it. -/

namespace OpenLaunch.Tools

open Python

/-! ## Names -/

/-- How the database names its base tables: the texts that name the table a written name stands for.
What is written is one of them. -/
structure Naming where
  names : TableName → List String
  written_mem : ∀ t, _table_name t ∈ names t

/-- The texts that name a column: bare, as it is qualified, and qualified by a name of its table. -/
def Naming.columnForms (naming : Naming) (table name : String) (origin : Option TableName) :
    List String :=
  name :: columnText table name :: match origin with
    | some t => (naming.names t).map fun s => dotted [s, name]
    | none => []

/-- A pattern of the list matches the text. -/
def Matched (py : Interpreter) (patterns : List Json) (text : String) : Prop :=
  ∃ pattern, Json.str pattern ∈ patterns ∧ namesText py pattern text = true

/-! ## What a statement reads -/

/-- The statement names the base table somewhere. -/
def NamesTable (ns : List SqlNode) (t : TableName) : Prop := ∃ n ∈ ns, n.kind = .table t true

mutual

/-- The base tables that a part of a SELECT reads, those of nested SELECTs aside. -/
def reads : SqlNode → List TableName
  | .node .select _ => []
  | .node (.table t true) ts => t :: readsOf ts
  | .node _ ts => readsOf ts

/-- The base tables that several parts read. -/
def readsOf : List SqlNode → List TableName
  | [] => []
  | t :: ts => reads t ++ readsOf ts

end

/-- The argument that a predicate is appended as, when it has one. -/
def conditionNode? (py : Interpreter) (glot : SqlGlot) (dialect : String) (predicate : Json) :
    Option SqlNode :=
  match conditionOf py glot dialect predicate with
  | .ok (some condition) => some (whereNode condition)
  | _ => none

/-! ## The inputs of a decision -/

/-- What a decision is made from: the statement, and the policy as it is read. -/
structure PolicyCase where
  dialect : String
  expression : SqlNode
  allow_objects : List Json
  deny_objects : List Json
  allow_columns : List Json
  deny_columns : List Json
  predicates : List (String × Json)

namespace PolicyCase

variable (py : Interpreter) (glot : SqlGlot) (naming : Naming) (c : PolicyCase)

/-- The predicates that the policy code takes to be applicable. -/
def applicable : List Json :=
  applicablePredicates py c.predicates (tableTexts c.expression.walk).eraseDups

/-- The conditions appended to every SELECT. -/
def appended : List SqlNode :=
  if hasSelect c.expression then
    (c.applicable py).filterMap (conditionNode? py glot c.dialect)
  else []

/-- The statement that is run. -/
def rewritten : SqlNode := c.expression.addArgs (· = .select) (c.appended py glot)

/-- The lists permit the table, under one of its names and against all of them. -/
def Permitted (t : TableName) : Prop :=
  (∀ s ∈ naming.names t, ¬Matched py c.deny_objects s) ∧
    (c.allow_objects = [] ∨ ∃ s ∈ naming.names t, Matched py c.allow_objects s)

/-- The predicate is configured for the table, under one of its names. -/
def Configured (e : String × Json) (t : TableName) : Prop :=
  e ∈ c.predicates ∧ ∃ s ∈ naming.names t, namesText py e.1 s = true

/-- The SELECT with these arguments carries the predicate. -/
def Carries (args : List SqlNode) (predicate : Json) : Prop :=
  ∃ condition, conditionOf py glot c.dialect predicate = .ok condition ∧
    ∀ n, condition = some n → whereNode n ∈ args

/-- **Completeness**: the base tables read are permitted, no denied column is referenced, and every
SELECT carries the predicates of the tables it reads, under whatever names. -/
structure Complete : Prop where
  tables : ∀ t, NamesTable (c.rewritten py glot).nodes t → c.Permitted py naming t
  columns : ∀ n ∈ c.expression.nodes, ∀ table name origin, n.kind = .column table name origin →
    ∀ s ∈ naming.columnForms table name origin, ¬Matched py c.deny_columns s
  predicates : ∀ n ∈ (c.rewritten py glot).nodes, n.kind = .select → ∀ t ∈ readsOf n.args,
    ∀ e, c.Configured py naming e t → c.Carries py glot n.args e.2

/-- **The condition**: whatever the policy says about a table or a column under one of its names, it
says about the name that is written. -/
structure Covered : Prop where
  /-- A denied table is denied as it is written. -/
  tables : ∀ t, NamesTable c.expression.nodes t →
    (∃ s ∈ naming.names t, Matched py c.deny_objects s) → Matched py c.deny_objects (_table_name t)
  /-- The row predicates themselves read permitted tables. -/
  appended : ∀ t, NamesTable (SyntaxTree.nodesOf (c.appended py glot)) t → c.Permitted py naming t
  /-- A denied column is denied as it is written. -/
  columns : ∀ n ∈ c.expression.nodes, ∀ table name origin, n.kind = .column table name origin →
    (∃ s ∈ naming.columnForms table name origin, Matched py c.deny_columns s) →
      Matched py c.deny_columns (columnText table name)
  /-- A predicate of a table that a SELECT reads has the name of a table as the statement writes it,
  unless the SELECT has the condition anyway. -/
  predicates : ∀ n ∈ c.expression.nodes, n.kind = .select →
    ∀ t ∈ readsOf n.args ++ readsOf (c.appended py glot), ∀ e, c.Configured py naming e t →
      (∃ s ∈ tableTexts c.expression.nodes, namesText py e.1 s = true) ∨
        c.Carries py glot
          (n.args.map (SyntaxTree.addArgs (· = .select) (c.appended py glot)) ++ c.appended py glot)
          e.2

end PolicyCase

variable {py : Interpreter} {glot : SqlGlot}

/-! ## What the checks establish -/

theorem ofPy_eq_ok {α : Type} {x : Except PyErr α} {a : α} : ofPy x = .ok a ↔ x = .ok a := by
  cases x <;> simp [ofPy]

theorem require_eq_ok {condition : Bool} {message : String} :
    require condition message = .ok () ↔ condition = true := by
  cases condition <;> simp [require]

theorem matches_eq_ok {value : String} {patterns : List Json} {b : Bool}
    (h : _matches py value patterns = .ok b) : b = true ↔ Matched py patterns value := by
  induction patterns with
  | nil =>
    cases h
    simp [Matched]
  | cons pattern patterns ih =>
    cases pattern with
    | str p =>
      rw [_matches] at h
      by_cases hp : fnmatchcase (py.lower value) (py.lower p) = true
      · rw [if_pos hp] at h
        cases h
        exact iff_of_true rfl ⟨p, List.mem_cons_self, hp⟩
      · rw [if_neg hp] at h
        rw [ih h]
        constructor
        · rintro ⟨q, hq, hmatch⟩
          exact ⟨q, List.mem_cons_of_mem _ hq, hmatch⟩
        · rintro ⟨q, hq, hmatch⟩
          rcases List.mem_cons.mp hq with heq | hq
          · cases heq
            exact absurd hmatch hp
          · exact ⟨q, hq, hmatch⟩
    | _ => cases h

theorem checkName_ok {m : ListMessages} {deny allow : List Json} {name : String}
    (h : checkName py m deny allow name = .ok ()) :
    ¬Matched py deny name ∧ (allow = [] ∨ Matched py allow name) := by
  obtain ⟨denied, hdenied, h⟩ := bind_eq_ok.mp h
  obtain ⟨⟨⟩, hrequire, h⟩ := bind_eq_ok.mp h
  obtain ⟨allowed, hallowed, h⟩ := bind_eq_ok.mp h
  rw [require_eq_ok] at hrequire h
  have hdeny := matches_eq_ok (ofPy_eq_ok.mp hdenied)
  refine ⟨fun hmatch => ?_, ?_⟩
  · rw [hdeny.mpr hmatch] at hrequire
    cases hrequire
  · by_cases hempty : allow = []
    · exact .inl hempty
    · rw [allowedBy, if_neg hempty] at hallowed
      exact .inr ((matches_eq_ok (ofPy_eq_ok.mp hallowed)).mp h)

/-- **What the loop over the names establishes**: no name is denied, and every name is allowed. -/
theorem checkNames_ok {m : ListMessages} {deny allow : List Json} {names : List String}
    (h : checkNames py m deny allow names = .ok ()) :
    ∀ name ∈ names, ¬Matched py deny name ∧ (allow = [] ∨ Matched py allow name) := by
  induction names with
  | nil => simp
  | cons name names ih =>
    obtain ⟨⟨⟩, hname, h⟩ := bind_eq_ok.mp h
    exact List.forall_mem_cons.mpr ⟨checkName_ok hname, ih h⟩

theorem mem_tableTexts {ns : List SqlNode} {s : String} :
    s ∈ tableTexts ns ↔ ∃ n ∈ ns, ∃ t base, n.kind = .table t base ∧ _table_name t = s := by
  rw [tableTexts, List.mem_filterMap]
  refine exists_congr fun n => and_congr_right fun _ => ?_
  cases n.kind <;> simp

theorem mem_columnTexts {ns : List SqlNode} {s : String} :
    s ∈ columnTexts ns ↔
      ∃ n ∈ ns, ∃ table name origin, n.kind = .column table name origin ∧
        columnText table name = s := by
  rw [columnTexts, List.mem_filterMap]
  refine exists_congr fun n => and_congr_right fun _ => ?_
  cases n.kind <;> simp

theorem hasSelect_iff {n : SqlNode} : hasSelect n = true ↔ ∃ s ∈ n.nodes, s.kind = .select := by
  simp [hasSelect]

/-- The conditions of several predicates, as the arguments they are appended as. -/
theorem conditions_eq {dialect : String} {predicates : List Json}
    {conditions : List (Option SqlNode)}
    (h : List.Forall₂ (fun p c => conditionOf py glot dialect p = .ok c) predicates conditions) :
    (conditions.filterMap id).map whereNode =
      predicates.filterMap (conditionNode? py glot dialect) := by
  induction h with
  | nil => rfl
  | @cons p c ps cs hp _ ih =>
    have hnode : conditionNode? py glot dialect p = c.map whereNode := by
      rw [conditionNode?, hp]
      cases c <;> rfl
    rw [List.filterMap_cons, List.filterMap_cons, hnode]
    cases c with
    | none => exact ih
    | some condition => exact congrArg (whereNode condition :: ·) ih

/-- **What the loop that appends the predicates returns.** -/
theorem addRowPredicates_ok {dialect : String} {applicable : List Json}
    {expression rewritten : SqlNode}
    (h : addRowPredicates py glot dialect applicable expression = .ok rewritten) :
    rewritten = expression.addArgs (· = .select)
        (if hasSelect expression then applicable.filterMap (conditionNode? py glot dialect)
          else []) ∧
      (hasSelect expression = true →
        (∀ p ∈ applicable, ∃ condition, conditionOf py glot dialect p = .ok condition) ∧
        ∀ n ∈ SyntaxTree.nodesOf (applicable.filterMap (conditionNode? py glot dialect)),
          n.kind ≠ .select) := by
  rw [addRowPredicates] at h
  by_cases hnone : applicable = [] ∨ hasSelect expression = false
  · rw [if_pos hnone] at h
    cases h
    rcases hnone with rfl | hnone
    · refine ⟨?_, fun _ => ⟨by simp, by simp [SyntaxTree.nodesOf]⟩⟩
      rw [List.filterMap_nil, ite_self, SyntaxTree.addArgs_nil]
    · rw [hnone]
      exact ⟨(SyntaxTree.addArgs_nil _).symm, fun hselect => by cases hselect⟩
  · rw [if_neg hnone] at h
    obtain ⟨conditions, hconditions, h⟩ := bind_eq_ok.mp h
    split_ifs at h with hforever
    cases h
    have hselect : hasSelect expression = true := by simpa using (not_or.mp hnone).2
    have heq := conditions_eq (forall₂_of_mapM hconditions)
    rw [if_pos hselect, ← heq]
    refine ⟨rfl, fun _ => ⟨fun p hp => ?_, fun n hn => ?_⟩⟩
    · obtain ⟨condition, -, hcondition⟩ := (mem_of_mapM hconditions).2 p hp
      exact ⟨condition, hcondition⟩
    · intro hkind
      obtain ⟨w, hw, hn⟩ := SyntaxTree.mem_nodesOf.mp hn
      obtain ⟨condition, hc, rfl⟩ := List.mem_map.mp hw
      rcases SyntaxTree.mem_nodes.mp hn with rfl | ⟨t, ht, hn⟩
      · cases hkind
      · rw [List.mem_singleton.mp ht] at hn
        exact hforever (List.any_eq_true.mpr ⟨condition, hc, hasSelect_iff.mpr ⟨n, hn, hkind⟩⟩)

/-! ## An accepted query -/

/-- The policy is read into the case, and the query into its statement. -/
structure Reads (py : Interpreter) (glot : SqlGlot) (query provider_type : String) (policy : Json)
    (c : PolicyCase) : Prop where
  dialect : dialectOf provider_type = .ok c.dialect
  expression : parseQuery glot query c.dialect = .ok c.expression
  allow_objects : listField (policy.or (.dict [])) "object_allowlist" = .ok c.allow_objects
  deny_objects : listField (policy.or (.dict [])) "object_denylist" = .ok c.deny_objects
  allow_columns : listField (policy.or (.dict [])) "column_allowlist" = .ok c.allow_columns
  deny_columns : listField (policy.or (.dict [])) "column_denylist" = .ok c.deny_columns
  predicates : rowPredicates (policy.or (.dict [])) = .ok c.predicates

/-- What an accepted query passed: every table and column against the lists, as it is written. -/
structure Checked (py : Interpreter) (glot : SqlGlot) (c : PolicyCase) : Prop where
  objects : ∀ s ∈ tableTexts c.expression.nodes,
    ¬Matched py c.deny_objects s ∧ (c.allow_objects = [] ∨ Matched py c.allow_objects s)
  columns : ∀ s ∈ columnTexts c.expression.nodes,
    ¬Matched py c.deny_columns s ∧ (c.allow_columns = [] ∨ Matched py c.allow_columns s)
  valid : hasSelect c.expression = true → ∀ p ∈ c.applicable py,
    ∃ condition, conditionOf py glot c.dialect p = .ok condition
  appended : ∀ n ∈ SyntaxTree.nodesOf (c.appended py glot), n.kind ≠ .select

theorem tableTexts_walk {t : SqlNode} {s : String} :
    s ∈ (tableTexts t.walk).eraseDups ↔ s ∈ tableTexts t.nodes := by
  rw [List.mem_eraseDups, mem_tableTexts, mem_tableTexts]
  simp

theorem columnTexts_walk {t : SqlNode} {s : String} :
    s ∈ (columnTexts t.walk).eraseDups ↔ s ∈ columnTexts t.nodes := by
  rw [List.mem_eraseDups, mem_columnTexts, mem_columnTexts]
  simp

/-- **An accepted query passed the checks**, and the statement that is run is the rewritten one. -/
theorem enforce_ok {query provider_type : String} {policy : Json} {d : SQLPolicyDecision}
    (h : enforce_sql_policy py glot query provider_type policy = .ok d) :
    ∃ c, Reads py glot query provider_type policy c ∧ Checked py glot c ∧
      d.query = glot.sql (c.rewritten py glot) c.dialect := by
  obtain ⟨dialect, hdialect, h⟩ := bind_eq_ok.mp h
  obtain ⟨expression, hexpression, h⟩ := bind_eq_ok.mp h
  obtain ⟨⟨⟩, -, h⟩ := bind_eq_ok.mp h
  obtain ⟨⟨⟩, -, h⟩ := bind_eq_ok.mp h
  obtain ⟨allow_objects, hallow, h⟩ := bind_eq_ok.mp h
  obtain ⟨deny_objects, hdeny, h⟩ := bind_eq_ok.mp h
  obtain ⟨⟨⟩, hobjects, h⟩ := bind_eq_ok.mp h
  obtain ⟨allow_columns, hallowc, h⟩ := bind_eq_ok.mp h
  obtain ⟨deny_columns, hdenyc, h⟩ := bind_eq_ok.mp h
  obtain ⟨⟨⟩, hcolumns, h⟩ := bind_eq_ok.mp h
  obtain ⟨⟨⟩, -, h⟩ := bind_eq_ok.mp h
  obtain ⟨max_joins, -, h⟩ := bind_eq_ok.mp h
  obtain ⟨max_scans, -, h⟩ := bind_eq_ok.mp h
  obtain ⟨⟨⟩, -, h⟩ := bind_eq_ok.mp h
  obtain ⟨predicates, hpredicates, h⟩ := bind_eq_ok.mp h
  obtain ⟨rewritten, hrewritten, h⟩ := bind_eq_ok.mp h
  cases h
  obtain ⟨rfl, hselect⟩ := addRowPredicates_ok hrewritten
  refine ⟨⟨dialect, expression, allow_objects, deny_objects, allow_columns, deny_columns,
    predicates⟩, ?_, ?_, rfl⟩
  · exact ⟨hdialect, hexpression, ofPy_eq_ok.mp hallow, ofPy_eq_ok.mp hdeny, ofPy_eq_ok.mp hallowc,
      ofPy_eq_ok.mp hdenyc, ofPy_eq_ok.mp hpredicates⟩
  · refine ⟨fun s hs => checkNames_ok hobjects s (tableTexts_walk.mpr hs),
      fun s hs => checkNames_ok hcolumns s (columnTexts_walk.mpr hs), fun h => (hselect h).1, ?_⟩
    rw [PolicyCase.appended]
    split_ifs with h
    · exact (hselect h).2
    · simp [SyntaxTree.nodesOf]

/-! ## Completeness -/

section

variable {extra : List SqlNode}

theorem readsOf_append (ts us : List SqlNode) : readsOf (ts ++ us) = readsOf ts ++ readsOf us := by
  induction ts with
  | nil => rfl
  | cons t ts ih => rw [List.cons_append, readsOf, ih, readsOf, List.append_assoc]

theorem readsOf_congr {f : SqlNode → SqlNode} {ts : List SqlNode}
    (h : ∀ t ∈ ts, reads (f t) = reads t) : readsOf (ts.map f) = readsOf ts := by
  induction ts with
  | nil => rfl
  | cons t ts ih =>
    rw [List.forall_mem_cons] at h
    rw [List.map_cons, readsOf, readsOf, h.1, ih h.2]

/-- Appending conditions to SELECTs changes no part around them. -/
theorem reads_addArgs (t : SqlNode) : reads (t.addArgs (· = .select) extra) = reads t := by
  induction t using SyntaxTree.ind with
  | node k ts ih =>
    rw [SyntaxTree.addArgs, SyntaxTree.addArgsOf_eq_map]
    have hts := readsOf_congr ih
    cases k with
    | select => rfl
    | table t base => cases base <;> simp [reads, hts]
    | _ => simp [reads, hts]

/-- A rewritten SELECT reads what it read, and what is appended. -/
theorem readsOf_args_addArgs (extra : List SqlNode) {n : SqlNode} (hn : n.kind = .select) :
    (n.addArgs (· = .select) extra).args =
        n.args.map (SyntaxTree.addArgs (· = .select) extra) ++ extra ∧
      readsOf (n.addArgs (· = .select) extra).args = readsOf n.args ++ readsOf extra := by
  have hargs : (n.addArgs (· = .select) extra).args =
      n.args.map (SyntaxTree.addArgs (· = .select) extra) ++ extra := by
    rw [SyntaxTree.args_addArgs, if_pos (by simpa using hn)]
  refine ⟨hargs, ?_⟩
  rw [hargs, readsOf_append, readsOf_congr fun t _ => reads_addArgs t]

end

namespace PolicyCase

variable {naming : Naming} {c : PolicyCase}

/-- Where something is appended, there is a SELECT. -/
theorem exists_select {n : SqlNode} (h : n ∈ SyntaxTree.nodesOf (c.appended py glot)) :
    ∃ s ∈ c.expression.nodes, s.kind = .select := by
  rw [appended] at h
  split_ifs at h with hselect
  · exact hasSelect_iff.mp hselect
  · cases h

theorem namesTable_rewritten {t : TableName} :
    NamesTable (c.rewritten py glot).nodes t ↔
      NamesTable c.expression.nodes t ∨
        NamesTable (SyntaxTree.nodesOf (c.appended py glot)) t := by
  constructor
  · rintro ⟨n, hn, hkind⟩
    rcases SyntaxTree.mem_nodes_addArgs.mp hn with ⟨s, hs, rfl⟩ | ⟨-, hn⟩
    · exact .inl ⟨s, hs, by simpa using hkind⟩
    · exact .inr ⟨n, hn, hkind⟩
  · rintro (⟨n, hn, hkind⟩ | ⟨n, hn, hkind⟩)
    · exact ⟨_, SyntaxTree.mem_nodes_addArgs.mpr (.inl ⟨n, hn, rfl⟩), by simpa using hkind⟩
    · obtain ⟨s, hs, hselect⟩ := exists_select hn
      have hadded : n ∈ (c.rewritten py glot).nodes :=
        SyntaxTree.mem_nodes_addArgs.mpr (.inr ⟨⟨s, hs, by simpa using hselect⟩, hn⟩)
      exact ⟨n, hadded, hkind⟩

theorem Complete.covered (h : c.Complete py glot naming) : c.Covered py glot naming where
  tables t ht hmatch := by
    obtain ⟨s, hs, hmatch⟩ := hmatch
    exact absurd hmatch ((h.tables t (namesTable_rewritten.mpr (.inl ht))).1 s hs)
  appended t ht := h.tables t (namesTable_rewritten.mpr (.inr ht))
  columns n hn table name origin hkind hmatch := by
    obtain ⟨s, hs, hmatch⟩ := hmatch
    exact absurd hmatch (h.columns n hn table name origin hkind s hs)
  predicates n hn hselect t ht e he := by
    obtain ⟨hargs, hreads⟩ := readsOf_args_addArgs (c.appended py glot) hselect
    have hcarries := h.predicates (n.addArgs (· = .select) (c.appended py glot))
      (SyntaxTree.mem_nodes_addArgs.mpr (.inl ⟨n, hn, rfl⟩)) (by simpa using hselect) t
      (by rwa [hreads]) e he
    rw [hargs] at hcarries
    exact .inr hcarries

/-- A predicate whose name matches a table as it is written is appended. -/
theorem carries_of_applicable (hchecked : Checked py glot c)
    (hselect : hasSelect c.expression = true) {e : String × Json} (he : e ∈ c.predicates)
    (hname : ∃ s ∈ tableTexts c.expression.nodes, namesText py e.1 s = true)
    (args : List SqlNode) : c.Carries py glot (args ++ c.appended py glot) e.2 := by
  obtain ⟨s, hs, hname⟩ := hname
  have happlicable : e.2 ∈ c.applicable py := by
    rw [applicable, applicablePredicates]
    exact List.mem_map_of_mem (List.mem_filter.mpr
      ⟨he, List.any_eq_true.mpr ⟨s, tableTexts_walk.mpr hs, hname⟩⟩)
  obtain ⟨condition, hcondition⟩ := hchecked.valid hselect e.2 happlicable
  refine ⟨condition, hcondition, ?_⟩
  rintro n rfl
  have hnode : conditionNode? py glot c.dialect e.2 = some (whereNode n) := by
    rw [conditionNode?, hcondition]
  rw [appended, if_pos hselect]
  exact List.mem_append_right _ (List.mem_filterMap.mpr ⟨e.2, happlicable, hnode⟩)

theorem Covered.complete (hchecked : Checked py glot c) (h : c.Covered py glot naming) :
    c.Complete py glot naming where
  tables t ht := by
    rcases namesTable_rewritten.mp ht with ht | ht
    · have hwritten : _table_name t ∈ tableTexts c.expression.nodes := by
        obtain ⟨n, hn, hkind⟩ := ht
        exact mem_tableTexts.mpr ⟨n, hn, t, true, hkind, rfl⟩
      obtain ⟨hdeny, hallow⟩ := hchecked.objects _ hwritten
      refine ⟨fun s hs hmatch => hdeny (h.tables t ht ⟨s, hs, hmatch⟩), hallow.imp_right ?_⟩
      exact fun hmatch => ⟨_, naming.written_mem t, hmatch⟩
    · exact h.appended t ht
  columns n hn table name origin hkind s hs hmatch := by
    have hwritten : columnText table name ∈ columnTexts c.expression.nodes :=
      mem_columnTexts.mpr ⟨n, hn, table, name, origin, hkind, rfl⟩
    exact (hchecked.columns _ hwritten).1 (h.columns n hn table name origin hkind ⟨s, hs, hmatch⟩)
  predicates m hm hselect t ht e he := by
    -- the conditions appended have no SELECT of their own
    rcases SyntaxTree.mem_nodes_addArgs.mp hm with ⟨n, hn, rfl⟩ | ⟨-, hm⟩
    · rw [SyntaxTree.kind_addArgs] at hselect
      obtain ⟨hargs, hreads⟩ := readsOf_args_addArgs (c.appended py glot) hselect
      rw [hreads] at ht
      rw [hargs]
      rcases h.predicates n hn hselect t ht e he with hname | hcarries
      · exact carries_of_applicable hchecked (hasSelect_iff.mpr ⟨n, hn, hselect⟩) he.1 hname _
      · exact hcarries
    · exact absurd hselect (hchecked.appended m hm)

end PolicyCase

/-- A session's naming: the parts that are not written are those of the session, and the parts that
are the session's need not be written. -/
def sessionNaming (catalog db : String) : Naming where
  names t :=
    let c := if t.catalog = "" then catalog else t.catalog
    let d := if t.db = "" then db else t.db
    [_table_name t, dotted [c, d, t.name]] ++ (if c = catalog then [dotted [d, t.name]] else []) ++
      (if c = catalog ∧ d = db then [t.name] else [])
  written_mem _ := List.mem_cons_self

/-- A name in a statement. -/
def identifier : SqlNode := .node (.other "identifier") []

/-- `analytics.orders`. -/
def analyticsOrders : TableName := ⟨"", "analytics", "orders"⟩

/-- `SELECT id, email FROM analytics.orders`. -/
def selectOrders : SqlNode :=
  .node .select [.node (.column "" "id" (some analyticsOrders)) [identifier],
    .node (.column "" "email" (some analyticsOrders)) [identifier],
    .node (.other "from") [.node (.table analyticsOrders true) [identifier, identifier]]]

/-- `tenant_id = 42`. -/
def tenantCondition : SqlNode :=
  .node (.other "eq") [.node (.column "" "tenant_id" (some analyticsOrders)) [identifier],
    .node (.other "literal") []]

/-- The parser on the query over orders and on the predicate about tenants. -/
def ordersSqlGlot : SqlGlot where
  parse text _ :=
    if text = "SELECT id, email FROM analytics.orders" then .ok [some selectOrders]
    else if text = "tenant_id = 42" then .ok [some tenantCondition]
    else .error .parseError
  readOnly _ := true
  sql _ _ := "SELECT id, email FROM analytics.orders WHERE tenant_id = 42"
  fingerprint _ _ := "4d71df043beb938c60ba7459d2866631061a6c34996de4fb145650b274fad44b"

/-- A policy for the analytics schema, with a predicate on its orders. -/
def tenantPolicy : Json :=
  .dict [("object_allowlist", .list [.str "analytics.*"]),
    ("row_predicates", .dict [("analytics.orders", .str "tenant_id = 42")]), ("max_joins", .int 0)]

/-- `users`. -/
def users : TableName := ⟨"", "", "users"⟩

/-- `SELECT u.password_hash FROM users u`. -/
def selectHash : SqlNode :=
  .node .select [.node (.column "u" "password_hash" (some users)) [identifier, identifier],
    .node (.other "from") [.node (.table users true) [identifier, .node (.other "tablealias") []]]]

/-- The parser on the query for password hashes. -/
def hashSqlGlot : SqlGlot where
  parse text _ :=
    if text = "SELECT u.password_hash FROM users u" then .ok [some selectHash]
    else .error .parseError
  readOnly _ := true
  sql _ _ := "SELECT u.password_hash FROM users AS u"
  fingerprint _ _ := "56fd3a7d47c9d6f07770abe94de37306aa1ccbe54b3e311273717e814c579118"

end OpenLaunch.Tools
