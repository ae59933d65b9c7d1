import OpenLaunch.GrowingWalk
import OpenLaunch.Tools.SqlPolicyComplete

/-! # The loop that appends the row predicates

The loop walks the statement breadth first and appends the predicates to each SELECT that it visits.
The walk takes the arguments of a node after the visit, and so it also goes through the predicates
that were appended. -/

namespace OpenLaunch.Tools

open Python SyntaxTree

section Loop

variable (py : Interpreter) (glot : SqlGlot) (dialect : String) (applicable : List Json)

/-- `select.where(condition, append=True, copy=False)`, which ignores a condition that is none. -/
def addWhere (select : SqlNode) : Option SqlNode → SqlNode
  | none => select
  | some condition => .node select.kind (select.args ++ [whereNode condition])

/-- The loop over the predicates, at one SELECT. -/
def appendPredicates (select : SqlNode) : Except Refusal SqlNode :=
  applicable.foldlM (fun select predicate => do
    let condition ← conditionOf py glot dialect predicate
    .ok (addWhere select condition)) select

/-- The visit of a node: `find_all` passes over what is no SELECT. -/
def visitNode (n : SqlNode) : Except Refusal SqlNode :=
  if n.kind = .select then appendPredicates py glot dialect applicable n else .ok n

/-- One turn of the walk, with the body of the loop at a SELECT. -/
def loopStep (w : Walk SqlKind) : Except Refusal (Walk SqlKind) :=
  match w.queue with
  | [] => .ok w
  | q :: rest =>
    match w.tree.subtreeAt q with
    | some n => do
      let n' ← visitNode py glot dialect applicable n
      .ok (Walk.advance w.tree q rest n')
    | none => .ok ⟨w.tree, rest⟩

/-- A number of turns. -/
def loopAfter : ℕ → Walk SqlKind → Except Refusal (Walk SqlKind)
  | 0, w => .ok w
  | k + 1, w => do
    let w' ← loopStep py glot dialect applicable w
    loopAfter k w'

/-- The loop comes to an end, with this statement. There is none without predicates. -/
def LoopReturns (expression final : SqlNode) : Prop :=
  if applicable = [] then final = expression
  else ∃ k, loopAfter py glot dialect applicable k (Walk.start expression) = .ok ⟨final, []⟩

end Loop

/-! ## What the loop is for -/

section Guard

variable (py : Interpreter) (glot : SqlGlot) (dialect : String)
  (predicates : List (String × Json))

/-- The name of the predicate matches a table in a statement or a part of it, as it is written. -/
def Concerns (e : String × Json) (n : SqlNode) : Prop :=
  ∃ m ∈ n.nodes, ∃ t base, m.kind = .table t base ∧ namesText py e.1 (_table_name t) = true

/-- The predicate is appended as this condition. -/
def Condition (e : String × Json) (condition : SqlNode) : Prop :=
  conditionOf py glot dialect e.2 = .ok (some condition)

/-- Every SELECT of the original statement has been given the conditions of some of the configured
predicates, each of them once and as it was parsed, and nothing else has changed. The conditions of
the predicates on the tables that the SELECT reads are among them. -/
def GuardedOnce (expression final : SqlNode) : Prop :=
  ∃ entries conditions, entries.Sublist predicates ∧
    List.Forall₂ (Condition py glot dialect) entries conditions ∧
    (∀ n ∈ expression.nodes, n.kind = .select →
      ∀ e ∈ predicates, Concerns py e n → e ∈ entries) ∧
    ∀ q n, expression.subtreeAt q = some n → ∃ n', final.subtreeAt q = some n' ∧
      n'.kind = n.kind ∧ n.args.length ≤ n'.args.length ∧
      n'.args.drop n.args.length =
        if n.kind = .select then conditions.map whereNode else []

end Guard

section Proofs

variable {py : Interpreter} {glot : SqlGlot} {dialect : String}

/-! ## The loop as a walk -/

theorem foldlM_addWhere {entries : List (String × Json)} {conditions : List SqlNode}
    (h : List.Forall₂ (Condition py glot dialect) entries conditions) (n : SqlNode) :
    appendPredicates py glot dialect (entries.map Prod.snd) n =
      .ok (.node n.kind (n.args ++ conditions.map whereNode)) := by
  unfold appendPredicates
  induction h generalizing n with
  | nil =>
    cases n with
    | node k ts =>
      rw [List.map_nil, List.map_nil, List.append_nil]
      rfl
  | @cons e condition entries conditions hcondition _ ih =>
    rw [List.map_cons, List.foldlM_cons]
    have hhead : (do
        let condition ← conditionOf py glot dialect e.2
        Except.ok (addWhere n condition)) =
          (.ok (addWhere n (some condition)) : Except Refusal SqlNode) := by
      rw [hcondition]
      rfl
    rw [hhead]
    refine (ih (addWhere n (some condition))).trans ?_
    simp only [addWhere, kind, args, List.map_cons, List.append_assoc, List.singleton_append]

/-- With conditions for all predicates the visit of a node is the one of a growing walk. -/
theorem visitNode_eq {entries : List (String × Json)} {conditions : List SqlNode}
    (h : List.Forall₂ (Condition py glot dialect) entries conditions) (n : SqlNode) :
    visitNode py glot dialect (entries.map Prod.snd) n =
      .ok (grow (· = .select) (conditions.map whereNode) n) := by
  unfold visitNode grow
  by_cases hn : n.kind = .select
  · rw [if_pos hn, foldlM_addWhere h, if_pos (decide_eq_true hn)]
  · rw [if_neg hn, if_neg (by simpa using hn), List.append_nil]
    cases n with
    | node k ts => rfl

theorem loopAfter_eq {entries : List (String × Json)} {conditions : List SqlNode}
    (h : List.Forall₂ (Condition py glot dialect) entries conditions) (k : ℕ)
    (w : Walk SqlKind) :
    loopAfter py glot dialect (entries.map Prod.snd) k w =
      .ok ((Walk.step (grow (· = .select) (conditions.map whereNode)))^[k] w) := by
  induction k generalizing w with
  | zero => rfl
  | succ k ih =>
    have hstep : loopStep py glot dialect (entries.map Prod.snd) w =
        .ok (w.step (grow (· = .select) (conditions.map whereNode))) := by
      obtain ⟨tree, queue⟩ := w
      cases queue with
      | nil => rfl
      | cons q rest =>
        cases hn : tree.subtreeAt q with
        | none => simp only [loopStep, Walk.step, hn]
        | some n =>
          simp only [loopStep, Walk.step, hn, visitNode_eq h]
          rfl
    rw [loopAfter, hstep, Function.iterate_succ_apply]
    exact ih _

/-! ## Which statements are rewritten -/

theorem hasSelect_eq_false_iff {n : SqlNode} :
    hasSelect n = false ↔ ∀ m ∈ n.nodes, decide (m.kind = .select) = false := by
  rw [← Bool.not_eq_true, hasSelect_iff]
  simp only [not_exists, not_and, decide_eq_false_iff_not]

/-- Nothing that is appended has a SELECT exactly if no condition has one. -/
theorem forall_whereNode_iff (conditions : List SqlNode) :
    (∀ m ∈ nodesOf (conditions.map whereNode), decide (m.kind = SqlKind.select) = false) ↔
      ∀ condition ∈ conditions, hasSelect condition = false := by
  constructor
  · intro h condition hcondition
    rw [hasSelect_eq_false_iff]
    intro m hm
    refine h m (mem_nodesOf.mpr ⟨whereNode condition, List.mem_map_of_mem hcondition, ?_⟩)
    exact mem_nodes.mpr (.inr ⟨condition, List.mem_singleton_self _, hm⟩)
  · intro h m hm
    obtain ⟨t, ht, hm⟩ := mem_nodesOf.mp hm
    obtain ⟨condition, hcondition, rfl⟩ := List.mem_map.mp ht
    rcases mem_nodes.mp hm with rfl | ⟨c, hc, hm⟩
    · rfl
    · rw [List.mem_singleton.mp hc] at hm
      exact hasSelect_eq_false_iff.mp (h condition hcondition) m hm

theorem exists_conditions {entries : List (String × Json)}
    (h : ∀ e ∈ entries, ∃ condition, Condition py glot dialect e condition) :
    ∃ conditions, List.Forall₂ (Condition py glot dialect) entries conditions := by
  induction entries with
  | nil => exact ⟨[], .nil⟩
  | cons e entries ih =>
    rw [List.forall_mem_cons] at h
    obtain ⟨condition, hcondition⟩ := h.1
    obtain ⟨conditions, hconditions⟩ := ih h.2
    exact ⟨condition :: conditions, .cons hcondition hconditions⟩

/-- The condition of a predicate is the one it is parsed to. -/
theorem forall_conditions_iff {entries : List (String × Json)} {conditions : List SqlNode}
    (h : List.Forall₂ (Condition py glot dialect) entries conditions) {P : SqlNode → Prop} :
    (∀ condition ∈ conditions, P condition) ↔
      ∀ e ∈ entries, ∀ condition, Condition py glot dialect e condition → P condition := by
  induction h with
  | nil => simp
  | @cons e condition entries conditions hcondition _ ih =>
    rw [List.forall_mem_cons, List.forall_mem_cons]
    refine and_congr ⟨fun hP condition' hcondition' => ?_, fun hP => hP condition hcondition⟩ ih
    rw [Condition, hcondition] at hcondition'
    cases hcondition'
    exact hP

/-- The predicates that are appended: those that concern the statement. -/
theorem applicable_eq (predicates : List (String × Json)) (expression : SqlNode) :
    ∃ entries : List (String × Json), entries.Sublist predicates ∧
      applicablePredicates py predicates (tableTexts expression.walk).eraseDups =
        entries.map Prod.snd ∧
      ∀ e, e ∈ entries ↔ e ∈ predicates ∧ Concerns py e expression := by
  refine ⟨_, List.filter_sublist, rfl, fun e => ?_⟩
  rw [List.mem_filter, List.any_eq_true]
  refine and_congr_right fun _ => ?_
  constructor
  · rintro ⟨s, hs, hname⟩
    obtain ⟨n, hn, t, base, hkind, rfl⟩ := mem_tableTexts.mp (tableTexts_walk.mp hs)
    exact ⟨n, hn, t, base, hkind, hname⟩
  · rintro ⟨n, hn, t, base, hkind, hname⟩
    exact ⟨_, tableTexts_walk.mpr (mem_tableTexts.mpr ⟨n, hn, t, base, hkind, rfl⟩), hname⟩

/-- When the loop returns: with the predicates appended to every SELECT. -/
theorem loopReturns_iff {entries : List (String × Json)} {conditions : List SqlNode}
    (h : List.Forall₂ (Condition py glot dialect) entries conditions)
    (expression final : SqlNode) :
    LoopReturns py glot dialect (entries.map Prod.snd) expression final ↔
      Calm (· = .select) (conditions.map whereNode) expression ∧
        final = addArgs (· = .select) (conditions.map whereNode) expression := by
  unfold LoopReturns
  split
  · next hnone =>
    rw [List.map_eq_nil_iff] at hnone
    subst hnone
    cases h
    rw [List.map_nil, addArgs_nil]
    exact (and_iff_right (.inr fun m hm => absurd hm List.not_mem_nil)).symm
  · simp only [loopAfter_eq h, Except.ok.injEq]
    exact Walk.ends_with_iff expression final

/-- **What a returning loop has done.** -/
theorem guardedOnce_addArgs {predicates entries : List (String × Json)}
    {conditions : List SqlNode} {expression : SqlNode} (hsublist : entries.Sublist predicates)
    (hentries : ∀ e, e ∈ entries ↔ e ∈ predicates ∧ Concerns py e expression)
    (h : List.Forall₂ (Condition py glot dialect) entries conditions) :
    GuardedOnce py glot dialect predicates expression
      (addArgs (· = .select) (conditions.map whereNode) expression) := by
  refine ⟨entries, conditions, hsublist, h, ?_, fun q n hn => ?_⟩
  · rintro n hn - e he ⟨m, hm, t, base, hkind, hname⟩
    exact (hentries e).mpr ⟨he, m, mem_nodes_trans hm hn, t, base, hkind, hname⟩
  · refine ⟨_, subtreeAt_addArgs hn, kind_addArgs n, ?_, ?_⟩
    · rw [args_addArgs, List.length_append, List.length_map]
      exact Nat.le_add_right _ _
    · rw [args_addArgs, List.drop_left' (List.length_map _)]
      simp only [decide_eq_true_eq]

/-- **When the rewriting ends.** For every statement and predicates that are conditions, the loop
ends and has appended the conditions of the predicates on the tables that a SELECT reads once to
it, and nothing to a SELECT of a condition, exactly if the statement has no SELECT, or no condition
of a predicate on a table of the statement has one. -/
theorem rewriting_ends_iff (py : Interpreter) (glot : SqlGlot) (dialect : String)
    (expression : SqlNode) (predicates : List (String × Json))
    (hconditions : ∀ e ∈ predicates, ∃ condition, Condition py glot dialect e condition) :
    (∃ final, LoopReturns py glot dialect
        (applicablePredicates py predicates (tableTexts expression.walk).eraseDups) expression
        final ∧ GuardedOnce py glot dialect predicates expression final) ↔
      hasSelect expression = false ∨ ∀ e ∈ predicates, Concerns py e expression →
        ∀ condition, Condition py glot dialect e condition → hasSelect condition = false := by
  obtain ⟨entries, hsublist, happlicable, hentries⟩ := @applicable_eq py predicates expression
  obtain ⟨conditions, hall⟩ :=
    @exists_conditions py glot dialect entries fun e he => hconditions e ((hentries e).mp he).1
  have hcalm : Calm (· = .select) (conditions.map whereNode) expression ↔
      hasSelect expression = false ∨ ∀ e ∈ predicates, Concerns py e expression →
        ∀ condition, Condition py glot dialect e condition → hasSelect condition = false := by
    unfold Calm
    rw [forall_whereNode_iff, ← hasSelect_eq_false_iff, forall_conditions_iff hall]
    simp only [hentries, and_imp]
  rw [happlicable, ← hcalm]
  constructor
  · rintro ⟨final, hreturns, -⟩
    exact ((loopReturns_iff hall expression final).mp hreturns).1
  · intro h
    exact ⟨_, (loopReturns_iff hall expression _).mpr ⟨h, rfl⟩,
      guardedOnce_addArgs hsublist hentries hall⟩

end Proofs

/-! ## Two predicates -/

/-- A predicate without a SELECT, on the orders. -/
def tenantPredicates : List (String × Json) := [("analytics.orders", .str "tenant_id = 42")]

/-- The orders are guarded by it. -/
theorem rewriting_ends_orders :
    ∃ final, LoopReturns asciiInterpreter ordersSqlGlot "postgres"
        (applicablePredicates asciiInterpreter tenantPredicates
          (tableTexts selectOrders.walk).eraseDups) selectOrders final ∧
      GuardedOnce asciiInterpreter ordersSqlGlot "postgres" tenantPredicates selectOrders
        final := by
  have hcondition : Condition asciiInterpreter ordersSqlGlot "postgres"
      ("analytics.orders", .str "tenant_id = 42") tenantCondition := rfl
  refine (rewriting_ends_iff asciiInterpreter ordersSqlGlot "postgres" selectOrders
    tenantPredicates ?_).mpr (.inr ?_)
  · exact List.forall_mem_singleton.mpr ⟨_, hcondition⟩
  · refine List.forall_mem_singleton.mpr fun _ condition hparsed => ?_
    rw [Condition, show conditionOf asciiInterpreter ordersSqlGlot "postgres"
      (.str "tenant_id = 42") = .ok (some tenantCondition) from hcondition] at hparsed
    cases hparsed
    decide

/-- `tenant_id IN (SELECT id FROM tenants)`. -/
def tenantsCondition : SqlNode :=
  .node (.other "in") [.node (.column "" "tenant_id" none) [identifier],
    .node .select [.node (.column "" "id" none) [identifier],
      .node (.other "from") [.node (.table ⟨"", "", "tenants"⟩ true) [identifier]]]]

/-- The parser on the predicate with a SELECT. -/
def tenantsSqlGlot : SqlGlot where
  parse _ _ := .ok [some tenantsCondition]
  readOnly _ := true
  sql _ _ := ""
  fingerprint _ _ := ""

/-- A predicate with a SELECT, on the orders. -/
def subqueryPredicates : List (String × Json) :=
  [("analytics.orders", .str "tenant_id IN (SELECT id FROM tenants)")]

/-- **The loop that does not end**: the SELECT of the predicate is given the predicate, and so on. -/
theorem rewriting_forever :
    ¬ ∃ final, LoopReturns asciiInterpreter tenantsSqlGlot "postgres"
        (applicablePredicates asciiInterpreter subqueryPredicates
          (tableTexts selectOrders.walk).eraseDups) selectOrders final ∧
      GuardedOnce asciiInterpreter tenantsSqlGlot "postgres" subqueryPredicates selectOrders
        final := by
  rintro ⟨final, hreturns, -⟩
  have happlicable : applicablePredicates asciiInterpreter subqueryPredicates
      (tableTexts selectOrders.walk).eraseDups = subqueryPredicates.map Prod.snd := by
    decide
  have hall : List.Forall₂ (Condition asciiInterpreter tenantsSqlGlot "postgres")
      subqueryPredicates [tenantsCondition] := .cons rfl .nil
  rw [happlicable, loopReturns_iff hall] at hreturns
  rcases hreturns.1 with hnone | hnone
  · exact absurd (hasSelect_eq_false_iff.mpr hnone) (by decide)
  · rw [forall_whereNode_iff] at hnone
    exact absurd (hnone tenantsCondition (List.mem_singleton_self _)) (by decide)

end OpenLaunch.Tools
