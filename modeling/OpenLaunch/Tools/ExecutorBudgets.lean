import OpenLaunch.Tools.ExecutorCalls
import Mathlib.Algebra.Order.BigOperators.Group.List

/-! # The result budgets

A batch adds the size of every result to its own total and to the request's, and replaces a result
that does not fit by an error object. The totals are what they say they are (`BudgetInv`), but the
error object is not checked against the budgets itself: they hold of the runs in which every result,
or the error that replaces it, still fits. -/

namespace OpenLaunch.Tools

open Python Transition

variable {x : ToolExecutor} {w w' : World} {e : Event}

/-! ## Totals -/

/-- The bytes of the contents of some results. -/
def totalSize (rs : List ToolResult) : ℕ := (rs.map fun r => serialized_size r.content).sum

/-- The estimated tokens of the contents of some results. -/
def totalTokens (rs : List ToolResult) : ℕ := (rs.map fun r => estimated_tokens r.content).sum

/-- The results a batch has accounted for. -/
def BatchPhase.accounted : BatchPhase → List ToolResult
  | .gathering _ | .abandoned _ => []
  | .accounting _ _ done _ => done
  | .returned results => results
  | .aborted done => done

/-- The results a batch has returned. -/
def BatchPhase.results : BatchPhase → List ToolResult
  | .returned results => results
  | _ => []

/-- The totals of a batch in progress are those of the results it has accounted for. -/
def BatchPhase.TotalsRight : BatchPhase → Prop
  | .accounting turn_used turn_tokens done _ =>
    turn_used = totalSize done ∧ turn_tokens = totalTokens done
  | _ => True

/-- **The invariant of the budgets**: every counter is the total it stands for. -/
structure BudgetInv (w : World) : Prop where
  bytes_used : w.bytes_used = (w.batches.map fun b => totalSize b.phase.accounted).sum
  tokens_used : w.tokens_used = (w.batches.map fun b => totalTokens b.phase.accounted).sum
  turn : ∀ batch ∈ w.batches, batch.phase.TotalsRight

/-- What has been accounted for so far is within the budgets. -/
structure WithinBudgets (x : ToolExecutor) (w : World) : Prop where
  request : w.bytes_used ≤ x.request_budget
  request_tokens : w.tokens_used ≤ x.request_token_budget
  turn : ∀ batch ∈ w.batches, totalSize batch.phase.accounted ≤ x.turn_budget ∧
    totalTokens batch.phase.accounted ≤ x.turn_token_budget

/-- The next result of the batch that accounts, or the error that replaces it, fits the budgets. -/
def NextResultFits (x : ToolExecutor) (w : World) (e : Event) : Prop :=
  ∀ b batch turn_used turn_tokens done r todo, e = .account b → w.batches[b]? = some batch →
    batch.phase = .accounting turn_used turn_tokens done (r :: todo) →
      Fits x w turn_used turn_tokens r.content ∨
        Fits x w turn_used turn_tokens r.overBudget.content

@[simp] theorem totalSize_nil : totalSize [] = 0 := rfl

@[simp] theorem totalTokens_nil : totalTokens [] = 0 := rfl

theorem totalSize_concat (rs : List ToolResult) (r : ToolResult) :
    totalSize (rs ++ [r]) = totalSize rs + serialized_size r.content := by
  simp [totalSize]

theorem totalTokens_concat (rs : List ToolResult) (r : ToolResult) :
    totalTokens (rs ++ [r]) = totalTokens rs + estimated_tokens r.content := by
  simp [totalTokens]

theorem BatchStep.accounted {p p' : BatchPhase} (h : BatchStep x p p') :
    p'.accounted = p.accounted := by
  cases h <;> rfl

theorem BatchStep.totalsRight {p p' : BatchPhase} (h : BatchStep x p p') : p'.TotalsRight := by
  cases h <;> trivial

theorem afterResult_accounted (turn_used turn_tokens : ℕ) (done todo : List ToolResult)
    (r : ToolResult) : (afterResult x turn_used turn_tokens done todo r).accounted = done ++ [r] := by
  unfold afterResult
  split <;> rfl

/-! ## The counters -/

/-- A batch moves on, and the request's counters with it. -/
theorem BudgetInv.setBatch {w₁ : World} (hw : BudgetInv w) {b : ℕ} {batch batch' : Batch}
    (hb : w.batches[b]? = some batch) (hbatches : w₁.batches = w.batches.set b batch')
    (hbytes : w₁.bytes_used + totalSize batch.phase.accounted =
      w.bytes_used + totalSize batch'.phase.accounted)
    (htokens : w₁.tokens_used + totalTokens batch.phase.accounted =
      w.tokens_used + totalTokens batch'.phase.accounted)
    (hturn : batch'.phase.TotalsRight) : BudgetInv w₁ := by
  refine ⟨?_, ?_, fun c hc => ?_⟩
  · have hsum := sum_map_set (fun b => totalSize b.phase.accounted) hb batch'
    rw [← hw.bytes_used] at hsum
    rw [hbatches]
    omega
  · have hsum := sum_map_set (fun b => totalTokens b.phase.accounted) hb batch'
    rw [← hw.tokens_used] at hsum
    rw [hbatches]
    omega
  · rw [hbatches] at hc
    rcases List.mem_or_eq_of_mem_set hc with hmem | rfl
    · exact hw.turn c hmem
    · exact hturn

/-- **Every step keeps the counters right.** -/
theorem BudgetInv.effect (h : Effect x w e w') (hw : BudgetInv w) : BudgetInv w' := by
  cases h with
  | environment _ hbytes htokens _ hbatches =>
    exact ⟨by rw [hbytes, hbatches]; exact hw.bytes_used,
      by rw [htokens, hbatches]; exact hw.tokens_used, by rw [hbatches]; exact hw.turn⟩
  | start calls =>
    unfold World.executeBatch
    split
    · exact ⟨by simp [hw.bytes_used, BatchPhase.accounted],
        by simp [hw.tokens_used, BatchPhase.accounted],
        List.forall_mem_append.mpr ⟨hw.turn, by simp [BatchPhase.TotalsRight]⟩⟩
    · exact ⟨by simp [hw.bytes_used, BatchPhase.accounted],
        by simp [hw.tokens_used, BatchPhase.accounted],
        List.forall_mem_append.mpr ⟨hw.turn, by simp [BatchPhase.TotalsRight]⟩⟩
  | task hk ht hframe =>
    exact ⟨by rw [World.setTask, hframe.bytes_used, hframe.batches]; exact hw.bytes_used,
      by rw [World.setTask, hframe.tokens_used, hframe.batches]; exact hw.tokens_used,
      by rw [World.setTask, hframe.batches]; exact hw.turn⟩
  | batch hb hstep =>
    refine hw.setBatch hb rfl ?_ ?_ hstep.totalsRight
    · rw [World.setBatch, hstep.accounted]
    · rw [World.setBatch, hstep.accounted]
  | gathered hb hphase =>
    refine hw.setBatch hb rfl ?_ ?_ ⟨rfl, rfl⟩
    · simp [World.setBatch, World.countCalls, hphase, BatchPhase.accounted]
    · simp [World.setBatch, World.countCalls, hphase, BatchPhase.accounted]
  | account hb hphase =>
    have hright := hw.turn _ (List.mem_of_getElem? hb)
    rw [hphase] at hright
    refine hw.setBatch hb rfl ?_ ?_ ?_
    · rw [afterResult_accounted, totalSize_concat, hphase]
      simp only [World.setBatch, World.charge, BatchPhase.accounted]
      omega
    · rw [afterResult_accounted, totalTokens_concat, hphase]
      simp only [World.setBatch, World.charge, BatchPhase.accounted]
      omega
    · unfold afterResult
      split
      · exact ⟨by rw [totalSize_concat, hright.1], by rw [totalTokens_concat, hright.2]⟩
      · trivial

/-! ## The budgets -/

/-- Where the result or its replacement fits, what is let through fits. -/
theorem admitResult_fits {turn_used turn_tokens : ℕ} {r : ToolResult}
    (h : Fits x w turn_used turn_tokens r.content ∨
      Fits x w turn_used turn_tokens r.overBudget.content) :
    Fits x w turn_used turn_tokens (admitResult x w turn_used turn_tokens r).content := by
  unfold admitResult
  split
  · assumption
  · exact h.resolve_left ‹_›

/-- A batch moves on within the budgets. -/
theorem WithinBudgets.setBatch {w₁ : World} (hw : WithinBudgets x w) {b : ℕ} {batch' : Batch}
    (hbatches : w₁.batches = w.batches.set b batch') (hbytes : w₁.bytes_used ≤ x.request_budget)
    (htokens : w₁.tokens_used ≤ x.request_token_budget)
    (hturn : totalSize batch'.phase.accounted ≤ x.turn_budget ∧
      totalTokens batch'.phase.accounted ≤ x.turn_token_budget) : WithinBudgets x w₁ := by
  refine ⟨hbytes, htokens, fun c hc => ?_⟩
  rw [hbatches] at hc
  rcases List.mem_or_eq_of_mem_set hc with hmem | rfl
  · exact hw.turn c hmem
  · exact hturn

/-- **A step whose next result fits keeps the budgets.** -/
theorem WithinBudgets.effect (h : Effect x w e w') (hinv : BudgetInv w) (hC : NextResultFits x w e)
    (hw : WithinBudgets x w) : WithinBudgets x w' := by
  cases h with
  | environment _ hbytes htokens _ hbatches =>
    exact ⟨by rw [hbytes]; exact hw.request, by rw [htokens]; exact hw.request_tokens,
      by rw [hbatches]; exact hw.turn⟩
  | start calls =>
    unfold World.executeBatch
    split
    · exact ⟨hw.request, hw.request_tokens,
        List.forall_mem_append.mpr ⟨hw.turn, by simp [BatchPhase.accounted]⟩⟩
    · exact ⟨hw.request, hw.request_tokens,
        List.forall_mem_append.mpr ⟨hw.turn, by simp [BatchPhase.accounted]⟩⟩
  | task hk ht hframe =>
    exact ⟨by rw [World.setTask, hframe.bytes_used]; exact hw.request,
      by rw [World.setTask, hframe.tokens_used]; exact hw.request_tokens,
      by rw [World.setTask, hframe.batches]; exact hw.turn⟩
  | batch hb hstep =>
    refine hw.setBatch rfl hw.request hw.request_tokens ?_
    rw [hstep.accounted]
    exact hw.turn _ (List.mem_of_getElem? hb)
  | gathered hb hphase =>
    exact hw.setBatch rfl hw.request hw.request_tokens (by simp [BatchPhase.accounted])
  | account hb hphase =>
    have hright := hinv.turn _ (List.mem_of_getElem? hb)
    rw [hphase] at hright
    obtain ⟨hturn, hrequest, hturn_tokens, hrequest_tokens⟩ :=
      admitResult_fits (hC _ _ _ _ _ _ _ rfl hb hphase)
    refine hw.setBatch rfl hrequest hrequest_tokens ?_
    rw [afterResult_accounted, totalSize_concat, totalTokens_concat, ← hright.1, ← hright.2]
    exact ⟨hturn, hturn_tokens⟩

/-- The result that the event `account b` is about, with the totals before it. -/
def nextResult (w : World) : Event → Option (ℕ × ℕ × ToolResult)
  | .account b =>
    match (w.batches[b]?).map Batch.phase with
    | some (.accounting turn_used turn_tokens _ (r :: _)) => some (turn_used, turn_tokens, r)
    | _ => none
  | _ => none

theorem nextResultFits_iff : NextResultFits x w e ↔ ∀ c ∈ nextResult w e,
    Fits x w c.1 c.2.1 c.2.2.content ∨ Fits x w c.1 c.2.1 c.2.2.overBudget.content := by
  constructor
  · intro h c hc
    unfold nextResult at hc
    split at hc
    · split at hc
      · rename_i hphase
        obtain ⟨batch, hb, hphase⟩ := Option.map_eq_some_iff.mp hphase
        cases hc
        exact h _ batch _ _ _ _ _ rfl hb hphase
      · cases hc
    · cases hc
  · rintro h b batch turn_used turn_tokens done r todo rfl hb hphase
    exact h (turn_used, turn_tokens, r) (by simp [nextResult, hb, hphase])

instance : Decidable (NextResultFits x w e) :=
  decidable_of_iff _ nextResultFits_iff.symm

/-- The contents returned by every batch are within the budgets of a turn, and those returned by all
batches within the budgets of the request. -/
structure ReturnsWithinBudgets (x : ToolExecutor) (w : World) : Prop where
  turn : ∀ batch ∈ w.batches, totalSize batch.phase.results ≤ x.turn_budget
  request : (w.batches.map fun b => totalSize b.phase.results).sum ≤ x.request_budget
  turn_tokens : ∀ batch ∈ w.batches, totalTokens batch.phase.results ≤ x.turn_token_budget
  request_tokens :
    (w.batches.map fun b => totalTokens b.phase.results).sum ≤ x.request_token_budget

/-- What a batch has returned it has accounted for. -/
theorem results_eq_or (p : BatchPhase) : p.results = p.accounted ∨ p.results = [] := by
  cases p <;> simp [BatchPhase.results, BatchPhase.accounted]

/-- **In a run in which every result, or the error that replaces it, fits, the returned contents
stay within all four budgets.** -/
theorem returnsWithinBudgets_of_exec {b : CircuitBreaker} {es : List Event}
    (hC : StepsMeet (step x) (NextResultFits x) (.init b) es)
    (hrun : exec (step x) (.init b) es = some w) : ReturnsWithinBudgets x w := by
  obtain ⟨hinv, hw⟩ : BudgetInv w ∧ WithinBudgets x w := by
    refine exec_invariant_of_stepsMeet (P := fun w => BudgetInv w ∧ WithinBudgets x w)
      (fun w e w' hw hC hstep => ?_) ⟨⟨rfl, rfl, ?_⟩, ⟨Nat.zero_le _, Nat.zero_le _, ?_⟩⟩ hC hrun
    · have heffect := step_effect hstep
      exact ⟨hw.1.effect heffect, hw.2.effect heffect hw.1 hC⟩
    · simp [World.init]
    · simp [World.init]
  have hsize : ∀ p : BatchPhase, totalSize p.results ≤ totalSize p.accounted := by
    intro p
    rcases results_eq_or p with heq | hnil
    · rw [heq]
    · rw [hnil]
      exact Nat.zero_le _
  have htokens : ∀ p : BatchPhase, totalTokens p.results ≤ totalTokens p.accounted := by
    intro p
    rcases results_eq_or p with heq | hnil
    · rw [heq]
    · rw [hnil]
      exact Nat.zero_le _
  refine ⟨fun batch hb => (hsize _).trans (hw.turn batch hb).1, ?_,
    fun batch hb => (htokens _).trans (hw.turn batch hb).2, ?_⟩
  · calc (w.batches.map fun b => totalSize b.phase.results).sum
        ≤ (w.batches.map fun b => totalSize b.phase.accounted).sum :=
          List.sum_le_sum fun b _ => hsize b.phase
      _ = w.bytes_used := hinv.bytes_used.symm
      _ ≤ x.request_budget := hw.request
  · calc (w.batches.map fun b => totalTokens b.phase.results).sum
        ≤ (w.batches.map fun b => totalTokens b.phase.accounted).sum :=
          List.sum_le_sum fun b _ => htokens b.phase
      _ = w.tokens_used := hinv.tokens_used.symm
      _ ≤ x.request_token_budget := hw.request_tokens

/-- The executor of the smallest turn budget, without a tool. -/
def smallBudget : ToolExecutor :=
  .init .default plainConversions .empty { Options.none with turn_budget_bytes := some 256 }

/-- A batch of `n` calls of an unknown tool, up to its return. -/
def unknownCalls (n : ℕ) : List Event :=
  .execute_batch (List.replicate n ⟨"c", "x", .null⟩) :: (List.range n).map .begin ++
    .gathered 0 :: List.replicate (n + 1) (.account 0)

/-- Two small errors fit the budget of 256 bytes. -/
theorem returnsWithinBudgets_two_unknown :
    ∃ w, exec (step smallBudget) (.init (.init 5 30)) (unknownCalls 2) = some w ∧
      ReturnsWithinBudgets smallBudget w := by
  obtain ⟨w, hw⟩ := Option.isSome_iff_exists.mp
    (show (exec (step smallBudget) (.init (.init 5 30)) (unknownCalls 2)).isSome = true by
      decide +kernel)
  exact ⟨w, hw, returnsWithinBudgets_of_exec (by decide +kernel) hw⟩

/-- Three errors return more than 256 bytes: the error in the place of the third is as large. -/
theorem three_unknown_exceed_budget :
    ¬ ∀ (es : List Event) (w : World), exec (step smallBudget) (.init (.init 5 30)) es = some w →
      ReturnsWithinBudgets smallBudget w := by
  intro h
  have hsizes : (exec (step smallBudget) (.init (.init 5 30)) (unknownCalls 3)).map (fun w =>
      w.batches.map fun b => totalSize b.phase.results) = some [316] := by decide +kernel
  obtain ⟨w, hw, hsizes⟩ := Option.map_eq_some_iff.mp hsizes
  obtain ⟨batch, hbatch, hsize⟩ : ∃ b ∈ w.batches, totalSize b.phase.results = 316 :=
    List.mem_map.mp (by rw [hsizes]; exact List.mem_singleton_self _)
  have hle := (h _ w hw).turn batch hbatch
  rw [hsize] at hle
  exact absurd hle (by decide)

end OpenLaunch.Tools
