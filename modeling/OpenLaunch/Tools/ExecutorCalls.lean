import OpenLaunch.Tools.ExecutorSteps

/-! # Which calls invoke their callable, and how often

The invariants behind the side-effect guarantees of the executor: what each task has invoked so far
(`TaskInv`), how many calls of one tool were let through (`QuotaInv`), which calls a batch has
accepted (`AcceptedInv`). The request's call limit holds of every run in which a batch starts only
when all earlier ones have been counted; `calls_used` is read before and written after the calls
run, so two overlapping batches exceed it. -/

namespace OpenLaunch.Tools

open Python Transition

variable {x : ToolExecutor} {w w' : World} {e : Event}

/-! ## One task -/

/-- The invocations of `t` so far are at most `bound`, all with the admitted arguments. -/
structure InvokedBy (x : ToolExecutor) (t : Task) (a : Admitted) (bound : ℕ) : Prop where
  admissible : Admissible x t.call a
  length_le : t.invoked.length ≤ bound
  args : ∀ args ∈ t.invoked, args = a.params

/-- A call that has ended invoked its callable at most once for each of its attempts. -/
def Spent (x : ToolExecutor) (t : Task) : Prop :=
  t.invoked = [] ∨ ∃ a, InvokedBy x t a a.attempts

/-- **The invariant of a task**, phase by phase. -/
def TaskInv (x : ToolExecutor) (t : Task) : Prop :=
  match t.phase with
  | .created | .raised _ => t.invoked = []
  | .waiting a _ => InvokedBy x t a 0
  | .ready a n | .invoking a n => n < a.attempts ∧ InvokedBy x t a n
  | .running a n => n < a.attempts ∧ InvokedBy x t a (n + 1)
  | .finished r => (r.status.rejected = true → t.invoked = []) ∧ Spent x t
  | .cancelled => Spent x t

theorem InvokedBy.mono {t : Task} {a : Admitted} {m n : ℕ} (h : InvokedBy x t a m) (hmn : m ≤ n) :
    InvokedBy x t a n := ⟨h.admissible, h.length_le.trans hmn, h.args⟩

theorem InvokedBy.spent {t : Task} {a : Admitted} {n : ℕ} (h : InvokedBy x t a n)
    (hn : n ≤ a.attempts) : Spent x t := .inr ⟨a, h.mono hn⟩

theorem TaskInv.spent {t : Task} (h : TaskInv x t) : Spent x t := by
  unfold TaskInv at h
  cases hphase : t.phase with
  | created | raised => rw [hphase] at h; exact .inl h
  | waiting a held => rw [hphase] at h; exact h.spent (Nat.zero_le _)
  | ready a n | invoking a n => rw [hphase] at h; exact h.2.spent h.1.le
  | running a n => rw [hphase] at h; exact h.2.spent h.1
  | finished r => rw [hphase] at h; exact h.2
  | cancelled => rw [hphase] at h; exact h

/-- Inside an attempt, at most one invocation belongs to it. -/
theorem TaskInv.attempting {t : Task} {a : Admitted} {n : ℕ} (h : TaskInv x t)
    (ht : t.phase.attempting a n) : n < a.attempts ∧ InvokedBy x t a (n + 1) := by
  unfold TaskInv at h
  rcases ht with ht | ht
  · rw [ht] at h
    exact ⟨h.1, h.2.mono (Nat.le_succ n)⟩
  · rw [ht] at h
    exact h

/-- **Every transition of a task keeps its invariant.** -/
theorem TaskStep.taskInv {k : ℕ} {t t' : Task} (hstep : TaskStep x w k t e t')
    (h : TaskInv x t) : TaskInv x t' := by
  have hcreated : t.phase = .created → t.invoked = [] := by
    intro hphase
    rw [TaskInv, hphase] at h
    exact h
  cases hstep with
  | reject hphase hr => exact ⟨fun _ => hcreated hphase, .inl (hcreated hphase)⟩
  | raise hphase => exact hcreated hphase
  | admitted hphase ha hopen =>
    have hnil := hcreated hphase
    exact ⟨ha, by simp [Task.to, hnil], by simp [Task.to, hnil]⟩
  | acquire hphase hlt =>
    rw [TaskInv, hphase] at h
    exact ⟨h.admissible, h.length_le, h.args⟩
  | @enter a held hphase =>
    rw [TaskInv, hphase] at h
    have hpos : 0 < a.attempts := by unfold Admitted.attempts; omega
    exact ⟨hpos, h.admissible, h.length_le, h.args⟩
  | attempt hphase =>
    rw [TaskInv, hphase] at h
    exact ⟨h.1, h.2.admissible, h.2.length_le, h.2.args⟩
  | call hphase =>
    rw [TaskInv, hphase] at h
    refine ⟨h.1, h.2.admissible, Nat.succ_le_succ h.2.length_le, ?_⟩
    exact List.forall_mem_cons.mpr ⟨rfl, h.2.args⟩
  | retry hphase hn =>
    have hinv := (h.attempting hphase).2
    exact ⟨hn, hinv.admissible, hinv.length_le, hinv.args⟩
  | finish hphase hr =>
    obtain ⟨hlt, hinv⟩ := h.attempting hphase
    refine ⟨fun hrej => ?_, .inr ⟨_, hinv.admissible, hinv.length_le.trans hlt, hinv.args⟩⟩
    rw [hr] at hrej
    cases hrej
  | cancel =>
    rcases h.spent with hnil | ⟨a, hinv⟩
    · exact .inl hnil
    · exact .inr ⟨a, hinv.admissible, hinv.length_le, hinv.args⟩

/-! ## All tasks -/

/-- What holds of new tasks and is kept by their transitions holds of all tasks. -/
theorem Effect.forall_tasks {P : Task → Prop} (hnew : ∀ b call, P ⟨b, call, .created, []⟩)
    (hstep : ∀ k t t', TaskStep x w k t e t' → P t → P t') (h : Effect x w e w')
    (hw : ∀ t ∈ w.tasks, P t) : ∀ t ∈ w'.tasks, P t := by
  cases h with
  | environment _ _ _ _ _ htasks => rw [htasks]; exact hw
  | start calls =>
    unfold World.executeBatch
    split
    · exact hw
    · intro t ht
      rcases List.mem_append.mp ht with ht | ht
      · exact hw t ht
      · obtain ⟨call, -, rfl⟩ := List.mem_map.mp ht
        exact hnew _ call
  | task hk ht hframe =>
    intro t₁ ht₁
    rw [World.setTask] at ht₁
    rcases List.mem_or_eq_of_mem_set ht₁ with hmem | rfl
    · exact hw t₁ (hframe.tasks ▸ hmem)
    · exact hstep _ _ _ ht (hw _ (List.mem_of_getElem? hk))
  | batch => exact hw
  | gathered => exact hw
  | account => exact hw

/-- In every run, every task keeps its invariant. -/
theorem taskInv_of_exec {b : CircuitBreaker} {es : List Event}
    (hrun : exec (step x) (.init b) es = some w) : ∀ t ∈ w.tasks, TaskInv x t := by
  refine exec_invariant (P := fun w => ∀ t ∈ w.tasks, TaskInv x t) ?_ (by simp [World.init]) hrun
  intro w e w' hw hstep
  exact (step_effect hstep).forall_tasks (fun _ _ => rfl) (fun k t t' ht h => ht.taskInv h) hw

/-! ## Counting -/

/-- Replacing an entry of a list changes a sum over it by the difference of the two entries. -/
theorem sum_map_set {α : Type*} (f : α → ℕ) {l : List α} {k : ℕ} {a : α} (h : l[k]? = some a)
    (a' : α) : ((l.set k a').map f).sum + f a = (l.map f).sum + f a' := by
  induction l generalizing k with
  | nil => simp at h
  | cons b l ih =>
    cases k with
    | zero =>
      cases h
      simp only [List.set_cons_zero, List.map_cons, List.sum_cons]
      omega
    | succ k =>
      have htail := ih (by simpa using h)
      simp only [List.set_cons_succ, List.map_cons, List.sum_cons]
      omega

/-- Counting is summing. -/
theorem countP_eq_sum {α : Type*} (p : α → Bool) (l : List α) :
    l.countP p = (l.map fun a => if p a then 1 else 0).sum := by
  induction l with
  | nil => rfl
  | cons a l ih =>
    rw [List.countP_cons, ih, List.map_cons, List.sum_cons]
    omega

/-- Replacing an entry by one that counts no more does not raise the count. -/
theorem countP_set_le {α : Type*} (p : α → Bool) {l : List α} {k : ℕ} {a a' : α}
    (h : l[k]? = some a) (hp : p a' = true → p a = true) : (l.set k a').countP p ≤ l.countP p := by
  have hsum := sum_map_set (fun a => if p a then 1 else 0) h a'
  rw [countP_eq_sum, countP_eq_sum]
  by_cases ha' : p a' = true
  · simp only [ha', hp ha', if_true] at hsum
    omega
  · simp only [ha', Bool.false_eq_true, if_false] at hsum
    omega

/-- Replacing an entry raises a count by at most one. -/
theorem countP_set_le_succ {α : Type*} (p : α → Bool) {l : List α} {k : ℕ} {a : α}
    (h : l[k]? = some a) (a' : α) : (l.set k a').countP p ≤ l.countP p + 1 := by
  have hsum := sum_map_set (fun a => if p a then 1 else 0) h a'
  rw [countP_eq_sum, countP_eq_sum]
  have hle : (if p a' then 1 else 0) ≤ 1 := by split <;> omega
  omega

/-! ## The quota of a tool -/

/-- The call was let through by `_execute_one`, and perhaps has ended since. -/
def Task.charged (t : Task) : Bool := t.phase.admitted?.isSome || !t.invoked.isEmpty

/-- A call of the tool `name` that was let through. -/
def Task.chargedTo (name : String) (t : Task) : Bool := t.call.name = name && t.charged

/-- **The invariant of the quota**: the calls let through are counted, and the counts stay within
the quotas. -/
structure QuotaInv (x : ToolExecutor) (w : World) : Prop where
  counted : ∀ name, w.tasks.countP (Task.chargedTo name) ≤ w.toolCount name
  within : ∀ name tool ann, x.tools.get? name = some tool → x.annotations tool = .ok ann →
    w.toolCount name ≤ ann.quota_per_request

/-- A transition charges a task only by admitting it. -/
theorem TaskStep.charged {k : ℕ} {t t' : Task} (hstep : TaskStep x w k t e t')
    (h : t'.charged = true) :
    t.charged = true ∨ (t.phase.admitted?.isSome = false ∧ t'.phase.admitted?.isSome = true) := by
  unfold Task.charged at *
  cases hstep with
  | reject hphase | raise hphase | admitted hphase => simp_all [Task.to, Phase.admitted?]
  | acquire hphase | enter hphase | attempt hphase | call hphase =>
    exact .inl (by simp [hphase, Phase.admitted?])
  | retry hphase | finish hphase =>
    rcases hphase with hphase | hphase <;> exact .inl (by simp [hphase, Phase.admitted?])
  | cancel =>
    refine .inl ?_
    simp only [Task.to, Phase.admitted?, Option.isSome_none, Bool.false_or] at h
    rw [h, Bool.or_true]

theorem toolCount_set (w : World) (name n : String) (c : ℕ) :
    ((w.tool_counts.set name c).get? n).getD 0 = if n = name then c else w.toolCount n := by
  rw [Dict.get?_set]
  split <;> rfl

/-- **Every step keeps the quota invariant.** -/
theorem QuotaInv.effect (h : Effect x w e w') (hw : QuotaInv x w) : QuotaInv x w' := by
  cases h with
  | environment _ _ _ hcounts _ htasks =>
    refine ⟨fun name => ?_, fun name => ?_⟩
    · rw [htasks, World.toolCount, hcounts]
      exact hw.counted name
    · rw [World.toolCount, hcounts]
      exact hw.within name
  | start calls =>
    unfold World.executeBatch
    split
    · exact ⟨hw.counted, hw.within⟩
    · refine ⟨fun name => ?_, hw.within⟩
      have hnew : ((calls.take (x.max_calls - w.calls_used)).map fun call =>
          (⟨w.batches.length, call, .created, []⟩ : Task)).countP (Task.chargedTo name) = 0 := by
        rw [List.countP_eq_zero]
        intro t ht
        obtain ⟨call, -, rfl⟩ := List.mem_map.mp ht
        simp [Task.chargedTo, Task.charged, Phase.admitted?]
      rw [List.countP_append, hnew]
      exact hw.counted name
  | @task k t t' _ w₁ hk ht hframe hcharge _ hcounted =>
    -- the count of one tool rises by one, or no count changes
    have hcount : ∀ n, (w₁.setTask k t').toolCount n = w₁.toolCount n := fun _ => rfl
    have hmono : ∀ n, w.toolCount n ≤ w₁.toolCount n := by
      intro n
      cases hcharge with
      | none h => rw [World.toolCount, World.toolCount, h]
      | one h =>
        rw [World.toolCount, World.toolCount, h, toolCount_set]
        split
        · rename_i hn
          rw [hn]
          exact Nat.le_succ _
        · exact le_rfl
    refine ⟨fun n => ?_, fun n tool ann htool hann => ?_⟩
    · rw [hcount, World.setTask, hframe.tasks]
      by_cases hcase : Task.chargedTo n t' = true → Task.chargedTo n t = true
      · exact (countP_set_le _ hk hcase).trans ((hw.counted n).trans (hmono n))
      · obtain ⟨hnew, hold⟩ := Classical.not_imp.mp hcase
        have hname : t.call.name = n ∧ t'.charged = true := by
          simpa [Task.chargedTo, ht.call_batch.1] using hnew
        have hadm := (ht.charged hname.2).resolve_left fun hc =>
          hold (by simp [Task.chargedTo, hname.1, hc])
        have hone := hcounted hadm.1 hadm.2
        rw [hname.1] at hone
        rw [hone]
        exact (countP_set_le_succ _ hk t').trans (Nat.succ_le_succ (hw.counted n))
    · rw [hcount]
      cases hcharge with
      | none h =>
        rw [World.toolCount, h]
        exact hw.within n tool ann htool hann
      | @one tool₀ ann₀ h htool₀ hann₀ hquota =>
        rw [World.toolCount, h, toolCount_set]
        split
        · rename_i hn
          subst hn
          rw [htool₀] at htool
          cases htool
          rw [hann₀] at hann
          cases hann
          exact hquota
        · exact hw.within n tool ann htool hann
  | batch => exact ⟨hw.counted, hw.within⟩
  | gathered => exact ⟨hw.counted, hw.within⟩
  | account => exact ⟨hw.counted, hw.within⟩

theorem quotaInv_of_exec {b : CircuitBreaker} {es : List Event}
    (hrun : exec (step x) (.init b) es = some w) : QuotaInv x w := by
  refine exec_invariant (fun w e w' hw hstep => hw.effect (step_effect hstep)) ?_ hrun
  exact ⟨fun name => by simp [World.init], fun name tool ann _ _ => by
    simp [World.init, World.toolCount]⟩

/-! ## The calls of a batch -/

/-- Replacing an entry by one with the same image keeps the list of images. -/
theorem map_set_of_eq {α β : Type*} (f : α → β) {l : List α} {k : ℕ} {a a' : α}
    (h : l[k]? = some a) (hf : f a' = f a) : (l.set k a').map f = l.map f := by
  obtain ⟨hk, rfl⟩ := List.getElem?_eq_some_iff.mp h
  rw [List.map_set, hf, ← List.getElem_map f (h := by simpa using hk), List.set_getElem_self]

/-- The tasks, by batch and call. -/
def World.placed (w : World) : List (ℕ × ToolCall) := w.tasks.map fun t => (t.batch, t.call)

/-- The calls of the batch `b` that have a task. -/
def World.callsOf (w : World) (b : ℕ) : List ToolCall :=
  (w.placed.filter fun c => c.1 = b).map Prod.snd

/-- **The tasks of a batch are its accepted calls**, in order. -/
structure PlacedInv (w : World) : Prop where
  placed : ∀ c ∈ w.placed, c.1 < w.batches.length
  calls : ∀ b batch, w.batches[b]? = some batch → w.callsOf b = batch.calls.take batch.accepted

/-- The batch has counted its calls in `calls_used`. -/
def BatchPhase.counted : BatchPhase → Bool
  | .gathering _ | .abandoned _ => false
  | .accounting _ _ _ _ | .returned _ | .aborted _ => true

/-- The batch has returned its results. -/
def BatchPhase.isReturned : BatchPhase → Bool
  | .returned _ => true
  | _ => false

/-- What the batch has added to `calls_used`. -/
def Batch.countedCalls (batch : Batch) : ℕ := if batch.phase.counted then batch.accepted else 0

/-- **The invariant of the call limit.** -/
structure AcceptedInv (w : World) : Prop where
  tasks_length : w.tasks.length = (w.batches.map Batch.accepted).sum
  calls_used : w.calls_used = (w.batches.map Batch.countedCalls).sum

theorem placed_setTask {k : ℕ} {t t' : Task} (hk : w.tasks[k]? = some t)
    (h : t'.call = t.call ∧ t'.batch = t.batch) : (w.setTask k t').placed = w.placed := by
  unfold World.placed World.setTask
  exact map_set_of_eq _ hk (by rw [h.1, h.2])

/-- A batch moves on with the same calls. -/
theorem PlacedInv.setBatch {w₁ : World} (hw : PlacedInv w) (htasks : w₁.tasks = w.tasks)
    {b : ℕ} {batch : Batch} {phase : BatchPhase} (hb : w.batches[b]? = some batch)
    (hbatches : w₁.batches = w.batches.set b { batch with phase := phase }) : PlacedInv w₁ := by
  have hplaced : w₁.placed = w.placed := by rw [World.placed, World.placed, htasks]
  refine ⟨fun c hc => ?_, fun b' batch' hb' => ?_⟩
  · rw [hbatches, List.length_set]
    exact hw.placed c (hplaced ▸ hc)
  · rw [World.callsOf, hplaced, ← World.callsOf]
    rw [hbatches, List.getElem?_set] at hb'
    split at hb'
    · rename_i heq
      split at hb'
      · cases hb'
        exact hw.calls b' batch (heq ▸ hb)
      · cases hb'
    · exact hw.calls b' batch' hb'

/-- A batch is added together with the tasks of its accepted calls. -/
theorem PlacedInv.append {w₁ : World} (hw : PlacedInv w) {batch : Batch}
    (hbatches : w₁.batches = w.batches ++ [batch])
    (hplaced : w₁.placed = w.placed ++
      (batch.calls.take batch.accepted).map fun call => (w.batches.length, call)) :
    PlacedInv w₁ := by
  refine ⟨fun c hc => ?_, fun b batch' hb => ?_⟩
  · rw [hbatches, List.length_append, List.length_singleton]
    rw [hplaced] at hc
    rcases List.mem_append.mp hc with hc | hc
    · exact (hw.placed c hc).trans (Nat.lt_succ_self _)
    · obtain ⟨call, -, rfl⟩ := List.mem_map.mp hc
      exact Nat.lt_succ_self _
  · rw [hbatches] at hb
    rw [World.callsOf, hplaced, List.filter_append, List.map_append, ← World.callsOf]
    by_cases hlt : b < w.batches.length
    · rw [List.getElem?_append_left hlt] at hb
      have hnone : ((batch.calls.take batch.accepted).map fun call =>
          (w.batches.length, call)).filter (fun c => decide (c.1 = b)) = [] := by
        rw [List.filter_eq_nil_iff]
        intro c hc
        obtain ⟨call, -, rfl⟩ := List.mem_map.mp hc
        simp only [decide_eq_true_eq]
        omega
      rw [hnone, List.map_nil, List.append_nil]
      exact hw.calls b batch' hb
    · obtain ⟨rfl, rfl⟩ : b = w.batches.length ∧ batch' = batch := by
        rw [List.getElem?_append_right (not_lt.mp hlt)] at hb
        obtain ⟨hpos, rfl⟩ := List.getElem?_eq_some_iff.mp hb
        rw [List.length_singleton] at hpos
        exact ⟨by omega, by simp⟩
      have hold : w.callsOf w.batches.length = [] := by
        rw [World.callsOf, List.map_eq_nil_iff, List.filter_eq_nil_iff]
        intro c hc
        have hc := hw.placed c hc
        simp only [decide_eq_true_eq]
        omega
      rw [hold, List.nil_append, List.filter_eq_self.mpr, List.map_map]
      · exact List.map_id _
      · intro c hc
        obtain ⟨call, -, rfl⟩ := List.mem_map.mp hc
        simp

/-- **Every step keeps the tasks in their batches.** -/
theorem PlacedInv.effect (h : Effect x w e w') (hw : PlacedInv w) : PlacedInv w' := by
  cases h with
  | environment _ _ _ _ hbatches htasks =>
    refine ⟨fun c hc => ?_, fun b batch hb => ?_⟩
    · rw [World.placed, htasks] at hc
      rw [hbatches]
      exact hw.placed c hc
    · rw [World.callsOf, World.placed, htasks]
      exact hw.calls b batch (hbatches ▸ hb)
  | start calls =>
    unfold World.executeBatch
    split
    · exact hw.append rfl (by simp [World.placed])
    · refine hw.append rfl ?_
      simp [World.placed, List.take_eq_take_min, Function.comp_def]
  | task hk ht hframe =>
    have hbatches := hframe.batches
    rw [← hframe.tasks] at hk
    have hplaced := (placed_setTask hk ht.call_batch).trans
      (show _ = w.placed by rw [World.placed, hframe.tasks, World.placed])
    refine ⟨fun c hc => ?_, fun b batch hb => ?_⟩
    · rw [hplaced] at hc
      rw [World.setTask, hbatches]
      exact hw.placed c hc
    · rw [World.callsOf, hplaced, ← World.callsOf]
      exact hw.calls b batch (hbatches ▸ hb)
  | batch hb => exact hw.setBatch rfl hb rfl
  | gathered hb => exact hw.setBatch rfl hb rfl
  | account hb => exact hw.setBatch rfl hb rfl

theorem placedInv_of_exec {b : CircuitBreaker} {es : List Event}
    (hrun : exec (step x) (.init b) es = some w) : PlacedInv w :=
  exec_invariant (fun _ _ _ hw hstep => hw.effect (step_effect hstep))
    ⟨by simp [World.placed, World.init], by simp [World.init]⟩ hrun

/-! ## A small executor -/

/-- An executor with the one tool `t`, of the given annotations and properties. -/
def smallExecutor (annotations properties : Json) (o : Options) : ToolExecutor :=
  .init .default plainConversions
    ⟨[("t", ⟨annotations, .str "", .dict [("parameters", .dict [("properties", properties)])],
      false, true⟩)], List.nodup_singleton _⟩ o

/-- A call of the tool `t` with the argument `a`. -/
def smallCall : ToolCall := ⟨"c", "t", .dict [("a", .int 1)]⟩

/-- The task `k` gets as far as its callable. -/
def reachCallable (k : ℕ) : List Event :=
  [.begin k, .acquire k, .acquire k, .acquire k, .attempt k, .call k]

/-! ## The call limit -/

/-- A batch moves on, and `calls_used` with it. -/
theorem AcceptedInv.setBatch {w₁ : World} (hw : AcceptedInv w) (htasks : w₁.tasks = w.tasks)
    {b : ℕ} {batch batch' : Batch} (hb : w.batches[b]? = some batch)
    (hbatches : w₁.batches = w.batches.set b batch') (haccepted : batch'.accepted = batch.accepted)
    (hused : w₁.calls_used + batch.countedCalls = w.calls_used + batch'.countedCalls) :
    AcceptedInv w₁ := by
  refine ⟨?_, ?_⟩
  · rw [htasks, hbatches, map_set_of_eq Batch.accepted hb haccepted]
    exact hw.tasks_length
  · have hsum := sum_map_set Batch.countedCalls hb batch'
    rw [← hw.calls_used] at hsum
    rw [hbatches]
    omega

/-- **Every step keeps the invariant of the call limit.** -/
theorem AcceptedInv.effect (h : Effect x w e w') (hw : AcceptedInv w) : AcceptedInv w' := by
  cases h with
  | environment hcalls _ _ _ hbatches htasks =>
    exact ⟨by rw [htasks, hbatches]; exact hw.tasks_length,
      by rw [hcalls, hbatches]; exact hw.calls_used⟩
  | start calls =>
    unfold World.executeBatch
    split
    · exact ⟨by simp [hw.tasks_length], by simp [hw.calls_used, Batch.countedCalls]⟩
    · refine ⟨?_, ?_⟩
      · simp [hw.tasks_length]
      · simp [hw.calls_used, Batch.countedCalls, BatchPhase.counted]
  | task hk ht hframe =>
    refine ⟨?_, ?_⟩
    · simp only [World.setTask, List.length_set, hframe.tasks, hframe.batches]
      exact hw.tasks_length
    · simp only [World.setTask, hframe.calls_used, hframe.batches]
      exact hw.calls_used
  | @batch b batch phase _ hb hstep =>
    have hcounted : phase.counted = batch.phase.counted := by
      generalize batch.phase = phase₀ at hstep
      cases hstep <;> rfl
    refine hw.setBatch rfl hb rfl rfl ?_
    simp only [World.setBatch, Batch.countedCalls, hcounted]
  | @gathered b batch results hb hphase =>
    refine hw.setBatch rfl hb rfl rfl ?_
    simp [World.setBatch, World.countCalls, Batch.countedCalls, BatchPhase.counted, hphase]
  | @account b batch turn_used turn_tokens done todo r hb hphase =>
    have hcounted : (afterResult x turn_used turn_tokens done todo
        (admitResult x w turn_used turn_tokens r)).counted = true := by
      unfold afterResult
      split <;> rfl
    have hbefore : batch.phase.counted = true := by rw [hphase]; rfl
    refine hw.setBatch rfl hb rfl rfl ?_
    simp only [World.setBatch, World.charge, Batch.countedCalls, hcounted, hbefore]

/-- The calls that have invoked their callable. -/
def World.invokedCalls (w : World) : ℕ := w.tasks.countP fun t => !t.invoked.isEmpty

/-- A batch starts only when all earlier ones have counted their calls. -/
def StartsCounted (w : World) (e : Event) : Prop :=
  ∀ calls, e = .execute_batch calls → ∀ batch ∈ w.batches, batch.phase.counted = true

instance (w : World) : (e : Event) → Decidable (StartsCounted w e)
  | .execute_batch calls => decidable_of_iff (∀ batch ∈ w.batches, batch.phase.counted = true)
      ⟨fun h _ _ => h, fun h => h calls rfl⟩
  | .tick _ | .others _ | .othersAllow _ | .othersSuccess _ | .othersFailure _ | .begin _
  | .acquire _ | .attempt _ | .call _ | .outcome _ _ | .cancelTask _ | .cancelBatch _
  | .gathered _ | .gatherFailed _ _ | .account _ | .hookFailed _ =>
    isTrue fun _ h => by cases h

/-- Where every batch has been counted, a new one has tasks for what is left of the limit. -/
theorem length_tasks_start (hw : AcceptedInv w) (hC : ∀ batch ∈ w.batches, batch.phase.counted = true)
    (hle : w.tasks.length ≤ x.max_calls) (calls : List ToolCall) :
    (w.executeBatch x calls).tasks.length ≤ x.max_calls := by
  have hused : w.calls_used = w.tasks.length := by
    rw [hw.calls_used, hw.tasks_length]
    congr 1
    refine List.map_congr_left fun batch hbatch => ?_
    rw [Batch.countedCalls, if_pos (hC batch hbatch)]
  unfold World.executeBatch
  split
  · exact hle
  · simp only [List.length_append, List.length_map, List.length_take]
    omega

/-- In a run whose batches start only when the earlier ones have been counted, no more than
`max_calls` calls have a task. -/
theorem length_tasks_le {b : CircuitBreaker} {es : List Event}
    (hC : StepsMeet (step x) StartsCounted (.init b) es)
    (hrun : exec (step x) (.init b) es = some w) : w.tasks.length ≤ x.max_calls := by
  have hinv : AcceptedInv w ∧ w.tasks.length ≤ x.max_calls := by
    refine exec_invariant_of_stepsMeet (P := fun w => AcceptedInv w ∧ w.tasks.length ≤ x.max_calls)
      (fun w e w' hw hC hstep => ?_) ⟨⟨rfl, rfl⟩, Nat.zero_le _⟩ hC hrun
    have heffect := step_effect hstep
    refine ⟨hw.1.effect heffect, ?_⟩
    cases heffect with
    | environment _ _ _ _ _ htasks => rw [htasks]; exact hw.2
    | start calls => exact length_tasks_start hw.1 (hC calls rfl) hw.2 calls
    | task hk ht hframe =>
      rw [World.setTask, List.length_set, hframe.tasks]
      exact hw.2
    | batch => exact hw.2
    | gathered => exact hw.2
    | account => exact hw.2
  exact hinv.2

/-- **In a run whose batches start only when the earlier ones have been counted, no more than
`max_calls` calls invoke their callable.** -/
theorem invokedCalls_le_max_calls {b : CircuitBreaker} {es : List Event}
    (hC : StepsMeet (step x) StartsCounted (.init b) es)
    (hrun : exec (step x) (.init b) es = some w) : w.invokedCalls ≤ x.max_calls :=
  List.countP_le_length.trans (length_tasks_le hC hrun)

/-- One batch with one call, and another after it has been counted. -/
theorem invokedCalls_le_max_calls_two_batches :
    ∃ w, exec (step (smallExecutor .null (.dict []) { Options.none with max_calls := some 1 }))
        (.init (.init 5 30))
        (.execute_batch [smallCall] :: reachCallable 0 ++ [.outcome 0 (.success (.json .null)),
          .gathered 0, .execute_batch [smallCall]]) = some w ∧ w.invokedCalls ≤ 1 := by
  obtain ⟨w, hw⟩ := Option.isSome_iff_exists.mp (show (exec
    (step (smallExecutor .null (.dict []) { Options.none with max_calls := some 1 }))
    (.init (.init 5 30)) (.execute_batch [smallCall] :: reachCallable 0 ++
      [.outcome 0 (.success (.json .null)), .gathered 0, .execute_batch [smallCall]])).isSome = true
    by decide +kernel)
  exact ⟨w, hw, invokedCalls_le_max_calls (by decide +kernel) hw⟩

/-- Two overlapping batches of one call each both invoke the callable, though only one call is
allowed. -/
theorem overlapping_batches_exceed_max_calls :
    ¬ ∀ (es : List Event) (w : World),
      exec (step (smallExecutor .null (.dict []) { Options.none with max_calls := some 1 }))
        (.init (.init 5 30)) es = some w →
      w.invokedCalls ≤
        (smallExecutor .null (.dict []) { Options.none with max_calls := some 1 }).max_calls := by
  intro h
  have hcount : (exec (step (smallExecutor .null (.dict []) { Options.none with max_calls := some 1 }))
      (.init (.init 5 30)) ([.execute_batch [smallCall], .execute_batch [smallCall]] ++
        reachCallable 0 ++ reachCallable 1)).map World.invokedCalls = some 2 := by decide +kernel
  obtain ⟨w, hw, htwo⟩ := Option.map_eq_some_iff.mp hcount
  have hle := h _ w hw
  rw [htwo] at hle
  exact absurd hle (by decide)

/-! ## Side effects -/

/-- Every batch before has returned its results. -/
def StartsReturned (w : World) (e : Event) : Prop :=
  ∀ calls, e = .execute_batch calls → ∀ batch ∈ w.batches, batch.phase.isReturned = true

instance (w : World) : (e : Event) → Decidable (StartsReturned w e)
  | .execute_batch calls => decidable_of_iff (∀ batch ∈ w.batches, batch.phase.isReturned = true)
      ⟨fun h _ _ => h, fun h => h calls rfl⟩
  | .tick _ | .others _ | .othersAllow _ | .othersSuccess _ | .othersFailure _ | .begin _
  | .acquire _ | .attempt _ | .call _ | .outcome _ _ | .cancelTask _ | .cancelBatch _
  | .gathered _ | .gatherFailed _ _ | .account _ | .hookFailed _ =>
    isTrue fun _ h => by cases h

/-- A key among the declared properties. -/
def Listed (properties : Json) (key : String) : Prop :=
  ∃ allowed, properties = .dict allowed ∧ key ∈ Assoc.keys allowed

/-- A key among the declared properties, where they are an object. -/
def ListedIfObject (properties : Json) (key : String) : Prop :=
  ∀ allowed, properties = .dict allowed → key ∈ Assoc.keys allowed

/-- **What the executor promises about side effects**, apart from the limit on all calls; a callable
may receive the keys that `mayReceive` allows. -/
structure SideEffectSafe (x : ToolExecutor) (mayReceive : Json → String → Prop) (w : World) :
    Prop where
  /-- No call invokes its callable more than three times. -/
  at_most_three : ∀ t ∈ w.tasks, t.invoked.length ≤ 3
  /-- A call invokes its callable twice only if its tool may be retried. -/
  at_most_once : ∀ t ∈ w.tasks, 1 < t.invoked.length → ∃ tool ann,
    x.tools.get? t.call.name = some tool ∧ x.annotations tool = .ok ann ∧
      ann.idempotent = true ∧ ann.destructive = false ∧ ann.retry_eligible = true
  /-- The callable receives only the keys it may. -/
  arguments : ∀ t ∈ w.tasks, ∀ args ∈ t.invoked, ∃ tool properties,
    x.tools.get? t.call.name = some tool ∧ tool.properties = .ok properties ∧
      ∀ arg ∈ args, mayReceive properties arg.1
  /-- A call turned away by `_execute_one` invokes nothing. -/
  rejected : ∀ t ∈ w.tasks, ∀ r, t.phase = .finished r → r.status.rejected = true → t.invoked = []
  /-- A call turned away by `execute_batch` has no task. -/
  unaccepted : ∀ b batch, w.batches[b]? = some batch →
    w.callsOf b = batch.calls.take batch.accepted
  /-- The calls of one tool that reach its callable stay within its quota. -/
  quota : ∀ name tool ann, x.tools.get? name = some tool → x.annotations tool = .ok ann →
    (w.tasks.countP fun t => t.call.name = name ∧ t.invoked ≠ []) ≤ ann.quota_per_request

theorem Admitted.attempts_le (a : Admitted) : a.attempts ≤ 3 := by
  have h := a.annotations.max_retries_le
  unfold Admitted.attempts
  split <;> omega

/-- Filtered arguments have declared keys. -/
theorem filterParams_listed {properties : Json} {params : Args} :
    ∀ arg ∈ filterParams properties params, ListedIfObject properties arg.1 := by
  rintro arg harg allowed rfl
  have h := (List.mem_filter.mp harg).2
  exact (Assoc.contains_iff allowed arg.1).mp h

/-- **The executor keeps its promises about side effects in every run**; the limit on all calls
holds of the runs whose batches start after the earlier ones have been counted. -/
theorem sideEffectSafe_of_exec {b : CircuitBreaker} {es : List Event}
    (hrun : exec (step x) (.init b) es = some w) :
    SideEffectSafe x ListedIfObject w ∧
      (StepsMeet (step x) StartsCounted (.init b) es → w.invokedCalls ≤ x.max_calls) := by
  have htask := taskInv_of_exec hrun
  have hquota := quotaInv_of_exec hrun
  refine ⟨⟨fun t ht => ?_, fun t ht hlen => ?_, fun t ht args hargs => ?_, fun t ht r hr hrej => ?_,
    (placedInv_of_exec hrun).calls, fun name tool ann htool hann => ?_⟩, fun hC => ?_⟩
  · rcases (htask t ht).spent with hnil | ⟨a, ha⟩
    · simp [hnil]
    · exact ha.length_le.trans a.attempts_le
  · rcases (htask t ht).spent with hnil | ⟨a, ha⟩
    · simp [hnil] at hlen
    · have hretry : a.annotations.retry_eligible = true := by
        by_contra hno
        have hone := ha.length_le
        simp only [Admitted.attempts, hno, if_false] at hone
        omega
      obtain ⟨hidem, hdestr⟩ := a.annotations.retry_safe hretry
      exact ⟨a.tool, a.annotations, ha.admissible.tool, ha.admissible.annotations, hidem, hdestr,
        hretry⟩
  · rcases (htask t ht).spent with hnil | ⟨a, ha⟩
    · simp [hnil] at hargs
    · obtain ⟨properties, params, hprops, hparams⟩ := ha.admissible.params
      refine ⟨a.tool, properties, ha.admissible.tool, hprops, ?_⟩
      rw [ha.args args hargs, hparams]
      exact filterParams_listed
  · have hinv := htask t ht
    rw [TaskInv, hr] at hinv
    exact hinv.1 hrej
  · refine le_trans ?_ ((hquota.counted name).trans (hquota.within name tool ann htool hann))
    refine List.countP_mono_left fun t _ ht => ?_
    simp only [decide_eq_true_eq] at ht
    simp [Task.chargedTo, Task.charged, ht.1, ht.2]
  · exact List.countP_le_length.trans (length_tasks_le hC hrun)

/-- A run with one invocation, from a declared argument and an undeclared one. -/
theorem sideEffectSafe_one_call :
    ∃ w, exec (step (smallExecutor .null (.dict []) .none)) (.init (.init 5 30))
        (.execute_batch [smallCall] :: reachCallable 0) = some w ∧
      SideEffectSafe (smallExecutor .null (.dict []) .none) ListedIfObject w := by
  obtain ⟨w, hw⟩ := Option.isSome_iff_exists.mp (show (exec
    (step (smallExecutor .null (.dict []) .none)) (.init (.init 5 30))
    (.execute_batch [smallCall] :: reachCallable 0)).isSome = true by decide +kernel)
  exact ⟨w, hw, (sideEffectSafe_of_exec hw).1⟩

/-- A tool whose properties are no object receives every argument of the call. -/
theorem undeclared_argument_received :
    ¬ ∀ (es : List Event) (w : World),
      StepsMeet (step (smallExecutor .null .null .none)) StartsReturned (.init (.init 5 30)) es →
      exec (step (smallExecutor .null .null .none)) (.init (.init 5 30)) es = some w →
      SideEffectSafe (smallExecutor .null .null .none) Listed w := by
  intro h
  have hargs : (exec (step (smallExecutor .null .null .none)) (.init (.init 5 30))
      (.execute_batch [smallCall] :: reachCallable 0)).map (fun w => w.tasks.map fun t =>
        (t.call.name, t.invoked)) = some [("t", [[("a", .int 1)]])] := by decide +kernel
  obtain ⟨w, hw, htasks⟩ := Option.map_eq_some_iff.mp hargs
  obtain ⟨t, ht, hinvoked⟩ : ∃ t ∈ w.tasks, (t.call.name, t.invoked) = ("t", [[("a", .int 1)]]) :=
    List.mem_map.mp (by rw [htasks]; exact List.mem_singleton_self _)
  obtain ⟨hname, hinvoked⟩ := Prod.mk.inj hinvoked
  obtain ⟨tool, properties, htool, hprops, hlisted⟩ :=
    (h _ w (by decide +kernel) hw).arguments t ht [("a", .int 1)] (by simp [hinvoked])
  obtain ⟨allowed, hallowed, -⟩ := hlisted ("a", .int 1) (List.mem_singleton_self _)
  rw [hname] at htool
  cases htool
  cases hprops
  cases hallowed

end OpenLaunch.Tools
