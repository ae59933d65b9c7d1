import OpenLaunch.Tools.ExecutorCalls

/-! # The executor and the circuit breaker

The breaker is asked about a call once, when the call is admitted. In every run its answer is right
for the history of recorded outcomes, so an external tool is attempted only by calls that were
admitted while its circuit was not open; calls admitted earlier may still start attempts after the
circuit has opened. -/

namespace OpenLaunch.Tools

open Python Transition

variable {x : ToolExecutor} {w w' : World} {e : Event} {threshold : ℕ} {reset : ℚ}

/-! ## The breaker through a run -/

/-- **The breaker represents the recorded history**, under its own settings. -/
structure BreakerInv (threshold : ℕ) (reset : ℚ) (w : World) : Prop where
  represents : Represents w.breaker w.history w.now
  threshold : w.breaker.failure_threshold = threshold
  reset : w.breaker.reset_seconds = reset

theorem allow_settings (b : CircuitBreaker) (now : ℚ) (name : String) :
    (b.allow now name).2.failure_threshold = b.failure_threshold ∧
      (b.allow now name).2.reset_seconds = b.reset_seconds := by
  unfold CircuitBreaker.allow
  cases b.opened_at.get? name with
  | none => exact ⟨rfl, rfl⟩
  | some opened =>
    dsimp only
    split <;> exact ⟨rfl, rfl⟩

/-- Whatever is done to the breaker is recorded. -/
theorem BreakerInv.breakerStep {w₁ : World} (h : BreakerStep w w₁) (hnow : w.now ≤ w₁.now)
    (hw : BreakerInv threshold reset w) : BreakerInv threshold reset w₁ := by
  cases h with
  | none hb hh =>
    exact ⟨by rw [hb, hh]; exact hw.represents.mono hnow, by rw [hb]; exact hw.threshold,
      by rw [hb]; exact hw.reset⟩
  | allow name hb hh =>
    obtain ⟨hthreshold, hreset⟩ := allow_settings w.breaker w.now name
    exact ⟨by rw [hb, hh]; exact (hw.represents.allow name).mono hnow,
      by rw [hb, hthreshold]; exact hw.threshold, by rw [hb, hreset]; exact hw.reset⟩
  | success name hb hh =>
    exact ⟨by rw [hb, hh]; exact (hw.represents.success name).mono hnow,
      by rw [hb]; exact hw.threshold, by rw [hb]; exact hw.reset⟩
  | failure name hb hh =>
    exact ⟨by rw [hb, hh]; exact (hw.represents.failure name).mono hnow,
      by rw [hb]; exact hw.threshold, by rw [hb]; exact hw.reset⟩

/-- **Every step keeps the breaker right.** -/
theorem BreakerInv.effect (h : Effect x w e w') (hw : BreakerInv threshold reset w) :
    BreakerInv threshold reset w' := by
  cases h with
  | environment _ _ _ _ _ _ hnow hbreaker => exact hw.breakerStep hbreaker hnow
  | start calls =>
    unfold World.executeBatch
    split <;> exact ⟨hw.represents, hw.threshold, hw.reset⟩
  | task _ _ hframe _ hbreaker =>
    have hinv := hw.breakerStep hbreaker hframe.now.ge
    exact ⟨hinv.represents, hinv.threshold, hinv.reset⟩
  | batch => exact ⟨hw.represents, hw.threshold, hw.reset⟩
  | gathered => exact ⟨hw.represents, hw.threshold, hw.reset⟩
  | account => exact ⟨hw.represents, hw.threshold, hw.reset⟩

theorem breakerInv_of_exec {es : List Event}
    (hrun : exec (step x) (.init (.init threshold reset)) es = some w) :
    BreakerInv threshold reset w :=
  exec_invariant (fun _ _ _ hw hstep => hw.effect (step_effect hstep))
    ⟨.init threshold reset 0, rfl, rfl⟩ hrun

/-! ## Admission and attempts -/

/-- The task `k` is past its admission and has not ended. -/
def Underway (w : World) (k : ℕ) : Prop :=
  ∃ t, w.tasks[k]? = some t ∧ t.phase.admitted?.isSome = true

/-- A task gets under way only by being admitted. -/
theorem TaskStep.admits {k : ℕ} {t t' : Task} (h : TaskStep x w k t e t')
    (hbefore : t.phase.admitted?.isSome = false) (hafter : t'.phase.admitted?.isSome = true) :
    e = .begin k ∧ ∃ a, Admissible x t.call a ∧ LetThrough w t.call a := by
  cases h with
  | admitted _ ha hopen => exact ⟨rfl, _, ha, hopen⟩
  | reject | raise | cancel => simp [Task.to, Phase.admitted?] at hafter
  | acquire hphase | enter hphase | attempt hphase | call hphase =>
    rw [hphase] at hbefore
    cases hbefore
  | retry hphase | finish hphase =>
    rcases hphase with hphase | hphase <;> rw [hphase] at hbefore <;> cases hbefore

/-- The step that gets the task `k` under way is its `begin`, and the breaker let it through. -/
theorem underway_step {k : ℕ} (h : Effect x w e w') (hbefore : ¬ Underway w k)
    (hafter : Underway w' k) : e = .begin k ∧ ∃ t a, w.tasks[k]? = some t ∧
      Admissible x t.call a ∧ LetThrough w t.call a := by
  obtain ⟨t', ht', hadm⟩ := hafter
  cases h with
  | environment _ _ _ _ _ htasks => exact absurd ⟨t', htasks ▸ ht', hadm⟩ hbefore
  | start calls =>
    unfold World.executeBatch at ht'
    split at ht'
    · exact absurd ⟨t', ht', hadm⟩ hbefore
    · rw [List.getElem?_append] at ht'
      split at ht'
      · exact absurd ⟨t', ht', hadm⟩ hbefore
      · obtain ⟨call, -, rfl⟩ := List.mem_map.mp (List.mem_of_getElem? ht')
        simp [Phase.admitted?] at hadm
  | @task k' t t₁ _ w₁ hk htask hframe =>
    rw [World.setTask, hframe.tasks, List.getElem?_set] at ht'
    split at ht'
    · rename_i heq
      subst heq
      split at ht'
      · cases ht'
        have hnot : t.phase.admitted?.isSome = false :=
          Bool.eq_false_iff.mpr fun hsome => hbefore ⟨t, hk, hsome⟩
        obtain ⟨he, a, ha, hopen⟩ := htask.admits hnot hadm
        exact ⟨he, t, a, hk, ha, hopen⟩
      · cases ht'
    · exact absurd ⟨t', ht', hadm⟩ hbefore
  | batch => exact absurd ⟨t', ht', hadm⟩ hbefore
  | gathered => exact absurd ⟨t', ht', hadm⟩ hbefore
  | account => exact absurd ⟨t', ht', hadm⟩ hbefore

/-- The call of the task `k` is `call`. -/
def CallAt (w : World) (k : ℕ) (call : ToolCall) : Prop :=
  ∃ t, w.tasks[k]? = some t ∧ t.call = call

/-- A task keeps its call. -/
theorem CallAt.effect {k : ℕ} {call : ToolCall} (h : Effect x w e w') (hw : CallAt w k call) :
    CallAt w' k call := by
  obtain ⟨t, hk, hcall⟩ := hw
  cases h with
  | environment _ _ _ _ _ htasks => exact ⟨t, htasks ▸ hk, hcall⟩
  | start calls =>
    unfold World.executeBatch
    split
    · exact ⟨t, hk, hcall⟩
    · have hlt : k < w.tasks.length := (List.getElem?_eq_some_iff.mp hk).1
      exact ⟨t, by rw [List.getElem?_append_left hlt]; exact hk, hcall⟩
  | @task k' t₀ t₁ _ w₁ hk₀ htask hframe =>
    by_cases heq : k' = k
    · subst heq
      rw [hk₀] at hk
      cases hk
      have hlt : k' < w.tasks.length := (List.getElem?_eq_some_iff.mp hk₀).1
      refine ⟨t₁, ?_, htask.call_batch.1.trans hcall⟩
      rw [World.setTask, hframe.tasks, List.getElem?_set_self hlt]
    · refine ⟨t, ?_, hcall⟩
      rw [World.setTask, hframe.tasks, List.getElem?_set_ne heq]
      exact hk
  | batch => exact ⟨t, hk, hcall⟩
  | gathered => exact ⟨t, hk, hcall⟩
  | account => exact ⟨t, hk, hcall⟩

/-- The call of the task `k` is to a tool on an external network. -/
def ExternalCall (x : ToolExecutor) (w : World) (k : ℕ) (name : String) : Prop :=
  ∃ t tool ann, w.tasks[k]? = some t ∧ t.call.name = name ∧ x.tools.get? name = some tool ∧
    x.annotations tool = .ok ann ∧ ann.external_network = true

/-- **An attempt at an external tool is started only by a call that was admitted while the tool's
circuit was not open.** -/
theorem attempt_admitted_not_open {es : List Event} {k : ℕ} {name : String}
    (hrun : exec (step x) (.init (.init threshold reset)) es = some w)
    (hattempt : step x w (.attempt k) = some w') (hext : ExternalCall x w k name) :
    ∃ es₁ es₂ w₁, es = es₁ ++ .begin k :: es₂ ∧
      exec (step x) (.init (.init threshold reset)) es₁ = some w₁ ∧
      ¬ Open threshold reset w₁.history w₁.now name := by
  obtain ⟨t, tool, ann, hk, hname, htool, hann, hnet⟩ := hext
  have hunder : Underway w k := by
    obtain ⟨t', hk', hstep⟩ := Option.bind_eq_some_iff.mp hattempt
    refine ⟨t', hk', ?_⟩
    cases hphase : t'.phase with
    | ready => rfl
    | _ => simp [hphase] at hstep
  have hstart : ¬ Underway (.init (.init threshold reset)) k := by
    rintro ⟨t', ht', -⟩
    simp [World.init] at ht'
  obtain ⟨es₁, e, es₂, w₁, w₂, rfl, hrun₁, hstep₁, hnot, hthen⟩ :=
    exec_first (P := fun w => Underway w k) hstart hunder hrun
  obtain ⟨rfl, t₁, a, hk₁, ha, hlet⟩ := underway_step (step_effect hstep₁) hnot hthen
  refine ⟨es₁, es₂, w₁, rfl, hrun₁, ?_⟩
  -- the task `k` has kept its call since it was admitted
  have hcall : CallAt w k t₁.call := by
    rw [exec_append, hrun₁] at hrun
    exact exec_invariant (P := fun w => CallAt w k t₁.call)
      (fun _ _ _ hw hstep => hw.effect (step_effect hstep)) ⟨t₁, hk₁, rfl⟩ hrun
  obtain ⟨t', hk', hcall⟩ := hcall
  rw [hk] at hk'
  cases hk'
  have hname₁ : t₁.call.name = name := by rw [← hcall, hname]
  have hsame : a.annotations = ann := by
    have htool' := ha.tool
    rw [hname₁, htool] at htool'
    cases htool'
    have hann' := ha.annotations
    rw [hann] at hann'
    exact (Except.ok.inj hann').symm
  have hinv := breakerInv_of_exec hrun₁
  have hallow := hlet (hsame ▸ hnet)
  rw [hname₁] at hallow
  have hclosed := hinv.represents.allow_iff.mp hallow
  rwa [hinv.threshold, hinv.reset] at hclosed

/-- A small executor whose tool is on an external network. -/
def externalExecutor : ToolExecutor :=
  smallExecutor (.dict [("external_network", .bool true)]) (.dict []) .none

/-- The task `k` of that executor, when its call is of the tool `t`. -/
theorem externalExecutor_call {k : ℕ}
    (h : (w.tasks[k]?).map (·.call.name) = some "t") : ExternalCall externalExecutor w k "t" := by
  have htool : (externalExecutor.tools.get? "t").any (fun tool =>
      (externalExecutor.annotations tool).toOption.any (·.external_network)) = true := by
    decide +kernel
  obtain ⟨tool, htool, hext⟩ := (Option.any_eq_true _ _).mp htool
  obtain ⟨t, ht, hname⟩ := Option.map_eq_some_iff.mp h
  cases hann : externalExecutor.annotations tool with
  | ok ann =>
    rw [hann] at hext
    exact ⟨t, tool, ann, ht, hname, htool, hann, hext⟩
  | error e =>
    rw [hann] at hext
    cases hext

/-- One call, up to its first attempt. -/
theorem attempt_admitted_not_open_one_call :
    ∃ es₁ es₂ w₁, [.execute_batch [smallCall], .begin 0, .acquire 0, .acquire 0, .acquire 0] =
        es₁ ++ .begin 0 :: es₂ ∧
      exec (step externalExecutor) (.init (.init 5 30)) es₁ = some w₁ ∧
      ¬ Open 5 30 w₁.history w₁.now "t" := by
  have hrun : (exec (step externalExecutor) (.init (.init 5 30)) [.execute_batch [smallCall],
      .begin 0, .acquire 0, .acquire 0, .acquire 0]).any (fun w =>
        (step externalExecutor w (.attempt 0)).isSome ∧
          (w.tasks[0]?).map (·.call.name) = some "t") = true := by decide +kernel
  obtain ⟨w, hw, hstep⟩ := (Option.any_eq_true _ _).mp hrun
  obtain ⟨hstep, hname⟩ := of_decide_eq_true hstep
  obtain ⟨w', hw'⟩ := Option.isSome_iff_exists.mp hstep
  exact attempt_admitted_not_open hw hw' (externalExecutor_call hname)

/-- A success or a failure, as opposed to a closing. -/
def Record.isOutcome : Record → Bool
  | .closed _ => false
  | _ => true

/-- Six calls of the tool, of which five fail before the last one gets its semaphores. -/
def fiveFailures : List Event :=
  .execute_batch (List.replicate 6 smallCall) :: (List.range 6).map .begin ++
    (List.range 5).flatMap (fun k =>
      [.acquire k, .acquire k, .acquire k, .attempt k, .outcome k .exception]) ++
    [.acquire 5, .acquire 5, .acquire 5]

/-- A call admitted before the failures starts its attempt while the circuit is open: five failures
within 30 seconds since the last success, at the same moment. -/
theorem queued_call_attempts_while_open :
    ¬ ∀ (es : List Event) (w w' : World) (k : ℕ) (name : String),
      exec (step externalExecutor) (.init (.init 5 30)) es = some w →
      step externalExecutor w (.attempt k) = some w' → ExternalCall externalExecutor w k name →
      ¬ Open 5 30 (w.history.filter Record.isOutcome) w.now name := by
  intro h
  have hrun : (exec (step externalExecutor) (.init (.init 5 30)) fiveFailures).any (fun w =>
      ((step externalExecutor w (.attempt 5)).isSome ∧
        (w.tasks[5]?).map (·.call.name) = some "t") ∧
      failuresSince "t" (w.history.filter Record.isOutcome) = [0, 0, 0, 0, 0] ∧ w.now = 0) =
        true := by decide +kernel
  obtain ⟨w, hw, hfacts⟩ := (Option.any_eq_true _ _).mp hrun
  obtain ⟨⟨hstep, hname⟩, hfailures, hnow⟩ := of_decide_eq_true hfacts
  obtain ⟨w', hw'⟩ := Option.isSome_iff_exists.mp hstep
  refine h fiveFailures w w' 5 "t" hw hw' (externalExecutor_call hname) ?_
  have hsuffix : [0, 0, 0, 0, 0] <:+ failuresSince "t" (w.history.filter Record.isOutcome) :=
    hfailures ▸ List.suffix_refl _
  exact ⟨0, [0, 0, 0, 0], hsuffix, by decide +kernel, by rw [hnow]; norm_num⟩

end OpenLaunch.Tools
