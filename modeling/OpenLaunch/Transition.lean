import Mathlib.Data.List.Basic

/-! # Runs of a partial step function

A transition system given by an executable step `step : σ → ε → Option σ`, where `none` means that
the event cannot happen in the state. A run is a list of events. The file has the rules that reduce
a property of runs to a property of one step: invariants, invariants of runs whose steps all meet a
condition, the step at which a property first comes to hold, and simulation of runs by those of
another system. -/

namespace Transition

universe u v

variable {σ : Type u} {ε : Type v} (step : σ → ε → Option σ)

/-- The state after the events of a run, if each of them can happen in turn. -/
def exec : σ → List ε → Option σ
  | s, [] => some s
  | s, e :: es => (step s e).bind fun s' => exec s' es

/-- Every event of the run happens in a state that meets the condition `C`. -/
def StepsMeet (C : σ → ε → Prop) : σ → List ε → Prop
  | _, [] => True
  | s, e :: es => C s e ∧ ∀ s', step s e = some s' → StepsMeet C s' es

instance StepsMeet.decidable (C : σ → ε → Prop) [∀ s e, Decidable (C s e)] :
    (s : σ) → (es : List ε) → Decidable (StepsMeet step C s es)
  | _, [] => isTrue trivial
  | s, e :: es =>
    match h : step s e with
    | none => decidable_of_iff (C s e) (by simp [StepsMeet, h])
    | some s' =>
      have := StepsMeet.decidable C s' es
      decidable_of_iff (C s e ∧ StepsMeet step C s' es) (by simp [StepsMeet, h])

variable {step} {s s' : σ} {e : ε} {es : List ε}

@[simp] theorem exec_nil : exec step s [] = some s := rfl

theorem exec_cons : exec step s (e :: es) = (step s e).bind fun s' => exec step s' es := rfl

/-- A run splits at its first event. -/
theorem exec_cons_eq_some :
    exec step s (e :: es) = some s' ↔ ∃ s₁, step s e = some s₁ ∧ exec step s₁ es = some s' :=
  Option.bind_eq_some_iff

/-- A run may be cut anywhere. -/
theorem exec_append (es₁ es₂ : List ε) :
    exec step s (es₁ ++ es₂) = (exec step s es₁).bind fun s₁ => exec step s₁ es₂ := by
  induction es₁ generalizing s with
  | nil => rfl
  | cons e es₁ ih =>
    rw [List.cons_append, exec_cons, exec_cons]
    cases step s e with
    | none => rfl
    | some s₁ => exact ih

/-- **Invariant rule.** What every step preserves holds at the end of every run. -/
theorem exec_invariant {P : σ → Prop} (hstep : ∀ s e s', P s → step s e = some s' → P s')
    (hs : P s) (hrun : exec step s es = some s') : P s' := by
  induction es generalizing s with
  | nil =>
    cases hrun
    exact hs
  | cons e es ih =>
    obtain ⟨s₁, hstep₁, hrest⟩ := exec_cons_eq_some.mp hrun
    exact ih (hstep s e s₁ hs hstep₁) hrest

/-- **Invariant rule for conditional runs.** What every step that meets `C` preserves holds at the
end of every run all of whose steps meet `C`. -/
theorem exec_invariant_of_stepsMeet {C : σ → ε → Prop} {P : σ → Prop}
    (hstep : ∀ s e s', P s → C s e → step s e = some s' → P s')
    (hs : P s) (hC : StepsMeet step C s es) (hrun : exec step s es = some s') : P s' := by
  induction es generalizing s with
  | nil =>
    cases hrun
    exact hs
  | cons e es ih =>
    obtain ⟨s₁, hstep₁, hrest⟩ := exec_cons_eq_some.mp hrun
    exact ih (hstep s e s₁ hs hC.1 hstep₁) (hC.2 s₁ hstep₁) hrest

/-- **What a breach leaves behind.** What a step that breaches `C` brings about, and every step
keeps, holds at the end of every run with such a step. -/
theorem exec_of_not_stepsMeet {C : σ → ε → Prop} {P Q : σ → Prop}
    (hP : ∀ s e s', P s → step s e = some s' → P s')
    (hbreach : ∀ s e s', P s → ¬ C s e → step s e = some s' → Q s')
    (hQ : ∀ s e s', P s → Q s → step s e = some s' → Q s') (hs : P s)
    (hC : ¬ StepsMeet step C s es) (hrun : exec step s es = some s') : Q s' := by
  induction es generalizing s with
  | nil => exact absurd trivial hC
  | cons e es ih =>
    obtain ⟨s₁, hstep, hrest⟩ := exec_cons_eq_some.mp hrun
    by_cases hmeet : C s e
    · refine ih (hP s e s₁ hs hstep) (fun hall => hC ⟨hmeet, fun s₂ hs₂ => ?_⟩) hrest
      rwa [← Option.some.inj (hstep.symm.trans hs₂)]
    · have hkept : P s₁ ∧ Q s₁ := ⟨hP s e s₁ hs hstep, hbreach s e s₁ hs hmeet hstep⟩
      exact (exec_invariant (P := fun t => P t ∧ Q t)
        (fun t e t' h ht => ⟨hP t e t' h.1 ht, hQ t e t' h.1 h.2 ht⟩) hkept hrest).2

/-- **What holds after every step.** Where a step keeps `P` exactly if it meets `C`, under an
invariant `Q`, `P` holds all through a run exactly if its steps meet `C`. -/
theorem forall_take_iff_stepsMeet {C : σ → ε → Prop} {P Q : σ → Prop}
    (hiff : ∀ s e s', Q s → P s → step s e = some s' → Q s' ∧ (P s' ↔ C s e)) (hs : Q s) (hP : P s)
    (hrun : exec step s es = some s') :
    (∀ n t, exec step s (es.take n) = some t → P t) ↔ StepsMeet step C s es := by
  induction es generalizing s with
  | nil =>
    refine iff_of_true (fun n t ht => ?_) trivial
    rw [List.take_nil] at ht
    cases ht
    exact hP
  | cons e es ih =>
    obtain ⟨s₁, hstep, hrest⟩ := exec_cons_eq_some.mp hrun
    obtain ⟨hs₁, hfirst⟩ := hiff s e s₁ hs hP hstep
    have htake : ∀ n t, exec step s ((e :: es).take (n + 1)) = some t ↔
        exec step s₁ (es.take n) = some t := by
      intro n t
      rw [List.take_succ_cons, exec_cons, hstep]
      rfl
    constructor
    · intro hall
      have hP₁ : P s₁ := hall 1 s₁ ((htake 0 s₁).mpr rfl)
      refine ⟨hfirst.mp hP₁, fun s₂ hs₂ => ?_⟩
      rw [← Option.some.inj (hstep.symm.trans hs₂)]
      exact (ih hs₁ hP₁ hrest).mp fun n t ht => hall (n + 1) t ((htake n t).mpr ht)
    · intro hmeet n t ht
      have hP₁ : P s₁ := hfirst.mpr hmeet.1
      cases n with
      | zero =>
        cases ht
        exact hP
      | succ n =>
        exact (ih hs₁ hP₁ hrest).mpr (hmeet.2 s₁ hstep) n t ((htake n t).mp ht)

/-- A run whose first event is known. -/
theorem StepsMeet.cons {C : σ → ε → Prop} (hC : C s e) (hstep : step s e = some s')
    (hrest : StepsMeet step C s' es) : StepsMeet step C s (e :: es) :=
  ⟨hC, fun _ h => Option.some.inj (hstep.symm.trans h) ▸ hrest⟩

/-- What holds in every state is met by every run. -/
theorem stepsMeet_of_forall {C : σ → ε → Prop} (h : ∀ s e, C s e) (s : σ) (es : List ε) :
    StepsMeet step C s es := by
  induction es generalizing s with
  | nil => trivial
  | cons e es ih => exact ⟨h s e, fun s₁ _ => ih s₁⟩

/-- **Conditions under an invariant.** Where an invariant makes a condition follow from another one,
and steps that meet the latter keep it, the runs that meet the latter meet the former. -/
theorem StepsMeet.of_invariant {C D : σ → ε → Prop} {P : σ → Prop}
    (hD : ∀ s e, P s → C s e → D s e)
    (hstep : ∀ s e s', P s → C s e → step s e = some s' → P s') (hs : P s)
    (hC : StepsMeet step C s es) : StepsMeet step D s es := by
  induction es generalizing s with
  | nil => trivial
  | cons e es ih =>
    exact ⟨hD s e hs hC.1, fun s₁ hs₁ => ih (hstep s e s₁ hs hC.1 hs₁) (hC.2 s₁ hs₁)⟩

/-- **Conditions that agree under an invariant.** Where an invariant makes two conditions
equivalent, and steps that meet one of them keep it, the same runs meet both. -/
theorem stepsMeet_congr {C D : σ → ε → Prop} {P : σ → Prop}
    (hiff : ∀ s e, P s → (C s e ↔ D s e))
    (hstep : ∀ s e s', P s → C s e → step s e = some s' → P s') (hs : P s) :
    StepsMeet step C s es ↔ StepsMeet step D s es := by
  constructor
  · exact StepsMeet.of_invariant (fun s e h => (hiff s e h).mp) hstep hs
  · exact StepsMeet.of_invariant (fun s e h => (hiff s e h).mpr)
      (fun s e s' h hD => hstep s e s' h ((hiff s e h).mpr hD)) hs

/-- Conditions that agree on the events of a run are met by it alike. -/
theorem stepsMeet_congr_of_mem {C D : σ → ε → Prop} (h : ∀ s, ∀ e ∈ es, C s e ↔ D s e) :
    StepsMeet step C s es ↔ StepsMeet step D s es := by
  induction es generalizing s with
  | nil => exact Iff.rfl
  | cons e es ih =>
    refine and_congr (h s e (List.mem_cons_self ..)) (forall_congr' fun s₁ => ?_)
    exact imp_congr_right fun _ => ih fun s e he => h s e (List.mem_cons_of_mem _ he)

/-- **First occurrence.** A property that fails at the start of a run and holds at its end comes to
hold at one of its steps. -/
theorem exec_first {P : σ → Prop} (hs : ¬ P s) (hs' : P s') (hrun : exec step s es = some s') :
    ∃ es₁ e es₂ s₁ s₂, es = es₁ ++ e :: es₂ ∧ exec step s es₁ = some s₁ ∧
      step s₁ e = some s₂ ∧ ¬ P s₁ ∧ P s₂ := by
  induction es generalizing s with
  | nil =>
    cases hrun
    exact absurd hs' hs
  | cons e es ih =>
    obtain ⟨s₁, hstep, hrest⟩ := exec_cons_eq_some.mp hrun
    by_cases hs₁ : P s₁
    · exact ⟨[], e, es, s, s₁, rfl, rfl, hstep, hs, hs₁⟩
    · obtain ⟨es₁, e', es₂, t₁, t₂, rfl, hrun₁, hstep₁, hnot, hP⟩ := ih hs₁ hrest
      refine ⟨e :: es₁, e', es₂, t₁, t₂, rfl, ?_, hstep₁, hnot, hP⟩
      exact exec_cons_eq_some.mpr ⟨s₁, hstep, hrun₁⟩

/-! ## Refinement -/

section

universe w

variable {τ : Type w} {spec : τ → ε → Option τ} {abs : σ → τ}

/-- Where a step can happen, the abstract one can, and has the same outcome. -/
def Simulates (step : σ → ε → Option σ) (spec : τ → ε → Option τ) (abs : σ → τ) (s : σ) (e : ε) :
    Prop :=
  ∀ s', step s e = some s' → spec (abs s) e = some (abs s')

/-- **Simulation rule.** A run each of whose steps the abstract ones simulate has an abstract run.
-/
theorem exec_of_simulates (h : StepsMeet step (Simulates step spec abs) s es)
    (hrun : exec step s es = some s') : exec spec (abs s) es = some (abs s') := by
  induction es generalizing s with
  | nil =>
    cases hrun
    rfl
  | cons e es ih =>
    obtain ⟨s₁, hstep, hrest⟩ := exec_cons_eq_some.mp hrun
    exact exec_cons_eq_some.mpr ⟨abs s₁, h.1 s₁ hstep, ih (h.2 s₁ hstep) hrest⟩

/-- A part at the start of a run meets what the run meets. -/
theorem StepsMeet.take {C : σ → ε → Prop} (h : StepsMeet step C s es) (n : ℕ) :
    StepsMeet step C s (es.take n) := by
  induction es generalizing s n with
  | nil => simpa using h
  | cons e es ih =>
    cases n with
    | zero => trivial
    | succ n => exact ⟨h.1, fun s₁ hs₁ => ih (h.2 s₁ hs₁) n⟩

/-- **Simulation is exact on prefixes.** Every prefix of a run has an abstract run with the same
outcome exactly where every step is simulated. -/
theorem exec_take_iff_simulates :
    (∀ n s', exec step s (es.take n) = some s' → exec spec (abs s) (es.take n) = some (abs s')) ↔
      StepsMeet step (Simulates step spec abs) s es := by
  constructor
  · intro h
    induction es generalizing s with
    | nil => trivial
    | cons e es ih =>
      have hfirst : Simulates step spec abs s e := by
        intro s₁ hstep
        have hone := h 1 s₁ (exec_cons_eq_some.mpr ⟨s₁, hstep, rfl⟩)
        obtain ⟨t₁, hspec, ht₁⟩ := exec_cons_eq_some.mp hone
        rw [hspec, Option.some.inj ht₁]
      refine ⟨hfirst, fun s₁ hstep => ih fun n s' hrun => ?_⟩
      have hmore := h (n + 1) s' (exec_cons_eq_some.mpr ⟨s₁, hstep, hrun⟩)
      obtain ⟨t₁, hspec, ht₁⟩ := exec_cons_eq_some.mp hmore
      rw [hfirst s₁ hstep] at hspec
      rwa [Option.some.inj hspec]
  · intro h n s' hrun
    exact exec_of_simulates (h.take n) hrun

end

end Transition
