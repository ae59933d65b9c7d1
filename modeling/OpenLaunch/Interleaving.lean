import OpenLaunch.Transition

/-! # Runs that differ in the order of independent events

A family of classes of events says which events depend on each other: those that lie in a common
class. Events in no common class can be exchanged. Two runs with the same projection to every class
are then orders of the same events, and they end in the same state.

Exchanging is asked for only in states that meet the condition of both events, since an event such
as an update of an object needs the object to be there. -/

namespace Transition

universe u v w

variable {σ : Type u} {ε : Type v} {ι : Type w} {step : σ → ε → Option σ} {C : σ → ε → Prop}

/-- **Two events can be exchanged**: their order makes no difference, and each keeps the condition
of the other. -/
structure Exchanges (step : σ → ε → Option σ) (C : σ → ε → Prop) (e e' : ε) : Prop where
  comm : ∀ s, C s e → C s e' →
    ((step s e).bind fun s₁ => step s₁ e') = (step s e').bind fun s₁ => step s₁ e
  keeps : ∀ s s₁, C s e → C s e' → step s e = some s₁ → C s₁ e'
  keeps' : ∀ s s₁, C s e → C s e' → step s e' = some s₁ → C s₁ e

/-- It is symmetric. -/
theorem Exchanges.symm {e e' : ε} (h : Exchanges step C e e') : Exchanges step C e' e where
  comm s he' he := (h.comm s he he').symm
  keeps s s₁ he' he hstep := h.keeps' s s₁ he he' hstep
  keeps' s s₁ he' he hstep := h.keeps s s₁ he he' hstep

/-- An event moves to the front across events that it can be exchanged with. -/
theorem exec_moveFront {s : σ} {e : ε} {pre post : List ε}
    (hex : ∀ p ∈ pre, Exchanges step C p e) (he : C s e)
    (hmeet : StepsMeet step C s (pre ++ e :: post)) :
    exec step s (pre ++ e :: post) = exec step s (e :: (pre ++ post)) ∧
      StepsMeet step C s (e :: (pre ++ post)) := by
  induction pre generalizing s with
  | nil => exact ⟨rfl, hmeet⟩
  | cons p pre ih =>
    obtain ⟨hp, hrest⟩ := hmeet
    rw [List.forall_mem_cons] at hex
    have hcomm := hex.1.comm s hp he
    -- after `p` the event still moves to the front
    have hafter (s₁ : σ) (hs₁ : step s p = some s₁) :=
      ih hex.2 (hex.1.keeps s s₁ hp he hs₁) (hrest s₁ hs₁)
    constructor
    · calc exec step s (p :: (pre ++ e :: post))
          = (step s p).bind fun s₁ => exec step s₁ (pre ++ e :: post) := rfl
        _ = (step s p).bind fun s₁ => exec step s₁ (e :: (pre ++ post)) :=
            Option.bind_congr fun s₁ hs₁ => (hafter s₁ hs₁).1
        _ = ((step s p).bind fun s₁ => step s₁ e).bind fun s₂ => exec step s₂ (pre ++ post) := by
            rw [Option.bind_assoc]
            rfl
        _ = ((step s e).bind fun s₁ => step s₁ p).bind fun s₂ => exec step s₂ (pre ++ post) := by
            rw [hcomm]
        _ = exec step s (e :: (p :: pre ++ post)) := by
            rw [Option.bind_assoc]
            rfl
    · refine ⟨he, fun s₁ hs₁ => ⟨hex.1.keeps' s s₁ hp he hs₁, fun s₂ hs₂ => ?_⟩⟩
      rw [hs₁, Option.bind_some, hs₂] at hcomm
      obtain ⟨t, ht, hts₂⟩ := Option.bind_eq_some_iff.mp hcomm
      exact (hafter t ht).2.2 s₂ hts₂

/-- Runs with the same projections have the first event of one at the front of the other, after
events of other classes. -/
theorem exists_moved {Q : ι → ε → Bool} {e : ε} {es es' : List ε} {c : ι} (hc : Q c e = true)
    (hproj : ∀ c, (e :: es).filter (Q c) = es'.filter (Q c)) :
    ∃ pre post, es' = pre ++ e :: post ∧ (∀ p ∈ pre, ∀ c, ¬ (Q c p = true ∧ Q c e = true)) ∧
      ∀ c, es.filter (Q c) = (pre ++ post).filter (Q c) := by
  have hmem : e ∈ es' := by
    have : e ∈ es'.filter (Q c) := by
      rw [← hproj c, List.filter_cons_of_pos hc]
      exact List.mem_cons_self
    exact List.mem_of_mem_filter this
  -- the first occurrence of the event
  obtain ⟨pre, post, rfl, hfirst⟩ := List.eq_append_cons_of_mem hmem
  have hpre (c : ι) (hce : Q c e = true) : pre.filter (Q c) = [] := by
    have h := hproj c
    rw [List.filter_cons_of_pos hce, List.filter_append, List.filter_cons_of_pos hce] at h
    cases hfilter : pre.filter (Q c) with
    | nil => rfl
    | cons p ps =>
      rw [hfilter, List.cons_append, List.cons.injEq] at h
      have hp : p ∈ pre.filter (Q c) := by
        rw [hfilter]
        exact List.mem_cons_self
      exact absurd (h.1 ▸ List.mem_of_mem_filter hp) hfirst
  refine ⟨pre, post, rfl, fun p hp c hboth => ?_, fun c => ?_⟩
  · exact List.filter_eq_nil_iff.mp (hpre c hboth.2) p hp hboth.1
  · have h := hproj c
    rw [List.filter_append] at h ⊢
    by_cases hce : Q c e = true
    · rw [hpre c hce, List.filter_cons_of_pos hce, List.filter_cons_of_pos hce] at h
      rw [hpre c hce]
      exact (List.cons.inj h).2
    · rwa [List.filter_cons_of_neg hce, List.filter_cons_of_neg hce] at h

/-- **Projection rule.** Where events in no common class can be exchanged, runs with the same
projection to every class end in the same state. -/
theorem exec_eq_of_projections {Q : ι → ε → Bool} {s : σ} {es es' : List ε}
    (hex : ∀ e e', (∀ c, ¬ (Q c e = true ∧ Q c e' = true)) → Exchanges step C e e')
    (hcover : ∀ s e, C s e → ∃ c, Q c e = true)
    (hes : StepsMeet step C s es) (hes' : StepsMeet step C s es')
    (hproj : ∀ c, es.filter (Q c) = es'.filter (Q c)) :
    exec step s es = exec step s es' := by
  induction es generalizing s es' with
  | nil =>
    cases es' with
    | nil => rfl
    | cons e' es' =>
      obtain ⟨c, hc⟩ := hcover s e' hes'.1
      have h := hproj c
      rw [List.filter_cons_of_pos hc] at h
      cases h
  | cons e es ih =>
    obtain ⟨c, hc⟩ := hcover s e hes.1
    obtain ⟨pre, post, rfl, hpre, hrest⟩ := exists_moved hc hproj
    obtain ⟨hmoved, hmeet⟩ := exec_moveFront (fun p hp => hex p e (hpre p hp)) hes.1 hes'
    rw [hmoved, exec_cons, exec_cons]
    exact Option.bind_congr fun s₁ hs₁ => ih (hes.2 s₁ hs₁) (hmeet.2 s₁ hs₁) hrest

end Transition
