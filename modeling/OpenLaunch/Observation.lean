import Mathlib.Logic.Function.DependsOn

/-! # What a computation sees of its argument

`f.FactorsThrough view` says that `f` sees of its argument no more than `view` shows. The rules here
follow the structure of a computation; `DependsOn` is the case where the argument is a family, and
the view its restriction to some of the indices. -/

namespace Function.FactorsThrough

universe u v w

variable {α : Type u} {ω : Type v} {β γ σ ι : Type w} {view : α → ω}

/-- What does not look at the argument. -/
theorem const (b : β) : (fun _ : α => b).FactorsThrough view := fun _ _ _ => rfl

/-- A member of a family, of which the view shows the members at some indices. -/
theorem eval {κ : Type u} {π : κ → Type v} {S : Set κ} {k : κ} (hk : k ∈ S) :
    (fun x : ∀ k, π k => x k).FactorsThrough (S.domRestrict (π := π)) :=
  fun _ _ h => congrFun h ⟨k, hk⟩

/-- What is computed from a result. -/
theorem map {f : α → β} (hf : f.FactorsThrough view) (op : β → γ) :
    (fun a => op (f a)).FactorsThrough view :=
  hf.comp_left op

/-- A branch on a condition that does not look at the argument. -/
theorem ite {c : Prop} [Decidable c] {f g : α → β} (hf : c → f.FactorsThrough view)
    (hg : ¬ c → g.FactorsThrough view) :
    (fun a => if c then f a else g a).FactorsThrough view := by
  intro a a' h
  by_cases hc : c
  · simpa only [if_pos hc] using hf hc h
  · simpa only [if_neg hc] using hg hc h

/-- A computation that goes on, with a result that does not look at the argument. -/
theorem bind_ok {ε : Type w} {x : Except ε β} {k : α → β → Except ε γ}
    (h : ∀ b, x = .ok b → (fun a => k a b).FactorsThrough view) :
    (fun a => x >>= k a).FactorsThrough view := by
  intro a a' ha
  cases x with
  | error e => rfl
  | ok b => exact h b rfl ha

/-- A computation that goes on. -/
theorem bind {m : Type w → Type w} [Monad m] {x : α → m β} {k : α → β → m γ}
    (hx : x.FactorsThrough view) (hk : ∀ b, (fun a => k a b).FactorsThrough view) :
    (fun a => x a >>= k a).FactorsThrough view := by
  intro a a' h
  have hcont : k a = k a' := funext fun b => hk b h
  show x a >>= k a = x a' >>= k a'
  rw [hx h, hcont]

/-- **A loop**: each iteration, from any state, sees no more than the view. -/
theorem foldlM {m : Type w → Type w} [Monad m] {f : α → σ → ι → m σ}
    (h : ∀ s i, (fun a => f a s i).FactorsThrough view) (s : σ) (xs : List ι) :
    (fun a => xs.foldlM (f a) s).FactorsThrough view := by
  induction xs generalizing s with
  | nil => exact const (pure s)
  | cons i xs ih =>
    simp only [List.foldlM_cons]
    exact (h s i).bind ih

end Function.FactorsThrough

/-! ## What a computation that may fail returns

`x.Returns P` says that what `x` returns, if it returns, satisfies `P`. The rules follow the
structure of the computation, and hand on which results the parts before had. -/

namespace Except

universe u v

variable {ε : Type u} {α β : Type v} {P : α → Prop} {Q : β → Prop}

/-- If the computation returns, its result satisfies `P`. -/
def Returns (x : Except ε α) (P : α → Prop) : Prop := ∀ a, x = .ok a → P a

namespace Returns

theorem pure {a : α} (h : P a) : Returns (Pure.pure a : Except ε α) P := by
  intro a' ha
  cases ha
  exact h

/-- A computation in two parts. -/
theorem bind {x : Except ε α} {k : α → Except ε β} (h : ∀ a, x = .ok a → Returns (k a) Q) :
    Returns (x >>= k) Q := by
  cases x with
  | error e => exact fun _ hb => nomatch hb
  | ok a => exact h a rfl

/-- A result that is changed. -/
theorem map {x : Except ε α} {f : α → β} (h : ∀ a, x = .ok a → Q (f a)) :
    Returns (f <$> x) Q := by
  cases x with
  | error e => exact fun _ hb => nomatch hb
  | ok a =>
    intro b hb
    cases hb
    exact h a rfl

theorem ite {c : Prop} [Decidable c] {x y : Except ε α} (hx : c → Returns x P)
    (hy : ¬ c → Returns y P) : Returns (if c then x else y) P := by
  by_cases hc : c
  · rw [if_pos hc]
    exact hx hc
  · rw [if_neg hc]
    exact hy hc

end Returns

end Except
