import OpenLaunch.Python.Json

/-! # Programs whose state survives exceptions

A Python function that mutates its state and may raise leaves, when it raises, the state as it is at
that point. `Py σ α` is such a function. A specification `Spec P m Q E` says that from a state in
`P` the program ends in `Q` or, when it raises, in a state in `E`; the rules below build the
specification of a program from those of its parts. -/

namespace Python

variable {σ α β : Type}

/-- A program over the state `σ` that returns an `α` or raises. -/
def Py (σ α : Type) : Type := σ → Except PyErr α × σ

namespace Py

instance : Monad (Py σ) where
  pure a := fun s => (.ok a, s)
  bind m f := fun s =>
    match m s with
    | (.ok a, s') => f a s'
    | (.error e, s') => (.error e, s')

/-- An expression that may raise and changes nothing. -/
def lift (r : Except PyErr α) : Py σ α := fun s => (r, s)

/-- A change of the state. -/
def update (f : σ → σ) : Py σ Unit := fun s => (.ok (), f s)

/-- What the state is. -/
def state : Py σ σ := fun s => (.ok s, s)

/-- `for x in xs: f(x)`. -/
def forEach (f : β → Py σ Unit) : List β → Py σ Unit
  | [] => pure ()
  | x :: xs => do
    f x
    forEach f xs

/-- A program on the second component of the state. -/
def second {ρ : Type} (m : Py σ α) : Py (ρ × σ) α := fun s => ((m s.2).1, (s.1, (m s.2).2))

theorem pure_apply (a : α) (s : σ) : (pure a : Py σ α) s = (.ok a, s) := rfl

theorem lift_apply (r : Except PyErr α) (s : σ) : (lift r : Py σ α) s = (r, s) := rfl

theorem update_apply (f : σ → σ) (s : σ) : update f s = (.ok (), f s) := rfl

/-- Going on after a part that returns. -/
theorem bind_ok {m : Py σ α} {f : α → Py σ β} {s s' : σ} {a : α} (h : m s = (.ok a, s')) :
    (m >>= f) s = f a s' := by
  show (match m s with | (.ok a, s') => f a s' | (.error e, s') => (.error e, s')) = f a s'
  rw [h]

/-- Going on after a part that raises. -/
theorem bind_error {m : Py σ α} {f : α → Py σ β} {s s' : σ} {e : PyErr} (h : m s = (.error e, s')) :
    (m >>= f) s = (.error e, s') := by
  show (match m s with | (.ok a, s') => f a s' | (.error e, s') => (.error e, s')) = _
  rw [h]

/-- Going on after an expression that returns. -/
theorem lift_bind {r : Except PyErr α} {a : α} (h : r = .ok a) (f : α → Py σ β) :
    lift r >>= f = f a := by
  rw [h]
  rfl

/-- Going on with the state. -/
theorem state_bind (f : σ → Py σ β) (s : σ) : (state >>= f) s = f s s := rfl

/-- Going on after a change of the state. -/
theorem update_bind (f : σ → σ) (g : Unit → Py σ β) (s : σ) : (update f >>= g) s = g () (f s) := rfl

/-- An expression that raises. -/
theorem lift_bind_error {r : Except PyErr α} {e : PyErr} (h : r = .error e) (f : α → Py σ β)
    (s : σ) : (lift r >>= f) s = (.error e, s) := by
  rw [h]
  rfl

/-- Where two parts of a program return. -/
theorem bind_eq_ok_iff {m : Py σ α} {f : α → Py σ β} {s s'' : σ} {b : β} :
    (m >>= f) s = (.ok b, s'') ↔ ∃ a s', m s = (.ok a, s') ∧ f a s' = (.ok b, s'') := by
  constructor
  · intro h
    cases hm : m s with
    | mk r s' =>
      cases r with
      | ok a =>
        rw [bind_ok hm] at h
        exact ⟨a, s', rfl, h⟩
      | error e =>
        rw [bind_error hm] at h
        cases h
  · rintro ⟨a, s', hm, h⟩
    rw [bind_ok hm, h]

theorem bind_assoc {γ : Type} (m : Py σ α) (f : α → Py σ β) (g : β → Py σ γ) :
    m >>= f >>= g = m >>= fun a => f a >>= g := by
  funext s
  cases hm : m s with
  | mk r s' =>
    cases r with
    | ok a =>
      rw [bind_ok hm]
      cases hf : f a s' with
      | mk r s'' =>
        cases r with
        | ok b => rw [bind_ok ((bind_ok hm).trans hf), bind_ok hf]
        | error e => rw [bind_error ((bind_ok hm).trans hf), bind_error hf]
    | error e => rw [bind_error hm, bind_error (bind_error hm)]

/-- A loop over two lists is the loop over the first and then over the second. -/
theorem forEach_append (f : β → Py σ Unit) (xs ys : List β) :
    forEach f (xs ++ ys) = (forEach f xs >>= fun _ => forEach f ys) := by
  induction xs with
  | nil => rfl
  | cons x xs ih =>
    show (f x >>= fun _ => forEach f (xs ++ ys)) =
      ((f x >>= fun _ => forEach f xs) >>= fun _ => forEach f ys)
    rw [ih, bind_assoc]

/-- **The specification of a program**: the states it may start in, return in and raise in. -/
def Spec (P : σ → Prop) (m : Py σ α) (Q : α → σ → Prop) (E : σ → Prop) : Prop :=
  ∀ s, P s → match m s with
    | (.ok a, s') => Q a s'
    | (.error _, s') => E s'

/-- A loop whose body follows what a reader makes of each item follows the fold of what is read. -/
theorem forEach_follows {γ ρ : Type} {f : β → Py σ Unit} {read : β → Except PyErr γ}
    {g : ρ → γ → ρ} {I : σ → ρ → Prop}
    (h : ∀ x c s r, read x = .ok c → I s r → ∃ s', f x s = (.ok (), s') ∧ I s' (g r c))
    {xs : List β} {cs : List γ} {s : σ} {r : ρ} (hread : xs.mapM read = .ok cs) (hs : I s r) :
    ∃ s', forEach f xs s = (.ok (), s') ∧ I s' (cs.foldl g r) := by
  induction xs generalizing cs s r with
  | nil =>
    cases hread
    exact ⟨s, rfl, hs⟩
  | cons x xs ih =>
    rw [List.mapM_cons] at hread
    obtain ⟨c, hc, hread⟩ := bind_eq_ok.mp hread
    obtain ⟨cs', hcs, hread⟩ := bind_eq_ok.mp hread
    cases hread
    obtain ⟨s₁, hrun, hs₁⟩ := h x c s r hc hs
    obtain ⟨s', hrest, hs'⟩ := ih hcs hs₁
    exact ⟨s', (bind_ok hrun).trans hrest, hs'⟩

variable {P P' : σ → Prop} {Q Q' : α → σ → Prop} {E E' : σ → Prop} {m : Py σ α}

theorem Spec.consequence (h : Spec P m Q E) (hP : ∀ s, P' s → P s) (hQ : ∀ a s, Q a s → Q' a s)
    (hE : ∀ s, E s → E' s) : Spec P' m Q' E' := by
  intro s hs
  have hm := h s (hP s hs)
  revert hm
  cases m s with
  | mk r s' =>
    cases r with
    | ok a => exact hQ a s'
    | error e => exact hE s'

/-- What a program keeps, however it ends. -/
theorem Spec.keep (h : ∀ s, P s → P (m s).2) : Spec P m (fun _ => P) P := by
  intro s hs
  have hm := h s hs
  revert hm
  cases m s with
  | mk r s' => cases r <;> exact id

theorem Spec.pure {a : α} (h : ∀ s, P s → Q a s) : Spec P (pure a) Q E := fun s hs => h s hs

/-- An expression that may raise. -/
theorem Spec.lift {r : Except PyErr α} (hQ : ∀ a s, r = .ok a → P s → Q a s)
    (hE : ∀ s, P s → E s) : Spec P (lift r) Q E := by
  intro s hs
  cases r with
  | ok a => exact hQ a s rfl hs
  | error e => exact hE s hs

theorem Spec.update {f : σ → σ} {Q : Unit → σ → Prop} (h : ∀ s, P s → Q () (f s)) :
    Spec P (update f) Q E := fun s hs => h s hs

theorem Spec.state {Q : σ → σ → Prop} (h : ∀ s, P s → Q s s) : Spec P state Q E :=
  fun s hs => h s hs

/-- **Sequencing.** -/
theorem Spec.bind {f : α → Py σ β} {R : β → σ → Prop} (hm : Spec P m Q E)
    (hf : ∀ a, Spec (Q a) (f a) R E) : Spec P (m >>= f) R E := by
  intro s hs
  have hm := hm s hs
  show match (match m s with | (.ok a, s') => f a s' | (.error e, s') => (.error e, s')) with
    | (.ok b, s') => R b s'
    | (.error _, s') => E s'
  revert hm
  cases m s with
  | mk r s' =>
    cases r with
    | ok a => exact fun h => hf a s' h
    | error e => exact id

/-- **Loops.** What the body keeps, the loop keeps. -/
theorem Spec.forEach {f : β → Py σ Unit} {xs : List β}
    (h : ∀ x ∈ xs, Spec P (f x) (fun _ => P) E) : Spec P (forEach f xs) (fun _ => P) E := by
  induction xs with
  | nil => exact Spec.pure fun _ hs => hs
  | cons x xs ih =>
    exact (h x List.mem_cons_self).bind fun _ => ih fun y hy => h y (List.mem_cons_of_mem x hy)

/-- Where a program that returns ends. -/
theorem Spec.returned (h : Spec P m Q E) {s s' : σ} {a : α} (hs : P s) (hrun : m s = (.ok a, s')) :
    Q a s' := by
  have hm := h s hs
  rw [hrun] at hm
  exact hm

/-- Where a program ends, whether it returns or raises. -/
theorem Spec.final {R : σ → Prop} (h : Spec P m Q E) (hQ : ∀ a s, Q a s → R s)
    (hE : ∀ s, E s → R s) {s : σ} (hs : P s) : R (m s).2 := by
  have hm := h s hs
  revert hm
  cases m s with
  | mk r s' =>
    cases r with
    | ok a => exact hQ a s'
    | error e => exact hE s'

end Py

end Python
