import Mathlib.Data.List.Infix
import Mathlib.Logic.Function.Basic
import Mathlib.Tactic.Ring

/-! # Replacing text

`s.replace(p, r)` replaces the occurrences of a text `p`, from left to right. A text with *holes* is
filled by giving a text for each hole. Replacing the text of one hole in a filled text is filling that
hole with the replacement, as long as no occurrence of the text is made by what is around it. That is
what *touching* is about: a text touches a pattern if the pattern can occur over a part of it. -/

namespace Python

universe u v

variable {α : Type u} [DecidableEq α] {p r s t : List α} {a : α}

/-! ## Replacement -/

/-- Replacing in a text the first characters of which are skipped. -/
def replaceFrom (p r : List α) : ℕ → List α → List α
  | _, [] => []
  | k + 1, _ :: s => replaceFrom p r k s
  | 0, a :: s =>
    if p.isPrefixOf (a :: s) then r ++ replaceFrom p r (p.length - 1) s
    else a :: replaceFrom p r 0 s

/-- `s.replace(p, r)`, for a text `p` that is not empty. -/
def replace (p r s : List α) : List α := replaceFrom p r 0 s

theorem replaceFrom_eq_drop (p r : List α) (k : ℕ) (s : List α) :
    replaceFrom p r k s = replace p r (s.drop k) := by
  induction k generalizing s with
  | zero => rfl
  | succ k ih =>
    cases s with
    | nil => rfl
    | cons a s => exact ih s

@[simp] theorem replace_nil (p r : List α) : replace p r [] = [] := rfl

theorem replace_append (hp : p ≠ []) (r s : List α) :
    replace p r (p ++ s) = r ++ replace p r s := by
  obtain ⟨a, p, rfl⟩ := List.exists_cons_of_ne_nil hp
  rw [List.cons_append, replace, replaceFrom, if_pos]
  · rw [replaceFrom_eq_drop, List.length_cons, Nat.add_sub_cancel, List.drop_left]
  · rw [List.isPrefixOf_iff_prefix, ← List.cons_append]
    exact List.prefix_append _ _

theorem replace_cons (h : ¬ p <+: a :: s) : replace p r (a :: s) = a :: replace p r s := by
  rw [replace, replaceFrom, if_neg (by rwa [List.isPrefixOf_iff_prefix])]
  rfl

/-- Induction along the occurrences that are replaced. -/
theorem replace_induction {P : List α → Prop} (hp : p ≠ []) (nil : P [])
    (found : ∀ s, P s → P (p ++ s)) (cons : ∀ a s, ¬ p <+: a :: s → P s → P (a :: s))
    (s : List α) : P s := by
  induction hn : s.length using Nat.strong_induction_on generalizing s with
  | _ n ih =>
    cases s with
    | nil => exact nil
    | cons a s =>
      by_cases h : p <+: a :: s
      · obtain ⟨t, ht⟩ := h
        rw [← ht]
        refine found t (ih t.length ?_ t rfl)
        rw [← hn, ← ht, List.length_append]
        have := List.length_pos_iff.mpr hp
        omega
      · refine cons a s h (ih s.length ?_ s rfl)
        rw [← hn, List.length_cons]
        omega

/-- What does not occur is not replaced. -/
theorem replace_of_absent (r : List α) (h : ¬ p <:+: s) : replace p r s = s := by
  induction s with
  | nil => rfl
  | cons a s ih =>
    rw [List.infix_cons_iff, not_or] at h
    rw [replace_cons h.1, ih h.2]

/-- Replacing a text by itself changes nothing. -/
theorem replace_self (hp : p ≠ []) (s : List α) : replace p p s = s := by
  induction s using replace_induction hp with
  | nil => rfl
  | found s ih => rw [replace_append hp, ih]
  | cons a s h ih => rw [replace_cons h, ih]

/-- The length of the result tells the number of the occurrences. -/
theorem exists_length_replace (hp : p ≠ []) (r s : List α) :
    ∃ n, (replace p r s).length + n * p.length = s.length + n * r.length ∧ (p <:+: s → 0 < n) := by
  induction s using replace_induction hp with
  | nil => exact ⟨0, by simp, fun h => absurd (List.infix_nil.mp h) hp⟩
  | found s ih =>
    obtain ⟨n, hn, -⟩ := ih
    refine ⟨n + 1, ?_, fun _ => Nat.succ_pos n⟩
    rw [replace_append hp, List.length_append, List.length_append, Nat.add_mul, Nat.add_mul]
    omega
  | cons a s h ih =>
    obtain ⟨n, hn, hpos⟩ := ih
    refine ⟨n, ?_, fun hoccurs => hpos ((List.infix_cons_iff.mp hoccurs).resolve_left h)⟩
    rw [replace_cons h, List.length_cons, List.length_cons]
    omega

/-- **A replacement changes a text** in which the replaced text occurs, unless it is replaced by
itself. -/
theorem replace_ne_of_infix (hp : p ≠ []) (hr : r ≠ p) (h : p <:+: s) : replace p r s ≠ s := by
  intro heq
  have hlength : r.length = p.length := by
    obtain ⟨n, hn, hpos⟩ := exists_length_replace hp r s
    rw [heq] at hn
    exact (Nat.eq_of_mul_eq_mul_left (hpos h) (Nat.add_left_cancel hn)).symm
  induction s using replace_induction hp with
  | nil => exact hp (List.infix_nil.mp h)
  | found s ih =>
    rw [replace_append hp] at heq
    exact hr (List.append_inj_left heq hlength)
  | cons a s hnot ih =>
    rw [replace_cons hnot] at heq
    exact ih ((List.infix_cons_iff.mp h).resolve_left hnot) (List.cons.inj heq).2

/-! ## Touching -/

omit [DecidableEq α] in
/-- A prefix of two texts ends in the first, or has all of it. -/
theorem prefix_append_cases (h : p <+: s ++ t) : p <+: s ∨ ∃ v, v ≠ [] ∧ p = s ++ v ∧ v <+: t := by
  rcases List.prefix_or_prefix_of_prefix h (List.prefix_append s t) with hs | ⟨v, rfl⟩
  · exact Or.inl hs
  · by_cases hv : v = []
    · exact Or.inl (by simp [hv])
    · exact Or.inr ⟨v, hv, rfl, (List.prefix_append_right_inj s).mp h⟩

/-- A text touches a pattern: the pattern can occur over a part of the text, with text around it. -/
def Touches (p c : List α) : Prop :=
  p <:+: c ∨ c <:+: p ∨ (∃ v ∈ c.tails, v ≠ [] ∧ v <+: p) ∨ ∃ v ∈ p.tails, v ≠ [] ∧ v <+: c

instance (p c : List α) : Decidable (Touches p c) :=
  inferInstanceAs (Decidable (_ ∨ _ ∨ (∃ v ∈ c.tails, v ≠ [] ∧ v <+: p) ∨
    ∃ v ∈ p.tails, v ≠ [] ∧ v <+: c))

/-- A pattern that overlaps with itself only as a whole. -/
def Unbordered (p : List α) : Prop := ∀ v ∈ p.tails, v ≠ [] → v <+: p → v = p

instance (p : List α) : Decidable (Unbordered p) :=
  inferInstanceAs (Decidable (∀ v ∈ p.tails, v ≠ [] → v <+: p → v = p))

omit [DecidableEq α] in
/-- The rest of a pattern does not start with the pattern again. -/
theorem Unbordered.not_prefix {v : List α} (hp : Unbordered p) (hs : s ≠ []) (hv : v ≠ [])
    (heq : p = s ++ v) (t : List α) : ¬ v <+: p ++ t := by
  intro h
  have hlength := congrArg List.length heq
  have hpos := List.length_pos_iff.mpr hs
  rw [List.length_append] at hlength
  rcases prefix_append_cases h with hstarts | ⟨w, -, hw, -⟩
  · have hwhole := hp v ((List.mem_tails v p).mpr ⟨s, heq.symm⟩) hv hstarts
    rw [hwhole] at hlength
    omega
  · rw [hw, List.length_append] at hlength
    omega

omit [DecidableEq α] in
/-- A text that touches a pattern has texts around it, parts of the pattern, with which the pattern
occurs. -/
theorem Touches.exists_around {c : List α} (h : Touches p c) (hp : 2 ≤ p.length) :
    ∃ x y, x <+: p ∧ y <:+ p ∧ x.length < p.length ∧ y.length < p.length ∧
      p <:+: x ++ c ++ y := by
  rcases h with h | ⟨x, y, h⟩ | ⟨v, hv, hne, y, hy⟩ | ⟨v, hv, hne, t, ht⟩
  · exact ⟨[], [], List.nil_prefix, List.nil_suffix, by simp; omega, by simp; omega, by simpa⟩
  · by_cases hc : c = []
    · subst hc
      obtain ⟨a, q, rfl⟩ := List.exists_cons_of_length_pos (by omega : 0 < p.length)
      rw [List.length_cons] at hp
      exact ⟨[a], q, ⟨q, rfl⟩, ⟨[a], rfl⟩, by simp; omega, by simp, by simp⟩
    · have hpos := List.length_pos_iff.mpr hc
      have hlength := congrArg List.length h
      simp only [List.length_append] at hlength
      exact ⟨x, y, ⟨c ++ y, by simpa using h⟩, ⟨x ++ c, h⟩, by omega, by omega,
        h ▸ List.infix_refl _⟩
  · obtain ⟨w, rfl⟩ := (List.mem_tails v c).mp hv
    have hpos := List.length_pos_iff.mpr hne
    have hlength := congrArg List.length hy
    rw [List.length_append] at hlength
    exact ⟨[], y, List.nil_prefix, ⟨v, hy⟩, by simp; omega, by omega, w, [], by simp [← hy]⟩
  · obtain ⟨x, rfl⟩ := (List.mem_tails v p).mp hv
    have hpos := List.length_pos_iff.mpr hne
    rw [List.length_append] at hp ⊢
    exact ⟨x, [], ⟨v, rfl⟩, List.nil_suffix, by omega, by simp; omega, [], t, by simp [← ht]⟩

omit [DecidableEq α] in
/-- A pattern that occurs in a text with others around it touches the text, or occurs in one of the
others. -/
theorem touches_of_infix_around {x c y : List α} (h : p <:+: x ++ c ++ y) :
    Touches p c ∨ p <:+: x ∨ p <:+: y := by
  rw [List.append_assoc] at h
  rcases List.infix_append_iff_ne_nil.mp h with h | h | ⟨l₁, l₂, -, hl₂, rfl, -, hstarts⟩
  · exact Or.inr (Or.inl h)
  · rcases List.infix_append_iff_ne_nil.mp h with h | h | ⟨l₁, l₂, hl₁, -, rfl, hsuffix, -⟩
    · exact Or.inl (Or.inl h)
    · exact Or.inr (Or.inr h)
    · exact Or.inl (Or.inr (Or.inr (Or.inl
        ⟨l₁, (List.mem_tails l₁ c).mpr hsuffix, hl₁, List.prefix_append l₁ l₂⟩)))
  · refine Or.inl ?_
    rcases prefix_append_cases hstarts with hstarts | ⟨v, -, rfl, -⟩
    · exact Or.inr (Or.inr (Or.inr
        ⟨l₂, (List.mem_tails l₂ _).mpr (List.suffix_append l₁ l₂), hl₂, hstarts⟩))
    · exact Or.inr (Or.inl ⟨l₁, v, by rw [List.append_assoc]⟩)

/-- A pattern that starts before a replaced text does so before the text itself, unless the
replacement touches it. -/
theorem prefix_of_prefix_replace {q : List α} (hq : q ≠ []) (h : ¬ Touches p r) {s u : List α}
    (hstarts : p <+: u ++ replace q r s) : p <+: u ++ s := by
  induction s using replace_induction hq generalizing u with
  | nil => exact hstarts
  | found s ih =>
    rw [replace_append hq] at hstarts
    rcases prefix_append_cases hstarts with hu | ⟨v, hv, rfl, hv'⟩
    · exact hu.trans (List.prefix_append _ _)
    · exfalso
      rcases prefix_append_cases hv' with hv' | ⟨w, -, rfl, -⟩
      · exact h (Or.inr (Or.inr (Or.inr
          ⟨v, (List.mem_tails v _).mpr (List.suffix_append u v), hv, hv'⟩)))
      · exact h (Or.inr (Or.inl ⟨u, w, by rw [List.append_assoc]⟩))
  | cons a s hnot ih =>
    rw [replace_cons hnot, ← List.singleton_append, ← List.append_assoc] at hstarts
    have := ih hstarts
    rwa [List.append_assoc] at this

/-- **A replacement makes no pattern that does not touch it.** -/
theorem not_infix_replace {q : List α} (hq : q ≠ []) (h : ¬ Touches p r) {s : List α}
    (hs : ¬ p <:+: s) : ¬ p <:+: replace q r s := by
  intro hoccurs
  apply hs
  clear hs
  induction s using replace_induction hq with
  | nil => exact hoccurs
  | found s ih =>
    rw [replace_append hq] at hoccurs
    rcases List.infix_append_iff_ne_nil.mp hoccurs with hin | hin | ⟨l₁, l₂, hl₁, -, rfl, hsuffix, -⟩
    · exact absurd (Or.inl hin) h
    · exact List.infix_append_of_infix_right (ih hin)
    · exact absurd (Or.inr (Or.inr (Or.inl
        ⟨l₁, (List.mem_tails l₁ r).mpr hsuffix, hl₁, List.prefix_append l₁ l₂⟩))) h
  | cons a s hnot ih =>
    rw [replace_cons hnot] at hoccurs
    rcases List.infix_cons_iff.mp hoccurs with hin | hin
    · rw [← List.singleton_append] at hin
      exact (prefix_of_prefix_replace hq h hin).isInfix
    · exact List.infix_cons (ih hin)

/-! ## Filling holes -/

/-- A piece of a text with holes. -/
inductive Piece (α : Type u) (ι : Type v)
  | lit (a : α)
  | hole (i : ι)
  deriving DecidableEq

namespace Piece

variable {ι : Type v} [DecidableEq ι] {σ : ι → List α} {i j : ι} {pieces : List (Piece α ι)}

/-- The text with the holes filled. -/
def fill (σ : ι → List α) : List (Piece α ι) → List α
  | [] => []
  | .lit a :: pieces => a :: fill σ pieces
  | .hole i :: pieces => σ i ++ fill σ pieces

omit [DecidableEq α] [DecidableEq ι] in
theorem fill_append (σ : ι → List α) (ps qs : List (Piece α ι)) :
    fill σ (ps ++ qs) = fill σ ps ++ fill σ qs := by
  induction ps with
  | nil => rfl
  | cons piece ps ih =>
    cases piece with
    | lit a => rw [List.cons_append, fill, ih, fill, List.cons_append]
    | hole i => rw [List.cons_append, fill, ih, fill, List.append_assoc]

omit [DecidableEq α] [DecidableEq ι] in
@[simp] theorem fill_map_lit (σ : ι → List α) (s : List α) : fill σ (s.map .lit) = s := by
  induction s with
  | nil => rfl
  | cons a s ih => rw [List.map_cons, fill, ih]

/-- The occurrences of a pattern start at holes of one kind only. -/
def OnlyAt (p : List α) (j : ι) (σ : ι → List α) : List (Piece α ι) → Prop
  | [] => True
  | .lit a :: pieces => ¬ p <+: a :: fill σ pieces ∧ OnlyAt p j σ pieces
  | .hole i :: pieces =>
    (i ≠ j → ∀ s, s ≠ [] → s <:+ σ i → ¬ p <+: s ++ fill σ pieces) ∧ OnlyAt p j σ pieces

omit [DecidableEq ι] in
theorem replace_skip (r : List α) {s t : List α}
    (h : ∀ u, u ≠ [] → u <:+ s → ¬ p <+: u ++ t) : replace p r (s ++ t) = s ++ replace p r t := by
  induction s with
  | nil => rfl
  | cons a s ih =>
    have hnot := h (a :: s) (List.cons_ne_nil _ _) (List.suffix_refl _)
    rw [List.cons_append] at hnot ⊢
    rw [replace_cons hnot, ih fun u hu hsuffix => h u hu (hsuffix.trans (List.suffix_cons _ _)),
      List.cons_append]

/-- **Replacing the text of a hole fills it anew**, if the text occurs at the holes only. -/
theorem replace_fill (hp : σ j ≠ []) (r : List α) (h : OnlyAt (σ j) j σ pieces) :
    replace (σ j) r (fill σ pieces) = fill (Function.update σ j r) pieces := by
  induction pieces with
  | nil => rfl
  | cons piece pieces ih =>
    cases piece with
    | lit a => rw [fill, fill, replace_cons h.1, ih h.2]
    | hole i =>
      rw [fill, fill]
      by_cases hi : i = j
      · rw [hi, replace_append hp, ih h.2, Function.update_self]
      · rw [replace_skip r (h.1 hi), ih h.2, Function.update_of_ne hi]

/-- No stretch between the holes has the text. -/
def FreeOf (p : List α) (pieces : List (Piece α ι)) : Prop :=
  ∀ pre s post, pieces = pre ++ s.map .lit ++ post → ¬ p <:+: s

omit [DecidableEq α] [DecidableEq ι] in
theorem FreeOf.tail {piece : Piece α ι} (h : FreeOf p (piece :: pieces)) : FreeOf p pieces := by
  rintro pre s post rfl
  exact h (piece :: pre) s post rfl

omit [DecidableEq α] in
/-- An occurrence of a pattern that starts before a filled text ends before its first hole. -/
theorem prefix_lits_of_prefix_fill (hp : Unbordered (σ j))
    (htouch : ∀ i, .hole i ∈ pieces → i ≠ j → ¬ Touches (σ j) (σ i)) {s : List α} (hs : s ≠ [])
    (h : σ j <+: s ++ fill σ pieces) :
    ∃ lits post, pieces = lits.map .lit ++ post ∧ σ j <+: s ++ lits := by
  induction pieces generalizing s with
  | nil => exact ⟨[], [], rfl, h⟩
  | cons piece pieces ih =>
    have htail : ∀ i, .hole i ∈ pieces → i ≠ j → ¬ Touches (σ j) (σ i) :=
      fun i hi => htouch i (List.mem_cons_of_mem _ hi)
    cases piece with
    | lit a =>
      rw [fill, ← List.singleton_append, ← List.append_assoc] at h
      obtain ⟨lits, post, rfl, hstarts⟩ := ih htail (by simp) h
      exact ⟨a :: lits, post, rfl, by simpa using hstarts⟩
    | hole i =>
      refine ⟨[], .hole i :: pieces, rfl, ?_⟩
      rw [List.append_nil]
      rw [fill] at h
      rcases prefix_append_cases h with hstarts | ⟨v, hv, heq, hstarts⟩
      · exact hstarts
      · have hsuffix : v <:+ σ j := ⟨s, heq.symm⟩
        by_cases hi : i = j
        · subst hi
          exact absurd hstarts (hp.not_prefix hs hv heq _)
        · refine absurd ?_ (htouch i List.mem_cons_self hi)
          rcases prefix_append_cases hstarts with hstarts | ⟨w, -, rfl, -⟩
          · exact Or.inr (Or.inr (Or.inr ⟨v, (List.mem_tails v _).mpr hsuffix, hv, hstarts⟩))
          · exact Or.inr (Or.inl ⟨s, w, by rw [heq, List.append_assoc]⟩)

omit [DecidableEq α] in
/-- **A pattern occurs at its holes only**, if it does not occur between the holes and what fills the
others does not touch it. -/
theorem onlyAt_of_not_touches (hp : Unbordered (σ j)) (hfree : FreeOf (σ j) pieces)
    (htouch : ∀ i, .hole i ∈ pieces → i ≠ j → ¬ Touches (σ j) (σ i)) :
    OnlyAt (σ j) j σ pieces := by
  induction pieces with
  | nil => trivial
  | cons piece pieces ih =>
    have htail : ∀ i, .hole i ∈ pieces → i ≠ j → ¬ Touches (σ j) (σ i) :=
      fun i hi => htouch i (List.mem_cons_of_mem _ hi)
    cases piece with
    | lit a =>
      refine ⟨fun h => ?_, ih hfree.tail htail⟩
      obtain ⟨lits, post, rfl, hstarts⟩ :=
        prefix_lits_of_prefix_fill hp htail (List.cons_ne_nil a []) h
      exact hfree [] (a :: lits) post rfl hstarts.isInfix
    | hole i =>
      refine ⟨fun hi s hs hsuffix h => ?_, ih hfree.tail htail⟩
      refine htouch i List.mem_cons_self hi ?_
      rcases prefix_append_cases h with hstarts | ⟨v, -, heq, -⟩
      · exact Or.inl (hstarts.isInfix.trans hsuffix.isInfix)
      · exact Or.inr (Or.inr (Or.inl ⟨s, (List.mem_tails s _).mpr hsuffix, hs, v, heq.symm⟩))

omit [DecidableEq α] in
/-- An occurrence of a pattern that starts before a filled text does not reach what fills the holes of
the pattern. -/
theorem prefix_fill_update (hp : Unbordered (σ j)) {s : List α} (hs : s ≠ [])
    (h : σ j <+: s ++ fill σ pieces) (r : List α) :
    σ j <+: s ++ fill (Function.update σ j r) pieces := by
  induction pieces generalizing s with
  | nil => exact h
  | cons piece pieces ih =>
    cases piece with
    | lit a =>
      rw [fill, ← List.singleton_append, ← List.append_assoc] at h ⊢
      exact ih (by simp) h
    | hole i =>
      rw [fill] at h ⊢
      by_cases hi : i = j
      · subst hi
        rcases prefix_append_cases h with hstarts | ⟨v, hv, heq, hstarts⟩
        · exact hstarts.trans (List.prefix_append _ _)
        · exact absurd hstarts (hp.not_prefix hs hv heq _)
      · rw [Function.update_of_ne hi]
        rw [← List.append_assoc] at h ⊢
        exact ih (by simp [hs]) h

omit [DecidableEq α] in
/-- **A fresh pattern occurs at its holes only**: it does not occur where they are filled otherwise. -/
theorem onlyAt_of_fresh (hp : Unbordered (σ j)) {r : List α}
    (hfresh : ¬ σ j <:+: fill (Function.update σ j r) pieces) : OnlyAt (σ j) j σ pieces := by
  induction pieces with
  | nil => trivial
  | cons piece pieces ih =>
    cases piece with
    | lit a =>
      rw [fill] at hfresh
      refine ⟨fun h => hfresh ?_, ih fun h => hfresh (List.infix_cons h)⟩
      exact (prefix_fill_update hp (List.cons_ne_nil a []) h r).isInfix
    | hole i =>
      rw [fill] at hfresh
      refine ⟨fun hi s hs hsuffix h => hfresh ?_,
        ih fun h => hfresh (List.infix_append_of_infix_right h)⟩
      rw [Function.update_of_ne hi]
      obtain ⟨w, hw⟩ := hsuffix
      rw [← hw, List.append_assoc]
      exact List.infix_append_of_infix_right (prefix_fill_update hp hs h r).isInfix

omit [DecidableEq α] [DecidableEq ι] in
/-- A text with one hole has no pattern between the holes that is not before or after it. -/
theorem freeOf_around (i : ι) {x y : List α} (hx : ¬ p <:+: x) (hy : ¬ p <:+: y) :
    FreeOf p (x.map .lit ++ .hole i :: y.map .lit) := by
  intro pre s post heq hoccurs
  have hlits : ∀ a : Piece α ι, a ∈ s.map .lit → a ≠ .hole i := by
    intro a ha
    obtain ⟨b, -, rfl⟩ := List.mem_map.mp ha
    simp
  have hof {z : List α} (h : s.map (@lit α ι) <:+: z.map lit) : s <:+: z := by
    obtain ⟨l, hl, heq⟩ := List.infix_map_iff.mp h
    rwa [List.map_injective_iff.mpr (fun _ _ h => by injection h) heq]
  have hs : s.map lit <:+: x.map lit ++ hole i :: y.map lit := ⟨pre, post, heq.symm⟩
  rcases List.infix_append_iff_ne_nil.mp hs with h | h | ⟨l₁, l₂, -, hl₂, hl, -, hstarts⟩
  · exact hx (hoccurs.trans (hof h))
  · rcases List.infix_cons_iff.mp h with h | h
    · cases s with
      | nil => exact hx (by rw [List.infix_nil.mp hoccurs]; exact List.nil_infix)
      | cons a s => exact hlits _ List.mem_cons_self (List.cons_prefix_cons.mp h).1
    · exact hy (hoccurs.trans (hof h))
  · obtain ⟨a, l₂, rfl⟩ := List.exists_cons_of_ne_nil hl₂
    exact hlits a (by rw [hl]; simp) (List.cons_prefix_cons.mp hstarts).1

/-! ## Reading a text with holes -/

variable {P : ι → List α} {kinds : List ι}

/-- The pieces of a text the first characters of which are skipped. -/
def parseFrom (P : ι → List α) (kinds : List ι) : ℕ → List α → List (Piece α ι)
  | _, [] => []
  | k + 1, _ :: s => parseFrom P kinds k s
  | 0, a :: s =>
    match kinds.find? fun i => (P i).isPrefixOf (a :: s) with
    | some i => .hole i :: parseFrom P kinds ((P i).length - 1) s
    | none => .lit a :: parseFrom P kinds 0 s

/-- The pieces of a text: it has a hole wherever one of the patterns occurs. -/
def parse (P : ι → List α) (kinds : List ι) (s : List α) : List (Piece α ι) :=
  parseFrom P kinds 0 s

omit [DecidableEq ι] in
theorem parseFrom_eq_drop (k : ℕ) (s : List α) :
    parseFrom P kinds k s = parse P kinds (s.drop k) := by
  induction k generalizing s with
  | zero => rfl
  | succ k ih =>
    cases s with
    | nil => rfl
    | cons a s => exact ih s

omit [DecidableEq ι] in
theorem parse_lit (h : ∀ i ∈ kinds, ¬ P i <+: a :: s) :
    parse P kinds (a :: s) = .lit a :: parse P kinds s := by
  rw [parse, parseFrom]
  split
  · next i hi =>
    have hstarts := List.find?_some hi
    rw [List.isPrefixOf_iff_prefix] at hstarts
    exact absurd hstarts (h i (List.mem_of_find?_eq_some hi))
  · rfl

/-- Patterns that are not empty, and do not overlap with themselves or each other. -/
structure Separate (P : ι → List α) : Prop where
  ne_nil : ∀ i, P i ≠ []
  unbordered : ∀ i, Unbordered (P i)
  apart : ∀ i j, i ≠ j → ¬ Touches (P i) (P j)

omit [DecidableEq α] [DecidableEq ι] in
/-- Only one of the patterns starts a text. -/
theorem Separate.eq_of_prefix (h : Separate P) {i j : ι} (hi : P i <+: s) (hj : P j <+: s) :
    i = j := by
  by_contra hne
  rcases List.prefix_or_prefix_of_prefix hi hj with hstarts | hstarts
  · exact h.apart i j hne (Or.inl hstarts.isInfix)
  · exact h.apart i j hne (Or.inr (Or.inl hstarts.isInfix))

omit [DecidableEq ι] in
theorem parse_hole (h : Separate P) {i : ι} (hi : i ∈ kinds) (s : List α) :
    parse P kinds (P i ++ s) = .hole i :: parse P kinds s := by
  obtain ⟨a, p, hp⟩ := List.exists_cons_of_ne_nil (h.ne_nil i)
  have hstarts : P i <+: a :: (p ++ s) := ⟨s, by rw [hp]; rfl⟩
  rw [hp, List.cons_append, parse, parseFrom]
  split
  · next j hj =>
    have hstarts' := List.find?_some hj
    rw [List.isPrefixOf_iff_prefix] at hstarts'
    rw [h.eq_of_prefix hstarts' hstarts, parseFrom_eq_drop, hp, List.length_cons,
      Nat.add_sub_cancel, List.drop_left]
  · next hnone =>
    have hnot := List.find?_eq_none.mp hnone i hi
    rw [List.isPrefixOf_iff_prefix] at hnot
    exact absurd hstarts hnot

variable (kinds) in
omit [DecidableEq ι] in
/-- Induction along the pieces of a text. -/
theorem parse_induction {Q : List α → Prop} (h : Separate P) (nil : Q [])
    (hole : ∀ i ∈ kinds, ∀ s, Q s → Q (P i ++ s))
    (lit : ∀ a s, (∀ i ∈ kinds, ¬ P i <+: a :: s) → Q s → Q (a :: s)) (s : List α) : Q s := by
  induction hn : s.length using Nat.strong_induction_on generalizing s with
  | _ n ih =>
    cases s with
    | nil => exact nil
    | cons a s =>
      by_cases hex : ∃ i ∈ kinds, P i <+: a :: s
      · obtain ⟨i, hi, t, ht⟩ := hex
        rw [← ht]
        refine hole i hi t (ih t.length ?_ t rfl)
        rw [← hn, ← ht, List.length_append]
        have := List.length_pos_iff.mpr (h.ne_nil i)
        omega
      · refine lit a s (fun i hi hstarts => hex ⟨i, hi, hstarts⟩) (ih s.length ?_ s rfl)
        rw [← hn, List.length_cons]
        omega

omit [DecidableEq ι] in
/-- **A text is its pieces**, with the patterns in the holes. -/
theorem fill_parse (h : Separate P) (s : List α) : fill P (parse P kinds s) = s := by
  induction s using parse_induction kinds h with
  | nil => rfl
  | hole i hi s ih => rw [parse_hole h hi, fill, ih]
  | lit a s hnot ih => rw [parse_lit hnot, fill, ih]

omit [DecidableEq α] [DecidableEq ι] in
theorem freeOf_of_onlyAt (hp : p ≠ []) (h : OnlyAt p j σ pieces) : FreeOf p pieces := by
  rintro pre s post rfl hoccurs
  induction pre with
  | nil =>
    induction s with
    | nil => exact hp (List.infix_nil.mp hoccurs)
    | cons a s ih =>
      rcases List.infix_cons_iff.mp hoccurs with hstarts | hoccurs
      · apply h.1
        show p <+: a :: fill σ (s.map .lit ++ post)
        rw [fill_append, fill_map_lit, ← List.cons_append]
        exact hstarts.trans (List.prefix_append _ _)
      · exact ih hoccurs h.2
  | cons piece pre ih =>
    cases piece with
    | lit a => exact ih h.2
    | hole i => exact ih h.2

omit [DecidableEq ι] in
/-- The pieces of a text have no pattern between the holes. -/
theorem freeOf_parse (h : Separate P) {i : ι} (hi : i ∈ kinds) (s : List α) :
    FreeOf (P i) (parse P kinds s) := by
  have honly : OnlyAt (P i) i P (parse P kinds s) := by
    induction s using parse_induction kinds h with
    | nil => trivial
    | hole k hk s ih =>
      rw [parse_hole h hk]
      refine ⟨fun hki u hu hsuffix hstarts => h.apart i k (Ne.symm hki) ?_, ih⟩
      rcases prefix_append_cases hstarts with hstarts | ⟨v, -, heq, -⟩
      · exact Or.inl (hstarts.isInfix.trans hsuffix.isInfix)
      · exact Or.inr (Or.inr (Or.inl ⟨u, (List.mem_tails u _).mpr hsuffix, hu, v, heq.symm⟩))
    | lit a s hnot ih =>
      rw [parse_lit hnot]
      refine ⟨?_, ih⟩
      rw [fill_parse h]
      exact hnot i hi
  exact freeOf_of_onlyAt (h.ne_nil i) honly

/-- **Pieces are read back**, if no pattern occurs between the holes. -/
theorem parse_fill (h : Separate P) (hkinds : ∀ i, i ∈ kinds) (hfree : ∀ i, FreeOf (P i) pieces) :
    parse P kinds (fill P pieces) = pieces := by
  induction pieces with
  | nil => rfl
  | cons piece pieces ih =>
    have htail := ih fun i => (hfree i).tail
    cases piece with
    | lit a =>
      have hnot : ∀ i ∈ kinds, ¬ P i <+: a :: fill P pieces := fun i _ =>
        (onlyAt_of_not_touches (h.unbordered i) (hfree i)
          fun k _ hk => h.apart i k (Ne.symm hk)).1
      rw [fill, parse_lit hnot, htail]
    | hole i => rw [fill, parse_hole h (hkinds i), htail]

end Piece

end Python
