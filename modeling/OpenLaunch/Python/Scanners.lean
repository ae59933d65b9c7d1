import Mathlib.Data.List.Basic
import Mathlib.Data.Nat.Notation

/-! # Cutting a text at separators that a scanner sees

A *scanner* runs over a text and says at each separator whether it counts, for instance because it
is not quoted. The text is cut at those that count, and the scanner starts again behind each. Two
scanners of one text are compared from cut to cut. -/

namespace Python

universe u v

/-- A scanner. Behind a separator that counts, it counts the later ones as from the start. -/
structure Scanner (α : Type u) (sep : α) (σ : Type v) where
  start : σ
  next : σ → α → σ
  isOpen : σ → Bool
  restart : ∀ s, isOpen s = true → ∀ cs : List α,
    isOpen (cs.foldl next (next s sep)) = isOpen (cs.foldl next start)

namespace Scanner

variable {α : Type u} {sep : α} {σ : Type v}

/-- The state after a text. -/
def run (M : Scanner α sep σ) (s : σ) (cs : List α) : σ := cs.foldl M.next s

/-- A separator counts behind this text. -/
def OpenAfter (M : Scanner α sep σ) (cs : List α) : Prop := M.isOpen (M.run M.start cs) = true

/-- No separator counts in a text that is read from the state `s`. -/
def NoCut (M : Scanner α sep σ) (s : σ) (cs : List α) : Prop :=
  ∀ p r, cs = p ++ sep :: r → M.isOpen (M.run s p) = false

variable [DecidableEq α]

/-- The pieces of the rest of a text, behind a part of a piece. -/
def cutFrom (M : Scanner α sep σ) : σ → List α → List α → List (List α)
  | _, piece, [] => [piece]
  | s, piece, c :: cs =>
    if c = sep ∧ M.isOpen s = true then piece :: M.cutFrom M.start [] cs
    else M.cutFrom (M.next s c) (piece ++ [c]) cs

/-- The pieces of a text. -/
def cut (M : Scanner α sep σ) (cs : List α) : List (List α) := M.cutFrom M.start [] cs

/-! ## Up to the first cut -/

section

variable {M : Scanner α sep σ} {s : σ} {c : α} {p r cs piece : List α}

omit [DecidableEq α] in
theorem NoCut.tail (h : M.NoCut s (c :: cs)) : M.NoCut (M.next s c) cs := by
  rintro p r rfl
  exact h (c :: p) r rfl

omit [DecidableEq α] in
theorem NoCut.head (h : M.NoCut s (c :: cs)) : ¬ (c = sep ∧ M.isOpen s = true) := by
  rintro ⟨rfl, hopen⟩
  have hclosed : M.isOpen s = false := h [] cs rfl
  exact Bool.false_ne_true (hclosed.symm.trans hopen)

omit [DecidableEq α] in
theorem noCut_nil : M.NoCut s [] := by
  intro p r h
  exact absurd h (by simp)

omit [DecidableEq α] in
theorem NoCut.cons (hhead : ¬ (c = sep ∧ M.isOpen s = true)) (h : M.NoCut (M.next s c) cs) :
    M.NoCut s (c :: cs) := by
  intro p r heq
  cases p with
  | nil =>
    rw [List.nil_append, List.cons.injEq] at heq
    exact Bool.eq_false_iff.mpr fun hopen => hhead ⟨heq.1, hopen⟩
  | cons a p =>
    rw [List.cons_append, List.cons.injEq] at heq
    obtain ⟨rfl, rfl⟩ := heq
    exact h p r rfl

omit [DecidableEq α] in
theorem noCut_of_notMem (h : sep ∉ cs) : M.NoCut s cs := by
  rintro p r rfl
  exact absurd (List.mem_append_right _ List.mem_cons_self) h

omit [DecidableEq α] in
theorem run_append : M.run s (p ++ r) = M.run (M.run s p) r := List.foldl_append

omit [DecidableEq α] in
theorem NoCut.append (hp : M.NoCut s p) (hr : M.NoCut (M.run s p) r) : M.NoCut s (p ++ r) := by
  intro q r' h
  rcases List.append_eq_append_iff.mp h with ⟨as, rfl, has⟩ | ⟨bs, rfl, hbs⟩
  · rw [run_append]
    exact hr as r' has
  · cases bs with
    | nil =>
      rw [List.append_nil] at hr
      exact hr [] r' hbs.symm
    | cons b bs =>
      obtain ⟨rfl, -⟩ := List.cons.inj hbs
      exact hp q bs rfl

/-- Reading on without a cut. -/
theorem cutFrom_append (hp : M.NoCut s p) :
    M.cutFrom s piece (p ++ r) = M.cutFrom (M.run s p) (piece ++ p) r := by
  induction p generalizing s piece with
  | nil => rw [List.append_nil]; rfl
  | cons c p ih =>
    rw [List.cons_append, cutFrom, if_neg hp.head, ih hp.tail, List.append_assoc]
    rfl

/-- The first piece begins with what is read of it. -/
theorem exists_cutFrom (M : Scanner α sep σ) (s : σ) (piece cs : List α) :
    ∃ u us, M.cutFrom s piece cs = (piece ++ u) :: us := by
  induction cs generalizing s piece with
  | nil => exact ⟨[], [], by rw [cutFrom, List.append_nil]⟩
  | cons c cs ih =>
    rw [cutFrom]
    split_ifs
    · exact ⟨[], _, by rw [List.append_nil]⟩
    · obtain ⟨u, us, hu⟩ := ih (M.next s c) (piece ++ [c])
      exact ⟨c :: u, us, by rw [hu, List.append_assoc]; rfl⟩

theorem cut_last (h : M.NoCut M.start cs) : M.cut cs = [cs] := by
  have hcut := @cutFrom_append _ _ _ _ M M.start cs [] [] h
  rwa [List.append_nil, List.nil_append] at hcut

theorem cut_open (hp : M.NoCut M.start p) (h : M.OpenAfter p) :
    M.cut (p ++ sep :: r) = p :: M.cut r := by
  rw [cut, cutFrom_append hp, cutFrom, if_pos ⟨rfl, h⟩, List.nil_append]
  rfl

theorem cut_closed (hp : M.NoCut M.start p) (h : ¬ M.OpenAfter p) :
    ∃ u us, M.cut (p ++ sep :: r) = (p ++ sep :: u) :: us := by
  have hclosed : ¬ (sep = sep ∧ M.isOpen (M.run M.start p) = true) := fun hopen => h hopen.2
  obtain ⟨u, us, hu⟩ := M.exists_cutFrom (M.next (M.run M.start p) sep) ([] ++ p ++ [sep]) r
  refine ⟨u, us, ?_⟩
  rw [cut, cutFrom_append hp, cutFrom, if_neg hclosed, hu, List.nil_append, List.append_assoc]
  rfl

end

/-! ## Two scanners -/

section

variable {τ : Type v} {M : Scanner α sep σ} {N : Scanner α sep τ} {p r cs : List α}

/-- The same separators count for both scanners. -/
def Agree (M : Scanner α sep σ) (N : Scanner α sep τ) (cs : List α) : Prop :=
  ∀ p r, cs = p ++ sep :: r → (M.OpenAfter p ↔ N.OpenAfter p)

omit [DecidableEq α] in
theorem agree_last (hM : M.NoCut M.start cs) (hN : N.NoCut N.start cs) : M.Agree N cs := by
  intro p r h
  have hm : ¬ M.OpenAfter p := fun hopen => Bool.false_ne_true ((hM p r h).symm.trans hopen)
  have hn : ¬ N.OpenAfter p := fun hopen => Bool.false_ne_true ((hN p r h).symm.trans hopen)
  exact iff_of_false hm hn

omit [DecidableEq α] in
/-- Behind a separator that counts, the later ones count as from the start. -/
theorem openAfter_append (h : M.OpenAfter p) :
    M.OpenAfter (p ++ sep :: r) ↔ M.OpenAfter r := by
  have hrun : M.run M.start (p ++ sep :: r) =
      r.foldl M.next (M.next (M.run M.start p) sep) := List.foldl_append
  rw [OpenAfter, hrun, M.restart _ h]
  rfl

omit [DecidableEq α] in
theorem agree_open (hM : M.NoCut M.start p) (hN : N.NoCut N.start p) (hm : M.OpenAfter p)
    (hn : N.OpenAfter p) : M.Agree N (p ++ sep :: r) ↔ M.Agree N r := by
  constructor
  · rintro h q r' rfl
    have := h (p ++ sep :: q) r' (by rw [List.append_assoc]; rfl)
    rwa [openAfter_append hm, openAfter_append hn] at this
  · intro h q r' heq
    rcases List.append_eq_append_iff.mp heq with ⟨as, rfl, has⟩ | ⟨bs, rfl, hbs⟩
    · cases as with
      | nil => rw [List.append_nil]; exact iff_of_true hm hn
      | cons a as =>
        obtain ⟨rfl, rfl⟩ := List.cons.inj has
        rw [openAfter_append hm, openAfter_append hn]
        exact h as r' rfl
    · cases bs with
      | nil =>
        rw [List.append_nil] at hm hn
        exact iff_of_true hm hn
      | cons b bs =>
        obtain ⟨rfl, -⟩ := List.cons.inj hbs
        exact agree_last hM hN q bs rfl

/-- The first separator of a text that counts for one of two scanners. -/
theorem exists_first (M : Scanner α sep σ) (N : Scanner α sep τ) (s : σ) (t : τ) (cs : List α) :
    (M.NoCut s cs ∧ N.NoCut t cs) ∨ ∃ p r, cs = p ++ sep :: r ∧ M.NoCut s p ∧ N.NoCut t p ∧
      (M.isOpen (M.run s p) = true ∨ N.isOpen (N.run t p) = true) := by
  induction cs generalizing s t with
  | nil => exact .inl ⟨noCut_nil, noCut_nil⟩
  | cons c cs ih =>
    by_cases hc : c = sep ∧ (M.isOpen s = true ∨ N.isOpen t = true)
    · obtain ⟨rfl, hopen⟩ := hc
      exact .inr ⟨[], cs, rfl, noCut_nil, noCut_nil, hopen⟩
    · have hM : ¬ (c = sep ∧ M.isOpen s = true) := fun h => hc ⟨h.1, .inl h.2⟩
      have hN : ¬ (c = sep ∧ N.isOpen t = true) := fun h => hc ⟨h.1, .inr h.2⟩
      rcases ih (M.next s c) (N.next t c) with ⟨hm, hn⟩ | ⟨p, r, rfl, hm, hn, hopen⟩
      · exact .inl ⟨hm.cons hM, hn.cons hN⟩
      · exact .inr ⟨c :: p, r, rfl, hm.cons hM, hn.cons hN, hopen⟩

/-- **From cut to cut**: a property of texts that holds where neither scanner cuts, and where one of
them cuts and the other does not, and that goes over a cut of both, holds of every text. -/
theorem induction_cuts (M : Scanner α sep σ) (N : Scanner α sep τ) {P : List α → Prop}
    (last : ∀ cs, M.NoCut M.start cs → N.NoCut N.start cs → P cs)
    (both : ∀ p r, M.NoCut M.start p → N.NoCut N.start p → M.OpenAfter p → N.OpenAfter p →
      P r → P (p ++ sep :: r))
    (left : ∀ p r, M.NoCut M.start p → N.NoCut N.start p → M.OpenAfter p → ¬ N.OpenAfter p →
      P (p ++ sep :: r))
    (right : ∀ p r, M.NoCut M.start p → N.NoCut N.start p → ¬ M.OpenAfter p → N.OpenAfter p →
      P (p ++ sep :: r)) (cs : List α) : P cs := by
  induction hn : cs.length using Nat.strongRecOn generalizing cs with
  | ind n ih =>
    rcases exists_first M N M.start N.start cs with ⟨hm, hn⟩ | ⟨p, r, rfl, hm, hn', hopen⟩
    · exact last cs hm hn
    · by_cases hopenM : M.OpenAfter p
      · by_cases hopenN : N.OpenAfter p
        · refine both p r hm hn' hopenM hopenN (ih r.length ?_ r rfl)
          rw [← hn, List.length_append, List.length_cons]
          omega
        · exact left p r hm hn' hopenM hopenN
      · exact right p r hm hn' hopenM (hopen.resolve_left hopenM)

/-- Scanners that agree cut alike. -/
theorem Agree.cut_eq (h : M.Agree N cs) : M.cut cs = N.cut cs := by
  induction cs using induction_cuts M N with
  | last cs hM hN => rw [cut_last hM, cut_last hN]
  | both p r hM hN hm hn ih =>
    rw [cut_open hM hm, cut_open hN hn, ih ((agree_open hM hN hm hn).mp h)]
  | left p r _ _ hm hn => exact absurd ((h p r rfl).mp hm) hn
  | right p r _ _ hm hn => exact absurd ((h p r rfl).mpr hn) hm

end

end Scanner

end Python
