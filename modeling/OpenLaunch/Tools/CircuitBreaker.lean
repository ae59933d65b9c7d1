import OpenLaunch.Python.Dict
import Mathlib.Algebra.Order.Ring.Rat
import Mathlib.Tactic.Linarith

/-! # The circuit breaker of the tool executor

`CircuitBreaker` counts the recent failures of each tool in a deque and remembers when the tool's
circuit opened. What it is for is stated on the history of the calls made on it: the circuit of a
tool is open (`Open`) while less than `reset_seconds` have passed since a failure that was at least
the `failure_threshold`-th within `reset_seconds`. On every history with non-decreasing times,
`allow` answers that question exactly (`allow_iff`). -/

namespace OpenLaunch.Tools

open Python

/-! ## The breaker -/

/-- `class CircuitBreaker`. -/
structure CircuitBreaker where
  failure_threshold : ℕ
  reset_seconds : ℚ
  /-- `_failures`: the times in the deque of each tool, oldest first. -/
  failures : Dict String (List ℚ)
  /-- `_opened_at`. -/
  opened_at : Dict String ℚ
  deriving DecidableEq

namespace CircuitBreaker

/-- `CircuitBreaker.__init__`. -/
def init (failure_threshold : ℕ) (reset_seconds : ℚ) : CircuitBreaker :=
  ⟨failure_threshold, reset_seconds, .empty, .empty⟩

/-- `allow(name)` at the time `now`. -/
def allow (b : CircuitBreaker) (now : ℚ) (name : String) : Bool × CircuitBreaker :=
  match b.opened_at.get? name with
  | none => (true, b)
  | some opened =>
    if now - opened ≥ b.reset_seconds then
      (true, { b with opened_at := b.opened_at.erase name, failures := b.failures.erase name })
    else (false, b)

/-- `success(name)`. -/
def success (b : CircuitBreaker) (name : String) : CircuitBreaker :=
  { b with failures := b.failures.erase name, opened_at := b.opened_at.erase name }

/-- The deque of `name` after `failure(name)` at the time `now`. -/
def recentFailures (b : CircuitBreaker) (now : ℚ) (name : String) : List ℚ :=
  ((b.failures.get? name).getD [] ++ [now]).dropWhile fun f => now - f > b.reset_seconds

/-- `failure(name)` at the time `now`. -/
def failure (b : CircuitBreaker) (now : ℚ) (name : String) : CircuitBreaker :=
  let failures := b.recentFailures now name
  { b with
    failures := b.failures.set name failures
    opened_at :=
      if failures.length ≥ b.failure_threshold then b.opened_at.set name now else b.opened_at }

end CircuitBreaker

/-! ## Histories -/

/-- What was recorded with the breaker, and when `allow` closed a circuit. -/
inductive Record
  | failure (name : String) (time : ℚ)
  | success (name : String)
  | closed (name : String)
  deriving DecidableEq

/-- The history after `allow(name)` at the time `now`. -/
def CircuitBreaker.afterAllow (b : CircuitBreaker) (now : ℚ) (name : String)
    (history : List Record) : List Record :=
  match b.opened_at.get? name with
  | none => history
  | some opened => if now - opened ≥ b.reset_seconds then .closed name :: history else history

/-- The times of the failures of `name` since its last success or closing, newest first; the history
is newest first too. -/
def failuresSince (name : String) : List Record → List ℚ
  | [] => []
  | .failure n t :: h => if n = name then t :: failuresSince name h else failuresSince name h
  | .success n :: h => if n = name then [] else failuresSince name h
  | .closed n :: h => if n = name then [] else failuresSince name h

/-- A failure at `f` opens the circuit when, with the `earlier` ones, at least `threshold` failures
lie within `reset` of it. -/
def Trips (threshold : ℕ) (reset f : ℚ) (earlier : List ℚ) : Prop :=
  threshold ≤ (f :: earlier).countP fun g => f - g ≤ reset

instance (threshold : ℕ) (reset f : ℚ) (earlier : List ℚ) :
    Decidable (Trips threshold reset f earlier) := inferInstanceAs (Decidable (_ ≤ _))

/-- **The circuit of a tool is open** at `now`: some failure since the last success or closing
opened it, less than `reset` ago. -/
def Open (threshold : ℕ) (reset : ℚ) (history : List Record) (now : ℚ) (name : String) : Prop :=
  ∃ f earlier, f :: earlier <:+ failuresSince name history ∧ Trips threshold reset f earlier ∧
    now - f < reset

/-- The failures of every tool are recorded in the order of time, up to `now`. -/
def Ordered (history : List Record) (now : ℚ) : Prop :=
  ∀ name, (failuresSince name history).Pairwise (fun f g => g ≤ f) ∧
    ∀ f ∈ failuresSince name history, f ≤ now

/-- The newest failure that opened the circuit. -/
def lastTrip (threshold : ℕ) (reset : ℚ) : List ℚ → Option ℚ
  | [] => none
  | f :: earlier =>
    if Trips threshold reset f earlier then some f else lastTrip threshold reset earlier

/-- The failures, oldest first, within `reset` of the newest. -/
def window (reset : ℚ) : List ℚ → List ℚ
  | [] => []
  | f :: earlier => ((f :: earlier).filter fun g => f - g ≤ reset).reverse

/-- **The breaker represents a history.** -/
structure Represents (b : CircuitBreaker) (history : List Record) (now : ℚ) : Prop where
  ordered : Ordered history now
  failures : ∀ name, (b.failures.get? name).getD [] =
    window b.reset_seconds (failuresSince name history)
  opened_at : ∀ name, b.opened_at.get? name =
    lastTrip b.failure_threshold b.reset_seconds (failuresSince name history)

/-- Where the entries to drop come first, dropping them is filtering. -/
theorem dropWhile_eq_filter {α : Type*} {p : α → Bool} {l : List α}
    (hl : l.Pairwise fun a b => p b → p a) : l.dropWhile p = l.filter fun a => !p a := by
  induction l with
  | nil => rfl
  | cons a l ih =>
    obtain ⟨ha, hl⟩ := List.pairwise_cons.mp hl
    by_cases hp : p a
    · simp [hp, ih hl]
    · have hrest : ∀ b ∈ l, ¬ p b := fun b hb hpb => hp (ha b hb hpb)
      rw [List.dropWhile_cons_of_neg hp, eq_comm, List.filter_eq_self]
      simpa [hp] using hrest

/-! ## Openings -/

section Openings

variable {threshold : ℕ} {reset now t : ℚ} {name : String} {h : List Record}

theorem lastTrip_mem {fs : List ℚ} (ht : lastTrip threshold reset fs = some t) :
    ∃ earlier, t :: earlier <:+ fs ∧ Trips threshold reset t earlier := by
  induction fs with
  | nil => simp [lastTrip] at ht
  | cons f fs ih =>
    rw [lastTrip] at ht
    split at ht
    · cases ht
      exact ⟨fs, List.suffix_refl _, ‹_›⟩
    · obtain ⟨earlier, hsuf, htrips⟩ := ih ht
      exact ⟨earlier, hsuf.trans (List.suffix_cons _ _), htrips⟩

/-- No failure that opened the circuit is newer than the last one that did. -/
theorem lastTrip_newest {fs : List ℚ} (hfs : fs.Pairwise fun f g => g ≤ f) {f : ℚ}
    {earlier : List ℚ} (hsuf : f :: earlier <:+ fs) (htrips : Trips threshold reset f earlier) :
    ∃ t, lastTrip threshold reset fs = some t ∧ f ≤ t := by
  induction fs with
  | nil => simp at hsuf
  | cons g fs ih =>
    rw [lastTrip]
    rcases List.suffix_cons_iff.mp hsuf with heq | hsuf
    · obtain ⟨rfl, rfl⟩ := List.cons.inj heq
      exact ⟨f, if_pos htrips, le_rfl⟩
    · have hle : f ≤ g := (List.pairwise_cons.mp hfs).1 f (hsuf.subset List.mem_cons_self)
      split
      · exact ⟨g, rfl, hle⟩
      · exact ih (List.pairwise_cons.mp hfs).2 hsuf

/-- Only the newest opening matters. -/
theorem open_iff_lastTrip (hord : Ordered h now) :
    Open threshold reset h now name ↔
      ∃ t, lastTrip threshold reset (failuresSince name h) = some t ∧ now - t < reset := by
  constructor
  · rintro ⟨f, earlier, hsuf, htrips, hnow⟩
    obtain ⟨t, ht, hle⟩ := lastTrip_newest (hord name).1 hsuf htrips
    exact ⟨t, ht, by linarith⟩
  · rintro ⟨t, ht, hnow⟩
    obtain ⟨earlier, hsuf, htrips⟩ := lastTrip_mem ht
    exact ⟨t, earlier, hsuf, htrips, hnow⟩

end Openings

/-! ## The breaker answers for its history -/

namespace Represents

variable {b : CircuitBreaker} {h : List Record} {now now' : ℚ} {name : String}

/-- A new breaker represents the empty history. -/
theorem init (threshold : ℕ) (reset now : ℚ) :
    Represents (CircuitBreaker.init threshold reset) [] now := by
  refine ⟨fun _ => ⟨.nil, by simp [failuresSince]⟩, fun _ => rfl, fun _ => rfl⟩

/-- Time may pass. -/
theorem mono (hb : Represents b h now) (hle : now ≤ now') : Represents b h now' :=
  ⟨fun name => ⟨(hb.ordered name).1, fun f hf => ((hb.ordered name).2 f hf).trans hle⟩,
    hb.failures, hb.opened_at⟩

/-- **`allow` answers whether the circuit is open.** -/
theorem allow_iff (hb : Represents b h now) :
    (b.allow now name).1 = true ↔
      ¬ Open b.failure_threshold b.reset_seconds h now name := by
  rw [open_iff_lastTrip hb.ordered, ← hb.opened_at]
  unfold CircuitBreaker.allow
  cases hopen : b.opened_at.get? name with
  | none => simp
  | some t =>
    by_cases hreset : now - t ≥ b.reset_seconds
    · simp [hreset]
    · simp only [hreset, if_false, Option.some.injEq, exists_eq_left']
      simpa using not_le.mp hreset

/-- What `failuresSince` reads after the failures and openings of one tool are forgotten. -/
theorem forget {r : Record} (hb : Represents b h now)
    (hr : ∀ n, failuresSince n (r :: h) = if n = name then [] else failuresSince n h) :
    Represents { b with failures := b.failures.erase name, opened_at := b.opened_at.erase name }
      (r :: h) now := by
  refine ⟨fun n => ?_, fun n => ?_, fun n => ?_⟩
  · rw [hr]
    split
    · exact ⟨.nil, by simp⟩
    · exact hb.ordered n
  · rw [hr, Dict.get?_erase]
    split
    · rfl
    · exact hb.failures n
  · rw [hr, Dict.get?_erase]
    split
    · rfl
    · exact hb.opened_at n

/-- A success is recorded. -/
theorem success (hb : Represents b h now) (name : String) :
    Represents (b.success name) (.success name :: h) now :=
  hb.forget fun n => by simp [failuresSince, eq_comm]

/-- The history after `allow` has a closing where the circuit was closed. -/
theorem allow (hb : Represents b h now) (name : String) :
    Represents (b.allow now name).2 (b.afterAllow now name h) now := by
  unfold CircuitBreaker.allow CircuitBreaker.afterAllow
  cases b.opened_at.get? name with
  | none => exact hb
  | some t =>
    by_cases hreset : now - t ≥ b.reset_seconds
    · simp only [hreset, if_true]
      exact hb.forget fun n => by simp [failuresSince, eq_comm]
    · simpa [hreset] using hb

/-- The deque holds exactly the failures within `reset_seconds` of the new one. -/
theorem recentFailures_eq (hb : Represents b h now) (name : String) :
    b.recentFailures now name = window b.reset_seconds (now :: failuresSince name h) := by
  obtain ⟨hsorted, hle⟩ := hb.ordered name
  unfold CircuitBreaker.recentFailures
  rw [hb.failures name]
  generalize failuresSince name h = fs at hsorted hle
  have hdrop : ∀ l : List ℚ, l.Pairwise (· ≤ ·) →
      l.dropWhile (fun f => now - f > b.reset_seconds) =
        l.filter fun f => now - f ≤ b.reset_seconds := by
    intro l hl
    rw [dropWhile_eq_filter (hl.imp fun hfg => by simp only [decide_eq_true_eq]; intro; linarith)]
    refine List.filter_congr fun f _ => ?_
    rw [← decide_not]
    exact decide_eq_decide.mpr not_lt
  have hkept : (window b.reset_seconds fs).filter (fun f => now - f ≤ b.reset_seconds) =
      (fs.filter fun f => now - f ≤ b.reset_seconds).reverse := by
    cases fs with
    | nil => rfl
    | cons f fs =>
      rw [window, List.filter_reverse, List.filter_filter]
      congr 1
      refine List.filter_congr fun g hg => ?_
      have hf : f ≤ now := hle f List.mem_cons_self
      -- within reach of `now` is within reach of the newest failure before it
      by_cases hnow : now - g ≤ b.reset_seconds
      · have hfg : f - g ≤ b.reset_seconds := by linarith
        simp [hnow, hfg]
      · simp [hnow]
  have hasc : (window b.reset_seconds fs ++ [now]).Pairwise (· ≤ ·) := by
    have hwin : (window b.reset_seconds fs).Pairwise (· ≤ ·) ∧
        ∀ f ∈ window b.reset_seconds fs, f ≤ now := by
      cases fs with
      | nil => exact ⟨.nil, by simp [window]⟩
      | cons f fs =>
        refine ⟨List.pairwise_reverse.mpr (hsorted.filter _), fun g hg => hle g ?_⟩
        exact List.mem_of_mem_filter (List.mem_reverse.mp hg)
    exact List.pairwise_append.mpr ⟨hwin.1, by simp, by simpa using hwin.2⟩
  rw [hdrop _ hasc, List.filter_append, hkept, window]
  simp only [List.filter_cons, List.filter_nil]
  split <;> simp only [List.reverse_cons, List.append_nil]

/-- A failure is recorded. -/
theorem failure (hb : Represents b h now) (name : String) :
    Represents (b.failure now name) (.failure name now :: h) now := by
  have hfs : ∀ n, failuresSince n (.failure name now :: h) =
      if n = name then now :: failuresSince name h else failuresSince n h := by
    intro n
    by_cases hn : n = name
    · subst hn; simp [failuresSince]
    · simp [failuresSince, hn, Ne.symm hn]
  have htrips : (b.recentFailures now name).length ≥ b.failure_threshold ↔
      Trips b.failure_threshold b.reset_seconds now (failuresSince name h) := by
    rw [hb.recentFailures_eq, window, List.length_reverse, ← List.countP_eq_length_filter, Trips]
  refine ⟨fun n => ?_, fun n => ?_, fun n => ?_⟩
  · rw [hfs]
    split
    · obtain ⟨hsorted, hle⟩ := hb.ordered name
      exact ⟨List.pairwise_cons.mpr ⟨hle, hsorted⟩,
        List.forall_mem_cons.mpr ⟨le_rfl, hle⟩⟩
    · exact hb.ordered n
  · rw [hfs, CircuitBreaker.failure, Dict.get?_set]
    split
    · rw [Option.getD_some, hb.recentFailures_eq]
    · exact hb.failures n
  · rw [hfs, CircuitBreaker.failure]
    dsimp only
    simp only [htrips]
    by_cases ht : Trips b.failure_threshold b.reset_seconds now (failuresSince name h)
    · rw [if_pos ht, Dict.get?_set]
      split
      · rw [lastTrip, if_pos ht]
      · exact hb.opened_at n
    · rw [if_neg ht, hb.opened_at]
      split
      · rename_i hn
        rw [lastTrip, if_neg ht, hn]
      · rfl

end Represents

end OpenLaunch.Tools
