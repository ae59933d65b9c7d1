import OpenLaunch.Python.Dict
import Mathlib.Data.List.Induction
import Mathlib.Data.List.Sort

/-! # The best entry under each key

A loop over scored entries that keeps, under each key, the first of the entries with the best score;
and the ranking of entries by their scores, the best one first. -/

namespace Python

universe u v w

variable {κ : Type u} {ε : Type v} {σ : Type w} [DecidableEq κ] [LinearOrder σ]
variable (key : ε → κ) (score : ε → σ)

/-! ## The loop -/

/-- The entry takes the place under its key, unless there is one that is as good. -/
def keepBest (d : Dict κ ε) (e : ε) : Dict κ ε :=
  match d.get? (key e) with
  | none => d.set (key e) e
  | some e₀ => if score e₀ < score e then d.set (key e) e else d

/-- The best entries, under their keys. -/
def bestByKey (xs : List ε) : Dict κ ε := xs.foldl (keepBest key score) Dict.empty

/-- An entry is one of the list, and none of its key is better. -/
def IsBest (xs : List ε) (e : ε) : Prop :=
  e ∈ xs ∧ ∀ e' ∈ xs, key e' = key e → score e' ≤ score e

variable {key score} {xs ys : List ε} {d : Dict κ ε} {e e' : ε} {k : κ} {n : ℕ}

/-- What a dictionary holds once the entries have been gone through. -/
structure HoldsBest (key : ε → κ) (score : ε → σ) (xs : List ε) (d : Dict κ ε) : Prop where
  best : ∀ k e, d.get? k = some e → key e = k ∧ IsBest key score xs e
  found : ∀ e ∈ xs, ∃ e', d.get? (key e) = some e'

theorem holdsBest_empty : HoldsBest key score [] Dict.empty := ⟨nofun, nofun⟩

/-- One more entry. -/
theorem HoldsBest.keepBest (h : HoldsBest key score xs d) (e : ε) :
    HoldsBest key score (xs ++ [e]) (Python.keepBest key score d e) := by
  -- an entry stays the best one if the new one has another key, or no better score
  have hstays : ∀ k e', d.get? k = some e' → (k = key e → score e ≤ score e') →
      key e' = k ∧ IsBest key score (xs ++ [e]) e' := by
    intro k e' hget hle
    obtain ⟨hkey, hmem, hbest⟩ := h.best k e' hget
    refine ⟨hkey, List.mem_append_left _ hmem, fun x hx hxkey => ?_⟩
    rcases List.mem_append.mp hx with hx | hx
    · exact hbest x hx hxkey
    · rw [List.mem_singleton.mp hx] at hxkey ⊢
      exact hle (hkey.symm.trans hxkey.symm)
  have htakes : ∀ k e', (d.set (key e) e).get? k = some e' →
      (∀ x ∈ xs, key x = key e → score x ≤ score e) →
        key e' = k ∧ IsBest key score (xs ++ [e]) e' := by
    intro k e' hget hbest
    rw [Dict.get?_set] at hget
    split_ifs at hget with hk
    · obtain rfl : e = e' := Option.some.inj hget
      refine ⟨hk.symm, by simp, fun x hx hxkey => ?_⟩
      rcases List.mem_append.mp hx with hx | hx
      · exact hbest x hx hxkey
      · rw [List.mem_singleton.mp hx]
    · exact hstays k e' hget fun hkey => absurd hkey hk
  rw [Python.keepBest]
  cases hget : d.get? (key e) with
  | none =>
    have hnew : ∀ x ∈ xs, key x ≠ key e := by
      intro x hx hkey
      obtain ⟨e', he'⟩ := h.found x hx
      rw [hkey, hget] at he'
      cases he'
    refine ⟨fun k e' hget' => htakes k e' hget' fun x hx hkey => absurd hkey (hnew x hx),
      fun x hx => ?_⟩
    rcases List.mem_append.mp hx with hx | hx
    · rw [Dict.get?_set_ne d (hnew x hx)]
      exact h.found x hx
    · rw [List.mem_singleton.mp hx]
      exact ⟨e, Dict.get?_set_self d _ e⟩
  | some e₀ =>
    obtain ⟨hkey₀, hmem₀, hbest₀⟩ := h.best _ e₀ hget
    dsimp only
    split_ifs with hlt
    · refine ⟨fun k e' hget' => htakes k e' hget' fun x hx hkey =>
        (hbest₀ x hx (hkey.trans hkey₀.symm)).trans hlt.le, fun x hx => ?_⟩
      by_cases hkey : key x = key e
      · rw [hkey]
        exact ⟨e, Dict.get?_set_self d _ e⟩
      · rw [Dict.get?_set_ne d hkey]
        rcases List.mem_append.mp hx with hx | hx
        · exact h.found x hx
        · exact absurd (congrArg key (List.mem_singleton.mp hx)) hkey
    · refine ⟨fun k e' hget' => hstays k e' hget' fun hk => ?_, fun x hx => ?_⟩
      · rw [hk, hget] at hget'
        rw [← Option.some.inj hget']
        exact not_lt.mp hlt
      · rcases List.mem_append.mp hx with hx | hx
        · exact h.found x hx
        · rw [List.mem_singleton.mp hx]
          exact ⟨e₀, hget⟩

/-- **The loop holds the best entries**, and one for each key. -/
theorem holdsBest_bestByKey (xs : List ε) : HoldsBest key score xs (bestByKey key score xs) := by
  rw [bestByKey]
  induction xs using List.reverseRecOn with
  | nil => exact holdsBest_empty
  | append_singleton xs e ih =>
    rw [List.foldl_append]
    exact ih.keepBest e

/-- The entries that are kept. -/
theorem isBest_of_mem_values (h : e ∈ (bestByKey key score xs).values) : IsBest key score xs e := by
  obtain ⟨⟨k, e'⟩, hentry, rfl⟩ := List.mem_map.mp h
  have hholds : HoldsBest key score xs (bestByKey key score xs) := holdsBest_bestByKey xs
  exact (hholds.best k e' (Dict.mem_entries_iff.mp hentry)).2

/-- Each key of an entry is that of one that is kept. -/
theorem exists_mem_values (h : e ∈ xs) :
    ∃ e' ∈ (bestByKey key score xs).values, key e' = key e := by
  have hholds : HoldsBest key score xs (bestByKey key score xs) := holdsBest_bestByKey xs
  obtain ⟨e', he'⟩ := hholds.found e h
  exact ⟨e', List.mem_map.mpr ⟨(key e, e'), Dict.mem_entries_iff.mpr he', rfl⟩,
    (hholds.best _ e' he').1⟩

/-- The entries that are kept have different keys. -/
theorem nodup_values (xs : List ε) : ((bestByKey key score xs).values.map key).Nodup := by
  have hholds : HoldsBest key score xs (bestByKey key score xs) := holdsBest_bestByKey xs
  have hkeys : (bestByKey key score xs).values.map key = (bestByKey key score xs).keys := by
    rw [Dict.values, List.map_map]
    refine List.map_congr_left fun entry hentry => ?_
    exact (hholds.best entry.1 entry.2 (Dict.mem_entries_iff.mp hentry)).1
  rw [hkeys]
  exact (bestByKey key score xs).nodup

/-! ## The ranking -/

/-- The entries by their scores, the best one first; equal ones stay in order. -/
def ranked (score : ε → σ) (xs : List ε) : List ε :=
  xs.mergeSort fun a b => decide (score b ≤ score a)

theorem ranked_perm (xs : List ε) : (ranked score xs).Perm xs := List.mergeSort_perm xs _

theorem pairwise_ranked (xs : List ε) :
    (ranked score xs).Pairwise fun a b => score b ≤ score a := by
  have h : (ranked score xs).Pairwise fun a b => decide (score b ≤ score a) = true :=
    List.pairwise_mergeSort
      (fun a b c hab hbc => decide_eq_true ((of_decide_eq_true hbc).trans (of_decide_eq_true hab)))
      (fun a b => by simpa using le_total (score b) (score a)) xs
  exact h.imp of_decide_eq_true

/-- **None of the entries left out is better** than one of the first `n`. -/
theorem le_of_mem_take (he : e ∈ (ranked score xs).take n) (he' : e' ∈ xs)
    (hout : e' ∉ (ranked score xs).take n) : score e' ≤ score e := by
  have hsplit := List.take_append_drop n (ranked score xs)
  have hmem : e' ∈ (ranked score xs).drop n := by
    have hranked : e' ∈ ranked score xs := (ranked_perm xs).mem_iff.mpr he'
    rw [← hsplit] at hranked
    exact (List.mem_append.mp hranked).resolve_left hout
  have hpairwise : (ranked score xs).Pairwise fun a b => score b ≤ score a := pairwise_ranked xs
  rw [← hsplit, List.pairwise_append] at hpairwise
  exact hpairwise.2.2 e he e' hmem

/-- **Rankings of the same images are the same**, where only equal images have equal scores. -/
theorem map_ranked_eq {β : Type*} {f : ε → β} {value : β → σ} (hvalue : ∀ e, value (f e) = score e)
    (hperm : (xs.map f).Perm (ys.map f))
    (hapart : ∀ b ∈ xs.map f, ∀ b' ∈ xs.map f, value b = value b' → b = b') :
    (ranked score xs).map f = (ranked score ys).map f := by
  have hsorted : ∀ zs : List ε,
      ((ranked score zs).map f).Pairwise fun b b' => value b' ≤ value b := by
    intro zs
    refine List.pairwise_map.mpr ((pairwise_ranked zs).imp fun {a b} hab => ?_)
    rw [hvalue, hvalue]
    exact hab
  have hmem : ∀ b ∈ (ranked score xs).map f, b ∈ xs.map f := fun b hb =>
    ((ranked_perm xs).map f).mem_iff.mp hb
  have hall : ((ranked score xs).map f).Perm ((ranked score ys).map f) :=
    ((ranked_perm xs).map f).trans (hperm.trans ((ranked_perm ys).map f).symm)
  refine List.Perm.eq_of_pairwise (fun b b' hb hb' hle hge => ?_) (hsorted xs) (hsorted ys) hall
  exact hapart b (hmem b hb) b' (hmem b' (hall.mem_iff.mpr hb')) (le_antisymm hge hle)

end Python
