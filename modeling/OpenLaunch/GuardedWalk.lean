import OpenLaunch.Forest

/-! # Checking what a chain of links passes

A table gives the record of a key, if there is one, and a record links to another key, if to any.
`check` follows the links from a key and tests the records that it passes. It remembers the keys it
has seen and stops where it meets one of them, so that it returns on a finite table even when the
links form a cycle. What it has tested then is every record that can be reached. -/

namespace GuardedWalk

universe u v

variable {ι : Type u} {ρ : Type v}

/-- The key that the record of a key links to. -/
def next (get : ι → Option ρ) (link : ρ → Option ι) (i : ι) : Option ι := (get i).bind link

/-- The record `r` is met on the way from the key, before any of the keys seen. -/
inductive Meets (get : ι → Option ρ) (link : ρ → Option ι) (seen : List ι) : Option ι → ρ → Prop
  /-- It is the record of the key. -/
  | here {i : ι} {r : ρ} (hi : i ∉ seen) (hr : get i = some r) : Meets get link seen (some i) r
  /-- It is met from the key that the record links to. -/
  | further {i : ι} {r r' : ρ} (hi : i ∉ seen) (hr : get i = some r)
    (h : Meets get link seen (link r) r') : Meets get link seen (some i) r'

variable {get : ι → Option ρ} {link : ρ → Option ι} {ok : ρ → Bool} {seen : List ι}

/-- Coming back to a key meets nothing new. -/
theorem Meets.avoid {i : ι} {r r' : ρ} {start : Option ι} (h : Meets get link seen start r')
    (hr : get i = some r) :
    r' = r ∨ Meets get link (i :: seen) start r' ∨ Meets get link (i :: seen) (link r) r' := by
  induction h with
  | @here j r' hj hr' =>
    by_cases hji : j = i
    · subst hji
      rw [hr, Option.some.injEq] at hr'
      exact .inl hr'.symm
    · exact .inr (.inl (.here (by simp [hji, hj]) hr'))
  | @further j rj r' hj hrj _ ih =>
    rcases ih with heq | hmeets | hmeets
    · exact .inl heq
    · by_cases hji : j = i
      · subst hji
        rw [hr, Option.some.injEq] at hrj
        subst hrj
        exact .inr (.inr hmeets)
      · exact .inr (.inl (.further (by simp [hji, hj]) hrj hmeets))
    · exact .inr (.inr hmeets)

/-- Fewer keys to avoid, more to meet. -/
theorem Meets.mono {seen' : List ι} (hsub : seen ⊆ seen') {start : Option ι} {r : ρ}
    (h : Meets get link seen' start r) : Meets get link seen start r := by
  induction h with
  | here hi hr => exact .here (fun hmem => hi (hsub hmem)) hr
  | further hi hr _ ih => exact .further (fun hmem => hi (hsub hmem)) hr ih

/-- From a key not seen yet: its record, and what is met from there without coming back. -/
theorem meets_some_iff {i : ι} {r r' : ρ} (hi : i ∉ seen) (hr : get i = some r) :
    Meets get link seen (some i) r' ↔ r' = r ∨ Meets get link (i :: seen) (link r) r' := by
  constructor
  · intro h
    cases h with
    | here _ hr' =>
      rw [hr, Option.some.injEq] at hr'
      exact .inl hr'.symm
    | further _ hr₂ h =>
      rw [hr, Option.some.injEq] at hr₂
      subst hr₂
      rcases h.avoid hr with heq | hmeets | hmeets
      · exact .inl heq
      · exact .inr hmeets
      · exact .inr hmeets
  · rintro (rfl | h)
    · exact .here hi hr
    · exact .further hi hr (h.mono fun j hj => List.mem_cons_of_mem _ hj)

/-- What is met is the record of a key that the links lead to. -/
theorem Meets.reached {i : ι} {r : ρ} (h : Meets get link seen (some i) r) :
    ∃ j, Relation.ReflTransGen (Forest.Edge (next get link)) i j ∧ j ∉ seen ∧
      get j = some r := by
  generalize hstart : some i = start at h
  induction h generalizing i with
  | @here j r hi hr =>
    cases hstart
    exact ⟨_, .refl, hi, hr⟩
  | @further j r r' _ hr h ih =>
    cases hstart
    cases hlink : link r with
    | none =>
      rw [hlink] at h
      cases h
    | some k =>
      obtain ⟨j, hpath, hj⟩ := ih hlink.symm
      refine ⟨j, .head ?_ hpath, hj⟩
      rw [Forest.Edge, next, hr, Option.bind_some, hlink]

/-- Where no key seen is reached, every record of a key that the links lead to is met. -/
theorem meets_of_reached {i j : ι} {r : ρ}
    (hpath : Relation.ReflTransGen (Forest.Edge (next get link)) i j) (hr : get j = some r)
    (hfree : ∀ k, Relation.ReflTransGen (Forest.Edge (next get link)) i k → k ∉ seen) :
    Meets get link seen (some i) r := by
  induction hpath using Relation.ReflTransGen.head_induction_on with
  | refl => exact .here (hfree _ .refl) hr
  | @head i k hik hpath ih =>
    obtain ⟨r', hr', hlink⟩ := Option.bind_eq_some_iff.mp hik
    refine .further (hfree i .refl) hr' ?_
    rw [hlink]
    exact ih fun l hl => hfree l (.head hik hl)

/-- One link more. -/
theorem Meets.snoc {start : Option ι} {j : ι} {r r' : ρ} (h : Meets get link seen start r)
    (hlink : link r = some j) (hj : j ∉ seen) (hr' : get j = some r') :
    Meets get link seen start r' := by
  induction h with
  | here hi hr =>
    refine .further hi hr ?_
    rw [hlink]
    exact .here hj hr'
  | further hi hr _ ih => exact .further hi hr (ih hlink)

/-- From the key that the record of `i₀` links to, every other record that the links lead to is met
before they come back to `i₀`. -/
theorem meets_of_reached_ne {i₀ i j : ι} {r₀ r : ρ} (hr₀ : get i₀ = some r₀)
    (hlink : link r₀ = some i)
    (hpath : Relation.ReflTransGen (Forest.Edge (next get link)) i j) (hr : get j = some r)
    (hne : j ≠ i₀) : Meets get link [i₀] (some i) r := by
  induction hpath generalizing r with
  | refl => exact .here (by simpa using hne) hr
  | @tail k j _ hkj ih =>
    obtain ⟨rk, hrk, hlinkk⟩ := Option.bind_eq_some_iff.mp hkj
    by_cases hk : k = i₀
    · -- The path came back, and starts over.
      subst hk
      rw [hr₀, Option.some.injEq] at hrk
      subst hrk
      rw [hlink, Option.some.injEq] at hlinkk
      subst hlinkk
      exact .here (by simpa using hne) hr
    · exact (ih hrk hk).snoc hlinkk (by simpa using hne) hr

variable [DecidableEq ι]

/-- The walk: `none` when the fuel runs out. -/
def check (get : ι → Option ρ) (link : ρ → Option ι) (ok : ρ → Bool) :
    ℕ → Option ι → List ι → Option Bool
  | 0, _, _ => none
  | _ + 1, none, _ => some true
  | fuel + 1, some i, seen =>
    if i ∈ seen then some true
    else
      match get i with
      | none => some true
      | some r => if ok r then check get link ok fuel (link r) (i :: seen) else some false

/-- **The walk returns**: the keys not seen yet are fuel enough. -/
theorem check_isSome {keys : List ι} (hkeys : ∀ i r, get i = some r → i ∈ keys) {fuel : ℕ}
    {start : Option ι} (hfuel : (keys.filter (· ∉ seen)).length < fuel) :
    (check get link ok fuel start seen).isSome := by
  induction fuel generalizing start seen with
  | zero => omega
  | succ fuel ih =>
    cases start with
    | none => rfl
    | some i =>
      rw [check]
      split
      · rfl
      · next hi =>
        split
        · rfl
        · next r hr =>
          split
          · -- The key is one that the table has, and it was not seen before.
            refine ih (Nat.lt_of_lt_of_le ?_ (Nat.le_of_lt_succ hfuel))
            have hsub : keys.filter (· ∉ i :: seen) = (keys.filter (· ∉ seen)).filter (· ≠ i) := by
              rw [List.filter_filter]
              refine List.filter_congr fun j _ => ?_
              simp [not_or]
            rw [hsub]
            refine List.length_filter_lt_length_iff_exists.mpr ⟨i, ?_, by simp⟩
            exact List.mem_filter.mpr ⟨hkeys i r hr, decide_eq_true hi⟩
          · rfl

/-- **What the walk returns**: whether it accepts every record that it can meet. -/
theorem check_eq_true_iff {fuel : ℕ} {start : Option ι} {b : Bool}
    (h : check get link ok fuel start seen = some b) :
    b = true ↔ ∀ r, Meets get link seen start r → ok r = true := by
  induction fuel generalizing start seen b with
  | zero => cases h
  | succ fuel ih =>
    cases start with
    | none =>
      cases h
      exact ⟨fun _ r hr => (nomatch hr), fun _ => rfl⟩
    | some i =>
      rw [check] at h
      split at h
      · next hi =>
        cases h
        refine ⟨fun _ r hr => ?_, fun _ => rfl⟩
        cases hr with
        | here hi' _ => exact absurd hi hi'
        | further hi' _ _ => exact absurd hi hi'
      · next hi =>
        split at h
        · next hnone =>
          cases h
          refine ⟨fun _ r hr => ?_, fun _ => rfl⟩
          cases hr with
          | here _ hr => rw [hnone] at hr; cases hr
          | further _ hr _ => rw [hnone] at hr; cases hr
        · next r hr =>
          split at h
          · next hok =>
            rw [ih h]
            simp only [meets_some_iff hi hr, forall_eq_or_imp]
            exact ⟨fun hrest => ⟨hok, hrest⟩, fun hall => hall.2⟩
          · next hok =>
            cases h
            refine ⟨fun h => (nomatch h), fun hall => ?_⟩
            exact absurd (hall r (.here hi hr)) hok

end GuardedWalk
