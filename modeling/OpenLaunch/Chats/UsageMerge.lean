import OpenLaunch.Chats.Usage
import Mathlib.Data.List.Perm.Subperm

/-! # Merging a usage twice

What a second merge of the same usage changes: nothing exactly when every number that it adds is
one whose second addition changes nothing, that is, zero. -/

namespace OpenLaunch.Chats

open Python

variable {conv : Conversions} {floats : Floats} {current incoming merged : Usage} {k : String}
  {a b v w : Json}

/-! ## Counts -/

theorem isNumber_numberOrZero (v : Json) : (numberOrZero v).isNumber = true := by
  unfold numberOrZero
  split
  · assumption
  · rfl

/-- The sum of two numbers is a number. -/
theorem isNumber_of_plus (ha : a.isNumber) (hb : b.isNumber) (h : floats.plus a b = .ok w) :
    w.isNumber = true := by
  cases a with
  | int m =>
    cases b with
    | int n =>
      cases h
      rfl
    | float y =>
      rw [Floats.plus] at h
      · simp only [Json.int?, Json.isReal, and_self, if_true] at h
        split at h
        · cases h
          rfl
        · cases h
      · simp
      · simp
    | null | bool | str | list | dict => cases hb
  | float x =>
    rw [Floats.plus] at h
    · cases b with
      | int | float =>
        simp only [Json.int?, Json.isReal, and_self, if_true] at h
        split at h
        · cases h
          rfl
        · cases h
      | null | bool | str | list | dict => cases hb
    · simp
    · simp
  | null | bool | str | list | dict => cases ha

/-- Adding the incoming count a second time changes nothing. -/
def AddsNoCount (floats : Floats) (current incoming : Json) : Prop :=
  (current.isNumber || incoming.isNumber) = true →
    ∀ s, floats.plus (numberOrZero current) (numberOrZero incoming) = .ok s →
      floats.plus s (numberOrZero incoming) = .ok s

/-- **Whole counts**: nothing is added exactly when zero is. -/
theorem addsNoCount_int {m n : ℤ} : AddsNoCount floats (.int m) (.int n) ↔ n = 0 := by
  constructor
  · intro h
    have hsum := h rfl _ (plus_int m n)
    have heq := hsum.symm.trans (plus_int (m + n) n)
    injection heq with heq
    injection heq with heq
    omega
  · rintro rfl - s hs
    cases hs
    exact (plus_int _ _).trans (by simp)

/-- The second count of a key. -/
theorem mergedCount_again (h : mergedCount floats a b v = .ok w)
    (hv : (a.isNumber || b.isNumber) = false → v.isNumber = false) {v' : Json}
    (hv' : w = v → v' = w) : mergedCount floats w b v' = .ok w ↔ AddsNoCount floats a b := by
  unfold mergedCount at h ⊢
  unfold AddsNoCount
  by_cases hn : (a.isNumber || b.isNumber) = true
  · rw [if_pos hn] at h
    have hw := isNumber_of_plus (isNumber_numberOrZero a) (isNumber_numberOrZero b) h
    have hself : numberOrZero w = w := if_pos hw
    rw [if_pos (by rw [hw, Bool.true_or]), hself]
    constructor
    · intro hagain _ s hs
      rw [h] at hs
      cases hs
      exact hagain
    · exact fun hadd => hadd hn w h
  · have hn' : (a.isNumber || b.isNumber) = false := by simpa using hn
    rw [if_neg hn] at h
    cases h
    rw [Bool.or_eq_false_iff] at hn'
    rw [if_neg (by rw [hv (by simp [hn']), hn'.2]; decide), hv' rfl]
    exact ⟨fun _ hpos => absurd hpos hn, fun _ => rfl⟩

/-! ## Maps -/

theorem get?_update_cases (hi : (Assoc.keys incoming).Nodup)
    (h : Assoc.get? (Assoc.update current incoming) k = some v) :
    Assoc.get? incoming k = some v ∨
      (Assoc.get? incoming k = none ∧ Assoc.get? current k = some v) := by
  rw [Assoc.get?_update hi] at h
  cases hin : Assoc.get? incoming k with
  | some v' =>
    rw [hin] at h
    exact .inl h
  | none =>
    rw [hin] at h
    exact .inr ⟨rfl, h⟩

/-- A value of the united map is one of the two values. -/
theorem countAt_of_update (hi : (Assoc.keys incoming).Nodup)
    (h : Assoc.get? (Assoc.update current incoming) k = some v) :
    v = countAt incoming k ∨ v = countAt current k := by
  unfold countAt
  rcases get?_update_cases hi h with hin | ⟨-, hcur⟩
  · rw [hin]
    exact .inl rfl
  · rw [hcur]
    exact .inr rfl

/-- A value that the first merge passes on, the second one passes on. -/
theorem get?_update_again (hi : (Assoc.keys incoming).Nodup)
    (h : Assoc.get? (Assoc.update current incoming) k = some v)
    (hm : Assoc.get? merged k = some w) {v' : Json}
    (h' : Assoc.get? (Assoc.update merged incoming) k = some v') (hwv : w = v) : v' = w := by
  rw [Assoc.get?_update hi] at h'
  rcases get?_update_cases hi h with hin | ⟨hin, -⟩
  · rw [hin] at h'
    cases h'
    exact hwv.symm
  · rw [hin, Option.none_or, hm] at h'
    exact (Option.some.inj h').symm

/-- **A second merge, key by key**: where `f` makes the value of a key, the second merge changes
nothing exactly when it changes no key. -/
theorem mapM_again_iff {f : Usage → Usage → String → Json → Except PyErr Json}
    (hc : (Assoc.keys current).Nodup) (hi : (Assoc.keys incoming).Nodup)
    (h : (Assoc.update current incoming).mapM
      (fun e => Prod.mk e.1 <$> f current incoming e.1 e.2) = .ok merged)
    {P : String → Prop}
    (hf : ∀ k v w v', Assoc.get? (Assoc.update current incoming) k = some v →
      f current incoming k v = .ok w → countAt merged k = w → (w = v → v' = w) →
        (f merged incoming k v' = .ok w ↔ P k))
    (hout : ∀ k, countAt current k = .int 0 → countAt incoming k = .int 0 → P k) :
    (Assoc.update merged incoming).mapM
        (fun e => Prod.mk e.1 <$> f merged incoming e.1 e.2) = .ok merged ↔
      ∀ k, P k := by
  obtain ⟨hkeys, hget⟩ := get?_of_mapM h
  have hnodup : (Assoc.keys merged).Nodup := by
    rw [hkeys]
    exact Assoc.nodup_keys_update hc incoming
  have hsub : Assoc.keys incoming ⊆ Assoc.keys merged := by
    intro k hk
    rw [hkeys, Assoc.mem_keys_update]
    exact .inr hk
  have hkeys' : Assoc.keys (Assoc.update merged incoming) = Assoc.keys merged :=
    Assoc.keys_update_of_subset hsub
  have hone : ∀ {k w v'}, Assoc.get? merged k = some w →
      Assoc.get? (Assoc.update merged incoming) k = some v' →
      (f merged incoming k v' = .ok w ↔ P k) := by
    intro k w v' hw hv'
    have hmem : k ∈ Assoc.keys (Assoc.update current incoming) := by
      rw [← hkeys, ← Assoc.get?_isSome_iff, hw]
      rfl
    obtain ⟨v, hv⟩ := Option.isSome_iff_exists.mp ((Assoc.get?_isSome_iff _ _).mpr hmem)
    obtain ⟨w', hw', hget'⟩ := hget k v hv
    rw [hw] at hget'
    cases hget'
    refine hf k v w v' hv hw' ?_ (get?_update_again hi hv hw hv')
    rw [countAt, hw]
    rfl
  constructor
  · intro hagain k
    obtain ⟨-, hget'⟩ := get?_of_mapM hagain
    cases hw : Assoc.get? merged k with
    | some w =>
      have hmem : k ∈ Assoc.keys (Assoc.update merged incoming) := by
        rw [hkeys', ← Assoc.get?_isSome_iff, hw]
        rfl
      obtain ⟨v', hv'⟩ := Option.isSome_iff_exists.mp ((Assoc.get?_isSome_iff _ _).mpr hmem)
      obtain ⟨w', hw', hsame⟩ := hget' k v' hv'
      rw [hw] at hsame
      cases hsame
      exact (hone hw hv').mp hw'
    | none =>
      have hnone : k ∉ Assoc.keys (Assoc.update current incoming) := by
        rw [← hkeys]
        exact (Assoc.get?_eq_none_iff merged k).mp hw
      rw [Assoc.mem_keys_update, not_or, ← Assoc.get?_eq_none_iff, ← Assoc.get?_eq_none_iff]
        at hnone
      refine hout k ?_ ?_
      · rw [countAt, hnone.1]
        rfl
      · rw [countAt, hnone.2]
        rfl
  · intro hall
    refine mapM_of_get? ?_ hkeys'.symm fun k v' w hv' hw => (hone hw hv').mpr (hall k)
    rw [hkeys']
    exact hnodup

/-! ## Detailed counts -/

/-- The incoming details add no count at any depth. -/
inductive DetailsAddNothing (floats : Floats) : Usage → Usage → Prop
  | intro {current incoming : Usage}
      (details : ∀ k, EitherDict (countAt current k) (countAt incoming k) →
        DetailsAddNothing floats (asDict (countAt current k)) (asDict (countAt incoming k)))
      (counts : ∀ k, ¬ EitherDict (countAt current k) (countAt incoming k) →
        AddsNoCount floats (countAt current k) (countAt incoming k)) :
      DetailsAddNothing floats current incoming

theorem addsNoCount_zero : AddsNoCount floats (.int 0) (.int 0) := addsNoCount_int.mpr rfl

theorem wellFormed_countAt (h : Json.WellFormed (.dict current)) (k : String) :
    Json.WellFormed (.dict (asDict (countAt current k))) := by
  unfold countAt
  cases hget : Assoc.get? current k with
  | none => exact .dict List.nodup_nil fun e he => nomatch he
  | some v =>
    cases h with
    | dict hkeys hall =>
      have hv := hall _ (Assoc.mem_of_get? hget)
      cases v with
      | dict kvs => exact hv
      | null | bool | int | float | str | list => exact .dict List.nodup_nil fun e he => nomatch he

theorem WellFormed.nodup (h : Json.WellFormed (.dict current)) : (Assoc.keys current).Nodup := by
  cases h with
  | dict hkeys _ => exact hkeys

/-- A merged count is a dictionary only if one of the counts is. -/
theorem isDict_of_mergedCount (h : mergedCount floats a b v = .ok w) (hv : v = b ∨ v = a)
    (hw : w.isDict) : EitherDict a b := by
  unfold mergedCount at h
  split at h
  · have hn := isNumber_of_plus (isNumber_numberOrZero a) (isNumber_numberOrZero b) h
    cases w with
    | dict => cases hn
    | null | bool | int | float | str | list => cases hw
  · cases h
    rcases hv with rfl | rfl
    · exact .inr hw
    · exact .inl hw

/-- **Merging details twice.** -/
theorem merge_map_again_iff (current incoming : Usage) {merged : Usage}
    (hc : Json.WellFormed (.dict current)) (hi : Json.WellFormed (.dict incoming))
    (h : _merge_numeric_usage_map floats current incoming = .ok merged) :
    _merge_numeric_usage_map floats merged incoming = .ok merged ↔
      DetailsAddNothing floats current incoming := by
  rw [_merge_numeric_usage_map] at h ⊢
  have hiff := mapM_again_iff
    (f := fun current incoming k v =>
      if _h : EitherDict (countAt current k) (countAt incoming k) then
        .dict <$> _merge_numeric_usage_map floats (asDict (countAt current k))
          (asDict (countAt incoming k))
      else mergedCount floats (countAt current k) (countAt incoming k) v)
    (P := fun k => (EitherDict (countAt current k) (countAt incoming k) →
        DetailsAddNothing floats (asDict (countAt current k)) (asDict (countAt incoming k))) ∧
      (¬ EitherDict (countAt current k) (countAt incoming k) →
        AddsNoCount floats (countAt current k) (countAt incoming k)))
    (WellFormed.nodup hc) (WellFormed.nodup hi) h ?_ ?_
  · refine hiff.trans ⟨fun hall => ?_, fun hall k => ?_⟩
    · exact .intro (fun k => (hall k).1) (fun k => (hall k).2)
    · cases hall with
      | intro details counts => exact ⟨details k, counts k⟩
  · intro k v w v' hv hw hcount hpass
    rw [hcount]
    by_cases hdict : EitherDict (countAt current k) (countAt incoming k)
    · rw [dif_pos hdict] at hw
      obtain ⟨d, hd, rfl⟩ := map_eq_ok.mp hw
      rw [dif_pos (.inl rfl)]
      have ih := merge_map_again_iff (asDict (countAt current k)) (asDict (countAt incoming k))
        (wellFormed_countAt hc k) (wellFormed_countAt hi k) hd
      rw [map_eq_ok]
      constructor
      · rintro ⟨d', hd', heq⟩
        cases heq
        exact ⟨fun _ => ih.mp hd', fun hnot => absurd hdict hnot⟩
      · rintro ⟨hdetails, -⟩
        exact ⟨d, ih.mpr (hdetails hdict), rfl⟩
    · rw [dif_neg hdict] at hw
      have hfrom := countAt_of_update (WellFormed.nodup hi) hv
      have hw' : ¬ EitherDict w (countAt incoming k) := by
        rintro (hdict' | hdict')
        · exact hdict (isDict_of_mergedCount hw hfrom hdict')
        · exact hdict (.inr hdict')
      rw [dif_neg hw', mergedCount_again hw ?_ hpass]
      · exact ⟨fun hadd => ⟨fun h => absurd h hdict, fun _ => hadd⟩, fun h => h.2 hdict⟩
      · intro hn
        rw [Bool.or_eq_false_iff] at hn
        rcases hfrom with rfl | rfl
        · exact hn.2
        · exact hn.1
  · intro k hck hik
    rw [hck, hik]
    refine ⟨fun hdict => ?_, fun _ => addsNoCount_zero⟩
    rcases hdict with hdict | hdict <;> cases hdict
termination_by sizeOf current + sizeOf incoming
decreasing_by exact sizeOf_asDict_add_lt hdict

/-! ## Usages -/

/-- The incoming usage adds no count, no cost and no detail. -/
structure AddsNothing (floats : Floats) (current incoming : Usage) : Prop where
  counts : ∀ k, k ∈ USAGE_TOKEN_KEYS ∨ k ∈ USAGE_COST_KEYS →
    AddsNoCount floats (countAt current k) (countAt incoming k)
  details : ∀ k ∈ USAGE_DETAIL_KEYS, EitherDict (countAt current k) (countAt incoming k) →
    DetailsAddNothing floats (asDict (countAt current k)) (asDict (countAt incoming k))

/-- The current usage adds nothing to the incoming one: it has no other keys, and under each key the
merged value equals the incoming one. -/
structure CurrentAddsNothing (floats : Floats) (current incoming : Usage) : Prop where
  keys : Assoc.keys current ⊆ Assoc.keys incoming
  values : ∀ k v, Assoc.get? incoming k = some v →
    ∀ w, mergedValue floats current incoming k v = .ok w → floats.equal v w = true

theorem not_detail_of_count (h : k ∈ USAGE_TOKEN_KEYS ∨ k ∈ USAGE_COST_KEYS) :
    k ∉ USAGE_DETAIL_KEYS := by
  have htoken : ∀ k ∈ USAGE_TOKEN_KEYS, k ∉ USAGE_DETAIL_KEYS := by decide
  have hcost : ∀ k ∈ USAGE_COST_KEYS, k ∉ USAGE_DETAIL_KEYS := by decide
  exact h.elim (htoken k) (hcost k)

/-- **Merging usages twice.** -/
theorem mergeNormalized_again_iff (hc : Json.WellFormed (.dict current))
    (hi : Json.WellFormed (.dict incoming))
    (h : mergeNormalized floats current incoming = .ok merged) :
    mergeNormalized floats merged incoming = .ok merged ↔ AddsNothing floats current incoming := by
  have hiff := mapM_again_iff (f := mergedValue floats)
    (P := fun k => (k ∈ USAGE_TOKEN_KEYS ∨ k ∈ USAGE_COST_KEYS →
        AddsNoCount floats (countAt current k) (countAt incoming k)) ∧
      (k ∈ USAGE_DETAIL_KEYS → EitherDict (countAt current k) (countAt incoming k) →
        DetailsAddNothing floats (asDict (countAt current k)) (asDict (countAt incoming k))))
    (WellFormed.nodup hc) (WellFormed.nodup hi) h ?_ ?_
  · exact hiff.trans ⟨fun hall => ⟨fun k => (hall k).1, fun k => (hall k).2⟩,
      fun hadd k => ⟨hadd.counts k, hadd.details k⟩⟩
  · intro k v w v' hv hw hcount hpass
    have hfrom := countAt_of_update (WellFormed.nodup hi) hv
    unfold mergedValue at hw ⊢
    rw [hcount]
    by_cases hk : k ∈ USAGE_TOKEN_KEYS ∨ k ∈ USAGE_COST_KEYS
    · rw [if_pos hk] at hw ⊢
      rw [mergedCount_again hw ?_ hpass]
      · exact ⟨fun hadd => ⟨fun _ => hadd, fun hd => absurd hd (not_detail_of_count hk)⟩,
          fun hall => hall.1 hk⟩
      · intro hn
        rw [Bool.or_eq_false_iff] at hn
        rcases hfrom with rfl | rfl
        · exact hn.2
        · exact hn.1
    · rw [if_neg hk] at hw ⊢
      by_cases hd : k ∈ USAGE_DETAIL_KEYS ∧ EitherDict (countAt current k) (countAt incoming k)
      · rw [if_pos hd] at hw
        obtain ⟨d, hmap, rfl⟩ := map_eq_ok.mp hw
        rw [if_pos ⟨hd.1, .inl rfl⟩, map_eq_ok]
        have hagain := merge_map_again_iff _ _ (wellFormed_countAt hc k) (wellFormed_countAt hi k)
          hmap
        constructor
        · rintro ⟨d', hd', heq⟩
          cases heq
          exact ⟨fun h => absurd h hk, fun _ _ => hagain.mp hd'⟩
        · exact fun hall => ⟨d, hagain.mpr (hall.2 hd.1 hd.2), rfl⟩
      · rw [if_neg hd] at hw
        cases hw
        have hd' : ¬ (k ∈ USAGE_DETAIL_KEYS ∧ EitherDict v (countAt incoming k)) := by
          rintro ⟨hdetail, hdict | hdict⟩
          · refine hd ⟨hdetail, ?_⟩
            rcases hfrom with rfl | rfl
            · exact .inr hdict
            · exact .inl hdict
          · exact hd ⟨hdetail, .inr hdict⟩
        rw [if_neg hd', hpass rfl]
        exact ⟨fun _ => ⟨fun h => absurd h hk, fun h h' => absurd ⟨h, h'⟩ hd⟩, fun _ => rfl⟩
  · intro k hck hik
    rw [hck, hik]
    refine ⟨fun _ => addsNoCount_zero, fun _ hdict => ?_⟩
    rcases hdict with hdict | hdict <;> cases hdict

/-- What a merge makes of the keys and the values. -/
theorem mergeNormalized_ok (h : mergeNormalized floats current incoming = .ok merged) :
    Assoc.keys merged = Assoc.keys (Assoc.update current incoming) ∧
      ∀ k v, Assoc.get? (Assoc.update current incoming) k = some v →
        ∃ w, mergedValue floats current incoming k v = .ok w ∧ Assoc.get? merged k = some w :=
  get?_of_mapM h

/-- **The merged usage equals the incoming one** exactly when the current one adds nothing. -/
theorem equal_merged_iff (hc : (Assoc.keys current).Nodup) (hi : (Assoc.keys incoming).Nodup)
    (h : mergeNormalized floats current incoming = .ok merged) :
    floats.equal (.dict incoming) (.dict merged) = true ↔
      CurrentAddsNothing floats current incoming := by
  obtain ⟨hkeys, hget⟩ := mergeNormalized_ok h
  have hnodup : (Assoc.keys merged).Nodup := by
    rw [hkeys]
    exact Assoc.nodup_keys_update hc incoming
  have hsub : Assoc.keys incoming ⊆ Assoc.keys merged := by
    intro k hk
    rw [hkeys, Assoc.mem_keys_update]
    exact .inr hk
  have hvalue : ∀ {k v}, Assoc.get? incoming k = some v →
      ∃ w, mergedValue floats current incoming k v = .ok w ∧ Assoc.get? merged k = some w := by
    intro k v hv
    refine hget k v ?_
    rw [Assoc.get?_update hi, hv]
    rfl
  have hlength : ∀ {d : Usage}, d.length = (Assoc.keys d).length := fun {d} => by
    rw [Assoc.keys, List.length_map]
  rw [Floats.equal, Bool.and_eq_true, decide_eq_true_eq, equalEntries_iff]
  constructor
  · rintro ⟨hlen, hall⟩
    refine ⟨fun k hk => ?_, fun k v hv w hw => ?_⟩
    · have hle : (Assoc.keys merged).length ≤ (Assoc.keys incoming).length := by
        rw [← hlength, ← hlength]
        exact Nat.le_of_eq hlen.symm
      have hperm := (List.subperm_of_subset hi hsub).perm_of_length_le hle
      rw [hperm.mem_iff, hkeys, Assoc.mem_keys_update]
      exact .inl hk
    · obtain ⟨w', hw', heq⟩ := hall (k, v) (Assoc.mem_of_get? hv)
      obtain ⟨w₂, hw₂, hget₂⟩ := hvalue hv
      rw [hw] at hw₂
      cases hw₂
      rw [hget₂] at hw'
      cases hw'
      exact heq
  · intro hadd
    have hperm : (Assoc.keys incoming).Perm (Assoc.keys merged) := by
      refine (List.perm_ext_iff_of_nodup hi hnodup).mpr fun k => ⟨fun hk => hsub hk, fun hk => ?_⟩
      rw [hkeys, Assoc.mem_keys_update] at hk
      exact hk.elim (fun hk => hadd.keys hk) id
    refine ⟨by rw [hlength, hlength, hperm.length_eq], fun e he => ?_⟩
    obtain ⟨w, hw, hget'⟩ := hvalue (Assoc.get?_of_mem hi he)
    exact ⟨w, hget', hadd.values e.1 e.2 (Assoc.get?_of_mem hi he) w hw⟩

/-! ## Whole counts -/

/-- The usage has the standard count `n` under `key`, and if it is zero, then none of the names `ks`
has a count. -/
def Counts (usage : Usage) (key : String) (ks : List String) (n : ℕ) : Prop :=
  Assoc.get? usage key = some (.int n) ∧
    (n = 0 → ∀ k ∈ ks, Message.field usage k = .null ∨ Message.field usage k = .int 0)

/-- The standard counts are natural numbers, and a count that is zero hides no other one. -/
def WholeCounts (usage : Usage) : Prop :=
  ∃ n m t : ℕ, Counts usage "input_tokens" inputKeys n ∧ Counts usage "output_tokens" outputKeys m ∧
    Assoc.get? usage "total_tokens" = some (.int t) ∧ (t = 0 → n = 0 ∧ m = 0)

/-- The count that `normalize_usage` finds. -/
theorem firstTruthy_of_counts {usage : Usage} {key : String} {ks : List String} {n : ℕ}
    (h : Counts usage key (key :: ks) n) : firstTruthy usage (key :: ks) = .int n := by
  obtain ⟨hget, hzero⟩ := h
  have hfield : Message.field usage key = .int n := by
    rw [Message.field, hget]
    rfl
  unfold firstTruthy
  by_cases hn : n = 0
  · have hnone : ((key :: ks).map (Message.field usage)).find? Json.truthy = none := by
      rw [List.find?_eq_none]
      intro v hv
      obtain ⟨k, hk, rfl⟩ := List.mem_map.mp hv
      rcases hzero hn k hk with hv | hv <;> rw [hv] <;> decide
    rw [hnone, hn]
    rfl
  · have htruthy : (Json.int n).truthy = true := by
      simp [Json.truthy, hn]
    rw [List.map_cons, hfield, List.find?_cons_of_pos htruthy]
    rfl

/-- **Normalizing whole counts changes nothing.** -/
theorem WholeCounts.normalize {usage : Usage} (h : WholeCounts usage) :
    normalizeEntries conv floats usage = .ok usage := by
  obtain ⟨n, m, t, hinput, houtput, htotal, hzero⟩ := h
  have hin := firstTruthy_of_counts hinput
  have hout := firstTruthy_of_counts houtput
  have hsum : totalTokens floats usage = .ok (.int t) := by
    have hfield : Message.field usage "total_tokens" = .int t := by
      rw [Message.field, htotal]
      rfl
    unfold totalTokens
    rw [hfield]
    by_cases ht : t = 0
    · subst ht
      obtain ⟨rfl, rfl⟩ := hzero rfl
      show floats.plus (firstTruthy usage inputKeys) (firstTruthy usage outputKeys) = _
      rw [inputKeys, outputKeys, hin, hout]
      rfl
    · rw [if_pos]
      simp [Json.truthy, ht]
  rw [normalizeEntries, hsum, inputKeys, outputKeys, hin, hout]
  show Except.ok _ = _
  rw [Assoc.set_of_get? hinput.1, Assoc.set_of_get? houtput.1, Assoc.set_of_get? htotal]

/-- A merged count. -/
theorem Counts.merge (hi : (Assoc.keys incoming).Nodup)
    (h : mergeNormalized floats current incoming = .ok merged) {key : String} {ks : List String}
    (hkey : key ∈ USAGE_TOKEN_KEYS)
    (hks : ∀ k ∈ ks, k ∉ USAGE_COST_KEYS ∧ k ∉ USAGE_DETAIL_KEYS) {n m : ℕ}
    (hn : Counts current key ks n) (hm : Counts incoming key ks m) :
    Counts merged key ks (n + m) := by
  obtain ⟨hkeys, hget⟩ := mergeNormalized_ok h
  constructor
  · obtain ⟨w, hw, hmerged⟩ := hget key (.int m) (by rw [Assoc.get?_update hi, hm.1]; rfl)
    unfold mergedValue at hw
    rw [if_pos (.inl hkey), countAt, countAt, hn.1, hm.1] at hw
    cases hw
    rw [hmerged]
    rfl
  · intro hzero k hk
    have hblank : ∀ {usage : Usage} {c : ℕ}, Counts usage key ks c → c = 0 →
        countAt usage k = .null ∨ countAt usage k = .int 0 := by
      intro usage c hc hc0
      have hfield := hc.2 hc0 k hk
      unfold Message.field at hfield
      unfold countAt
      cases hg : Assoc.get? usage k with
      | none => exact .inr rfl
      | some v =>
        rw [hg] at hfield
        exact hfield
    have hcur := hblank hn (by omega)
    have hinc := hblank hm (by omega)
    unfold Message.field
    cases hv : Assoc.get? (Assoc.update current incoming) k with
    | none =>
      have hnone : Assoc.get? merged k = none := by
        rw [Assoc.get?_eq_none_iff, hkeys]
        exact (Assoc.get?_eq_none_iff _ k).mp hv
      rw [hnone]
      exact .inl rfl
    | some v =>
      obtain ⟨w, hw, hmerged⟩ := hget k v hv
      have hvblank : v = .null ∨ v = .int 0 := by
        rcases countAt_of_update hi hv with rfl | rfl
        · exact hinc
        · exact hcur
      rw [hmerged]
      show w = .null ∨ w = .int 0
      unfold mergedValue at hw
      split at hw
      · unfold mergedCount at hw
        split at hw
        · have hsum : floats.plus (numberOrZero (countAt current k))
              (numberOrZero (countAt incoming k)) = .ok (.int 0) := by
            rcases hcur with hc | hc <;> rcases hinc with hi' | hi' <;> rw [hc, hi'] <;> rfl
          rw [hsum] at hw
          cases hw
          exact .inr rfl
        · cases hw
          exact hvblank
      · split at hw
        · rename_i hd
          exact absurd hd.1 (hks k hk).2
        · cases hw
          exact hvblank

/-- **Merging keeps whole counts.** -/
theorem WholeCounts.merge (hi : (Assoc.keys incoming).Nodup)
    (h : mergeNormalized floats current incoming = .ok merged) (hc : WholeCounts current)
    (hw : WholeCounts incoming) : WholeCounts merged := by
  obtain ⟨n, m, t, hin, hout, htotal, hzero⟩ := hc
  obtain ⟨n', m', t', hin', hout', htotal', hzero'⟩ := hw
  have hinput := Counts.merge hi h (by decide) (by decide) hin hin'
  have houtput := Counts.merge hi h (by decide) (by decide) hout hout'
  have ht : Counts merged "total_tokens" [] (t + t') :=
    Counts.merge hi h (by decide) (by decide) ⟨htotal, fun _ k hk => nomatch hk⟩
      ⟨htotal', fun _ k hk => nomatch hk⟩
  refine ⟨n + n', m + m', t + t', hinput, houtput, ht.1, fun hsum => ?_⟩
  have h₁ := hzero (by omega)
  have h₂ := hzero' (by omega)
  omega

end OpenLaunch.Chats
