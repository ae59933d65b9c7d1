import OpenLaunch.Groups.PatchAtomic

/-! # Adding users to a group

`add_users_to_group` flushes the row of one user after the other. A row that violates a constraint is
taken back by a rollback of the transaction, which takes back the rows that were flushed before it
as well. -/

namespace OpenLaunch.Groups

open Python

variable {c : Columns} {g : Group} {us : List String} {x : String}

/-! ## Places of a list of ids -/

/-- **The database refuses the id at place `i`** when it comes to it: the database does not take the
id, the user is a member already, or the id is at an earlier place from which on nothing has been
refused. -/
def RefusedAt (c : Columns) (members us : List String) (i : ℕ) : Prop :=
  ∃ u, us[i]? = some u ∧ (c.user_id (.str u) = none ∨ u ∈ members ∨
    ∃ j < i, us[j]? = some u ∧ ∀ k, j ≤ k → (h : k < i) → ¬ RefusedAt c members us k)
termination_by i
decreasing_by exact h

/-- **Nobody is lost**: a user that is no member yet is at some place from which on nothing is
refused. -/
def KeepsNewcomers (c : Columns) (members us : List String) : Prop :=
  ∀ u ∈ us, u ∉ members → ∃ i, us[i]? = some u ∧ ∀ k, i ≤ k → ¬ RefusedAt c members us k

/-! ## The transaction -/

/-- The group in the session once the first `n` ids have been taken. -/
def session (c : Columns) (g : Group) (us : List String) (n : ℕ) : Group :=
  g.add_users_to_group c ((us.take n).map Json.str)

theorem session_zero : session c g us 0 = g := rfl

theorem session_length : session c g us us.length = g.add_users_to_group c (us.map Json.str) := by
  rw [session, List.take_length]

/-- The next id is added, or the session goes back to the group. -/
theorem session_succ {n : ℕ} {u : String} (hu : us[n]? = some u) :
    session c g us (n + 1) = ((session c g us n).insert c (.str u)).getD g := by
  rw [session, List.take_add_one, hu, Option.toList_some, List.map_append, Group.add_users_to_group,
    List.foldl_append]
  rfl

/-- What an insert comes to. -/
theorem user_ids_insert (g g₀ : Group) (u : String) :
    ((g.insert c (.str u)).getD g₀).user_ids =
      if c.user_id (.str u) = none ∨ u ∈ g.user_ids then g₀.user_ids else g.user_ids ++ [u] := by
  rw [Group.insert]
  cases hu : c.user_id (.str u) with
  | none => simp
  | some v =>
    have huv : v = u := c.user_id_str u v hu
    subst huv
    by_cases hmem : v ∈ g.user_ids
    · simp [hmem]
    · simp [hmem]

/-- **Who is in the session** once the first `n` ids have been taken: the members, and those at some
place from which on nothing has been refused. -/
theorem mem_session {n : ℕ} (hn : n ≤ us.length) : x ∈ (session c g us n).user_ids ↔
    x ∈ g.user_ids ∨ ∃ j < n, us[j]? = some x ∧
      ∀ k, j ≤ k → k < n → ¬ RefusedAt c g.user_ids us k := by
  induction n generalizing x with
  | zero => simp [session_zero]
  | succ n ih =>
    have hget : us[n]? = some us[n] := List.getElem?_eq_getElem (by omega)
    generalize us[n] = u at hget
    have hrefused : RefusedAt c g.user_ids us n ↔
        c.user_id (.str u) = none ∨ u ∈ (session c g us n).user_ids := by
      rw [RefusedAt, ih (by omega)]
      constructor
      · rintro ⟨v, hv, h⟩
        rw [hget, Option.some.injEq] at hv
        exact hv ▸ h
      · exact fun h => ⟨u, hget, h⟩
    rw [session_succ hget, user_ids_insert]
    by_cases h : RefusedAt c g.user_ids us n
    · -- after a refusal only the members are left
      rw [if_pos (hrefused.mp h)]
      refine ⟨.inl, ?_⟩
      rintro (hx | ⟨j, hj, -, hquiet⟩)
      · exact hx
      · exact absurd h (hquiet n (by omega) (by omega))
    · rw [if_neg fun hor => h (hrefused.mpr hor), List.mem_append, List.mem_singleton, ih (by omega)]
      constructor
      · rintro ((hx | ⟨j, hj, hxj, hquiet⟩) | rfl)
        · exact .inl hx
        · refine .inr ⟨j, by omega, hxj, fun k hjk hk => ?_⟩
          rcases Nat.lt_succ_iff_lt_or_eq.mp hk with hlt | rfl
          · exact hquiet k hjk hlt
          · exact h
        · refine .inr ⟨n, by omega, hget, fun k hnk hk => ?_⟩
          have hkn : k = n := by omega
          rwa [hkn]
      · rintro (hx | ⟨j, hj, hxj, hquiet⟩)
        · exact .inl (.inl hx)
        · by_cases hjn : j = n
          · rw [hjn, hget] at hxj
            exact .inr (Option.some.inj hxj).symm
          · exact .inl (.inr ⟨j, by omega, hxj, fun k hjk hk => hquiet k hjk (by omega)⟩)

/-- What `add_users_to_group` is for: every listed user is a member then, every member still is, and
nobody else has become one. -/
structure AddsUsers (g g' : Group) (us : List String) : Prop where
  listed : ∀ u ∈ us, u ∈ g'.user_ids
  kept : ∀ u ∈ g.user_ids, u ∈ g'.user_ids
  nobody : ∀ u ∈ g'.user_ids, u ∈ g.user_ids ∨ u ∈ us

/-- **Users are added** exactly if no newcomer is lost to a refusal after it. -/
theorem addsUsers_iff (c : Columns) (g : Group) (us : List String) :
    AddsUsers g (g.add_users_to_group c (us.map Json.str)) us ↔
      KeepsNewcomers c g.user_ids us := by
  have hmem : ∀ u, u ∈ (g.add_users_to_group c (us.map Json.str)).user_ids ↔
      u ∈ g.user_ids ∨ ∃ j < us.length, us[j]? = some u ∧
        ∀ k, j ≤ k → k < us.length → ¬ RefusedAt c g.user_ids us k := by
    intro u
    rw [← session_length, mem_session le_rfl]
  -- nothing is refused beyond the list
  have hend : ∀ k, us.length ≤ k → ¬ RefusedAt c g.user_ids us k := by
    intro k hk
    rw [RefusedAt, List.getElem?_eq_none hk]
    exact fun ⟨u, hu, _⟩ => nomatch hu
  constructor
  · intro h u hu hnew
    obtain hold | ⟨j, -, hj, hquiet⟩ := (hmem u).mp (h.listed u hu)
    · exact absurd hold hnew
    · refine ⟨j, hj, fun k hjk => ?_⟩
      by_cases hk : k < us.length
      · exact hquiet k hjk hk
      · exact hend k (by omega)
  · intro h
    refine ⟨fun u hu => (hmem u).mpr ?_, fun u hu => (hmem u).mpr (.inl hu), fun u hu => ?_⟩
    · by_cases hold : u ∈ g.user_ids
      · exact .inl hold
      · obtain ⟨i, hi, hquiet⟩ := h u hu hold
        obtain ⟨hlt, -⟩ := List.getElem?_eq_some_iff.mp hi
        exact .inr ⟨i, hlt, hi, fun k hik _ => hquiet k hik⟩
    · rcases (hmem u).mp hu with hold | ⟨j, -, hj, -⟩
      · exact .inl hold
      · exact .inr (List.mem_of_getElem? hj)

/-- Ann is listed before Bob, who is a member: she is not added. -/
theorem ann_is_lost :
    ((⟨"staff", "", ["bob"], by simp⟩ : Group).add_users_to_group textColumns
      (["ann", "bob"].map Json.str)).user_ids = ["bob"] ∧
    ¬ AddsUsers ⟨"staff", "", ["bob"], by simp⟩
      ((⟨"staff", "", ["bob"], by simp⟩ : Group).add_users_to_group textColumns
        (["ann", "bob"].map Json.str)) ["ann", "bob"] := by
  refine ⟨by decide, fun h => ?_⟩
  exact absurd (h.listed "ann" (by simp)) (by decide)

end OpenLaunch.Groups
