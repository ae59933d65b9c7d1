import OpenLaunch.Auth.GroupSync
import Mathlib.Data.List.Induction

/-! # Groups from a directory or a proxy

A login through LDAP or a trusted header brings a list of group names. Unless it is empty, the user
becomes a member of the groups with these names, and of no others. -/

namespace OpenLaunch.Auth.Tables

open Python

variable (now : ℕ) (user_id : String) (group_names : List String) (t : Tables)

/-- `target_group_ids`. -/
def target_group_ids : List String :=
  t.group.keys.filter fun id => (t.nameOf id).any (· ∈ group_names)

local instance lawfulBEqIds : LawfulBEq (String × String) := inferInstance

/-- `groups_to_add`; `existing_group_ids` are the groups in the rows of the user. -/
def groups_to_add : List String :=
  (t.target_group_ids group_names).filter fun id => (id, user_id) ∉ t.group_member

/-- `sync_groups_by_group_names`. The groups that the user leaves or joins are touched. -/
def sync_groups_by_group_names : Tables where
  group := t.group.mapValues fun id g =>
    if id ∈ t.target_group_ids group_names ↔ (id, user_id) ∈ t.group_member then g
    else g.touch now
  group_member :=
    t.group_member.filter (fun m => ¬ (m.2 = user_id ∧ m.1 ∉ t.target_group_ids group_names)) ++
      (t.groups_to_add user_id group_names).map (·, user_id)
  unique := by
    have hadd : (t.groups_to_add user_id group_names).Nodup := (t.group.nodup.filter _).filter _
    refine (t.unique.filter _).append (hadd.map (Prod.mk_left_injective user_id)) ?_
    intro m hm hadded
    obtain ⟨id, hid, rfl⟩ := List.mem_map.mp hadded
    exact (of_decide_eq_true (List.mem_filter.mp hid).2) (List.mem_of_mem_filter hm)
  foreign := fun m hm => by
    show m.1 ∈ Assoc.keys _
    rw [Dict.mapValues, Assoc.keys, List.map_map]
    rcases List.mem_append.mp hm with hm | hm
    · exact t.foreign m (List.mem_of_mem_filter hm)
    · obtain ⟨id, hid, rfl⟩ := List.mem_map.mp hm
      exact List.mem_of_mem_filter (List.mem_of_mem_filter hid)

/-- A login of a user, with the names it brings. -/
structure Login where
  now : ℕ
  user_id : String
  group_names : List String

/-- What a login does to the tables. -/
def login (t : Tables) (l : Login) : Tables :=
  if l.group_names = [] then t
  else t.sync_groups_by_group_names l.now l.user_id l.group_names

theorem login_spec (l : Login) :
    SameNames t (t.login l) ∧ ∀ id user_id, (id, user_id) ∈ (t.login l).group_member ↔
      if l.user_id = user_id ∧ l.group_names ≠ [] then
        ∃ name ∈ l.group_names, t.nameOf id = some name
      else (id, user_id) ∈ t.group_member := by
  unfold login
  by_cases hempty : l.group_names = []
  · simp [hempty, SameNames.refl]
  rw [if_neg hempty]
  refine ⟨fun id => ?_, fun id user_id => ?_⟩
  · show ((t.group.mapValues _).get? id).map _ = _
    rw [Dict.get?_mapValues, Option.map_map, nameOf]
    apply Option.map_congr
    intro g _
    simp only [Function.comp_apply]
    split <;> rfl
  · have htarget : id ∈ t.target_group_ids l.group_names ↔
        ∃ name ∈ l.group_names, t.nameOf id = some name := by
      rw [target_group_ids, List.mem_filter]
      show id ∈ t.group ∧ _ ↔ _
      rw [mem_group_iff]
      cases t.nameOf id <;> simp
    show (id, user_id) ∈ _ ++ _ ↔ _
    rw [← htarget]
    by_cases huser : l.user_id = user_id
    · subst huser
      simp [groups_to_add, hempty]
      tauto
    · simp [huser, Ne.symm huser]

end OpenLaunch.Auth.Tables
