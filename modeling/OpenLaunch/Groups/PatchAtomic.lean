import OpenLaunch.Groups.Patch
import OpenLaunch.Touches
import Mathlib.Data.List.TakeWhile

/-! # What a patch of a group leaves

A request that is answered has applied its operations and published the difference of the members
before and after exactly if every operation can be applied and every user is settled. One that is
refused has left the group as it was exactly if the operations before the one that raises have
undone each other. -/

namespace OpenLaunch.Groups

open Python

/-! ## Operations by their kinds -/

/-- The kinds of operations that the route knows. -/
inductive Kind
  | displayName
  | members
  | addMembers
  | removeMember (path : String)
  | other
  deriving DecidableEq

namespace SCIMPatchOperation

/-- The kind of an operation. -/
def kind (operation : SCIMPatchOperation) : Kind :=
  if operation.op.toLower = "replace" then
    if operation.path = some "displayName" then .displayName
    else if operation.path = some "members" then .members
    else .other
  else if operation.op.toLower = "add" then
    if operation.path = some "members" then .addMembers else .other
  else if operation.op.toLower = "remove" then
    match operation.path with
    | some path => if "members[value eq".toList <+: path.toList then .removeMember path else .other
    | none => .other
  else .other

theorem apply_eq (c : Columns) (numbers : List Json → List Json) (operation : SCIMPatchOperation)
    (l : Locals) :
    operation.apply c numbers l =
      match operation.kind with
      | .displayName => pure { l with name := operation.value }
      | .members => replaceMembers c numbers operation.value l
      | .addMembers => addMembers c operation.value l
      | .removeMember path => removeMember path l
      | .other => pure l := by
  rw [apply, kind]
  cases operation.path with
  | none => split_ifs <;> rfl
  | some path =>
    by_cases hpath : "members[value eq".toList <+: path.toList
    · simp only [if_pos hpath]
      split_ifs <;> rfl
    · simp only [if_neg hpath]
      split_ifs <;> rfl

end SCIMPatchOperation

/-! ## What the operations say -/

/-- What an operation on a group says. -/
inductive Change
  | rename (displayName : String)
  | members (ids : List String)
  | add (ids : List String)
  | remove (id : String)
  | nothing

/-- The change is made to the name and the set of members. -/
def Change.apply : String × Set String → Change → String × Set String
  | (_, ids), .rename displayName => (displayName, ids)
  | (name, _), .members ids => (name, {u | u ∈ ids})
  | (name, ids), .add new => (name, ids ∪ {u | u ∈ new})
  | (name, ids), .remove id => (name, ids \ {id})
  | s, .nothing => s

/-- The id of a member. -/
def memberText : Json → Option String
  | .dict kvs => (Assoc.get? kvs "value").bind Json.str?
  | _ => none

/-- The ids of a list of members. -/
def texts : Json → Option (List String)
  | .list members => members.mapM memberText
  | _ => none

/-- What an operation says. `none` is an operation that is malformed. -/
def SCIMPatchOperation.meaning (operation : SCIMPatchOperation) : Option Change :=
  match operation.kind with
  | .displayName => operation.value.str?.map .rename
  | .members => (texts operation.value).map .members
  | .addMembers => (texts operation.value).map .add
  | .removeMember path => (quoted path).toOption.map .remove
  | .other => some .nothing

/-- The name and the members of a group. -/
def Group.content (g : Group) : String × Set String := (g.name, {u | u ∈ g.user_ids})

/-- The ids that have been published as added. -/
def addedIds (events : List Event) : List Json :=
  events.flatMap fun
    | .member_added ids _ => ids
    | _ => []

/-- The ids that have been published as removed. -/
def removedIds (events : List Event) : List Json :=
  events.flatMap fun
    | .member_removed ids _ => ids
    | _ => []

/-- **A patch is all or nothing, and says what it has done.** -/
def Atomic (c : Columns) (numbers : List Json → List Json) (group_id : String)
    (operations : List SCIMPatchOperation) (st : Store) : Prop :=
  match patch_group c numbers group_id operations st with
  | (.error _, st') => st'.group.map Group.content = st.group.map Group.content
  | (.ok (), st') =>
    ∃ group group' changes events, st.group = some group ∧ st'.group = some group' ∧
      operations.mapM SCIMPatchOperation.meaning = some changes ∧
      group'.content = changes.foldl Change.apply group.content ∧
      st'.events = st.events ++ events ∧
      addedIds events = (sortTexts (group'.user_ids.filter (· ∉ group.user_ids))).map .str ∧
      removedIds events = (sortTexts (group.user_ids.filter (· ∉ group'.user_ids))).map .str

/-! ## What the operations do -/

section

variable (c : Columns)

/-- The ids that `set_group_user_ids_by_id` stores for a list of members, if it does. -/
def committed (value : Json) : Option (List String) :=
  match value.iter >>= fun members => members.mapM fun member => member.item "value" with
  | .ok ids => (ids.mapM c.user_id).filter fun ids => ids.Nodup
  | .error _ => none

namespace SCIMPatchOperation

/-- The operation raises. -/
def Raises (operation : SCIMPatchOperation) : Prop :=
  match operation.kind with
  | .members => committed c operation.value = none
  | .removeMember path => (quoted path).toOption = none
  | _ => False

instance : DecidablePred (Raises c) := fun operation => by
  unfold Raises
  split <;> infer_instance

/-- What the operation does to a user. -/
def touch (operation : SCIMPatchOperation) (u : String) : Touch :=
  match operation.kind with
  | .members =>
    match committed c operation.value with
    | some ids => if u ∈ ids then .insert else .erase
    | none => .ignore
  | .addMembers =>
    if .str u ∈ memberIds operation.value then
      if (c.user_id (.str u)).isSome then .add else .reject
    else .ignore
  | .removeMember path => if (quoted path).toOption = some u then .remove else .ignore
  | _ => .ignore

/-- Every id of a member that the operation adds is a text. -/
def TextIds (operation : SCIMPatchOperation) : Prop :=
  match operation.kind with
  | .members | .addMembers => ∀ id ∈ memberIds operation.value, id.str?.isSome
  | _ => True

instance : DecidablePred TextIds := fun operation => by
  unfold TextIds
  split <;> infer_instance

/-- The name in the form after the operation. -/
def formName (operation : SCIMPatchOperation) (name : Json) : Json :=
  match operation.kind with
  | .displayName => operation.value
  | _ => name

end SCIMPatchOperation

/-- The name in the form after all operations. -/
def formName (operations : List SCIMPatchOperation) (name : Json) : Json :=
  operations.foldl (fun name operation => operation.formName name) name

/-- **The request is refused**: an operation raises, or the database rejects the name. -/
def Refused (operations : List SCIMPatchOperation) (group : Group) : Prop :=
  (∃ operation ∈ operations, operation.Raises c) ∨
    formName operations (.str group.name) ≠ .null ∧
      c.text (formName operations (.str group.name)) = none

instance (operations : List SCIMPatchOperation) (group : Group) :
    Decidable (Refused c operations group) :=
  inferInstanceAs (Decidable (_ ∨ _))

/-- What the operations before the first that raises do to a user. -/
def touches (operations : List SCIMPatchOperation) (u : String) : List Touch :=
  (operations.takeWhile fun operation => ¬ operation.Raises c).map fun operation =>
    operation.touch c u

/-- **The operations undo each other**: for every user, the last operation that concerns the user
before the one that raises has left the user where the user was. -/
def Undone (operations : List SCIMPatchOperation) (group : Group) : Prop :=
  ∀ u, Touch.final (touches c operations u) (decide (u ∈ group.user_ids)) =
    decide (u ∈ group.user_ids)

/-- **Every operation can be applied, and every user is settled.** -/
structure Regular (operations : List SCIMPatchOperation) (group : Group) : Prop where
  meaning : ∀ operation ∈ operations, operation.meaning.isSome
  settled : ∀ u, Touch.Settled (operations.map fun operation => operation.touch c u)
    (decide (u ∈ group.user_ids))

end

/-! ## Lists of members -/

section

variable {c : Columns} {numbers : List Json → List Json} {value : Json} {ids : List Json}
  {us : List String} {u : String} {g : Group} {l : Locals} {operation : SCIMPatchOperation}

theorem memberIds_cons {kvs : List (String × Json)} {members : List Json} {id : Json}
    (h : Assoc.get? kvs "value" = some id) :
    memberIds (.list (.dict kvs :: members)) = id :: memberIds (.list members) := by
  simp [memberIds, h]

theorem memberIds_of_texts (h : texts value = some us) : memberIds value = us.map .str := by
  cases value with
  | list members =>
    induction members generalizing us with
    | nil =>
      cases h
      rfl
    | cons member members ih =>
      rw [texts, List.mapM_cons] at h
      obtain ⟨u, hu, h⟩ := Option.bind_eq_some_iff.mp h
      obtain ⟨us', hus, h⟩ := Option.bind_eq_some_iff.mp h
      cases h
      cases member with
      | dict kvs =>
        obtain ⟨id, hid, hstr⟩ := Option.bind_eq_some_iff.mp hu
        obtain rfl : id = .str u := by
          cases id <;> cases hstr
          rfl
        rw [memberIds_cons hid, ih hus]
        rfl
      | _ => cases hu
  | _ => cases h

/-- The ids of a comprehension that returns are those of its members. -/
theorem memberIds_of_items (h : (value.iter >>= fun members => members.mapM fun member =>
    member.item "value") = .ok ids) : memberIds value = ids := by
  obtain ⟨members, hiter, hitems⟩ := bind_eq_ok.mp h
  cases value with
  | list members' =>
    cases hiter
    clear h
    induction members generalizing ids with
    | nil =>
      cases hitems
      rfl
    | cons member members ih =>
      rw [List.mapM_cons] at hitems
      obtain ⟨id, hid, hitems⟩ := bind_eq_ok.mp hitems
      obtain ⟨ids', hids, hitems⟩ := bind_eq_ok.mp hitems
      cases hitems
      cases member with
      | dict kvs =>
        have hget : Assoc.get? kvs "value" = some id := by
          rw [Json.item] at hid
          cases hval : Assoc.get? kvs "value" with
          | none =>
            rw [hval] at hid
            cases hid
          | some v =>
            rw [hval] at hid
            cases hid
            rfl
        rw [memberIds_cons hget, ih hids]
      | _ => cases hid
  | str s =>
    cases hiter
    -- no character has an item
    cases hs : s.toList with
    | nil =>
      rw [hs] at hitems
      cases hitems
      rfl
    | cons ch cs =>
      rw [hs, List.map_cons, List.mapM_cons] at hitems
      cases hitems
  | dict kvs =>
    cases hiter
    cases kvs with
    | nil =>
      cases hitems
      rfl
    | cons e kvs =>
      rw [List.map_cons, List.mapM_cons] at hitems
      cases hitems
  | _ => cases hiter

theorem eq_map_str_of_isSome (h : ∀ id ∈ ids, id.str?.isSome) :
    ∃ us : List String, ids = us.map .str := by
  induction ids with
  | nil => exact ⟨[], rfl⟩
  | cons id ids ih =>
    rw [List.forall_mem_cons] at h
    obtain ⟨us, rfl⟩ := ih h.2
    cases id with
    | str u => exact ⟨u :: us, rfl⟩
    | _ => cases h.1

/-- Texts are stored as they are. -/
theorem mapM_user_id {us us' : List String} (h : (us.map Json.str).mapM c.user_id = some us') :
    us' = us := by
  induction us generalizing us' with
  | nil =>
    cases h
    rfl
  | cons u us ih =>
    rw [List.map_cons, List.mapM_cons] at h
    obtain ⟨t, ht, h⟩ := Option.bind_eq_some_iff.mp h
    obtain ⟨ts, hts, h⟩ := Option.bind_eq_some_iff.mp h
    cases h
    rw [c.user_id_str u t ht, ih hts]

theorem exists_of_mapM_eq_some {α β : Type} {f : α → Option β} {xs : List α} {ys : List β}
    (h : xs.mapM f = some ys) {x : α} (hx : x ∈ xs) : ∃ y, f x = some y := by
  induction xs generalizing ys with
  | nil => cases hx
  | cons x' xs ih =>
    rw [List.mapM_cons] at h
    obtain ⟨y, hy, h⟩ := Option.bind_eq_some_iff.mp h
    obtain ⟨ys', hys, -⟩ := Option.bind_eq_some_iff.mp h
    rcases List.mem_cons.mp hx with rfl | hx
    · exact ⟨y, hy⟩
    · exact ih hys hx

/-- What is committed for a list of members with texts as ids. -/
theorem of_committed (htext : ∀ id ∈ memberIds value, id.str?.isSome)
    (h : committed c value = some us) :
    us.Nodup ∧ ∃ members, value.iter = .ok members ∧
      (members.mapM fun member => member.item "value") = .ok (us.map .str) ∧
      (us.map Json.str).mapM c.user_id = some us := by
  rw [committed] at h
  split at h
  · next ids hids =>
    rw [Option.filter_eq_some_iff] at h
    obtain ⟨hus, hnodup⟩ := h
    rw [memberIds_of_items hids] at htext
    obtain ⟨ts, rfl⟩ := eq_map_str_of_isSome htext
    obtain rfl := mapM_user_id hus
    obtain ⟨members, hiter, hitems⟩ := bind_eq_ok.mp hids
    exact ⟨of_decide_eq_true hnodup, members, hiter, hitems, hus⟩
  · cases h

/-! ## One operation -/

/-- A member that is added. -/
theorem mem_add_users_to_group {u' : String} :
    u ∈ (g.add_users_to_group c [.str u']).user_ids ↔
      u ∈ g.user_ids ∨ u = u' ∧ (c.user_id (.str u')).isSome := by
  rw [Group.add_users_to_group, List.foldl_cons, List.foldl_nil, Group.insert]
  cases hstored : c.user_id (.str u') with
  | none => simp
  | some t =>
    obtain rfl := c.user_id_str u' t hstored
    simp only [Option.isSome_some, and_true]
    by_cases ht : t ∈ g.user_ids
    · rw [dif_pos ht]
      exact ⟨.inl, fun h => h.elim (fun h => h) fun h => h ▸ ht⟩
    · rw [dif_neg ht]
      simp

theorem add_users_to_group_rest (id : Json) :
    (g.add_users_to_group c [id]).name = g.name ∧
      (g.add_users_to_group c [id]).description = g.description := by
  rw [Group.add_users_to_group, List.foldl_cons, List.foldl_nil, Group.insert]
  split
  · exact ⟨rfl, rfl⟩
  · split_ifs <;> exact ⟨rfl, rfl⟩

/-- Members that are added one after the other. -/
theorem mem_addAll :
    u ∈ ((us.map Json.str).foldl (fun g id => g.add_users_to_group c [id]) g).user_ids ↔
      u ∈ g.user_ids ∨ u ∈ us ∧ (c.user_id (.str u)).isSome := by
  induction us generalizing g with
  | nil => simp
  | cons u' us ih =>
    rw [List.map_cons, List.foldl_cons, ih, mem_add_users_to_group, List.mem_cons, or_assoc]
    refine or_congr_right ⟨?_, ?_⟩
    · rintro (⟨rfl, h⟩ | ⟨hu, h⟩)
      · exact ⟨.inl rfl, h⟩
      · exact ⟨.inr hu, h⟩
    · rintro ⟨rfl | hu, h⟩
      · exact .inl ⟨rfl, h⟩
      · exact .inr ⟨hu, h⟩

theorem addAll_rest :
    ((ids.foldl (fun g id => g.add_users_to_group c [id]) g).name = g.name) ∧
      (ids.foldl (fun g id => g.add_users_to_group c [id]) g).description = g.description := by
  induction ids generalizing g with
  | nil => exact ⟨rfl, rfl⟩
  | cons id ids ih =>
    rw [List.foldl_cons]
    exact ⟨ih.1.trans (add_users_to_group_rest id).1, ih.2.trans (add_users_to_group_rest id).2⟩

/-- **What an operation does**, user by user. -/
structure Follows (c : Columns) (operation : SCIMPatchOperation) (l l' : Locals) (g g' : Group) :
    Prop where
  name : g'.name = g.name
  ids : ∀ u, decide (u ∈ g'.user_ids) = (operation.touch c u).after (decide (u ∈ g.user_ids))
  form : l'.name = operation.formName l.name
  added : ∃ us : List String, l'.added_member_ids = l.added_member_ids ++ us.map .str ∧
    ∀ u, u ∈ us ↔ (operation.touch c u).addsTo (decide (u ∈ g.user_ids)) = true
  removed : ∃ us : List String, l'.removed_member_ids = l.removed_member_ids ++ us.map .str ∧
    ∀ u, u ∈ us ↔ (operation.touch c u).removesFrom (decide (u ∈ g.user_ids)) = true

theorem replaceMembers_ok (hkind : operation.kind = .members) (htext : operation.TextIds)
    (h : ¬ operation.Raises c) :
    ∃ l' g', replaceMembers c numbers operation.value l g = (.ok l', g') ∧
      Follows c operation l l' g g' := by
  rw [SCIMPatchOperation.Raises, hkind] at h
  rw [SCIMPatchOperation.TextIds, hkind] at htext
  obtain ⟨us, hus⟩ := Option.ne_none_iff_exists'.mp h
  obtain ⟨hnodup, members, hiter, hitems, hstored⟩ := of_committed htext hus
  have htouch : ∀ u, operation.touch c u = if u ∈ us then .insert else .erase := fun u => by
    rw [SCIMPatchOperation.touch, hkind]
    simp only [hus]
  have hset : g.set_group_user_ids_by_id c (us.map .str) =
      .ok { g with user_ids := us, nodup := hnodup } := by
    rw [Group.set_group_user_ids_by_id, hstored]
    exact dif_pos hnodup
  have hnew : ((us.map Json.str).filter fun id => ∀ u ∈ id.str?, u ∉ g.user_ids) =
      (us.filter (· ∉ g.user_ids)).map .str := by
    rw [List.filter_map]
    simp [Function.comp_def, Json.str?]
  have hrun : replaceMembers c numbers operation.value l g =
      (.ok { l with
        added_member_ids := l.added_member_ids ++
          (sortTexts (us.filter (· ∉ g.user_ids))).map .str
        removed_member_ids := l.removed_member_ids ++
          (sortTexts (g.user_ids.filter fun u => .str u ∉ us.map Json.str)).map .str },
        { g with user_ids := us, nodup := hnodup }) := by
    rw [replaceMembers, Py.state_bind, Py.lift_bind hiter, Py.lift_bind hitems, Py.lift_bind hset,
      Py.update_bind, hnew, Py.lift_bind (Json.sortedSet_texts _ _)]
    rfl
  have hform : operation.formName l.name = l.name := by
    rw [SCIMPatchOperation.formName, hkind]
  refine ⟨_, _, hrun, ⟨rfl, fun u => ?_, hform.symm, ⟨_, rfl, fun u => ?_⟩, ⟨_, rfl, fun u => ?_⟩⟩⟩
  · rw [htouch]
    split_ifs with hu <;> simp [hu, Touch.after]
  · rw [mem_sortTexts, htouch]
    split_ifs with hu <;> simp [hu, Touch.addsTo]
  · rw [mem_sortTexts, htouch]
    split_ifs with hu <;> simp [hu, Touch.removesFrom]

theorem addMembers_ok (hkind : operation.kind = .addMembers) (htext : operation.TextIds) :
    ∃ l' g', addMembers c operation.value l g = (.ok l', g') ∧ Follows c operation l l' g g' := by
  rw [SCIMPatchOperation.TextIds, hkind] at htext
  obtain ⟨us, hus⟩ := eq_map_str_of_isSome htext
  have htouch : ∀ u, operation.touch c u =
      if u ∈ us then if (c.user_id (.str u)).isSome then .add else .reject else .ignore := by
    intro u
    rw [SCIMPatchOperation.touch, hkind]
    simp [hus]
  have hform : operation.formName l.name = l.name := by
    rw [SCIMPatchOperation.formName, hkind]
  have hremoved : l.removed_member_ids = l.removed_member_ids ++ ([] : List String).map .str :=
    (List.append_nil _).symm
  rw [addMembers, hus]
  refine ⟨_, _, rfl, ⟨addAll_rest.1, fun u => ?_, hform.symm, ⟨us, rfl, fun u => ?_⟩,
    ⟨[], hremoved, fun u => ?_⟩⟩⟩
  · have hmem : decide (u ∈ _) = decide (u ∈ g.user_ids ∨ u ∈ us ∧ (c.user_id (.str u)).isSome) :=
      decide_eq_decide.mpr mem_addAll
    rw [htouch, hmem]
    split_ifs with hu hstored
    · simp [hu, hstored, Touch.after]
    · simp [hu, hstored, Touch.after]
    · simp [hu, Touch.after]
  · rw [htouch]
    split_ifs with hu hstored <;> simp [hu, Touch.addsTo]
  · rw [htouch]
    split_ifs <;> simp [Touch.removesFrom]

theorem removeMember_ok {path : String} (hkind : operation.kind = .removeMember path)
    (h : ¬ operation.Raises c) :
    ∃ l' g', removeMember path l g = (.ok l', g') ∧ Follows c operation l l' g g' := by
  rw [SCIMPatchOperation.Raises, hkind] at h
  dsimp only at h
  cases hid : quoted path with
  | error e =>
    rw [hid] at h
    exact absurd rfl h
  | ok id =>
    have htouch : ∀ u, operation.touch c u = if id = u then .remove else .ignore := fun u => by
      rw [SCIMPatchOperation.touch, hkind]
      simp [hid, Except.toOption]
    have hform : operation.formName l.name = l.name := by
      rw [SCIMPatchOperation.formName, hkind]
    have hadded : l.added_member_ids = l.added_member_ids ++ ([] : List String).map .str :=
      (List.append_nil _).symm
    rw [removeMember, Py.lift_bind hid]
    refine ⟨_, _, rfl, ⟨rfl, fun u => ?_, hform.symm, ⟨[], hadded, fun u => ?_⟩,
      ⟨[id], rfl, fun u => ?_⟩⟩⟩
    · rw [htouch]
      split_ifs with hu <;> simp [Group.remove_users_from_group, Touch.after, eq_comm, hu]
    · rw [htouch]
      split_ifs <;> simp [Touch.addsTo]
    · rw [htouch]
      split_ifs with hu <;> simp [Touch.removesFrom, eq_comm, hu]

/-- An operation that does not concern the members. -/
theorem follows_of_ignore (htouch : ∀ u, operation.touch c u = .ignore) {name : Json}
    (hform : operation.formName l.name = name) :
    Follows c operation l { l with name := name } g g := by
  refine ⟨rfl, fun u => ?_, hform.symm, ⟨[], (List.append_nil _).symm, fun u => ?_⟩,
    ⟨[], (List.append_nil _).symm, fun u => ?_⟩⟩
  · rw [htouch, Touch.after]
  · simp [htouch, Touch.addsTo]
  · simp [htouch, Touch.removesFrom]

/-- **An operation that does not raise.** -/
theorem apply_ok (htext : operation.TextIds) (h : ¬ operation.Raises c) :
    ∃ l' g', operation.apply c numbers l g = (.ok l', g') ∧ Follows c operation l l' g g' := by
  rw [SCIMPatchOperation.apply_eq]
  cases hkind : operation.kind with
  | displayName =>
    refine ⟨_, _, rfl, follows_of_ignore (fun u => ?_) ?_⟩
    · rw [SCIMPatchOperation.touch, hkind]
    · rw [SCIMPatchOperation.formName, hkind]
  | members => exact replaceMembers_ok hkind htext h
  | addMembers => exact addMembers_ok hkind htext
  | removeMember path => exact removeMember_ok hkind h
  | other =>
    refine ⟨_, _, rfl, follows_of_ignore (fun u => ?_) ?_⟩
    · rw [SCIMPatchOperation.touch, hkind]
    · rw [SCIMPatchOperation.formName, hkind]

/-- **An operation that raises** changes nothing. -/
theorem apply_error (h : operation.Raises c) :
    ∃ e, operation.apply c numbers l g = (.error e, g) := by
  rw [SCIMPatchOperation.apply_eq]
  rw [SCIMPatchOperation.Raises] at h
  cases hkind : operation.kind with
  | members =>
    rw [hkind] at h
    dsimp only at h ⊢
    rw [replaceMembers, Py.state_bind]
    cases hiter : operation.value.iter with
    | error e => exact ⟨e, Py.lift_bind_error rfl _ _⟩
    | ok members =>
      rw [Py.lift_bind rfl]
      cases hitems : members.mapM fun member => member.item "value" with
      | error e => exact ⟨e, Py.lift_bind_error rfl _ _⟩
      | ok ids =>
        rw [Py.lift_bind rfl]
        have hset : g.set_group_user_ids_by_id c ids = .error .upstream := by
          rw [committed, hiter] at h
          simp only [bind, Except.bind, hitems] at h
          rw [Group.set_group_user_ids_by_id]
          split
          · rfl
          · next us hus =>
            rw [hus, Option.filter_eq_none_iff] at h
            exact dif_neg fun hnodup => h us rfl (decide_eq_true hnodup)
        exact ⟨_, Py.lift_bind_error hset _ _⟩
  | removeMember path =>
    rw [hkind] at h
    dsimp only at h ⊢
    cases hid : quoted path with
    | error e => exact ⟨e, Py.lift_bind_error hid _ _⟩
    | ok id =>
      rw [hid] at h
      cases h
  | _ =>
    rw [hkind] at h
    exact h.elim

/-! ## All operations -/

variable {operations : List SCIMPatchOperation}

/-- Whether the members are those that the touches leave. -/
def Left (ts : String → List Touch) (g g' : Group) : Prop :=
  ∀ u, decide (u ∈ g'.user_ids) = Touch.final (ts u) (decide (u ∈ g.user_ids))

/-- **What the loop does where no operation raises.** -/
theorem foldlM_ok (numbers : List Json → List Json) (l : Locals) (g : Group)
    (htext : ∀ operation ∈ operations, operation.TextIds)
    (h : ∀ operation ∈ operations, ¬ operation.Raises c) :
    ∃ l' g', operations.foldlM (fun l operation => operation.apply c numbers l) l g = (.ok l', g') ∧
      g'.name = g.name ∧ Left (fun u => operations.map fun operation => operation.touch c u) g g' ∧
      l'.name = formName operations l.name ∧
      (∃ us : List String, l'.added_member_ids = l.added_member_ids ++ us.map .str ∧
        ∀ u, u ∈ us ↔ Touch.added (operations.map fun operation => operation.touch c u)
          (decide (u ∈ g.user_ids)) = true) ∧
      ∃ us : List String, l'.removed_member_ids = l.removed_member_ids ++ us.map .str ∧
        ∀ u, u ∈ us ↔ Touch.removed (operations.map fun operation => operation.touch c u)
          (decide (u ∈ g.user_ids)) = true := by
  induction operations generalizing l g with
  | nil =>
    exact ⟨l, g, rfl, rfl, fun _ => rfl, rfl, ⟨[], (List.append_nil _).symm, by simp [Touch.added]⟩,
      [], (List.append_nil _).symm, by simp [Touch.removed]⟩
  | cons operation operations ih =>
    rw [List.forall_mem_cons] at htext h
    obtain ⟨l₁, g₁, hrun₁, hfollows⟩ : ∃ l₁ g₁, operation.apply c numbers l g = (.ok l₁, g₁) ∧
        Follows c operation l l₁ g g₁ := apply_ok htext.1 h.1
    obtain ⟨l', g', hrun, hname, hids, hform, ⟨as, has, hadded⟩, rs, hrs, hremoved⟩ :=
      ih l₁ g₁ htext.2 h.2
    obtain ⟨as₁, has₁, hadded₁⟩ := hfollows.added
    obtain ⟨rs₁, hrs₁, hremoved₁⟩ := hfollows.removed
    refine ⟨l', g', ?_, hname.trans hfollows.name, fun u => ?_, ?_, ⟨as₁ ++ as, ?_, fun u => ?_⟩,
      rs₁ ++ rs, ?_, fun u => ?_⟩
    · rw [List.foldlM_cons, Py.bind_ok hrun₁, hrun]
    · rw [hids u, hfollows.ids u]
      rfl
    · rw [hform, hfollows.form]
      rfl
    · rw [has, has₁, List.map_append, List.append_assoc]
    · rw [List.mem_append, hadded₁, hadded, hfollows.ids, List.map_cons, Touch.added,
        Bool.or_eq_true]
    · rw [hrs, hrs₁, List.map_append, List.append_assoc]
    · rw [List.mem_append, hremoved₁, hremoved, hfollows.ids, List.map_cons, Touch.removed,
        Bool.or_eq_true]

/-- **What the loop leaves where an operation raises.** -/
theorem foldlM_error (numbers : List Json → List Json) (l : Locals) (g : Group)
    (htext : ∀ operation ∈ operations, operation.TextIds)
    (h : ∃ operation ∈ operations, operation.Raises c) :
    ∃ e g', operations.foldlM (fun l operation => operation.apply c numbers l) l g =
      (.error e, g') ∧ g'.name = g.name ∧ Left (touches c operations) g g' := by
  induction operations generalizing l g with
  | nil => simp at h
  | cons operation operations ih =>
    rw [List.forall_mem_cons] at htext
    by_cases hraises : operation.Raises c
    · obtain ⟨e, hrun⟩ : ∃ e, operation.apply c numbers l g = (.error e, g) := apply_error hraises
      refine ⟨e, g, ?_, rfl, fun u => ?_⟩
      · rw [List.foldlM_cons, Py.bind_error hrun]
      · rw [touches, List.takeWhile_cons_of_neg (by simpa using hraises)]
        rfl
    · obtain ⟨l₁, g₁, hrun₁, hfollows⟩ : ∃ l₁ g₁, operation.apply c numbers l g = (.ok l₁, g₁) ∧
          Follows c operation l l₁ g g₁ := apply_ok htext.1 hraises
      have hrest : ∃ operation ∈ operations, operation.Raises c := by
        obtain ⟨operation', hmem, hraises'⟩ := h
        rcases List.mem_cons.mp hmem with rfl | hmem
        · exact absurd hraises' hraises
        · exact ⟨operation', hmem, hraises'⟩
      obtain ⟨e, g', hrun, hname, hids⟩ := ih l₁ g₁ htext.2 hrest
      refine ⟨e, g', ?_, hname.trans hfollows.name, fun u => ?_⟩
      · rw [List.foldlM_cons, Py.bind_ok hrun₁, hrun]
      · rw [hids u, hfollows.ids u, touches, touches,
          List.takeWhile_cons_of_pos (by simpa using hraises)]
        rfl

/-! ## What the operations say and what they do -/

/-- A user that is put in is accepted by the database. -/
theorem isSome_of_putsIn (htext : operation.TextIds) (h : (operation.touch c u).PutsIn) :
    (c.user_id (.str u)).isSome := by
  rw [SCIMPatchOperation.touch] at h
  rw [SCIMPatchOperation.TextIds] at htext
  cases hkind : operation.kind with
  | members =>
    rw [hkind] at h htext
    dsimp only at h htext
    cases hus : committed c operation.value with
    | none =>
      rw [hus] at h
      dsimp only at h
      exact absurd h (by decide)
    | some us =>
      obtain ⟨-, -, -, -, hstored⟩ := of_committed htext hus
      by_cases hu : u ∈ us
      · exact Option.isSome_iff_exists.mpr (exists_of_mapM_eq_some hstored (List.mem_map_of_mem hu))
      · rw [hus] at h
        dsimp only at h
        rw [if_neg hu] at h
        exact absurd h (by decide)
  | addMembers =>
    rw [hkind] at h
    dsimp only at h
    split_ifs at h with hu hstored
    · exact hstored
    · exact absurd h (by decide)
    · exact absurd h (by decide)
  | removeMember path =>
    rw [hkind] at h
    dsimp only at h
    split_ifs at h <;> exact absurd h (by decide)
  | _ =>
    rw [hkind] at h
    dsimp only at h
    exact absurd h (by decide)

/-- A user that is rejected is not accepted by the database. -/
theorem user_id_of_reject (h : operation.touch c u = .reject) : c.user_id (.str u) = none := by
  rw [SCIMPatchOperation.touch] at h
  cases hkind : operation.kind with
  | addMembers =>
    rw [hkind] at h
    dsimp only at h
    split_ifs at h with hu hstored
    exact Option.not_isSome_iff_eq_none.mp hstored
  | members =>
    rw [hkind] at h
    dsimp only at h
    split at h
    · split_ifs at h
    · cases h
  | removeMember path =>
    rw [hkind] at h
    dsimp only at h
    split_ifs at h
  | _ =>
    rw [hkind] at h
    cases h

/-- **An operation does what it says**, if no user is rejected. -/
theorem apply_meaning {change : Change} (hmeaning : operation.meaning = some change)
    (htext : operation.TextIds) (hraises : ¬ operation.Raises c)
    (hreject : ∀ u, operation.touch c u ≠ .reject) (name : String) {ids : Set String}
    {present : String → Bool} (hpresent : ∀ u, u ∈ ids ↔ present u = true) :
    Json.str (change.apply (name, ids)).1 = operation.formName (.str name) ∧
      ∀ u, u ∈ (change.apply (name, ids)).2 ↔ (operation.touch c u).after (present u) = true := by
  rw [SCIMPatchOperation.meaning] at hmeaning
  rw [SCIMPatchOperation.Raises] at hraises
  rw [SCIMPatchOperation.TextIds] at htext
  simp only [SCIMPatchOperation.touch, SCIMPatchOperation.formName] at hreject ⊢
  cases hkind : operation.kind with
  | displayName =>
    rw [hkind] at hmeaning
    obtain ⟨displayName, hname, rfl⟩ := Option.map_eq_some_iff.mp hmeaning
    refine ⟨?_, hpresent⟩
    cases hvalue : operation.value <;> rw [hvalue] at hname <;> cases hname
    rfl
  | members =>
    rw [hkind] at hmeaning hraises htext
    obtain ⟨us, hus, rfl⟩ := Option.map_eq_some_iff.mp hmeaning
    obtain ⟨us', hus'⟩ := Option.ne_none_iff_exists'.mp hraises
    obtain ⟨-, members, hiter, hitems, -⟩ := of_committed htext hus'
    have hids : memberIds operation.value = us'.map .str :=
      memberIds_of_items (bind_eq_ok.mpr ⟨members, hiter, hitems⟩)
    obtain rfl : us = us' := List.map_injective_iff.mpr (fun _ _ h => Json.str.inj h)
      ((memberIds_of_texts hus).symm.trans hids)
    refine ⟨rfl, fun u => ?_⟩
    simp only [hus']
    split_ifs with hu <;> simp [Change.apply, hu, Touch.after]
  | addMembers =>
    rw [hkind] at hmeaning hreject
    obtain ⟨us, hus, rfl⟩ := Option.map_eq_some_iff.mp hmeaning
    refine ⟨rfl, fun u => ?_⟩
    have hreject := hreject u
    simp only [memberIds_of_texts hus, List.mem_map, Json.str.injEq, exists_eq_right] at hreject ⊢
    split_ifs at hreject ⊢ with hu hstored
    · simp [Change.apply, hu, Touch.after]
    · exact absurd rfl hreject
    · simp [Change.apply, hu, Touch.after, hpresent]
  | removeMember path =>
    rw [hkind] at hmeaning
    obtain ⟨id, hid, rfl⟩ := Option.map_eq_some_iff.mp hmeaning
    refine ⟨rfl, fun u => ?_⟩
    simp only [hid, Option.some.injEq]
    split_ifs with hu
    · simp [Change.apply, hu, Touch.after]
    · simp [Change.apply, Ne.symm hu, Touch.after, hpresent]
  | other =>
    rw [hkind] at hmeaning
    cases hmeaning
    exact ⟨rfl, hpresent⟩

/-- The operations do what they say, if no user is rejected. -/
theorem foldl_meaning {changes : List Change}
    (hmeaning : operations.mapM SCIMPatchOperation.meaning = some changes)
    (htext : ∀ operation ∈ operations, operation.TextIds)
    (hraises : ∀ operation ∈ operations, ¬ operation.Raises c)
    (hreject : ∀ u, Touch.reject ∉ operations.map fun operation => operation.touch c u)
    (name : String) {ids : Set String} {present : String → Bool}
    (hpresent : ∀ u, u ∈ ids ↔ present u = true) :
    Json.str (changes.foldl Change.apply (name, ids)).1 = formName operations (.str name) ∧
      ∀ u, u ∈ (changes.foldl Change.apply (name, ids)).2 ↔
        Touch.final (operations.map fun operation => operation.touch c u) (present u) = true := by
  induction operations generalizing changes name ids present with
  | nil =>
    cases hmeaning
    exact ⟨rfl, hpresent⟩
  | cons operation operations ih =>
    rw [List.mapM_cons] at hmeaning
    obtain ⟨change, hchange, hmeaning⟩ := Option.bind_eq_some_iff.mp hmeaning
    obtain ⟨changes', hchanges, hmeaning⟩ := Option.bind_eq_some_iff.mp hmeaning
    cases hmeaning
    rw [List.forall_mem_cons] at htext hraises
    simp only [List.map_cons, List.mem_cons, not_or] at hreject
    obtain ⟨hname, hids⟩ := apply_meaning hchange htext.1 hraises.1
      (fun u h => (hreject u).1 h.symm) name hpresent
    have ih := ih hchanges htext.2 hraises.2 (fun u => (hreject u).2)
      (change.apply (name, ids)).1 hids
    rw [hname] at ih
    exact ih

/-! ## Events -/

/-- The event with the ids of members, if there are any. -/
def memberEvents (event : List Json → ℕ → Event) (us : List String) : List Event :=
  if us = [] then [] else
    [event ((sortTexts us).map .str) ((sortTexts us).map Json.str).length]

theorem publishMembers_eq (event : List Json → ℕ → Event) (us : List String) (st : Store) :
    publishMembers numbers event (us.map .str) st =
      (.ok (), { st with events := st.events ++ memberEvents event us }) := by
  rw [publishMembers, memberEvents]
  by_cases hus : us = []
  · subst hus
    rw [if_pos rfl, List.map_nil, if_pos rfl, List.append_nil]
    rfl
  · rw [if_neg (by simpa using hus), if_neg hus, Py.lift_bind (Json.sortedSet_texts _ _)]
    rfl

theorem publish_eq (n : ℕ) (name : Json) (us us' : List String) (st : Store) :
    publish numbers n ⟨name, us.map .str, us'.map .str⟩ st =
      (.ok (), { st with
        events := st.events ++ ([.updated n] ++
          memberEvents .member_added us ++ memberEvents .member_removed us') }) := by
  rw [publish, Py.update_bind, Py.bind_ok (publishMembers_eq ..), publishMembers_eq]
  simp only [List.append_assoc]

theorem addedIds_events (n : ℕ) (us us' : List String) :
    addedIds ([.updated n] ++ memberEvents .member_added us ++ memberEvents .member_removed us') =
      (sortTexts us).map .str := by
  rw [memberEvents, memberEvents]
  split_ifs with hus hus'
  all_goals simp [addedIds, hus, sortTexts]

theorem removedIds_events (n : ℕ) (us us' : List String) :
    removedIds ([.updated n] ++ memberEvents .member_added us ++ memberEvents .member_removed us') =
      (sortTexts us').map .str := by
  rw [memberEvents, memberEvents]
  split_ifs with hus hus'
  all_goals simp [removedIds, *, sortTexts]

/-- The ids that are published are those of a list exactly if they are the same ids. -/
theorem map_sortTexts_eq_iff {us us' : List String} :
    (sortTexts us).map Json.str = (sortTexts us').map .str ↔ ∀ u, u ∈ us ↔ u ∈ us' := by
  rw [(List.map_injective_iff.mpr fun _ _ h => Json.str.inj h).eq_iff, sortTexts_eq_iff]

theorem content_eq_iff {g' : Group} (hname : g'.name = g.name) :
    g'.content = g.content ↔ ∀ u, decide (u ∈ g'.user_ids) = decide (u ∈ g.user_ids) := by
  simp only [Group.content, hname, Prod.mk.injEq, true_and, Set.ext_iff, Set.mem_setOf_eq,
    decide_eq_decide]

/-! ## Requests -/

variable {st : Store}

/-- **A request that is refused.** -/
theorem patch_group_refused (numbers : List Json → List Json) (group_id : String)
    (hgroup : st.group = some g)
    (htext : ∀ operation ∈ operations, operation.TextIds) (h : Refused c operations g) :
    ∃ e g',
      patch_group c numbers group_id operations st = (.error e, { st with group := some g' }) ∧
      g'.name = g.name ∧ Left (touches c operations) g g' := by
  by_cases hraises : ∃ operation ∈ operations, operation.Raises c
  · obtain ⟨e, g', hrun, hname, hids⟩ : ∃ e g',
        operations.foldlM (fun l operation => operation.apply c numbers l) ⟨.str g.name, [], []⟩ g =
          (.error e, g') ∧ g'.name = g.name ∧ Left (touches c operations) g g' :=
      foldlM_error numbers _ g htext hraises
    refine ⟨serverError, g', ?_, hname, hids⟩
    rw [patch_group, hgroup]
    dsimp only
    rw [hrun]
  · obtain ⟨hnull, hrejected⟩ := h.resolve_left hraises
    have hraises : ∀ operation ∈ operations, ¬ operation.Raises c := fun operation hmem hr =>
      hraises ⟨operation, hmem, hr⟩
    obtain ⟨l', g', hrun, hname, hids, hform, -, -⟩ := foldlM_ok numbers
      ⟨.str g.name, [], []⟩ g htext hraises
    have htouches : touches c operations = fun u => operations.map fun operation =>
        operation.touch c u := by
      funext u
      rw [touches, List.takeWhile_eq_self_iff.mpr fun operation hmem => by
        simpa using hraises operation hmem]
    refine ⟨⟨500, "Failed to update group"⟩, g', ?_, hname, htouches ▸ hids⟩
    rw [patch_group, hgroup]
    dsimp only
    rw [hrun]
    dsimp only
    rw [Group.update_group_by_id, hform, if_neg hnull, hrejected]
    rfl

/-- **A request that is answered.** -/
theorem patch_group_answered (numbers : List Json → List Json) (group_id : String)
    (hgroup : st.group = some g)
    (htext : ∀ operation ∈ operations, operation.TextIds) (h : ¬ Refused c operations g) :
    ∃ g' as rs, patch_group c numbers group_id operations st =
        (.ok (), { group := some g', events := st.events ++ ([.updated operations.length] ++
          memberEvents .member_added as ++ memberEvents .member_removed rs) }) ∧
      (formName operations (.str g.name) ≠ .null →
        c.text (formName operations (.str g.name)) = some g'.name) ∧
      Left (fun u => operations.map fun operation => operation.touch c u) g g' ∧
      (∀ u, u ∈ as ↔ Touch.added (operations.map fun operation => operation.touch c u)
        (decide (u ∈ g.user_ids)) = true) ∧
      ∀ u, u ∈ rs ↔ Touch.removed (operations.map fun operation => operation.touch c u)
        (decide (u ∈ g.user_ids)) = true := by
  rw [Refused, not_or] at h
  obtain ⟨hraises, hname⟩ := h
  obtain ⟨⟨name, as', rs'⟩, g', hrun, -, hids, hform, ⟨as, has, hadded⟩, rs, hrs, hremoved⟩ :=
    foldlM_ok numbers ⟨.str g.name, [], []⟩ g htext fun operation hmem hr =>
      hraises ⟨operation, hmem, hr⟩
  obtain rfl : as' = as.map .str := has
  obtain rfl : rs' = rs.map .str := hrs
  obtain rfl : name = formName operations (.str g.name) := hform
  have hupdate : ∃ g'', g'.update_group_by_id c
      ⟨formName operations (.str g.name), g.description⟩ = some g'' ∧ g''.user_ids = g'.user_ids ∧
        (formName operations (.str g.name) ≠ .null →
          c.text (formName operations (.str g.name)) = some g''.name) := by
    rw [Group.update_group_by_id]
    by_cases hnull : formName operations (.str g.name) = .null
    · exact ⟨_, if_pos hnull, rfl, absurd hnull⟩
    · obtain ⟨name', hname'⟩ := Option.ne_none_iff_exists'.mp fun hnone => hname ⟨hnull, hnone⟩
      rw [if_neg hnull, hname', Option.map_some]
      exact ⟨_, rfl, rfl, fun _ => rfl⟩
  obtain ⟨g'', hupdate, hids', hname'⟩ := hupdate
  refine ⟨g'', as, rs, ?_, hname', fun u => hids' ▸ hids u, hadded, hremoved⟩
  rw [patch_group, hgroup]
  dsimp only
  rw [hrun]
  dsimp only
  rw [hupdate]
  dsimp only
  rw [publish_eq]

/-- What is published of a request that is answered is the difference of the members exactly if
every user's announcements are exact. -/
theorem published_iff {g' : Group} {as rs : List String}
    (hids : Left (fun u => operations.map fun operation => operation.touch c u) g g')
    (has : ∀ u, u ∈ as ↔ Touch.added (operations.map fun operation => operation.touch c u)
      (decide (u ∈ g.user_ids)) = true)
    (hrs : ∀ u, u ∈ rs ↔ Touch.removed (operations.map fun operation => operation.touch c u)
      (decide (u ∈ g.user_ids)) = true) :
    ((∀ u, u ∈ as ↔ u ∈ g'.user_ids.filter (· ∉ g.user_ids)) ∧
        ∀ u, u ∈ rs ↔ u ∈ g.user_ids.filter (· ∉ g'.user_ids)) ↔
      ∀ u, Touch.Exact (operations.map fun operation => operation.touch c u)
        (decide (u ∈ g.user_ids)) := by
  rw [← forall_and]
  refine forall_congr' fun u => and_congr ?_ ?_
  · rw [has u, ← hids u, Bool.eq_iff_iff (b := !_ && _), List.mem_filter]
    refine iff_congr Iff.rfl ?_
    simp [and_comm]
  · rw [hrs u, ← hids u, Bool.eq_iff_iff (b := _ && !_), List.mem_filter]
    refine iff_congr Iff.rfl ?_
    simp

/-- A user that is rejected is not put in. -/
theorem not_putsIn_of_reject (htext : ∀ operation ∈ operations, operation.TextIds) :
    Touch.reject ∈ operations.map (fun operation => operation.touch c u) →
      ∀ t ∈ operations.map (fun operation => operation.touch c u), ¬ t.PutsIn := by
  intro hreject t ht hin
  obtain ⟨operation, -, hreject⟩ := List.mem_map.mp hreject
  obtain ⟨operation', hmem, rfl⟩ := List.mem_map.mp ht
  have hsome := isSome_of_putsIn (htext operation' hmem) hin
  rw [user_id_of_reject hreject] at hsome
  cases hsome

theorem mapM_isSome {α β : Type} {f : α → Option β} {xs : List α} :
    (∃ ys, xs.mapM f = some ys) ↔ ∀ x ∈ xs, (f x).isSome := by
  constructor
  · rintro ⟨ys, h⟩ x hx
    exact Option.isSome_iff_exists.mpr (exists_of_mapM_eq_some h hx)
  · intro h
    induction xs with
    | nil => exact ⟨[], rfl⟩
    | cons x xs ih =>
      rw [List.forall_mem_cons] at h
      obtain ⟨y, hy⟩ := Option.isSome_iff_exists.mp h.1
      obtain ⟨ys, hys⟩ := ih h.2
      refine ⟨y :: ys, ?_⟩
      rw [List.mapM_cons, hy, hys]
      rfl

/-- An operation with an id that is no text is malformed. -/
theorem textIds_of_meaning (h : operation.meaning.isSome) : operation.TextIds := by
  rw [SCIMPatchOperation.meaning] at h
  rw [SCIMPatchOperation.TextIds]
  have htexts : (texts operation.value).isSome →
      ∀ id ∈ memberIds operation.value, id.str?.isSome := by
    intro h id hid
    obtain ⟨us, hus⟩ := Option.isSome_iff_exists.mp h
    rw [memberIds_of_texts hus] at hid
    obtain ⟨u, -, rfl⟩ := List.mem_map.mp hid
    rfl
  cases hkind : operation.kind with
  | members | addMembers =>
    rw [hkind] at h
    exact htexts (by simpa using h)
  | _ => trivial

end

/-- **A patch of a group is all or nothing, and says what it has done**, exactly if the request is
refused and the operations before the one that raises undo each other, or it is answered, every
operation can be applied and every user is settled. A request that is answered though an id is no
text is never. -/
theorem patch_group_atomic (c : Columns) (numbers : List Json → List Json) (group_id : String)
    (operations : List SCIMPatchOperation) (st : Store) :
    ((∀ operation ∈ operations, operation.TextIds) →
      (Atomic c numbers group_id operations st ↔ ∀ group, st.group = some group →
        if Refused c operations group then Undone c operations group
        else Regular c operations group)) ∧
    ((∃ operation ∈ operations, ¬ operation.TextIds) → Atomic c numbers group_id operations st →
      ∃ e, (patch_group c numbers group_id operations st).1 = .error e) := by
  refine ⟨fun htext => ?_, ?_⟩
  · cases hgroup : st.group with
    | none =>
      have hrun : patch_group c numbers group_id operations st =
          (.error ⟨404, "Group " ++ group_id ++ " not found"⟩, st) := by
        rw [patch_group, hgroup]
      rw [Atomic, hrun]
      simp
    | some g =>
      simp only [Option.some.injEq, forall_eq']
      split_ifs with hrefused
      · obtain ⟨e, g', hrun, hname, hids⟩ :=
          patch_group_refused numbers group_id hgroup htext hrefused
        rw [Atomic, hrun, hgroup]
        simp only [Option.map_some, Option.some.injEq]
        rw [content_eq_iff hname]
        exact forall_congr' fun u => by rw [hids u]
      · obtain ⟨g', as, rs, hrun, hname, hids, has, hrs⟩ := patch_group_answered numbers group_id
          hgroup htext hrefused
        rw [Atomic, hrun, hgroup]
        dsimp only
        constructor
        · rintro ⟨_, _, changes, events, hg, hg', hmeaning, -, hevents, hadded, hremoved⟩
          cases hg
          cases hg'
          obtain rfl := List.append_cancel_left hevents
          rw [addedIds_events, map_sortTexts_eq_iff] at hadded
          rw [removedIds_events, map_sortTexts_eq_iff] at hremoved
          have hexact := (published_iff hids has hrs).mp ⟨hadded, hremoved⟩
          exact ⟨mapM_isSome.mp ⟨changes, hmeaning⟩, fun u =>
            (Touch.exact_iff_settled (not_putsIn_of_reject htext)).mp (hexact u)⟩
        · intro hregular
          obtain ⟨changes, hmeaning⟩ := mapM_isSome.mpr hregular.meaning
          obtain ⟨hadded, hremoved⟩ := (published_iff hids has hrs).mpr fun u =>
            (Touch.exact_iff_settled (not_putsIn_of_reject htext)).mpr (hregular.settled u)
          obtain ⟨hchanged, hset⟩ := foldl_meaning hmeaning htext
            (fun operation hmem hr => hrefused (.inl ⟨operation, hmem, hr⟩))
            (fun u => (hregular.settled u).reject_not_mem) g.name
            (fun u => (decide_eq_true_iff (p := u ∈ g.user_ids)).symm)
          refine ⟨g, g', changes, _, rfl, rfl, hmeaning, Prod.ext ?_ (Set.ext fun u => ?_), rfl,
            ?_, ?_⟩
          · -- the name in the form is a text, which is stored as it is
            rw [← hchanged, c.text_str] at hname
            exact (Option.some.inj (hname fun h => nomatch h)).symm
          · have hmem : u ∈ g'.user_ids ↔ Touch.final
                (operations.map fun operation => operation.touch c u) (decide (u ∈ g.user_ids)) =
                  true := by
              rw [← hids u, decide_eq_true_iff]
            exact hmem.trans (hset u).symm
          · rw [addedIds_events]
            exact map_sortTexts_eq_iff.mpr hadded
          · rw [removedIds_events]
            exact map_sortTexts_eq_iff.mpr hremoved
  · rintro ⟨operation, hmem, hnot⟩ hatomic
    cases hrun : patch_group c numbers group_id operations st with
    | mk answer st' =>
      rw [Atomic, hrun] at hatomic
      cases answer with
      | error e => exact ⟨e, rfl⟩
      | ok _ =>
        obtain ⟨_, _, changes, _, -, -, hmeaning, -⟩ := hatomic
        exact absurd (textIds_of_meaning (mapM_isSome.mp ⟨changes, hmeaning⟩ operation hmem)) hnot

/-! ## Requests that are atomic and requests that are not -/

/-- A database that stores texts and rejects what is no text. -/
def textColumns : Columns where
  text := Json.str?
  user_id := Json.str?
  text_str _ := rfl
  user_id_str _ _ h := (Option.some.inj h).symm

/-- An operation that adds the user. -/
def addOperation (u : String) : SCIMPatchOperation :=
  ⟨"add", some "members", .list [.dict [("value", .str u)]]⟩

/-- An operation that removes the user. -/
def removeOperation (u : String) : SCIMPatchOperation :=
  ⟨"remove", some ("members[value eq \"" ++ u ++ "\"]"), .null⟩

/-- An operation that replaces the members by one that has no id. -/
def brokenOperation : SCIMPatchOperation := ⟨"replace", some "members", .list [.dict []]⟩

/-- A group with the members. -/
def groupOf (user_ids : List String) (h : user_ids.Nodup) : Store :=
  ⟨some ⟨"staff", "", user_ids, h⟩, []⟩

/-- A user that is no member is added. -/
theorem addOperation_atomic :
    Atomic textColumns id "g" [addOperation "u2"] (groupOf ["u1"] (by decide)) := by
  refine ((patch_group_atomic textColumns id "g" [addOperation "u2"]
    (groupOf ["u1"] (by decide))).1 (by decide +kernel)).mpr fun group hgroup => ?_
  cases hgroup
  rw [if_neg (by decide +kernel)]
  have hkind : (addOperation "u2").kind = .addMembers := by decide +kernel
  have htouch : ∀ u, (addOperation "u2").touch textColumns u =
      if u = "u2" then .add else .ignore := fun u => by
    rw [SCIMPatchOperation.touch, hkind]
    simp [addOperation, memberIds, Assoc.get?, textColumns, Json.str?]
  refine ⟨by decide +kernel, fun u => ?_⟩
  rw [List.map_singleton, htouch]
  split_ifs with hu
  · subst hu
    decide
  · cases decide (u ∈ ["u1"]) <;> decide

/-- A removal stays though a later operation raises. A user that is added and removed again is
published as both. -/
theorem patch_group_not_atomic :
    ¬ Atomic textColumns id "g" [removeOperation "u1", brokenOperation]
      (groupOf ["u1"] (by decide)) ∧
    ¬ Atomic textColumns id "g" [addOperation "u1", removeOperation "u1"]
      (groupOf [] (by decide)) := by
  constructor
  · have hrun : patch_group textColumns id "g" [removeOperation "u1", brokenOperation]
        (groupOf ["u1"] (by decide)) = (.error serverError, groupOf [] (by decide)) := by
      decide +kernel
    intro h
    rw [Atomic, hrun] at h
    have hset : ("u1" : String) ∈ (Group.content ⟨"staff", "", [], by decide⟩).2 := by
      rw [Option.some.inj h]
      simp [Group.content]
    exact List.not_mem_nil hset
  · have hrun : patch_group textColumns id "g" [addOperation "u1", removeOperation "u1"]
        (groupOf [] (by decide)) = (.ok (), ⟨some ⟨"staff", "", [], by decide⟩,
          [.updated 2, .member_added [.str "u1"] 1, .member_removed [.str "u1"] 1]⟩) := by
      decide +kernel
    intro h
    rw [Atomic, hrun] at h
    obtain ⟨_, _, _, events, hg, hg', -, -, hevents, hadded, -⟩ := h
    cases hg
    cases hg'
    obtain rfl := hevents
    simp [addedIds, sortTexts] at hadded

end OpenLaunch.Groups
