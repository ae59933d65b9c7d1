import OpenLaunch.Chats.History
import OpenLaunch.Forest
import Mathlib.Tactic.SplitIfs

/-! # Deleting a message from a history

Termination of `delete_message_from_history` is decided by the links around the deleted message: the
loop runs for ever exactly when the walk along last children comes back to a message it has been at
(`terminates_iff`). On a consistent forest that cannot happen, and the deletion contracts the forest
to its surviving messages. -/

namespace OpenLaunch.Chats

open Python Forest

/-! ## Fields after an update -/

theorem Message.field_setField (m : Message) (k k' : String) (v : Json) :
    (m.setField k v).field k' = if k' = k then v else m.field k' := by
  unfold field setField
  rw [Assoc.get?_set]
  split <;> rfl

theorem Message.childrenIds_setField (m : Message) (k : String) (v : Json) :
    (m.setField k v).childrenIds = if "childrenIds" = k then v else m.childrenIds := by
  unfold childrenIds setField
  rw [Assoc.get?_set]
  split <;> rfl

theorem Message.setField_setField (m : Message) (k : String) (v : Json) :
    (m.setField k v).setField k v = m.setField k v := by
  unfold setField
  induction m with
  | nil => simp [Assoc.set]
  | cons e m ih =>
    obtain ⟨k', a⟩ := e
    by_cases h : k' = k
    · simp [Assoc.set, h]
    · simp only [Assoc.set, h, if_false, ih]

/-- A missing `childrenIds` and a `null` one are told apart only by truthiness, which agrees. -/
theorem Message.childrenIds_of_field {m : Message} {v : Json}
    (h : m.field "childrenIds" = v) (hv : v ≠ .null) : m.childrenIds = v := by
  unfold field at h
  unfold childrenIds
  cases hm : Assoc.get? m "childrenIds" with
  | none => rw [hm] at h; exact absurd h.symm hv
  | some w => rw [hm] at h; exact h

/-! ## The walk -/

/-- The last entry of a child list, when it is a string. -/
def lastId (v : Json) : Option String :=
  if v.truthy then
    match v.last with
    | .ok (.str s) => some s
    | _ => none
  else none

/-- The step of the walk from one message to the last of its children. -/
def lastChild (messages : Dict String Message) (x : String) : Option String :=
  (messages.get? x).bind fun m => lastId m.childrenIds

theorem lastId_childrenOf (messages : Dict String Message) (x : String) :
    lastId (((messages.get? x).map Message.childrenIds).getD (.list [])) =
      lastChild messages x := by
  unfold lastChild
  cases messages.get? x <;> simp [lastId]

/-- Without a string to go to, the loop ends within two iterations. -/
theorem walkToLeaf_of_lastId_none {messages : Dict String Message} {v : Json}
    (h : lastId v = none) (n : ℕ) (c : Json) : walkToLeaf messages (n + 2) c v ≠ none := by
  unfold walkToLeaf
  split
  · rename_i hv
    rw [lastId, if_pos hv] at h
    cases hl : v.last with
    | error e => simp [Except.bind, bind]
    | ok w =>
      rw [hl] at h
      cases w with
      | str s => simp at h
      | null | bool | int | float => simp [childrenOf, Json.key, bind, Except.bind, pure,
          Except.pure, walkToLeaf]
      | list | dict => simp [childrenOf, Json.key, bind, Except.bind]
  · simp

/-- With a string to go to, one iteration moves there. -/
theorem walkToLeaf_of_lastId_some {messages : Dict String Message} {v : Json} {s : String}
    (h : lastId v = some s) (n : ℕ) (c : Json) :
    walkToLeaf messages (n + 1) c v = walkToLeaf messages n (.str s)
      (((messages.get? s).map Message.childrenIds).getD (.list [])) := by
  have hv : v.truthy = true := by
    by_contra hv
    simp [lastId, hv] at h
  rw [lastId, if_pos hv] at h
  have hl : v.last = .ok (.str s) := by
    cases hl : v.last with
    | error e => simp [hl] at h
    | ok w => cases w <;> simp_all
  rw [walkToLeaf, if_pos hv, hl]
  simp [childrenOf, bind, Except.bind, pure, Except.pure]

/-- **The loop ends exactly when the walk along last children does.** -/
theorem walkToLeaf_terminates_iff (messages : Dict String Message) (c v : Json) :
    (∃ n, walkToLeaf messages n c v ≠ none) ↔
      ∀ s, lastId v = some s → ∃ n, walk (lastChild messages) s n = none := by
  constructor
  · rintro ⟨n, hn⟩ s hs
    induction n generalizing c v s with
    | zero => exact absurd rfl hn
    | succ n ih =>
      rw [walkToLeaf_of_lastId_some hs] at hn
      cases hnext : lastChild messages s with
      | none => exact ⟨1, by simp [walk_succ, hnext]⟩
      | some t =>
        obtain ⟨k, hk⟩ := ih _ _ hn t ((lastId_childrenOf messages s).trans hnext)
        exact ⟨k + 1, by rw [walk_succ', hnext]; exact hk⟩
  · intro h
    cases hv : lastId v with
    | none => exact ⟨2, walkToLeaf_of_lastId_none hv 0 c⟩
    | some s =>
      obtain ⟨n, hn⟩ := h s hv
      clear h
      induction n generalizing c v s with
      | zero => simp at hn
      | succ n ih =>
        rw [walk_succ'] at hn
        cases hnext : lastChild messages s with
        | none =>
          refine ⟨3, ?_⟩
          rw [walkToLeaf_of_lastId_some hv]
          exact walkToLeaf_of_lastId_none ((lastId_childrenOf messages s).trans hnext) 0 _
        | some t =>
          rw [hnext] at hn
          obtain ⟨k, hk⟩ := ih (.str s) _ t ((lastId_childrenOf messages s).trans hnext) hn
          exact ⟨k + 1, by rwa [walkToLeaf_of_lastId_some hv]⟩

/-! ## The links after the deletion, read from the history before it -/

/-- The child list a surviving message is left with. -/
def childrenIdsAfter (messages : Dict String Message) (l : Links) (x : String) : Option Json :=
  (messages.get? x).map fun m =>
    match l.adopter with
    | some (p, siblings) => if x = p then l.adopted siblings else m.childrenIds
    | none => m.childrenIds

/-- The last child a message is left with. -/
def lastChildAfter (messages : Dict String Message) (message_id : String) (l : Links)
    (x : String) : Option String :=
  if x ∈ l.deletedIds message_id then none else (childrenIdsAfter messages l x).bind lastId

/-- The messages without a parent once the children are gone, in the order of the map. -/
def rootsAfter (messages : Dict String Message) (message_id : String) (l : Links) : List String :=
  (messages.entries.filter fun e => e.1 ∉ l.deletedIds message_id ∧
    (if e.1 ∈ l.grandchildIds then l.parentId else e.2.field "parentId") = .null).map Prod.fst

/-- The first message the walk goes to: the last child the parent is left with, or, below no parent,
the last root. -/
def startAfter (messages : Dict String Message) (message_id : String) (l : Links) :
    Option String :=
  match l.parentId with
  | .null => (rootsAfter messages message_id l).getLast?
  | .str p => lastChildAfter messages message_id l p
  | _ => none

/-- The links read from `message_id` send the walk round a cycle of last children. -/
def WalkCycles (history : History) (message_id : String) : Prop :=
  ∃ m l x, history.messages.get? message_id = some m ∧
    readLinks history.messages message_id m = .ok l ∧
    startAfter history.messages message_id l = some x ∧
    Revisits (lastChildAfter history.messages message_id l) x

/-- A surviving message after the deletion. -/
def messageAfter (l : Links) (x : String) (m : Message) : Message :=
  let m := match l.adopter with
    | some (p, siblings) => if x = p then m.setField "childrenIds" (l.adopted siblings) else m
    | none => m
  if x ∈ l.grandchildIds then m.setField "parentId" l.parentId else m

/-- Only the link fields change. -/
theorem messageAfter_field (l : Links) (x : String) (m : Message) {k : String}
    (hp : k ≠ "parentId") (hc : k ≠ "childrenIds") : (messageAfter l x m).field k = m.field k := by
  unfold messageAfter
  cases l.adopter with
  | none => by_cases hg : x ∈ l.grandchildIds <;> simp [hg, Message.field_setField, hp]
  | some a =>
    dsimp only
    split_ifs <;> simp [Message.field_setField, hp, hc]

/-- The map after the deletion: the surviving entries in their order, relinked. -/
theorem entries_relink (messages : Dict String Message) (message_id : String) (l : Links) :
    (relink messages message_id l).entries =
      (messages.entries.filter fun e => e.1 ∉ l.deletedIds message_id).map fun e =>
        (e.1, messageAfter l e.1 e.2) := by
  unfold relink messageAfter
  rw [Dict.entries_foldl_erase, Dict.entries_foldl_modify _ _ fun m => m.setField_setField _ _,
    List.filter_map]
  cases l.adopter with
  | none => rfl
  | some a =>
    simp only [Dict.modify, List.map_map, List.filter_map]
    rfl

/-- What each key of the map holds after the deletion. -/
theorem get?_relink (messages : Dict String Message) (message_id : String) (l : Links)
    (x : String) :
    (relink messages message_id l).get? x =
      if x ∈ l.deletedIds message_id then none
      else (messages.get? x).map (messageAfter l x) := by
  rw [Dict.get?, entries_relink, Assoc.get?_map,
    Assoc.get?_filter fun k => decide (k ∉ l.deletedIds message_id)]
  split <;> simp_all [Dict.get?]

theorem messageAfter_childrenIds (l : Links) (x : String) (m : Message) :
    (messageAfter l x m).childrenIds =
      match l.adopter with
      | some (p, siblings) => if x = p then l.adopted siblings else m.childrenIds
      | none => m.childrenIds := by
  unfold messageAfter
  cases l.adopter with
  | none => by_cases hg : x ∈ l.grandchildIds <;> simp [hg, Message.childrenIds_setField]
  | some a =>
    dsimp only
    split_ifs <;> simp [Message.childrenIds_setField]

theorem messageAfter_childrenIds_field (l : Links) (x : String) (m : Message) :
    (messageAfter l x m).field "childrenIds" =
      match l.adopter with
      | some (p, siblings) => if x = p then l.adopted siblings else m.field "childrenIds"
      | none => m.field "childrenIds" := by
  unfold messageAfter
  cases l.adopter with
  | none => by_cases hg : x ∈ l.grandchildIds <;> simp [hg, Message.field_setField]
  | some a =>
    dsimp only
    split_ifs <;> simp [Message.field_setField]

theorem messageAfter_parentId (l : Links) (x : String) (m : Message) :
    (messageAfter l x m).field "parentId" =
      if x ∈ l.grandchildIds then l.parentId else m.field "parentId" := by
  unfold messageAfter
  cases l.adopter with
  | none => by_cases hg : x ∈ l.grandchildIds <;> simp [hg, Message.field_setField]
  | some a =>
    dsimp only
    split_ifs <;> simp [Message.field_setField]

/-- The step of the walk over the relinked map is the one read from the map before. -/
theorem lastChild_relink (messages : Dict String Message) (message_id : String) (l : Links)
    (x : String) :
    lastChild (relink messages message_id l) x = lastChildAfter messages message_id l x := by
  unfold lastChild lastChildAfter childrenIdsAfter
  rw [get?_relink]
  split
  · rfl
  · cases messages.get? x with
    | none => rfl
    | some m => simp [messageAfter_childrenIds]

/-! ## Termination -/

/-- The links carry the message's parent, which is hashable, and its adopter is the parent found in
the map. -/
theorem readLinks_parent {messages : Dict String Message} {message_id : String} {m : Message}
    {l : Links} (h : readLinks messages message_id m = .ok l) :
    l.parentId = m.field "parentId" ∧ ∃ k, l.parentId.key = .ok k := by
  unfold readLinks inMessages at h
  simp only [bind, Except.bind, pure, Except.pure] at h
  split at h
  · simp at h
  split at h
  · simp at h
  split at h
  · simp at h
  rename_i hkey
  cases hk : (m.field "parentId").key with
  | error e => simp [hk] at hkey
  | ok k =>
    split at h
    · split at h
      · simp at h
      · cases h; exact ⟨rfl, k, hk⟩
    · cases h; exact ⟨rfl, k, hk⟩

theorem lastId_list_str (ids : List String) : lastId (.list (ids.map .str)) = ids.getLast? := by
  cases h : ids.getLast? with
  | none => simp_all [lastId]
  | some s =>
    have hne : ids ≠ [] := by rintro rfl; simp at h
    simp [lastId, Json.last, hne, h]

/-- The walk starts at the message the links say. -/
theorem walkStart_relink (messages : Dict String Message) (message_id : String) {l : Links}
    {k : Json.Key} (hk : l.parentId.key = .ok k) :
    ∃ v, walkStart (relink messages message_id l) l.parentId = .ok v ∧
      lastId v = startAfter messages message_id l := by
  unfold walkStart startAfter childrenOf
  rw [hk]
  cases hp : l.parentId with
  | null =>
    refine ⟨_, rfl, ?_⟩
    rw [entries_relink, List.filter_map, List.map_map, List.filter_filter, rootsAfter,
      ← lastId_list_str, List.map_map]
    congr 3
    refine List.filter_congr fun e _ => ?_
    simp [messageAfter_parentId, hp, Bool.and_comm]
  | str p =>
    rw [hp] at hk
    cases hk
    exact ⟨_, rfl, (lastId_childrenOf _ p).trans (lastChild_relink messages message_id l p)⟩
  | bool | int | float =>
    rw [hp] at hk
    cases hk
    exact ⟨_, rfl, rfl⟩
  | list | dict => rw [hp] at hk; cases hk

/-- Every node the walk leaves behind is a message. -/
theorem walk_mem_keys {messages : Dict String Message} {message_id x : String} {l : Links}
    (h : ∀ n, (walk (lastChildAfter messages message_id l) x n).isSome) (n : ℕ) (y : String)
    (hy : walk (lastChildAfter messages message_id l) x n = some y) : y ∈ messages.keys := by
  have hnext := h (n + 1)
  rw [walk_succ, hy] at hnext
  by_contra hmem
  have hnone : messages.get? y = none := Dict.get?_eq_none_iff.mpr hmem
  simp [lastChildAfter, childrenIdsAfter, hnone] at hnext

/-- **The deletion terminates exactly when the walk meets no cycle of last children.** -/
theorem terminates_iff (history : History) (message_id : String) :
    Terminates history message_id ↔ ¬ WalkCycles history message_id := by
  unfold Terminates WalkCycles delete_message_from_history
  cases hm : history.messages.get? message_id with
  | none => simp
  | some m =>
    cases hl : readLinks history.messages message_id m with
    | error e => simp [hl]
    | ok l =>
      obtain ⟨k, hk⟩ := (readLinks_parent hl).2
      obtain ⟨v, hv, hstart⟩ := walkStart_relink history.messages message_id hk
      have hnext : lastChild (relink history.messages message_id l) =
          lastChildAfter history.messages message_id l :=
        funext fun x => lastChild_relink history.messages message_id l x
      simp only [hl, hv, ne_eq, Option.map_eq_none_iff]
      have hiff := walkToLeaf_terminates_iff (relink history.messages message_id l) l.parentId v
      rw [hnext, hstart] at hiff
      refine hiff.trans ?_
      constructor
      · rintro h ⟨m', l', x, hm', hl', hx, hrev⟩
        cases hm'
        rw [hl] at hl'
        cases hl'
        obtain ⟨n, hn⟩ := h x hx
        exact absurd (hrev.forever n) (by simp [hn])
      · intro h x hx
        by_contra hforever
        push Not at hforever
        have hsome := fun n => Option.isSome_iff_ne_none.mpr (hforever n)
        exact h ⟨m, l, x, rfl, hl, hx, revisits_of_forever (walk_mem_keys hsome) hsome⟩

end OpenLaunch.Chats
