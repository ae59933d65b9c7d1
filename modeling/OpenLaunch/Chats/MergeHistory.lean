import OpenLaunch.Chats.HistoryTree

/-! # Merging two whole histories

`merge_history` of `Writing messages` maps a stored history and a client's to the messages and the
`currentId` of their merge. Here both sides are whole: each has its messages, its `currentId` and
its other fields, of which the incoming ones win too.

The parent links are arbitrary JSON. The child lists are made anew from them, so they mirror the
links of the merged map whatever the lists of either side were, and a second merge with the same
history finds nothing to change. -/

namespace OpenLaunch.Chats

open Python

/-- A history with its other fields; no history at all counts as the empty one. -/
structure WholeHistory where
  /-- `history['messages']` and `history['currentId']`. -/
  history : History
  /-- The fields besides these. -/
  other : Dict String Json
  deriving DecidableEq

/-- The messages of the history. -/
abbrev WholeHistory.messages (h : WholeHistory) : Dict String Message := h.history.messages

/-- The current id of the history. -/
abbrev WholeHistory.currentId (h : WholeHistory) : Json := h.history.currentId

/-- The messages, as the JSON objects they are. -/
def WholeHistory.json (h : WholeHistory) : Dict String Json :=
  h.messages.mapValues fun _ message => .dict message

/-- `ChatTable.merge_history`, of histories whose messages are objects. -/
def WholeHistory.merge_history (existing incoming : WholeHistory) :
    Except PyErr WholeHistory := do
  let history ← Chats.merge_history existing.history incoming.json incoming.currentId
  return ⟨history, existing.other.update incoming.other⟩

/-- The value is no list and no object. -/
def Hashable (v : Json) : Prop := ∃ k, v.key = .ok k

variable {messages existing incoming : Dict String Message} {k id : String} {v : Json}

/-! ## The merged map -/

/-- Objects pass the test for objects: the merged map is the update of one map by the other. -/
theorem mergedMessages_objects (existing incoming : Dict String Message) :
    mergedMessages existing (incoming.mapValues fun _ message => .dict message) =
      existing.update incoming := by
  have hentries : (mergedMessages existing
      (incoming.mapValues fun _ message => .dict message)).entries =
      (existing.update incoming).entries := by
    show (Assoc.update (existing.entries.map fun e => (e.1, Json.dict e.2))
        (incoming.entries.map fun e => (e.1, Json.dict e.2))).filterMap
          (fun e => (dict? e.2).map (Prod.mk e.1)) =
      Assoc.update existing.entries incoming.entries
    rw [Assoc.update_mapSnd, List.filterMap_map]
    exact List.filterMap_some
  exact Dict.eq_of_entries hentries

/-! ## The child lists -/

/-- The children of a message, by the order of the map's ids. -/
theorem childrenByParent_eq (messages : Dict String Message) (p : String) :
    childrenByParent messages p =
      messages.keys.filter fun c => (messages.get? c).map (·.field "parentId") = some (.str p) := by
  unfold childrenByParent Dict.keys Assoc.keys
  rw [List.filter_map]
  refine congrArg (List.map Prod.fst) (List.filter_congr fun e he => ?_)
  have hget : messages.get? e.1 = some e.2 := Dict.mem_entries_iff.mp he
  simp [hget]

theorem nodup_childrenByParent (messages : Dict String Message) (p : String) :
    (childrenByParent messages p).Nodup := by
  rw [childrenByParent_eq]
  exact messages.nodup.filter _

/-- The child lists come from the ids and the parent links alone. -/
theorem childrenByParent_congr {messages' : Dict String Message}
    (hkeys : messages'.keys = messages.keys)
    (hparent : ∀ c, (messages'.get? c).map (·.field "parentId") =
      (messages.get? c).map (·.field "parentId")) (p : String) :
    childrenByParent messages' p = childrenByParent messages p := by
  rw [childrenByParent_eq, childrenByParent_eq, hkeys]
  exact List.filter_congr fun c _ => by rw [hparent]

/-- A message with its child list made anew. -/
def withChildren (messages : Dict String Message) (p : String) (m : Message) : Message :=
  m.setField "childrenIds" (.list ((childrenByParent messages p).map .str))

theorem get?_rebuildChildren (messages : Dict String Message) (k : String) :
    (rebuildChildren messages).get? k = (messages.get? k).map (withChildren messages k) :=
  Dict.get?_mapValues ..

theorem keys_rebuildChildren (messages : Dict String Message) :
    (rebuildChildren messages).keys = messages.keys := by
  unfold Dict.keys Assoc.keys
  show (messages.entries.map _).map Prod.fst = _
  rw [List.map_map]
  rfl

theorem mem_rebuildChildren : k ∈ rebuildChildren messages ↔ k ∈ messages := by
  rw [Dict.mem_iff_isSome, Dict.mem_iff_isSome, get?_rebuildChildren, Option.isSome_map]

/-- Apart from the child list a message stays as it is. -/
theorem get?_withChildren (m : Message) (p : String) {key : String} (hkey : key ≠ "childrenIds") :
    Assoc.get? (withChildren messages p m) key = Assoc.get? m key :=
  Assoc.get?_set_ne _ hkey _

theorem parentId_withChildren (m : Message) (p : String) :
    (withChildren messages p m).field "parentId" = m.field "parentId" :=
  congrArg (·.getD .null) (get?_withChildren m p (by decide))

/-- The parent links stay. -/
theorem parentId_rebuildChildren (messages : Dict String Message) (c : String) :
    ((rebuildChildren messages).get? c).map (·.field "parentId") =
      (messages.get? c).map (·.field "parentId") := by
  rw [get?_rebuildChildren, Option.map_map]
  exact Option.map_congr fun m _ => parentId_withChildren m c

/-! ## Merging again -/

/-- A rebuilt map that is updated by the messages it was updated by before. -/
theorem keys_update_rebuilt (existing incoming : Dict String Message) :
    ((rebuildChildren (existing.update incoming)).update incoming).keys =
      (existing.update incoming).keys := by
  refine Eq.trans (Assoc.keys_update_of_subset fun k hk => ?_) (keys_rebuildChildren _)
  have hin : k ∈ existing.update incoming := (Assoc.mem_keys_update _ _ k).mpr (.inr hk)
  exact mem_rebuildChildren.mpr hin

/-- The second update brings the incoming messages back, with their old child lists; the others
keep their new ones. -/
theorem get?_update_rebuilt (existing incoming : Dict String Message) (k : String) :
    ((rebuildChildren (existing.update incoming)).update incoming).get? k =
      (incoming.get? k).or
        ((existing.get? k).map (withChildren (existing.update incoming) k)) := by
  rw [Dict.get?_update, get?_rebuildChildren, Dict.get?_update]
  cases incoming.get? k with
  | some m => rfl
  | none => rfl

theorem parentId_update_rebuilt (existing incoming : Dict String Message) (c : String) :
    (((rebuildChildren (existing.update incoming)).update incoming).get? c).map
      (·.field "parentId") = ((existing.update incoming).get? c).map (·.field "parentId") := by
  rw [get?_update_rebuilt, Dict.get?_update]
  cases incoming.get? c with
  | some m => rfl
  | none =>
    rw [Option.none_or, Option.none_or, Option.map_map]
    exact Option.map_congr fun m _ => parentId_withChildren m c

/-- **Merging the same messages again** makes the same map. -/
theorem rebuildChildren_update_rebuilt (existing incoming : Dict String Message) :
    rebuildChildren ((rebuildChildren (existing.update incoming)).update incoming) =
      rebuildChildren (existing.update incoming) := by
  have hkeys := keys_update_rebuilt existing incoming
  have hchildren := childrenByParent_congr hkeys (parentId_update_rebuilt _ _)
  refine Dict.eq_of_get? (by rw [keys_rebuildChildren, keys_rebuildChildren, hkeys]) fun k => ?_
  have hwith : withChildren ((rebuildChildren (existing.update incoming)).update incoming) k =
      withChildren (existing.update incoming) k := by
    funext m
    rw [withChildren, withChildren, hchildren]
  rw [get?_rebuildChildren, get?_rebuildChildren, hwith, get?_update_rebuilt, Dict.get?_update]
  cases incoming.get? k with
  | some m => rfl
  | none =>
    rw [Option.none_or, Option.none_or, Option.map_map]
    exact Option.map_congr fun m _ => Message.setField_setField ..

/-! ## The current message -/

theorem inMessages_of_key {kv : Json.Key} (h : v.key = .ok kv) (messages : Dict String Message) :
    ∃ here, inMessages messages v = .ok here := by
  unfold inMessages
  rw [h]
  cases kv with
  | str s => exact ⟨decide (s ∈ messages), rfl⟩
  | none | num | float => exact ⟨false, rfl⟩

/-- Maps with the same ids answer alike. -/
theorem inMessages_congr {messages' : Dict String Message} (h : messages'.keys = messages.keys)
    (v : Json) : inMessages messages' v = inMessages messages v := by
  have hmem : ∀ s, s ∈ messages' ↔ s ∈ messages := by
    intro s
    show s ∈ messages'.keys ↔ s ∈ messages.keys
    rw [h]
  unfold inMessages
  simp only [hmem]

theorem currentIn_congr {messages' : Dict String Message} (h : messages'.keys = messages.keys)
    (v : Json) (otherwise : Except PyErr Json) :
    currentIn messages' v otherwise = currentIn messages v otherwise := by
  unfold currentIn
  rw [inMessages_congr h]

/-- An id of the map, or none, is kept. -/
theorem currentIn_of_currentIn (h : CurrentIn messages v) :
    currentIn messages v (.ok .null) = .ok v := by
  rcases h with rfl | ⟨c, hc, rfl⟩
  · rfl
  · have hhere : inMessages messages (.str c) = .ok true :=
      congrArg Except.ok (decide_eq_true hc)
    unfold currentIn
    rw [hhere]
    rfl

theorem exists_currentIn {otherwise : Except PyErr Json} (hv : Hashable v)
    (hother : ∃ c, otherwise = .ok c) : ∃ c, currentIn messages v otherwise = .ok c := by
  obtain ⟨kv, hkv⟩ := hv
  obtain ⟨here, hhere⟩ := inMessages_of_key hkv messages
  unfold currentIn
  rw [hhere]
  cases here with
  | true => exact ⟨v, rfl⟩
  | false => exact hother

/-- Asking for the incoming id again, and then for the one found, finds it again. -/
theorem currentIn_again {v w c : Json}
    (h : currentIn messages v (currentIn messages w (.ok .null)) = .ok c) :
    currentIn messages v (currentIn messages c (.ok .null)) = .ok c := by
  have hin : CurrentIn messages c := by
    refine currentIn_ok (fun x hx => currentIn_ok (fun y hy => ?_) hx) h
    cases hy
    exact .inl rfl
  obtain ⟨here, hhere, h⟩ := bind_eq_ok.mp h
  refine bind_eq_ok.mpr ⟨here, hhere, ?_⟩
  cases here with
  | true => exact h
  | false => exact currentIn_of_currentIn hin

/-! ## What a merge returns -/

/-- The parent ids and the current ids can be looked up. -/
structure Hashables (existing incoming : WholeHistory) : Prop where
  existingParents : ∀ id m, existing.messages.get? id = some m → Hashable (m.field "parentId")
  incomingParents : ∀ id m, incoming.messages.get? id = some m → Hashable (m.field "parentId")
  existingCurrent : Hashable existing.currentId
  incomingCurrent : Hashable incoming.currentId

/-- What the merge of two histories with objects as messages is to be. -/
structure IsMerge (existing incoming merged : WholeHistory) : Prop where
  /-- Every message of either side is there, with the fields of the incoming one if it has both. -/
  messages : ∀ id, (merged.messages.get? id).map (Assoc.erase · "childrenIds") =
    ((incoming.messages.get? id).or (existing.messages.get? id)).map (Assoc.erase · "childrenIds")
  /-- The child list of a message lists the messages that name it, each once. -/
  children : ∀ id m, merged.messages.get? id = some m → ∃ ids : List String,
    m.field "childrenIds" = .list (ids.map .str) ∧ ids.Nodup ∧
      ∀ c, c ∈ ids ↔ ∃ m', merged.messages.get? c = some m' ∧ m'.field "parentId" = .str id
  /-- The current message is there, or there is none. -/
  current : CurrentIn merged.messages merged.currentId
  /-- Merging again changes nothing. -/
  again : merged.merge_history incoming = .ok merged

theorem erase_setField (m : Message) (key : String) (v : Json) :
    Assoc.erase (m.setField key v) key = Assoc.erase m key := by
  unfold Message.setField Assoc.erase
  induction m with
  | nil => simp [Assoc.set]
  | cons e m ih =>
    rw [Assoc.set]
    split
    · rename_i he
      rw [List.filter_cons_of_neg (by simpa using he), List.filter_cons_of_neg (by simpa using he)]
    · rename_i he
      rw [List.filter_cons_of_pos (by simpa using he), List.filter_cons_of_pos (by simpa using he),
        ih]

/-- What `merge_history` computes, on whole histories. -/
theorem WholeHistory.merge_history_eq (existing incoming : WholeHistory) :
    existing.merge_history incoming =
      (do
        let merged := existing.messages.update incoming.messages
        let _ ← merged.values.mapM fun message => inMessages merged (message.field "parentId")
        let current_id ← currentIn merged incoming.currentId
          (currentIn merged existing.currentId (.ok .null))
        return ⟨⟨rebuildChildren merged, current_id⟩, existing.other.update incoming.other⟩) := by
  unfold WholeHistory.merge_history Chats.merge_history WholeHistory.json
  rw [mergedMessages_objects]
  simp only [bind_assoc, pure_bind]

/-- Rebuilding the lists leaves the lookups of the parents as they are. -/
theorem mapM_inMessages_congr {messages' : Dict String Message}
    (hkeys : messages'.keys = messages.keys)
    (hparent : ∀ c, (messages'.get? c).map (·.field "parentId") =
      (messages.get? c).map (·.field "parentId")) :
    (messages'.values.mapM fun m => inMessages messages' (m.field "parentId")) =
      messages.values.mapM fun m => inMessages messages (m.field "parentId") := by
  have hparents : messages'.values.map (·.field "parentId") =
      messages.values.map (·.field "parentId") := by
    have hmap : messages'.mapValues (fun _ m => m.field "parentId") =
        messages.mapValues (fun _ m => m.field "parentId") := by
      refine Dict.eq_of_get? ?_ fun c => by
        rw [Dict.get?_mapValues, Dict.get?_mapValues, hparent]
      unfold Dict.mapValues Dict.keys Assoc.keys
      rw [List.map_map, List.map_map]
      exact hkeys
    have hvalues := congrArg Dict.values hmap
    unfold Dict.mapValues Dict.values at hvalues
    rw [List.map_map, List.map_map] at hvalues
    unfold Dict.values
    rw [List.map_map, List.map_map]
    exact hvalues
  have hfun : (fun v => inMessages messages' v) = fun v => inMessages messages v := by
    funext v
    exact inMessages_congr hkeys v
  calc (messages'.values.mapM fun m => inMessages messages' (m.field "parentId"))
      = (messages'.values.map (·.field "parentId")).mapM fun v => inMessages messages' v := by
        rw [List.mapM_map]; rfl
    _ = (messages.values.map (·.field "parentId")).mapM fun v => inMessages messages v := by
        rw [hparents, hfun]
    _ = messages.values.mapM fun m => inMessages messages (m.field "parentId") := by
        rw [List.mapM_map]; rfl

/-- With ids that can be looked up the merge returns. -/
theorem Hashables.exists_merge {existing incoming : WholeHistory}
    (h : Hashables existing incoming) : ∃ merged, existing.merge_history incoming = .ok merged := by
  rw [WholeHistory.merge_history_eq]
  have hparents : ∀ m ∈ (existing.messages.update incoming.messages).values,
      ∃ here, inMessages (existing.messages.update incoming.messages) (m.field "parentId") =
        .ok here := by
    intro m hm
    obtain ⟨⟨c, m'⟩, he, rfl⟩ := List.mem_map.mp hm
    have hget := Dict.mem_entries_iff.mp he
    rw [Dict.get?_update, Option.or_eq_some_iff] at hget
    have hkey : Hashable (m'.field "parentId") := by
      rcases hget with hin | ⟨-, hex⟩
      · exact h.incomingParents c m' hin
      · exact h.existingParents c m' hex
    obtain ⟨kv, hkv⟩ := hkey
    exact inMessages_of_key hkv _
  obtain ⟨heres, hheres⟩ := exists_mapM hparents
  obtain ⟨c, hc⟩ : ∃ c, currentIn (existing.messages.update incoming.messages) incoming.currentId
      (currentIn (existing.messages.update incoming.messages) existing.currentId (.ok .null)) =
      .ok c :=
    exists_currentIn h.incomingCurrent (exists_currentIn h.existingCurrent ⟨.null, rfl⟩)
  dsimp only
  rw [hheres, hc]
  exact ⟨_, rfl⟩

/-- The merge of two histories, once it returns. -/
theorem isMerge_of_merge {existing incoming merged : WholeHistory}
    (h : existing.merge_history incoming = .ok merged) : IsMerge existing incoming merged := by
  rw [WholeHistory.merge_history_eq] at h
  obtain ⟨heres, hheres, h⟩ := bind_eq_ok.mp h
  obtain ⟨current_id, hcurrent, h⟩ := bind_eq_ok.mp h
  cases h
  refine ⟨fun id => ?_, fun id m hm => ?_, ?_, ?_⟩
  · show ((rebuildChildren _).get? id).map _ = _
    rw [get?_rebuildChildren, Dict.get?_update, Option.map_map]
    exact Option.map_congr fun m _ => erase_setField ..
  · change (rebuildChildren _).get? id = some m at hm
    rw [get?_rebuildChildren] at hm
    obtain ⟨m₀, -, rfl⟩ := Option.map_eq_some_iff.mp hm
    refine ⟨childrenByParent (existing.messages.update incoming.messages) id, ?_,
      nodup_childrenByParent .., fun c => ?_⟩
    · rw [withChildren, Message.field_setField, if_pos rfl]
    · rw [mem_childrenByParent]
      show _ ↔ ∃ m', (rebuildChildren _).get? c = some m' ∧ _
      have hparent := parentId_rebuildChildren (existing.messages.update incoming.messages) c
      constructor
      · rintro ⟨m', hm', hp⟩
        rw [hm', Option.map_some, hp] at hparent
        exact Option.map_eq_some_iff.mp hparent
      · rintro ⟨m', hm', hp⟩
        rw [hm', Option.map_some, hp] at hparent
        exact Option.map_eq_some_iff.mp hparent.symm
  · have hin : CurrentIn (existing.messages.update incoming.messages) current_id := by
      refine currentIn_ok (fun x hx => currentIn_ok (fun y hy => ?_) hx) hcurrent
      cases hy
      exact .inl rfl
    rcases hin with hnull | ⟨c, hc, hstr⟩
    · exact .inl hnull
    · exact .inr ⟨c, mem_rebuildChildren.mpr hc, hstr⟩
  · rw [WholeHistory.merge_history_eq]
    have hkeys := keys_update_rebuilt existing.messages incoming.messages
    have hlookups := mapM_inMessages_congr hkeys (parentId_update_rebuilt _ _)
    dsimp only [WholeHistory.messages, WholeHistory.currentId] at hheres hcurrent hkeys hlookups ⊢
    rw [hlookups, hheres, currentIn_congr hkeys, currentIn_congr hkeys,
      currentIn_again hcurrent]
    simp only [rebuildChildren_update_rebuilt, Dict.update_update_self]
    rfl

/-- **A merge of histories whose ids can be looked up** returns every message of either side with
rebuilt child lists and a current id that is there, and is not changed by merging again; whenever a
merge returns, this is what it returns. -/
theorem merge_history_isMerge (existing incoming : WholeHistory) :
    (Hashables existing incoming → ∃ merged, existing.merge_history incoming = .ok merged) ∧
      ∀ merged, existing.merge_history incoming = .ok merged → IsMerge existing incoming merged :=
  ⟨Hashables.exists_merge, fun _ => isMerge_of_merge⟩

/-- A history of one message, with the given parent. -/
def loneMessage (parentId : Json) : WholeHistory :=
  ⟨⟨⟨[("a", [("parentId", parentId)])], List.nodup_singleton _⟩, .null⟩, Dict.empty⟩

theorem hashable_loneMessage {parentId : Json} (h : Hashable parentId) (id : String) (m : Message)
    (hm : (loneMessage parentId).messages.get? id = some m) : Hashable (m.field "parentId") := by
  have hmem := Dict.mem_entries_iff.mpr hm
  cases List.mem_singleton.mp hmem
  exact h

/-- A stored root that a client makes its own parent. -/
theorem merge_history_lone : ∃ merged,
    (loneMessage .null).merge_history (loneMessage (.str "a")) = .ok merged ∧
      IsMerge (loneMessage .null) (loneMessage (.str "a")) merged := by
  obtain ⟨merged, hmerged⟩ := (merge_history_isMerge (loneMessage .null) (loneMessage (.str "a"))).1
    ⟨hashable_loneMessage ⟨.none, rfl⟩, hashable_loneMessage ⟨.str "a", rfl⟩, ⟨.none, rfl⟩,
      ⟨.none, rfl⟩⟩
  exact ⟨merged, hmerged, (merge_history_isMerge _ _).2 merged hmerged⟩

/-- A list as the parent raises. -/
theorem merge_history_unhashable :
    (loneMessage .null).merge_history (loneMessage (.list [])) = .error .typeError := by
  decide

end OpenLaunch.Chats
