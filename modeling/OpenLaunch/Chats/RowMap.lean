import OpenLaunch.Chats.MessageRows

/-! # The messages of a chat from its rows

`get_messages_map_by_chat_id` makes from the rows of a chat a map of messages like that of its
history: each column that has a value becomes a field, and the child lists are made from the parent
links. -/

namespace OpenLaunch.Chats

open Python

/-! ## Messages -/

/-- The columns of a row under the names that they have in a message. -/
def Row.columns (row : Row) : Message :=
  [("role", row.role), ("parentId", row.parent_id), ("content", row.content),
    ("output", row.output), ("model", row.model_id), ("files", row.files),
    ("sources", row.sources), ("embeds", row.embeds), ("done", row.done),
    ("statusHistory", row.status_history), ("error", row.error), ("usage", row.usage),
    ("contextSummary", row.context_summary), ("timestamp", row.created_at)]

/-- `msg.setdefault(key, v)`. -/
def Message.setdefault (m : Message) (key : String) (v : Json) : Message :=
  if Assoc.contains m key then m else Assoc.set m key v

/-- `if 'usage' in msg: msg['info'] = {'usage': msg['usage']}`. -/
def Message.mirrorUsage (m : Message) : Message :=
  match Assoc.get? m "usage" with
  | some usage => Assoc.set m "info" (.dict [("usage", usage)])
  | none => m

/-- The columns that have a value, under the message's id. -/
def presentColumns (msg_id : String) (row : Row) : Message :=
  ("id", .str msg_id) :: row.columns.filter fun c => c.2 ≠ .null

/-- The message of a row. -/
def messageOfRow (msg_id : String) (row : Row) : Message :=
  ((presentColumns msg_id row).setdefault "content" (.str "")).mirrorUsage

/-- `row.id[prefix_len:] if row.id.startswith(prefix) else row.id`, for the prefix `f'{chat_id}-'`.
-/
def recoveredId (chat_id id : String) : String :=
  if (chat_id ++ "-").toList <+: id.toList then
    String.ofList (id.toList.drop (chat_id ++ "-").toList.length)
  else id

/-! ## Child lists -/

/-- The message with one more child. -/
def Message.addChild (child_id : String) (m : Message) : Message :=
  let children := m.field "childrenIds"
  if children = .null then m.setField "childrenIds" (.list [.str child_id])
  else if .str child_id ∈ children.elems then m
  else m.setField "childrenIds" (.list (children.elems ++ [.str child_id]))

/-- The map once the parent of a message has it as a child. -/
def addToParent (messages_map : Dict String Message) (e : String × Message) :
    Except PyErr (Dict String Message) :=
  let parent_id := e.2.field "parentId"
  if parent_id.truthy then do
    let here ← inMessages messages_map parent_id
    match parent_id, here with
    | .str p, true => return messages_map.modify p (Message.addChild e.1)
    | _, _ => return messages_map
  else return messages_map

/-- The messages of some rows, without child lists. -/
def messagesOfRows (chat_id : String) (rows : MessageTable) : Dict String Message :=
  ⟨Assoc.update Dict.empty.entries (rows.entries.map fun e =>
      (recoveredId chat_id e.1, messageOfRow (recoveredId chat_id e.1) e.2)),
    Assoc.nodup_keys_update Dict.empty.nodup _⟩

/-- `ChatMessageTable.get_messages_map_by_chat_id`. -/
def get_messages_map_by_chat_id (table : MessageTable) (chat_id : String) :
    Except PyErr (Option (Dict String Message)) := do
  let rows := table.filter fun _ row => row.chat_id = chat_id
  if rows.entries = [] then return none
  let messages_map := messagesOfRows chat_id rows
  let messages_map ← messages_map.entries.foldlM addToParent messages_map
  return some (messages_map.mapValues fun _ m => m.setdefault "childrenIds" (.list []))

/-- `ChatMessageTable.delete_message_ids_by_chat_id`. -/
def delete_message_ids_by_chat_id (table : MessageTable) (chat_id : String)
    (message_ids : List String) : MessageTable :=
  table.filter fun id row => !(row.chat_id = chat_id && message_ids.any fun message_id =>
    id = compositeId chat_id message_id)

/-! ## What the map holds -/

variable {row : Row} {k x chat_id : String} {v : Json} {m m' : Message}
  {map map' : Dict String Message} {table : MessageTable}

theorem get?_setdefault (m : Message) (key : String) (v : Json) :
    Assoc.get? (m.setdefault key v) k =
      if k = key then some ((Assoc.get? m key).getD v) else Assoc.get? m k := by
  unfold Message.setdefault Assoc.contains
  cases hget : Assoc.get? m key with
  | some a =>
    rw [if_pos (show (some a).isSome = true from rfl)]
    split
    · rename_i hk
      rw [hk, hget]
      rfl
    · rfl
  | none =>
    rw [if_neg (show ¬ (none : Option Json).isSome = true by decide), Assoc.get?_set]
    rfl

theorem get?_mirrorUsage (m : Message) (hk : k ≠ "info") :
    Assoc.get? m.mirrorUsage k = Assoc.get? m k := by
  unfold Message.mirrorUsage
  split
  · exact Assoc.get?_set_ne m hk _
  · rfl

/-- Leaving out the columns without a value leaves the fields. -/
theorem field_presentColumns (msg_id : String) (row : Row) (hk : k ≠ "id") :
    Message.field (presentColumns msg_id row) k = Message.field row.columns k := by
  have hnodup : (Assoc.keys row.columns).Nodup :=
    (by decide : ["role", "parentId", "content", "output", "model", "files", "sources", "embeds",
      "done", "statusHistory", "error", "usage", "contextSummary", "timestamp"].Nodup)
  have hfilter := Dict.get?_filter (fun _ v => decide (v ≠ Json.null)) ⟨row.columns, hnodup⟩ k
  unfold presentColumns Message.field
  rw [Assoc.get?_cons_ne (Ne.symm hk)]
  show ((Dict.filter (fun _ v => decide (v ≠ Json.null)) ⟨row.columns, hnodup⟩).get? k).getD
    .null = _
  rw [hfilter]
  show (Option.filter (fun v => decide (v ≠ Json.null)) (Assoc.get? row.columns k)).getD .null = _
  cases hget : Assoc.get? row.columns k with
  | none => rfl
  | some v =>
    by_cases hv : v = .null
    · simp [Option.filter, hv]
    · simp [Option.filter, hv]

/-- A field of the message of a row. -/
theorem field_messageOfRow (msg_id : String) (row : Row) (hid : k ≠ "id") (hinfo : k ≠ "info")
    (hcontent : k ≠ "content") :
    (messageOfRow msg_id row).field k = Message.field row.columns k := by
  rw [← field_presentColumns msg_id row hid]
  unfold Message.field messageOfRow
  rw [get?_mirrorUsage _ hinfo, get?_setdefault, if_neg hcontent]

/-- The content, where none counts as empty. -/
def contentOf (m : Message) : Json := if m.field "content" = .null then .str "" else m.field "content"

theorem contentOf_messageOfRow (msg_id : String) (row : Row) :
    contentOf (messageOfRow msg_id row) = if row.content = .null then .str "" else row.content := by
  have hcolumn := field_presentColumns msg_id row (by decide : "content" ≠ "id")
  have hcontent : Message.field row.columns "content" = row.content := rfl
  rw [hcontent] at hcolumn
  have hget : Assoc.get? (messageOfRow msg_id row) "content" =
      some ((Assoc.get? (presentColumns msg_id row) "content").getD (.str "")) := by
    rw [messageOfRow, get?_mirrorUsage _ (by decide), get?_setdefault, if_pos rfl]
  unfold contentOf
  rw [Message.field, hget, Option.getD_some]
  unfold Message.field at hcolumn
  cases hc : Assoc.get? (presentColumns msg_id row) "content" with
  | none =>
    rw [hc] at hcolumn
    rw [← hcolumn]
    rfl
  | some v =>
    rw [hc] at hcolumn
    rw [← hcolumn]
    rfl

theorem id_messageOfRow (msg_id : String) (row : Row) :
    (messageOfRow msg_id row).field "id" = .str msg_id := by
  unfold Message.field messageOfRow
  rw [get?_mirrorUsage _ (by decide), get?_setdefault, if_neg (by decide), presentColumns,
    Assoc.get?_cons_self]
  rfl

theorem recoveredId_compositeId (chat_id x : String) :
    recoveredId chat_id (compositeId chat_id x) = x := by
  have hlist : (compositeId chat_id x).toList = (chat_id ++ "-").toList ++ x.toList := by
    rw [compositeId, String.toList_append]
  unfold recoveredId
  rw [hlist, if_pos (List.prefix_append _ _), List.drop_left, String.ofList_toList]

/-- The rows of the chat are those under its composite ids. -/
def OwnRows (chat_id : String) (table : MessageTable) : Prop :=
  ∀ id row, table.get? id = some row → (row.chat_id = chat_id ↔ ∃ x, id = compositeId chat_id x)

/-- The rows of the chat. -/
theorem get?_ownRows (chat_id : String) (table : MessageTable) (id : String) :
    (table.filter fun _ row => row.chat_id = chat_id).get? id =
      (table.get? id).filter fun row => row.chat_id = chat_id :=
  Dict.get?_filter (fun _ row => decide (row.chat_id = chat_id)) table id

/-- **The messages of the rows**, before they have child lists. -/
theorem get?_messagesOfRows (hown : OwnRows chat_id table) (x : String) :
    (messagesOfRows chat_id (table.filter fun _ row => row.chat_id = chat_id)).get? x =
      (table.get? (compositeId chat_id x)).map (messageOfRow x) := by
  have hrow : ∀ {id row}, (table.filter fun _ row => row.chat_id = chat_id).get? id = some row ↔
      table.get? id = some row ∧ ∃ x, id = compositeId chat_id x := by
    intro id row
    rw [get?_ownRows, Option.filter_eq_some_iff]
    simp only [decide_eq_true_eq]
    exact and_congr_right fun hid => hown id row hid
  have hmem : ∀ {e}, e ∈ (table.filter fun _ row => row.chat_id = chat_id).entries →
      ∃ x, e.1 = compositeId chat_id x := fun he => (hrow.mp (Dict.mem_entries_iff.mp he)).2
  generalize hrows : (table.filter fun _ row => row.chat_id = chat_id) = rows at hrow hmem
  have hnodup : (Assoc.keys (rows.entries.map fun e =>
      (recoveredId chat_id e.1, messageOfRow (recoveredId chat_id e.1) e.2))).Nodup := by
    have hkeys : Assoc.keys (rows.entries.map fun e =>
        (recoveredId chat_id e.1, messageOfRow (recoveredId chat_id e.1) e.2)) =
          (Assoc.keys rows.entries).map (recoveredId chat_id) := by
      rw [Assoc.keys, Assoc.keys, List.map_map, List.map_map]
      rfl
    rw [hkeys]
    refine rows.nodup.map_on fun a ha b hb hab => ?_
    obtain ⟨e, he, rfl⟩ := List.mem_map.mp ha
    obtain ⟨e', he', rfl⟩ := List.mem_map.mp hb
    obtain ⟨y, hy⟩ := hmem he
    obtain ⟨y', hy'⟩ := hmem he'
    rw [hy, hy', recoveredId_compositeId, recoveredId_compositeId] at hab
    rw [hy, hy', hab]
  show Assoc.get? (Assoc.update [] _) x = _
  rw [Assoc.get?_update hnodup, Assoc.get?_nil, Option.or_none]
  refine Option.ext fun m => ?_
  rw [Option.map_eq_some_iff]
  constructor
  · intro hm
    obtain ⟨e, he, heq⟩ := List.mem_map.mp (Assoc.mem_of_get? hm)
    obtain ⟨y, hy⟩ := hmem he
    rw [hy, recoveredId_compositeId] at heq
    cases heq
    refine ⟨e.2, ?_, rfl⟩
    rw [← hy]
    exact (hrow.mp (Dict.mem_entries_iff.mp he)).1
  · rintro ⟨row, hget, rfl⟩
    have he : (compositeId chat_id x, row) ∈ rows.entries :=
      Dict.mem_entries_iff.mpr (hrow.mpr ⟨hget, x, rfl⟩)
    refine Assoc.get?_of_mem hnodup (List.mem_map.mpr ⟨_, he, ?_⟩)
    rw [recoveredId_compositeId]

/-- The maps have the same ids, and the messages the same fields but for the child lists. -/
def SameFields (map map' : Dict String Message) : Prop :=
  ∀ x k, k ≠ "childrenIds" →
    (map'.get? x).map (fun m => Assoc.get? m k) = (map.get? x).map fun m => Assoc.get? m k

theorem get?_addChild (m : Message) (child_id : String) (hk : k ≠ "childrenIds") :
    Assoc.get? (m.addChild child_id) k = Assoc.get? m k := by
  unfold Message.addChild Message.setField
  dsimp only
  split
  · exact Assoc.get?_set_ne m hk _
  · split
    · rfl
    · exact Assoc.get?_set_ne m hk _

/-- Adding a child to a parent changes no other field. -/
theorem addToParent_sameFields {e : String × Message} (h : addToParent map e = .ok map') :
    SameFields map map' := by
  unfold addToParent at h
  dsimp only at h
  split at h
  · obtain ⟨here, -, h⟩ := bind_eq_ok.mp h
    split at h
    · cases h
      intro x k hk
      rw [Dict.get?_modify, Option.map_map]
      refine congrArg (fun f => Option.map f (map.get? x)) (funext fun m => ?_)
      show Assoc.get? (if _ then Message.addChild e.1 m else m) k = _
      split
      · exact get?_addChild m e.1 hk
      · rfl
    · cases h
      exact fun x k _ => rfl
  · cases h
    exact fun x k _ => rfl

theorem foldlM_addToParent_sameFields {entries : List (String × Message)}
    (h : entries.foldlM addToParent map = .ok map') : SameFields map map' := by
  induction entries generalizing map with
  | nil =>
    cases h
    exact fun x k _ => rfl
  | cons e entries ih =>
    rw [List.foldlM_cons] at h
    obtain ⟨next, hnext, h⟩ := bind_eq_ok.mp h
    exact fun x k hk => (ih h x k hk).trans (addToParent_sameFields hnext x k hk)

/-- Where every parent id is a string or none, no step raises. -/
theorem foldlM_addToParent_ok {entries : List (String × Message)}
    (h : ∀ e ∈ entries, e.2.field "parentId" = .null ∨ ∃ p, e.2.field "parentId" = .str p)
    (map : Dict String Message) : ∃ map', entries.foldlM addToParent map = .ok map' := by
  induction entries generalizing map with
  | nil => exact ⟨map, rfl⟩
  | cons e entries ih =>
    have hstep : ∃ next, addToParent map e = .ok next := by
      unfold addToParent
      rcases h e List.mem_cons_self with hnull | ⟨p, hp⟩
      · rw [hnull]
        exact ⟨map, rfl⟩
      · rw [hp]
        dsimp only
        split
        · by_cases hmem : p ∈ map
          · refine ⟨map.modify p (Message.addChild e.1), ?_⟩
            simp [inMessages, hmem, bind, Except.bind, pure, Except.pure]
          · refine ⟨map, ?_⟩
            simp [inMessages, hmem, bind, Except.bind, pure, Except.pure]
        · exact ⟨map, rfl⟩
    obtain ⟨next, hnext⟩ := hstep
    obtain ⟨map', hmap'⟩ := ih (fun e' he' => h e' (List.mem_cons_of_mem e he')) next
    refine ⟨map', ?_⟩
    rw [List.foldlM_cons, hnext]
    exact hmap'

/-- The map, where the chat without rows has the empty one. -/
def mapOrEmpty (rows : Option (Dict String Message)) : Dict String Message := rows.getD .empty

/-- **What the map holds**: the messages of the rows, but for the child lists. -/
theorem get_messages_map_fields (hown : OwnRows chat_id table)
    {rows : Option (Dict String Message)}
    (h : get_messages_map_by_chat_id table chat_id = .ok rows) (x : String)
    (hk : k ≠ "childrenIds") :
    ((mapOrEmpty rows).get? x).map (fun m => Assoc.get? m k) =
      (table.get? (compositeId chat_id x)).map fun row => Assoc.get? (messageOfRow x row) k := by
  unfold get_messages_map_by_chat_id at h
  dsimp only at h
  have hfrom : (table.get? (compositeId chat_id x)).map (fun row =>
      Assoc.get? (messageOfRow x row) k) =
        ((messagesOfRows chat_id (table.filter fun _ row => row.chat_id = chat_id)).get? x).map
          fun m => Assoc.get? m k := by
    rw [get?_messagesOfRows hown, Option.map_map]
    rfl
  rw [hfrom]
  split at h
  · rename_i hempty
    cases h
    have hrows : (messagesOfRows chat_id (table.filter fun _ row => row.chat_id = chat_id)).get? x =
        none := by
      show Assoc.get? (Assoc.update [] _) x = none
      rw [hempty]
      rfl
    rw [hrows]
    rfl
  · obtain ⟨map, hmap, h⟩ := bind_eq_ok.mp h
    cases h
    rw [← foldlM_addToParent_sameFields hmap x k hk]
    show ((map.mapValues fun _ m => m.setdefault "childrenIds" (.list [])).get? x).map
      (fun m => Assoc.get? m k) = _
    rw [Dict.get?_mapValues, Option.map_map]
    refine congrArg (fun f => Option.map f (map.get? x)) (funext fun m => ?_)
    show Assoc.get? (m.setdefault "childrenIds" (.list [])) k = _
    rw [get?_setdefault, if_neg hk]

/-- It is made without raising where every parent id is a string or none. -/
theorem get_messages_map_ok (hown : OwnRows chat_id table)
    (h : ∀ x row, table.get? (compositeId chat_id x) = some row →
      row.parent_id = .null ∨ ∃ p, row.parent_id = .str p) :
    ∃ rows, get_messages_map_by_chat_id table chat_id = .ok rows := by
  unfold get_messages_map_by_chat_id
  dsimp only
  split
  · exact ⟨none, rfl⟩
  · obtain ⟨map, hmap⟩ := @foldlM_addToParent_ok ((messagesOfRows chat_id
      (table.filter fun _ row => row.chat_id = chat_id)).entries) (fun e he => by
        have hget := Dict.mem_entries_iff.mp he
        rw [get?_messagesOfRows hown] at hget
        obtain ⟨row, hrow, hm⟩ := Option.map_eq_some_iff.mp hget
        rw [← hm, field_messageOfRow _ _ (by decide) (by decide) (by decide)]
        exact h e.1 row hrow) (messagesOfRows chat_id
          (table.filter fun _ row => row.chat_id = chat_id))
    exact ⟨some (map.mapValues fun _ m => m.setdefault "childrenIds" (.list [])), by
      rw [hmap]
      rfl⟩

end OpenLaunch.Chats
