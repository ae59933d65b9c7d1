import OpenLaunch.Chats.HistoryTreeRuns

/-! # Concurrent updates of a chat

A call that changes a message reads the whole chat, changes its copy, and writes the whole copy
back. The read and the write are two steps of the database; between them other calls may read and
write. What a call wrote is lost when another call that had read before it writes after it. -/

namespace OpenLaunch.Chats

open Python Transition

/-! ## The calls -/

/-- `message[key] = message.get(key, []) + items`, of the message `message_id`; `err` is what adding
to a value that is no list raises. -/
def addToField (key : String) (err : PyErr) (history : History) (message_id : String)
    (items : List Json) : Except PyErr History :=
  match history.messages.get? message_id with
  | none => .ok history
  | some m =>
    match (Assoc.get? m key).getD (.list []) with
    | .list xs => .ok ⟨history.messages.set message_id (m.setField key (.list (xs ++ items))),
        history.currentId⟩
    | _ => .error err

/-- What `add_message_status_to_chat_by_id_and_message_id` makes of the history. -/
def add_message_status (history : History) (message_id : String) (status : Json) :
    Except PyErr History :=
  addToField "statusHistory" .attributeError history message_id [status]

/-- What `add_message_files_by_id_and_message_id` makes of the history. -/
def add_message_files (history : History) (message_id : String) (files : List Json) :
    Except PyErr History :=
  addToField "files" .typeError history message_id files

/-- A call on the chat. -/
inductive Call
  | upsert (message_id : String) (message : Dict String Json) (now : ℤ)
  | addStatus (message_id : String) (status : Json)
  | addFiles (message_id : String) (files : List Json)
  deriving DecidableEq

/-- What the call makes of the history it has read. -/
def Call.run (history : History) : Call → Except PyErr History
  | .upsert message_id message now => upsertHistory history message_id message now
  | .addStatus message_id status => add_message_status history message_id status
  | .addFiles message_id files => add_message_files history message_id files

/-! ## The steps of the database -/

/-- The chat, the calls that have read it and not yet written it, each with its copy, and the calls
that have written it, in order. -/
structure ChatState where
  stored : History
  pending : Dict ℕ (Call × History)
  written : List Call

/-- A step of the database, on behalf of the call that the number names. -/
inductive Access
  | read (task : ℕ) (call : Call)
  | write (task : ℕ)

/-- One step. A call that cannot read the chat returns; one that raises does not write. -/
def accessStep (greater : Json → Json → Except PyErr Bool) (s : ChatState) :
    Access → Option ChatState
  | .read task call =>
    if task ∈ s.pending then none
    else
      match readHistory greater s.stored with
      | .error _ => some s
      | .ok history => some ⟨history, s.pending.set task (call, history), s.written⟩
  | .write task =>
    match s.pending.get? task with
    | none => none
    | some (call, copy) =>
      match call.run copy with
      | .error _ => some ⟨s.stored, s.pending.erase task, s.written⟩
      | .ok history => some ⟨history.sanitize, s.pending.erase task, s.written ++ [call]⟩

/-- Nothing but the current message has changed since the call that writes read the chat. -/
def WritesWhatItRead (s : ChatState) : Access → Prop
  | .read _ _ => True
  | .write task => ∀ call copy, s.pending.get? task = some (call, copy) →
      copy.messages = s.stored.messages

instance (s : ChatState) : (access : Access) → Decidable (WritesWhatItRead s access)
  | .read _ _ => isTrue trivial
  | .write task => decidable_of_iff (∀ p ∈ s.pending.get? task, p.2.messages = s.stored.messages)
      ⟨fun h call copy hp => h (call, copy) hp, fun h p hp => h p.1 p.2 hp⟩

/-! ## What the calls ask for -/

/-- A creation puts a default in the place of this value. -/
def isDefaulted (k : String) (v : Json) : Bool :=
  (decide (k ∈ ["id", "role", "timestamp"]) && !v.truthy) || (k = "parentId" && v = .null) ||
    (k = "childrenIds" && !v.isList)

/-- The call creates or updates the message. -/
def Call.Upserts (message_id : String) : Call → Prop
  | .upsert message_id' _ _ => message_id' = message_id
  | _ => False

instance (x : String) : (call : Call) → Decidable (call.Upserts x)
  | .upsert y _ _ => inferInstanceAs (Decidable (y = x))
  | .addStatus _ _ => isFalse id
  | .addFiles _ _ => isFalse id

/-- The call gives the field of the message a value. -/
def Call.Gives (message_id k : String) : Call → Prop
  | .upsert message_id' message _ => message_id' = message_id ∧ (message.get? k).isSome
  | _ => False

/-- The items the call adds to the field of the message, as they are stored. -/
def Call.items (message_id k : String) : Call → List Json
  | .upsert _ _ _ => []
  | .addStatus message_id' status =>
    if message_id' = message_id ∧ k = "statusHistory" then [sanitize_data_for_db status] else []
  | .addFiles message_id' files =>
    if message_id' = message_id ∧ k = "files" then files.map sanitize_data_for_db else []

/-- The value `w` is `v`, or the list `v` with the items after it. -/
def Extends (v : Json) (items : List Json) (w : Json) : Prop :=
  (items = [] ∧ w = v) ∨ ∃ xs, v = .list xs ∧ w = .list (xs ++ items)

/-- The message was there at first or is upserted by one of the calls. -/
def Existed (initial : Dict String Message) (calls : List Call) (message_id : String) : Prop :=
  message_id ∈ initial ∨ ∃ call ∈ calls, call.Upserts message_id

/-- **No update is lost**, of those that the calls made to the messages of the chat:

* every field a call gave has the value it gave, with the items added later, unless a later call
  gave the field or the call created the message and a default took the place of the value;
* every item a call added to a message that existed is in its list, unless a later call gave the
  list. -/
structure NothingLost (initial : Dict String Message) (written : List Call)
    (messages : Dict String Message) : Prop where
  exist : ∀ message_id, Existed initial written message_id → message_id ∈ messages
  fields : ∀ pre message_id message now post,
    written = pre ++ .upsert message_id message now :: post →
    ∀ k v, message.get? k = some v → (isDefaulted k v → Existed initial pre message_id) →
      (∀ call ∈ post, ¬ call.Gives message_id k) →
      ∃ m w, messages.get? message_id = some m ∧ Assoc.get? m k = some w ∧
        Extends (sanitize_data_for_db v) (post.flatMap (Call.items message_id k)) w
  items : ∀ pre call post, written = pre ++ call :: post →
    ∀ message_id k, ∀ item ∈ call.items message_id k, Existed initial pre message_id →
      (∀ call ∈ post, ¬ call.Gives message_id k) →
      ∃ m xs, messages.get? message_id = some m ∧ Assoc.get? m k = some (.list xs) ∧ item ∈ xs

variable {history history' : History} {call : Call} {x k : String} {m : Message} {v w : Json}

/-! ## Values with items after them -/

theorem Extends.refl (v : Json) : Extends v [] v := .inl ⟨rfl, rfl⟩

theorem Extends.trans {u : Json} {xs ys : List Json} (h : Extends v xs w) (h' : Extends w ys u) :
    Extends v (xs ++ ys) u := by
  rcases h with ⟨rfl, rfl⟩ | ⟨zs, rfl, rfl⟩
  · exact h'
  · rcases h' with ⟨rfl, rfl⟩ | ⟨zs', hzs, rfl⟩
    · exact .inr ⟨zs, rfl, by rw [List.append_nil]⟩
    · cases hzs
      exact .inr ⟨zs, rfl, by rw [List.append_assoc]⟩

theorem Extends.sanitize {items : List Json} (h : Extends v items w) :
    Extends (sanitize_data_for_db v) (items.map sanitize_data_for_db) (sanitize_data_for_db w) := by
  rcases h with ⟨rfl, rfl⟩ | ⟨xs, rfl, rfl⟩
  · exact .refl _
  · refine .inr ⟨xs.map sanitize_data_for_db, ?_, ?_⟩
    · rw [sanitize_data_for_db, sanitizeItems_eq]
    · rw [sanitize_data_for_db, sanitizeItems_eq, List.map_append]

/-- The items of a call are stored as they are. -/
theorem sanitize_item {item : Json} (h : item ∈ call.items x k) :
    sanitize_data_for_db item = item := by
  cases call with
  | upsert => cases h
  | addStatus y status =>
    rw [Call.items] at h
    split at h
    · obtain rfl := List.mem_singleton.mp h
      exact sanitize_sanitize status
    · cases h
  | addFiles y files =>
    rw [Call.items] at h
    split at h
    · obtain ⟨file, -, rfl⟩ := List.mem_map.mp h
      exact sanitize_sanitize file
    · cases h

/-- So are the values that the calls gave. -/
theorem Extends.sanitized {calls : List Call}
    (h : Extends (sanitize_data_for_db v) (calls.flatMap (Call.items x k)) w) :
    sanitize_data_for_db w = w := by
  have hitems : (calls.flatMap (Call.items x k)).map sanitize_data_for_db =
      calls.flatMap (Call.items x k) := by
    conv_rhs => rw [← List.map_id (calls.flatMap (Call.items x k))]
    refine List.map_congr_left fun item hitem => ?_
    obtain ⟨call, -, hitem⟩ := List.mem_flatMap.mp hitem
    exact sanitize_item hitem
  rcases h with ⟨-, rfl⟩ | ⟨xs, hxs, rfl⟩
  · exact sanitize_sanitize v
  · have hlist := congrArg sanitize_data_for_db hxs
    rw [sanitize_sanitize, hxs, sanitize_data_for_db, sanitizeItems_eq, Json.list.injEq] at hlist
    rw [sanitize_data_for_db, sanitizeItems_eq, List.map_append, hitems, ← hlist]

/-! ## What one call does -/

/-- A message of the history that is stored. -/
theorem get?_sanitize (history : History) (x : String) :
    history.sanitize.messages.get? x = (history.messages.get? x).map sanitizeEntries :=
  Dict.get?_mapValues _ _ x

/-- Adding to a field: nothing happens, or the field of an existing message is a longer list. -/
theorem addToField_cases {key : String} {err : PyErr} {items : List Json}
    (h : addToField key err history x items = .ok history') :
    (history.messages.get? x = none ∧ history' = history) ∨
      ∃ m xs, history.messages.get? x = some m ∧
        (Assoc.get? m key).getD (.list []) = .list xs ∧
        history'.messages = history.messages.set x (m.setField key (.list (xs ++ items))) := by
  unfold addToField at h
  cases hm : history.messages.get? x with
  | none =>
    rw [hm] at h
    cases h
    exact .inl ⟨rfl, rfl⟩
  | some m =>
    rw [hm] at h
    dsimp only at h
    split at h
    · rename_i xs hxs
      cases h
      exact .inr ⟨m, xs, rfl, hxs, rfl⟩
    · cases h

/-- **Adding to a field keeps the entries**, with the items added to one of them. -/
theorem addToField_frame {key y : String} {err : PyErr} {items : List Json}
    (h : addToField key err history y items = .ok history')
    (hm : history.messages.get? x = some m) (hw : Assoc.get? m k = some w) :
    ∃ m' w', history'.messages.get? x = some m' ∧ Assoc.get? m' k = some w' ∧
      Extends w (if y = x ∧ k = key then items else []) w' := by
  rcases addToField_cases h with ⟨hnone, rfl⟩ | ⟨n, xs, hn, hxs, hset⟩
  · refine ⟨m, w, hm, hw, ?_⟩
    rw [if_neg]
    · exact .refl w
    · rintro ⟨rfl, -⟩
      rw [hm] at hnone
      cases hnone
  · rw [hset, Dict.get?_set]
    by_cases hx : x = y
    · subst hx
      rw [hm] at hn
      cases hn
      rw [if_pos rfl]
      refine ⟨_, if k = key then .list (xs ++ items) else w, rfl, ?_, ?_⟩
      · rw [Message.setField, Assoc.get?_set]
        split
        · rfl
        · exact hw
      · by_cases hk : k = key
        · subst hk
          rw [hw] at hxs
          rw [if_pos rfl, if_pos ⟨rfl, rfl⟩]
          exact .inr ⟨xs, hxs, rfl⟩
        · rw [if_neg hk, if_neg fun h => hk h.2]
          exact .refl w
    · rw [if_neg hx, if_neg fun h => hx h.1.symm]
      exact ⟨m, w, hm, hw, .refl w⟩

/-- Adding to a field of an existing message makes the items be there. -/
theorem addToField_adds {key : String} {err : PyErr} {items : List Json}
    (h : addToField key err history x items = .ok history') (hx : x ∈ history.messages) :
    ∃ m' xs, history'.messages.get? x = some m' ∧ Assoc.get? m' key = some (.list xs) ∧
      ∀ item ∈ items, item ∈ xs := by
  rcases addToField_cases h with ⟨hnone, rfl⟩ | ⟨n, xs, hn, hxs, hset⟩
  · exact absurd hx (Dict.get?_eq_none_iff.mp hnone)
  · refine ⟨_, xs ++ items, by rw [hset, Dict.get?_set_self], ?_, ?_⟩
    · exact Assoc.get?_set_self _ _ _
    · exact fun item hitem => List.mem_append_right xs hitem

/-- An upsert stores one message. -/
theorem upsertHistory_ok {message : Dict String Json} {now : ℤ}
    (h : upsertHistory history x message now = .ok history') :
    ∃ stored, upsertedMessage history.messages x message now = .ok stored ∧
      history'.messages = history.messages.set x stored := by
  obtain ⟨stored, hstored, h⟩ := bind_eq_ok.mp h
  cases h
  exact ⟨stored, hstored, rfl⟩

/-- A field the message gives, once its text is sanitized. -/
theorem get?_sanitizeContent_sanitize (message : Dict String Json) (k : String) :
    ((sanitizeContent message).get? k).map sanitize_data_for_db =
      (message.get? k).map sanitize_data_for_db := by
  by_cases hk : k = "content"
  · subst hk
    unfold sanitizeContent
    split
    · rename_i s hs
      rw [Dict.get?_set_self, hs]
      exact congrArg some (sanitize_sanitize (.str s))
    · rfl
  · rw [get?_sanitizeContent message hk]

/-- What a creation does not replace by a default, it stores. -/
theorem get?_newFields {message : Message} (hv : Assoc.get? message k = some v)
    (hkept : isDefaulted k v = false) (x : String) (parent_id now output_role : Json)
    (parent : Option Message) :
    Assoc.get? (Assoc.update message
      (newFields x message parent_id (newRole message output_role parent) now)) k = some v := by
  have hnodup : (Assoc.keys (newFields x message parent_id (newRole message output_role parent)
      now)).Nodup :=
    (by decide : ["id", "parentId", "childrenIds", "role", "timestamp"].Nodup)
  have hfield : message.field k = v := by
    rw [Message.field, hv]
    rfl
  have htruthy : k ∈ ["id", "role", "timestamp"] → v.truthy = true := by
    intro hk
    simp only [isDefaulted, hk, Bool.or_eq_false_iff] at hkept
    simpa using hkept.1.1
  rw [Assoc.get?_update hnodup, newFields]
  by_cases hk : k ∈ ["id", "parentId", "childrenIds", "role", "timestamp"]
  · simp only [List.mem_cons, List.not_mem_nil, or_false] at hk
    rcases hk with rfl | rfl | rfl | rfl | rfl
    · simp [Assoc.get?, hfield, Json.or, htruthy]
    · have hne : v ≠ .null := by
        rintro rfl
        simp [isDefaulted] at hkept
      simp [Assoc.get?, hfield, hne]
    · cases v with
      | list xs => simp [Assoc.get?, hfield, Json.elems]
      | null | bool | int | float | str | dict => simp [isDefaulted, Json.isList] at hkept
    · simp [Assoc.get?, newRole, hfield, Json.or, htruthy]
    · simp [Assoc.get?, hfield, Json.or, htruthy]
  · have hnone : Assoc.get? (newFields x message parent_id (newRole message output_role parent)
        now) k = none := by
      rw [Assoc.get?_eq_none_iff]
      exact hk
    rw [newFields] at hnone
    rw [hnone, Option.none_or, hv]

/-- **A call keeps what it does not give**, with the items it adds. -/
theorem Call.frame (h : call.run history = .ok history') (hm : history.messages.get? x = some m)
    (hw : Assoc.get? m k = some w) (hnot : ¬ call.Gives x k) :
    ∃ m' w', history'.sanitize.messages.get? x = some m' ∧ Assoc.get? m' k = some w' ∧
      Extends (sanitize_data_for_db w) (call.items x k) w' := by
  have hstore : ∀ {m' w' items}, history'.messages.get? x = some m' → Assoc.get? m' k = some w' →
      Extends w items w' → items.map sanitize_data_for_db = call.items x k →
      ∃ m' w', history'.sanitize.messages.get? x = some m' ∧ Assoc.get? m' k = some w' ∧
        Extends (sanitize_data_for_db w) (call.items x k) w' := by
    intro m' w' items hm' hw' hext hitems
    refine ⟨sanitizeEntries m', sanitize_data_for_db w', ?_, ?_, ?_⟩
    · rw [get?_sanitize, hm', Option.map_some]
    · rw [get?_sanitizeEntries, hw', Option.map_some]
    · rw [← hitems]
      exact hext.sanitize
  cases call with
  | upsert y message now =>
    obtain ⟨stored, hstored, hset⟩ := upsertHistory_ok h
    by_cases hx : x = y
    · subst hx
      have hget : history'.messages.get? x = some stored := by
        rw [hset, Dict.get?_set_self]
      rw [upsertedMessage, hm] at hstored
      cases hstored
      refine hstore hget ?_ (.refl w) rfl
      have hnone : (sanitizeContent message).get? k = none := by
        have hiff := congrArg Option.isSome (get?_sanitizeContent_sanitize message k)
        rw [Option.isSome_map, Option.isSome_map] at hiff
        rw [← Option.not_isSome_iff_eq_none, hiff]
        exact fun hk => hnot ⟨rfl, hk⟩
      rw [Assoc.get?_update (sanitizeContent message).nodup]
      show ((sanitizeContent message).get? k).or _ = _
      rw [hnone, Option.none_or, hw]
    · refine hstore ?_ hw (.refl w) rfl
      rw [hset, Dict.get?_set_ne _ hx, hm]
  | addStatus y status =>
    obtain ⟨m', w', hm', hw', hext⟩ := addToField_frame h hm hw
    refine hstore hm' hw' hext ?_
    rw [Call.items]
    split <;> rfl
  | addFiles y files =>
    obtain ⟨m', w', hm', hw', hext⟩ := addToField_frame h hm hw
    refine hstore hm' hw' hext ?_
    rw [Call.items]
    split <;> rfl

/-- A call keeps the messages. -/
theorem Call.mem (h : call.run history = .ok history') (hx : x ∈ history.messages) :
    x ∈ history'.sanitize.messages := by
  have hmem : x ∈ history'.messages := by
    cases call with
    | upsert y message now =>
      obtain ⟨stored, -, hset⟩ := upsertHistory_ok h
      rw [hset]
      exact Dict.mem_set.mpr (.inr hx)
    | addStatus y status =>
      rcases addToField_cases h with ⟨-, rfl⟩ | ⟨n, xs, -, -, hset⟩
      · exact hx
      · rw [hset]
        exact Dict.mem_set.mpr (.inr hx)
    | addFiles y files =>
      rcases addToField_cases h with ⟨-, rfl⟩ | ⟨n, xs, -, -, hset⟩
      · exact hx
      · rw [hset]
        exact Dict.mem_set.mpr (.inr hx)
  rw [Dict.mem_iff_isSome, get?_sanitize, Option.isSome_map]
  exact Dict.mem_iff_isSome.mp hmem

/-- An upsert makes the message be there. -/
theorem Call.mem_of_upserts (h : call.run history = .ok history') (hx : call.Upserts x) :
    x ∈ history'.sanitize.messages := by
  cases call with
  | upsert y message now =>
    obtain rfl : y = x := hx
    obtain ⟨stored, -, hset⟩ := upsertHistory_ok h
    rw [Dict.mem_iff_isSome, get?_sanitize, hset, Dict.get?_set_self]
    rfl
  | addStatus => exact hx.elim
  | addFiles => exact hx.elim

/-- **An upsert stores the fields it gives**, apart from those that a creation defaults. -/
theorem upsert_stores {message : Dict String Json} {now : ℤ}
    (h : upsertHistory history x message now = .ok history') (hv : message.get? k = some v)
    (hkept : isDefaulted k v → x ∈ history.messages) :
    ∃ m, history'.sanitize.messages.get? x = some m ∧
      Assoc.get? m k = some (sanitize_data_for_db v) := by
  obtain ⟨stored, hstored, hset⟩ := upsertHistory_ok h
  refine ⟨sanitizeEntries stored, by rw [get?_sanitize, hset, Dict.get?_set_self]; rfl, ?_⟩
  rw [get?_sanitizeEntries]
  -- what the sanitized message gives
  have hclean := get?_sanitizeContent_sanitize message k
  rw [hv] at hclean
  obtain ⟨v', hv', hclean⟩ := Option.map_eq_some_iff.mp hclean
  rw [← hclean]
  refine congrArg (Option.map sanitize_data_for_db) (?_ : Assoc.get? stored k = some v')
  unfold upsertedMessage at hstored
  cases hm : history.messages.get? x with
  | some old =>
    rw [hm] at hstored
    cases hstored
    rw [Assoc.get?_update (sanitizeContent message).nodup]
    show ((sanitizeContent message).get? k).or _ = _
    rw [hv', Option.some_or]
  | none =>
    rw [hm] at hstored
    obtain ⟨parent_id, -, hstored⟩ := bind_eq_ok.mp hstored
    obtain ⟨parent, -, hstored⟩ := bind_eq_ok.mp hstored
    obtain ⟨output_role, -, hstored⟩ := bind_eq_ok.mp hstored
    cases hstored
    refine get?_newFields hv' ?_ x parent_id _ output_role parent
    have hnew : ¬ isDefaulted k v := fun hd => Dict.get?_eq_none_iff.mp hm (hkept hd)
    by_cases hk : k = "content"
    · subst hk
      rfl
    · rw [get?_sanitizeContent message hk, hv] at hv'
      cases hv'
      simpa using hnew

/-- **What a call adds to an existing message is there.** -/
theorem Call.adds (h : call.run history = .ok history') (hx : x ∈ history.messages) {item : Json}
    (hitem : item ∈ call.items x k) :
    ∃ m xs, history'.sanitize.messages.get? x = some m ∧ Assoc.get? m k = some (.list xs) ∧
      item ∈ xs := by
  have hstore : ∀ {m' xs} {items : List Json}, history'.messages.get? x = some m' →
      Assoc.get? m' k = some (.list xs) → (∀ i ∈ items, i ∈ xs) →
      item ∈ items.map sanitize_data_for_db →
      ∃ m xs, history'.sanitize.messages.get? x = some m ∧ Assoc.get? m k = some (.list xs) ∧
        item ∈ xs := by
    intro m' xs items hm' hxs hall hin
    refine ⟨sanitizeEntries m', xs.map sanitize_data_for_db, ?_, ?_, ?_⟩
    · rw [get?_sanitize, hm', Option.map_some]
    · rw [get?_sanitizeEntries, hxs, Option.map_some, sanitize_data_for_db, sanitizeItems_eq]
    · obtain ⟨i, hi, rfl⟩ := List.mem_map.mp hin
      exact List.mem_map_of_mem (hall i hi)
  cases call with
  | upsert => cases hitem
  | addStatus y status =>
    rw [Call.items] at hitem
    split at hitem
    · rename_i hyk
      obtain ⟨rfl, rfl⟩ := hyk
      obtain ⟨m', xs, hm', hxs, hall⟩ := addToField_adds h hx
      exact hstore hm' hxs hall hitem
    · cases hitem
  | addFiles y files =>
    rw [Call.items] at hitem
    split at hitem
    · rename_i hyk
      obtain ⟨rfl, rfl⟩ := hyk
      obtain ⟨m', xs, hm', hxs, hall⟩ := addToField_adds h hx
      exact hstore hm' hxs hall hitem
    · cases hitem

/-! ## Runs -/

variable {initial messages messages' : Dict String Message} {written : List Call}

/-- A place in a list that has become longer by one. -/
theorem append_singleton_cases {α : Type} {l pre post : List α} {a c : α}
    (h : l ++ [c] = pre ++ a :: post) :
    (post = [] ∧ pre = l ∧ a = c) ∨ ∃ post', post = post' ++ [c] ∧ l = pre ++ a :: post' := by
  rcases List.eq_nil_or_concat post with rfl | ⟨post', c', rfl⟩
  · obtain ⟨rfl, hc⟩ := List.append_inj' h rfl
    cases hc
    exact .inl ⟨rfl, rfl, rfl⟩
  · rw [List.concat_eq_append, ← List.cons_append, ← List.append_assoc] at h
    obtain ⟨rfl, hc⟩ := List.append_inj' h rfl
    cases hc
    exact .inr ⟨post', List.concat_eq_append, rfl⟩

/-- Reading the chat loses nothing. -/
theorem NothingLost.sanitized (h : NothingLost initial written messages)
    (hget : ∀ x, messages'.get? x = (messages.get? x).map sanitizeEntries) :
    NothingLost initial written messages' where
  exist x hx := by
    rw [Dict.mem_iff_isSome, hget, Option.isSome_map]
    exact Dict.mem_iff_isSome.mp (h.exist x hx)
  fields pre x message now post hwritten k v hv hkept hpost := by
    obtain ⟨m, w, hm, hw, hext⟩ := h.fields pre x message now post hwritten k v hv hkept hpost
    refine ⟨sanitizeEntries m, w, by rw [hget, hm, Option.map_some], ?_, hext⟩
    rw [get?_sanitizeEntries, hw, Option.map_some, hext.sanitized]
  items pre call post hwritten x k item hitem hexisted hpost := by
    obtain ⟨m, xs, hm, hxs, hin⟩ := h.items pre call post hwritten x k item hitem hexisted hpost
    refine ⟨sanitizeEntries m, xs.map sanitize_data_for_db,
      by rw [hget, hm, Option.map_some], ?_, ?_⟩
    · rw [get?_sanitizeEntries, hxs, Option.map_some, sanitize_data_for_db, sanitizeItems_eq]
    · rw [← sanitize_item hitem]
      exact List.mem_map_of_mem hin

/-- **A call that writes what it read loses nothing.** -/
theorem NothingLost.write (h : NothingLost initial written history.messages)
    (hrun : call.run history = .ok history') :
    NothingLost initial (written ++ [call]) history'.sanitize.messages where
  exist x hx := by
    rcases hx with hx | ⟨c, hc, hups⟩
    · exact Call.mem hrun (h.exist x (.inl hx))
    · rcases List.mem_append.mp hc with hc | hc
      · exact Call.mem hrun (h.exist x (.inr ⟨c, hc, hups⟩))
      · obtain rfl := List.mem_singleton.mp hc
        exact Call.mem_of_upserts hrun hups
  fields pre x message now post hwritten k v hv hkept hpost := by
    rcases append_singleton_cases hwritten with ⟨rfl, rfl, rfl⟩ | ⟨post', rfl, rfl⟩
    · obtain ⟨m, hm, hget⟩ := upsert_stores hrun hv fun hd => h.exist x (hkept hd)
      exact ⟨m, _, hm, hget, .refl _⟩
    · obtain ⟨m, w, hm, hw, hext⟩ := h.fields pre x message now post' rfl k v hv hkept
        fun c hc => hpost c (List.mem_append_left _ hc)
      obtain ⟨m', w', hm', hw', hext'⟩ := Call.frame hrun hm hw
        (hpost call (List.mem_append_right _ (List.mem_singleton_self call)))
      refine ⟨m', w', hm', hw', ?_⟩
      rw [hext.sanitized] at hext'
      rw [List.flatMap_append, List.flatMap_singleton]
      exact hext.trans hext'
  items pre c post hwritten x k item hitem hexisted hpost := by
    rcases append_singleton_cases hwritten with ⟨rfl, rfl, rfl⟩ | ⟨post', rfl, rfl⟩
    · exact Call.adds hrun (h.exist x hexisted) hitem
    · obtain ⟨m, xs, hm, hxs, hin⟩ := h.items pre c post' rfl x k item hitem hexisted
        fun c hc => hpost c (List.mem_append_left _ hc)
      obtain ⟨m', w', hm', hw', hext⟩ := Call.frame hrun hm hxs
        (hpost call (List.mem_append_right _ (List.mem_singleton_self call)))
      have hin' : item ∈ xs.map sanitize_data_for_db := by
        rw [← sanitize_item hitem]
        exact List.mem_map_of_mem hin
      rw [sanitize_data_for_db, sanitizeItems_eq] at hext
      rcases hext with ⟨-, rfl⟩ | ⟨ys, hys, rfl⟩
      · exact ⟨m', _, hm', hw', hin'⟩
      · cases hys
        exact ⟨m', _, hm', hw', List.mem_append_left _ hin'⟩

/-- **One step** that writes what it read loses nothing. -/
theorem nothingLost_accessStep {greater : Json → Json → Except PyErr Bool} {s s' : ChatState}
    {access : Access} (h : NothingLost initial s.written s.stored.messages)
    (hread : WritesWhatItRead s access) (hstep : accessStep greater s access = some s') :
    NothingLost initial s'.written s'.stored.messages := by
  cases access with
  | read task call =>
    rw [accessStep] at hstep
    split at hstep
    · cases hstep
    · cases hhistory : readHistory greater s.stored with
      | error e =>
        rw [hhistory] at hstep
        cases hstep
        exact h
      | ok history =>
        rw [hhistory] at hstep
        cases hstep
        obtain ⟨currentId, -, hhistory⟩ := bind_eq_ok.mp hhistory
        cases hhistory
        exact h.sanitized fun x => get?_sanitize ⟨s.stored.messages, currentId⟩ x
  | write task =>
    rw [accessStep] at hstep
    cases hpending : s.pending.get? task with
    | none =>
      rw [hpending] at hstep
      cases hstep
    | some p =>
      obtain ⟨call, copy⟩ := p
      rw [hpending] at hstep
      dsimp only at hstep
      cases hrun : call.run copy with
      | error e =>
        rw [hrun] at hstep
        cases hstep
        exact h
      | ok history =>
        rw [hrun] at hstep
        cases hstep
        rw [← hread call copy hpending] at h
        exact h.write hrun

/-- **In every interleaving in which nothing changes the messages between the read and the write of
a call**, no update of the calls that have written is lost. -/
theorem nothingLost_of_exec (greater : Json → Json → Except PyErr Bool) {history : History}
    {accesses : List Access} {s : ChatState}
    (hread : StepsMeet (accessStep greater) WritesWhatItRead ⟨history, .empty, []⟩ accesses)
    (hrun : exec (accessStep greater) ⟨history, .empty, []⟩ accesses = some s) :
    NothingLost history.messages s.written s.stored.messages := by
  refine exec_invariant_of_stepsMeet
    (fun s access s' hs hC hstep => nothingLost_accessStep hs hC hstep)
    (P := fun s => NothingLost history.messages s.written s.stored.messages) ?_ hread hrun
  refine ⟨fun x hx => ?_, fun pre x message now post hnil => ?_, fun pre c post hnil => ?_⟩
  · exact hx.resolve_right fun ⟨c, hc, _⟩ => nomatch hc
  · exact absurd (congrArg List.length hnil) (by simp)
  · exact absurd (congrArg List.length hnil) (by simp)

/-- A chat with one question. -/
def askedHistory : History :=
  ⟨.set .empty "u" [("id", .str "u"), ("role", .str "user"), ("parentId", .null)], .str "u"⟩

/-- A message that answers it. -/
def answer : Dict String Json := ⟨[("parentId", .str "u")], (by decide : ["parentId"].Nodup)⟩

/-- An answer is upserted and its status added, one call after the other. -/
def turnByTurn : List Access :=
  [.read 0 (.upsert "a" answer 1), .write 0, .read 1 (.addStatus "a" (.str "done")), .write 1]

theorem turnByTurn_nothingLost : ∃ s,
    exec (accessStep intGreater) ⟨askedHistory, .empty, []⟩ turnByTurn = some s ∧
      NothingLost askedHistory.messages s.written s.stored.messages := by
  obtain ⟨s, hrun⟩ := Option.isSome_iff_exists.mp
    (by decide :
      (exec (accessStep intGreater) ⟨askedHistory, .empty, []⟩ turnByTurn).isSome)
  exact ⟨s, hrun, nothingLost_of_exec intGreater (by decide) hrun⟩

/-- Two models answer side by side: both read the chat before one of them writes it. -/
def sideBySide : List Access :=
  [.read 0 (.upsert "a" answer 1), .read 1 (.upsert "b" answer 1), .write 0, .write 1]

/-- **The first of two answers is lost**, though both calls have written. -/
theorem sideBySide_lost : ∃ s,
    exec (accessStep intGreater) ⟨askedHistory, .empty, []⟩ sideBySide = some s ∧
      s.pending = .empty ∧ s.written = [.upsert "a" answer 1, .upsert "b" answer 1] ∧
        "a" ∉ s.stored.messages := by
  have hlost : (exec (accessStep intGreater) ⟨askedHistory, .empty, []⟩ sideBySide).any
      (fun s => s.pending = .empty ∧
        s.written = [.upsert "a" answer 1, .upsert "b" answer 1] ∧
          "a" ∉ s.stored.messages) = true := by
    decide
  obtain ⟨s, hrun, hs⟩ := (Option.any_eq_true _ _).mp hlost
  exact ⟨s, hrun, of_decide_eq_true hs⟩

end OpenLaunch.Chats
