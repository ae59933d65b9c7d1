import OpenLaunch.Chats.RowMap
import OpenLaunch.Chats.HistoryTreeRuns

/-! # The two stores of a chat

An upsert and a deletion write the history and the rows: the upsert writes the row of its message
before it writes the history, the deletion writes the history and then backfills the rows of the
messages that stay. What is raised while a row is written is logged, so that a row can be left
behind; and a row takes its parent from a key `parent_id` that the history does not know. -/

namespace OpenLaunch.Chats

open Python Transition

/-! ## Steps -/

/-- What the operations are given besides the stores. -/
structure ChatEnv where
  /-- `>`. -/
  greater : Json → Json → Except PyErr Bool
  conv : Conversions
  floats : Floats
  /-- The rows that the database takes. -/
  accepts : Row → Bool
  chat_id : String
  user_id : String

/-- The stored history and the table. -/
structure Stores where
  history : History
  table : MessageTable
  deriving DecidableEq

/-- A call of one of the two writers; a deletion is given the number of iterations of its loop. -/
inductive StoreCall
  | upsert (message_id : String) (message : Dict String Json) (now : ℤ)
  | delete (fuel : ℕ) (message_id : String) (now : ℤ)

/-- The table after a write whose exception is logged. -/
def afterWrite (table : MessageTable) : Except PyErr MessageTable → MessageTable
  | .ok table' => table'
  | .error _ => table

/-- `ChatTable.upsert_message_to_chat_by_id_and_message_id`, once it has read the history. -/
def upsertBoth (env : ChatEnv) (history : History) (table : MessageTable) (message_id : String)
    (message : Dict String Json) (now : ℤ) : Stores :=
  match upsertedMessage history.messages message_id message now with
  | .error _ => ⟨history, table⟩
  | .ok stored =>
    ⟨History.sanitize ⟨history.messages.set message_id stored, .str message_id⟩,
      afterWrite table (upsert_message env.conv env.floats env.accepts table message_id env.chat_id
        env.user_id stored now)⟩

/-- The rows after a deletion: those of the messages that stay are written, those of the deleted
messages are deleted. -/
def rowsAfterDelete (env : ChatEnv) (table : MessageTable) (messages : Dict String Message)
    (deleted_ids : List String) (now : ℤ) : MessageTable :=
  delete_message_ids_by_chat_id
    (backfill_messages_by_chat_id env.conv env.floats env.accepts table env.chat_id env.user_id
      (messages.mapValues fun _ m => .dict m) now) env.chat_id deleted_ids

/-- `ChatTable.delete_message_from_chat_by_id_and_message_id`, once it has read the history. -/
def deleteBoth (env : ChatEnv) (history : History) (table : MessageTable) (now : ℤ) :
    Except PyErr (History × List String) → Stores
  | .error _ => ⟨history, table⟩
  | .ok (_, []) => ⟨history, table⟩
  | .ok (history', message_id :: ids) =>
    ⟨history'.sanitize, rowsAfterDelete env table history'.messages (message_id :: ids) now⟩

/-- One call; `none` if it does not end. -/
def storeStep (env : ChatEnv) (s : Stores) (call : StoreCall) : Option Stores :=
  match readHistory env.greater s.history with
  | .error _ => some s
  | .ok history =>
    match call with
    | .upsert message_id message now =>
      some (upsertBoth env history s.table message_id message now)
    | .delete fuel message_id now =>
      (delete_message_from_history fuel history message_id).map
        (deleteBoth env history s.table now)

/-! ## Agreement -/

/-- The ids of a branch. -/
def branchIds : Option (Except PyErr (List Message)) → Option (Except PyErr (List Json)) :=
  Option.map (Except.map (List.map fun m => m.field "id"))

/-- **The stores agree**: the map made from the rows has the ids of the history, and for each of
them the same parent, role, content and output, so that every branch is the same. -/
def StoresAgree (env : ChatEnv) (s : Stores) : Prop :=
  ∃ rows, get_messages_map_by_chat_id s.table env.chat_id = .ok rows ∧
    (∀ x, x ∈ mapOrEmpty rows ↔ x ∈ s.history.messages) ∧
    (∀ x m m', s.history.messages.get? x = some m → (mapOrEmpty rows).get? x = some m' →
      m'.field "parentId" = m.field "parentId" ∧ m'.field "role" = m.field "role" ∧
        contentOf m' = contentOf m ∧ m'.field "output" = m.field "output") ∧
    ∀ fuel message_id, branchIds (get_message_list fuel (mapOrEmpty rows) message_id) =
      branchIds (get_message_list fuel s.history.messages message_id)

/-- A message without null characters in what the stores share, whose id is its key, and which does
not name its parent under `parent_id`. -/
structure CleanMessage (x : String) (m : Message) : Prop where
  clean : ∀ k ∈ ["id", "role", "parentId", "content", "output"],
    sanitize_data_for_db (m.field k) = m.field k
  id : m.field "id" = .str x
  parent : (m.field "parent_id").truthy = false

/-- The stored messages are clean, their parent ids are text, and the rows of the chat are those
under its composite ids. -/
structure StoredClean (env : ChatEnv) (s : Stores) : Prop where
  own : OwnRows env.chat_id s.table
  clean : ∀ x m, s.history.messages.get? x = some m → CleanMessage x m
  text : ∀ x m, s.history.messages.get? x = some m →
    m.field "parentId" = .null ∨ ∃ p, m.field "parentId" = .str p

/-- The row of the message can be made and is taken. -/
def RowWritable (env : ChatEnv) (table : MessageTable) (x : String) (m : Message) (now : ℤ) : Prop :=
  ∃ row, writtenRow env.conv env.floats env.chat_id env.user_id m now
    (table.get? (compositeId env.chat_id x)) = .ok row ∧ env.accepts row = true

/-- The call reaches both stores: an upserted message is clean and its row is written; a message
that a deletion gives another parent has a role, and its row is written. -/
def WritesBoth (env : ChatEnv) (s : Stores) (call : StoreCall) : Prop :=
  ∀ history, readHistory env.greater s.history = .ok history →
    match call with
    | .upsert x message now =>
      ∀ stored, upsertedMessage history.messages x message now = .ok stored →
        RowWritable env s.table x stored now ∧ CleanMessage x stored
    | .delete fuel message_id now =>
      ∀ history' ids,
        delete_message_from_history fuel history message_id = some (.ok (history', ids)) →
        ∀ x m m', history.messages.get? x = some m → history'.messages.get? x = some m' →
          m'.field "parentId" ≠ m.field "parentId" →
            (m'.field "role").truthy = true ∧ RowWritable env s.table x m' now

/-! ## Branches -/

variable {map messages : Dict String Message}

/-- Two messages that a branch goes through alike. -/
structure SameLink (m m' : Message) : Prop where
  id : m'.field "id" = m.field "id"
  parent : m'.field "parentId" = m.field "parentId"
  nonempty : m ≠ [] ∧ m' ≠ []

/-- The maps have the same ids and links. -/
def SameBranches (messages map : Dict String Message) : Prop :=
  ∀ x, Option.Rel SameLink (messages.get? x) (map.get? x)

/-- Looking up an id raises in neither map, or alike in both. -/
theorem lookup_rel (h : SameBranches messages map) (v : Json) :
    (∃ e, lookup messages v = .error e ∧ lookup map v = .error e) ∨
      ∃ r r', lookup messages v = .ok r ∧ lookup map v = .ok r' ∧ Option.Rel SameLink r r' := by
  unfold lookup
  cases hk : v.key with
  | error e => exact .inl ⟨e, rfl, rfl⟩
  | ok k =>
    right
    cases k with
    | str s => exact ⟨_, _, rfl, rfl, h s⟩
    | none | num | float => exact ⟨none, none, rfl, rfl, .none⟩

theorem lookupParent_rel (h : SameBranches messages map) {m m' : Message} (hm : SameLink m m') :
    (∃ e, lookupParent messages m = .error e ∧ lookupParent map m' = .error e) ∨
      ∃ r r', lookupParent messages m = .ok r ∧ lookupParent map m' = .ok r' ∧
        Option.Rel SameLink r r' := by
  unfold lookupParent
  dsimp only
  rw [hm.parent]
  split
  · exact lookup_rel h _
  · exact .inr ⟨none, none, rfl, rfl, .none⟩

/-- The loop goes through both maps alike. -/
theorem collect_rel (h : SameBranches messages map) (n : ℕ) {o o' : Option Message}
    {visited : List Json.Key} {l l' : List Message} (ho : Option.Rel SameLink o o')
    (hl : l'.map (fun m => m.field "id") = l.map fun m => m.field "id") :
    branchIds (collect map n o' visited l') = branchIds (collect messages n o visited l) := by
  induction n generalizing o o' visited l l' with
  | zero => rfl
  | succ n ih =>
    have hstop : branchIds (some (.ok l')) = branchIds (some (.ok l)) :=
      congrArg (fun ids => some (Except.ok ids)) hl
    cases ho with
    | none => exact hstop
    | some hm =>
      rw [collect, collect, if_neg hm.nonempty.1, if_neg hm.nonempty.2, hm.id]
      split
      · rfl
      · split
        · exact hstop
        · rcases lookupParent_rel h hm with ⟨e, he, he'⟩ | ⟨r, r', hr, hr', hrel⟩
          · rw [he, he']
          · rw [hr, hr']
            refine ih hrel ?_
            rw [List.map_append, List.map_append, hl, List.map_singleton, List.map_singleton, hm.id]

theorem entries_eq_nil_iff {d : Dict String Message} : d.entries = [] ↔ ∀ x, d.get? x = none := by
  constructor
  · intro hd x
    rw [Dict.get?, hd]
    rfl
  · intro hnone
    rw [List.eq_nil_iff_forall_not_mem]
    intro e he
    have hget := Dict.mem_entries_iff.mp he
    rw [hnone] at hget
    cases hget

/-- **Every branch is the same.** -/
theorem branchIds_eq (h : SameBranches messages map) (fuel : ℕ) (message_id : Json) :
    branchIds (get_message_list fuel map message_id) =
      branchIds (get_message_list fuel messages message_id) := by
  have hempty : map.entries = [] ↔ messages.entries = [] := by
    rw [entries_eq_nil_iff, entries_eq_nil_iff]
    refine forall_congr' fun x => ⟨fun hx => ?_, fun hx => ?_⟩
    · have hrel := h x
      rw [hx] at hrel
      cases hm : messages.get? x with
      | none => rfl
      | some m =>
        rw [hm] at hrel
        cases hrel
    · have hrel := h x
      rw [hx] at hrel
      cases hm : map.get? x with
      | none => rfl
      | some m =>
        rw [hm] at hrel
        cases hrel
  have hreverse : ∀ r : Option (Except PyErr (List Message)),
      branchIds (r.map (Except.map List.reverse)) =
        (branchIds r).map (Except.map List.reverse) := by
    intro r
    cases r with
    | none => rfl
    | some r =>
      cases r with
      | error e => rfl
      | ok xs => exact congrArg (fun ids => some (Except.ok ids)) List.map_reverse
  unfold get_message_list
  by_cases hnil : messages.entries = []
  · rw [if_pos hnil, if_pos (hempty.mpr hnil)]
  · rw [if_neg hnil, if_neg fun hmap => hnil (hempty.mp hmap)]
    rcases lookup_rel h message_id with ⟨e, he, he'⟩ | ⟨r, r', hr, hr', hrel⟩
    · rw [he, he']
    · rw [hr, hr']
      cases hrel with
      | none => rfl
      | some hm =>
        dsimp only
        rw [if_neg hm.nonempty.1, if_neg hm.nonempty.2, hreverse, hreverse,
          collect_rel h fuel (.some hm) rfl]

/-! ## The rows of a message -/

variable {env : ChatEnv} {x y : String} {m m' : Message} {row row' : Row} {table : MessageTable}
  {now : ℤ}

/-- The row has what the stores share of the message. -/
structure FieldsAgree (row : Row) (m : Message) : Prop where
  parent : row.parent_id = m.field "parentId"
  role : row.role = m.field "role"
  content : (if row.content = .null then .str "" else row.content) = contentOf m
  output : row.output = m.field "output"

/-- The second message has the keys of the first one. -/
def KeepsKeys (m m' : Message) : Prop := ∀ k, Assoc.get? m' k = none → Assoc.get? m k = none

theorem field_of_none {k : String} (h : Assoc.get? m k = none) : m.field k = .null := by
  rw [Message.field, h]
  rfl

/-- **Updating the row from the message** makes them agree, where the row has agreed with a message
of no other keys. -/
theorem FieldsAgree.update (h : FieldsAgree row m) (hkeys : KeepsKeys m m')
    (hparent : (m'.field "parent_id").truthy = false) (usage : Json) :
    FieldsAgree { row.update m' with usage := usage } m' := by
  have hone : ∀ {k v}, v = m.field k →
      givenOr m' [k] (m'.field k) v = m'.field k := by
    intro k v hv
    unfold givenOr
    split
    · rfl
    · rename_i hnone
      have hget : Assoc.get? m' k = none := by simpa [Assoc.contains] using hnone
      rw [hv, field_of_none (hkeys k hget), field_of_none hget]
  refine ⟨?_, hone h.role, ?_, hone h.output⟩
  · show givenOr m' ["parent_id", "parentId"] (m'.either "parent_id" "parentId") row.parent_id = _
    have heither : m'.either "parent_id" "parentId" = m'.field "parentId" := by
      rw [Message.either, Json.or, hparent]
      rfl
    unfold givenOr
    split
    · exact heither
    · rename_i hnone
      have hget : Assoc.get? m' "parentId" = none := by
        have hboth : Assoc.get? m' "parent_id" = none ∧ Assoc.get? m' "parentId" = none := by
          simpa [Assoc.contains] using hnone
        exact hboth.2
      rw [h.parent, field_of_none (hkeys _ hget), field_of_none hget]
  · show (if givenOr m' ["content"] (m'.field "content") row.content = .null then Json.str ""
      else givenOr m' ["content"] (m'.field "content") row.content) = contentOf m'
    unfold givenOr
    split
    · rfl
    · rename_i hnone
      have hget : Assoc.get? m' "content" = none := by simpa [Assoc.contains] using hnone
      rw [h.content, contentOf, contentOf, field_of_none (hkeys _ hget), field_of_none hget]

/-- A new row agrees with its message. -/
theorem fieldsAgree_newRow {v : Json} (hrole : Assoc.get? m "role" = some v)
    (hparent : (m.field "parent_id").truthy = false) (usage : Json) :
    FieldsAgree (newRow env.chat_id env.user_id m usage now) m := by
  refine ⟨?_, ?_, rfl, rfl⟩
  · show m.either "parent_id" "parentId" = _
    rw [Message.either, Json.or, hparent]
    rfl
  · show (Assoc.get? m "role").getD (.str "user") = m.field "role"
    rw [Message.field, hrole]
    rfl

/-- The written row belongs to the chat of the row that is found. -/
theorem chat_id_of_writtenRow {old : Option Row}
    (h : writtenRow env.conv env.floats env.chat_id env.user_id m now old = .ok row)
    (hold : ∀ r, old = some r → r.chat_id = env.chat_id) : row.chat_id = env.chat_id := by
  cases old with
  | some existing =>
    obtain ⟨given, hgiven, -⟩ := bind_eq_ok.mp h
    obtain ⟨usage, -, rfl⟩ := (writtenRow_some hgiven).mp h
    exact hold existing rfl
  | none =>
    obtain ⟨given, hgiven, -⟩ := bind_eq_ok.mp h
    rw [writtenRow_none hgiven] at h
    cases h
    rfl

/-- A row that is updated from a message agrees with it. -/
theorem FieldsAgree.written (h : FieldsAgree row m) (hkeys : KeepsKeys m m')
    (hparent : (m'.field "parent_id").truthy = false)
    (hwritten : writtenRow env.conv env.floats env.chat_id env.user_id m' now (some row) =
      .ok row') : FieldsAgree row' m' := by
  obtain ⟨given, hgiven, -⟩ := bind_eq_ok.mp hwritten
  obtain ⟨usage, -, rfl⟩ := (writtenRow_some hgiven).mp hwritten
  exact h.update hkeys hparent usage

end OpenLaunch.Chats
