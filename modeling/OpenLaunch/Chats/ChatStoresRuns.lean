import OpenLaunch.Chats.ChatStores

/-! # The two stores over runs

In every run whose calls reach both stores, the rows and the history agree. -/

namespace OpenLaunch.Chats

open Python Transition

variable {env : ChatEnv} {x y : String} {m m' : Message} {row row' : Row}
  {table table' : MessageTable} {messages : Dict String Message} {history : History} {now : ℤ}

/-! ## The invariant -/

/-- **What holds of the stored messages and the rows**: each message has its row, which has what
they share, and there is no other row of the chat. -/
structure StoresInv (env : ChatEnv) (messages : Dict String Message) (table : MessageTable) :
    Prop where
  own : OwnRows env.chat_id table
  rows : ∀ x m, messages.get? x = some m →
    ∃ row, table.get? (compositeId env.chat_id x) = some row ∧ FieldsAgree row m
  ids : ∀ x row, table.get? (compositeId env.chat_id x) = some row → x ∈ messages
  clean : ∀ x m, messages.get? x = some m → CleanMessage x m
  text : ∀ x m, messages.get? x = some m →
    m.field "parentId" = .null ∨ ∃ p, m.field "parentId" = .str p

theorem CleanMessage.ne_nil (h : CleanMessage x m) : m ≠ [] := by
  rintro rfl
  cases h.id

/-- The row of a message that is in the map made from the rows. -/
theorem row_of_map (hown : OwnRows env.chat_id table) {rows : Option (Dict String Message)}
    (hrows : get_messages_map_by_chat_id table env.chat_id = .ok rows)
    (hm : (mapOrEmpty rows).get? x = some m') :
    ∃ row, table.get? (compositeId env.chat_id x) = some row ∧
      ∀ k, k ≠ "childrenIds" → m'.field k = (messageOfRow x row).field k := by
  have hfields : ∀ k, k ≠ "childrenIds" → some (Assoc.get? m' k) =
      (table.get? (compositeId env.chat_id x)).map fun row => Assoc.get? (messageOfRow x row) k := by
    intro k hk
    have hmap := get_messages_map_fields hown hrows x hk
    rwa [hm] at hmap
  cases hrow : table.get? (compositeId env.chat_id x) with
  | none =>
    have hid := hfields "id" (by decide)
    rw [hrow] at hid
    cases hid
  | some row =>
    refine ⟨row, rfl, fun k hk => ?_⟩
    have hget := hfields k hk
    rw [hrow, Option.map_some, Option.some.injEq] at hget
    rw [Message.field, Message.field, hget]

/-- The message of the map and the row that it is made from. -/
theorem fieldsAgree_iff (hfields : ∀ k, k ≠ "childrenIds" →
    m'.field k = (messageOfRow x row).field k) :
    FieldsAgree row m ↔ m'.field "parentId" = m.field "parentId" ∧
      m'.field "role" = m.field "role" ∧ contentOf m' = contentOf m ∧
        m'.field "output" = m.field "output" := by
  have hcolumn : ∀ {k}, k ≠ "childrenIds" → k ≠ "id" → k ≠ "info" → k ≠ "content" →
      m'.field k = Message.field row.columns k := by
    intro k hchildren hid hinfo hcontent
    rw [hfields k hchildren, field_messageOfRow x row hid hinfo hcontent]
  have hparent : m'.field "parentId" = row.parent_id :=
    hcolumn (by decide) (by decide) (by decide) (by decide)
  have hrole : m'.field "role" = row.role :=
    hcolumn (by decide) (by decide) (by decide) (by decide)
  have houtput : m'.field "output" = row.output :=
    hcolumn (by decide) (by decide) (by decide) (by decide)
  have hcontent : contentOf m' = if row.content = .null then .str "" else row.content := by
    rw [contentOf, hfields "content" (by decide)]
    exact contentOf_messageOfRow x row
  rw [hparent, hrole, houtput, hcontent]
  exact ⟨fun h => ⟨h.parent, h.role, h.content, h.output⟩, fun h => ⟨h.1, h.2.1, h.2.2.1, h.2.2.2⟩⟩

/-- The map has the ids of the rows. -/
theorem mem_map_iff (hown : OwnRows env.chat_id table) {rows : Option (Dict String Message)}
    (hrows : get_messages_map_by_chat_id table env.chat_id = .ok rows) (x : String) :
    x ∈ mapOrEmpty rows ↔ ∃ row, table.get? (compositeId env.chat_id x) = some row := by
  have hid := congrArg Option.isSome (get_messages_map_fields hown hrows x
    (by decide : "id" ≠ "childrenIds"))
  rw [Option.isSome_map, Option.isSome_map] at hid
  rw [Dict.mem_iff_isSome, hid, Option.isSome_iff_exists]

/-- **Stores that agree and are clean** satisfy the invariant. -/
theorem StoresInv.of_agree {s : Stores} (hagree : StoresAgree env s) (hclean : StoredClean env s) :
    StoresInv env s.history.messages s.table := by
  obtain ⟨rows, hrows, hids, hfields, -⟩ := hagree
  refine ⟨hclean.own, fun x m hm => ?_, fun x row hrow => ?_, hclean.clean, hclean.text⟩
  · obtain ⟨m', hm'⟩ := Dict.mem_iff_exists.mp
      ((hids x).mpr (Dict.mem_iff_exists.mpr ⟨m, hm⟩))
    obtain ⟨row, hrow, hsame⟩ := row_of_map hclean.own hrows hm'
    exact ⟨row, hrow, (fieldsAgree_iff hsame).mpr (hfields x m m' hm hm')⟩
  · exact (hids x).mp ((mem_map_iff hclean.own hrows x).mpr ⟨row, hrow⟩)

/-- **The invariant makes the stores agree.** -/
theorem StoresInv.agree {s : Stores} (h : StoresInv env s.history.messages s.table) :
    StoresAgree env s := by
  obtain ⟨rows, hrows⟩ := get_messages_map_ok h.own fun x row hrow => by
    obtain ⟨m, hm⟩ := Dict.mem_iff_exists.mp (h.ids x row hrow)
    obtain ⟨row', hrow', hagree⟩ := h.rows x m hm
    rw [hrow] at hrow'
    cases hrow'
    rw [hagree.parent]
    exact h.text x m hm
  have hids : ∀ x, x ∈ mapOrEmpty rows ↔ x ∈ s.history.messages := by
    intro x
    rw [mem_map_iff h.own hrows x]
    constructor
    · rintro ⟨row, hrow⟩
      exact h.ids x row hrow
    · intro hx
      obtain ⟨m, hm⟩ := Dict.mem_iff_exists.mp hx
      obtain ⟨row, hrow, -⟩ := h.rows x m hm
      exact ⟨row, hrow⟩
  have hfields : ∀ x m m', s.history.messages.get? x = some m →
      (mapOrEmpty rows).get? x = some m' →
        m'.field "id" = .str x ∧ m'.field "parentId" = m.field "parentId" ∧
          m'.field "role" = m.field "role" ∧ contentOf m' = contentOf m ∧
            m'.field "output" = m.field "output" := by
    intro x m m' hm hm'
    obtain ⟨row, hrow, hsame⟩ := row_of_map h.own hrows hm'
    obtain ⟨row', hrow', hagree⟩ := h.rows x m hm
    rw [hrow] at hrow'
    cases hrow'
    refine ⟨?_, (fieldsAgree_iff hsame).mp hagree⟩
    rw [hsame "id" (by decide)]
    exact id_messageOfRow x row
  refine ⟨rows, hrows, hids, fun x m m' hm hm' => (hfields x m m' hm hm').2,
    branchIds_eq fun x => ?_⟩
  cases hm : s.history.messages.get? x with
  | none =>
    have hnone : (mapOrEmpty rows).get? x = none := by
      rw [Dict.get?_eq_none_iff, hids]
      exact Dict.get?_eq_none_iff.mp hm
    rw [hnone]
    exact .none
  | some m =>
    obtain ⟨m', hm'⟩ := Dict.mem_iff_exists.mp
      ((hids x).mpr (Dict.mem_iff_exists.mpr ⟨m, hm⟩))
    obtain ⟨hid, hparent, -⟩ := hfields x m m' hm hm'
    have hclean := h.clean x m hm
    rw [hm']
    refine .some ⟨by rw [hid, hclean.id], hparent, hclean.ne_nil, ?_⟩
    rintro rfl
    cases hid

/-! ## Storing and reading -/

theorem truthy_sanitize {v : Json} (h : v.truthy = false) :
    (sanitize_data_for_db v).truthy = false := by
  cases v with
  | str s =>
    have hs : s = "" := by simpa using h
    subst hs
    decide
  | list xs =>
    have hxs : xs = [] := by simpa using h
    subst hxs
    decide
  | dict kvs =>
    have hkvs : kvs = [] := by simpa using h
    subst hkvs
    decide
  | null | bool | int | float => exact h

theorem CleanMessage.sanitize (h : CleanMessage x m) : CleanMessage x (sanitizeEntries m) where
  clean k hk := by rw [field_sanitizeEntries, sanitize_sanitize]
  id := by rw [field_sanitizeEntries, h.clean "id" (by decide), h.id]
  parent := by
    rw [field_sanitizeEntries]
    exact truthy_sanitize h.parent

/-- A clean message keeps what the stores share when it is stored. -/
theorem FieldsAgree.sanitize (h : FieldsAgree row m) (hclean : CleanMessage x m) :
    FieldsAgree row (sanitizeEntries m) where
  parent := by rw [field_sanitizeEntries, hclean.clean "parentId" (by decide), h.parent]
  role := by rw [field_sanitizeEntries, hclean.clean "role" (by decide), h.role]
  content := by
    rw [h.content, contentOf, contentOf, field_sanitizeEntries,
      hclean.clean "content" (by decide)]
  output := by rw [field_sanitizeEntries, hclean.clean "output" (by decide), h.output]

/-- Storing keeps the invariant. -/
theorem StoresInv.sanitize (h : StoresInv env history.messages table) :
    StoresInv env history.sanitize.messages table := by
  have hget : ∀ {x m'}, history.sanitize.messages.get? x = some m' →
      ∃ m, history.messages.get? x = some m ∧ m' = sanitizeEntries m := by
    intro x m' hm'
    have hmap := Dict.get?_mapValues (fun _ m => sanitizeEntries m) history.messages x
    have hm'' : (history.messages.get? x).map sanitizeEntries = some m' := hmap.symm.trans hm'
    obtain ⟨m, hm, rfl⟩ := Option.map_eq_some_iff.mp hm''
    exact ⟨m, hm, rfl⟩
  refine ⟨h.own, fun x m' hm' => ?_, fun x row hrow => ?_, fun x m' hm' => ?_, fun x m' hm' => ?_⟩
  · obtain ⟨m, hm, rfl⟩ := hget hm'
    obtain ⟨row, hrow, hagree⟩ := h.rows x m hm
    exact ⟨row, hrow, hagree.sanitize (h.clean x m hm)⟩
  · obtain ⟨m, hm⟩ := Dict.mem_iff_exists.mp (h.ids x row hrow)
    refine Dict.mem_iff_exists.mpr ⟨sanitizeEntries m, ?_⟩
    exact (Dict.get?_mapValues (fun _ m => sanitizeEntries m) history.messages x).trans
      (congrArg (Option.map sanitizeEntries) hm)
  · obtain ⟨m, hm, rfl⟩ := hget hm'
    exact (h.clean x m hm).sanitize
  · obtain ⟨m, hm, rfl⟩ := hget hm'
    rw [field_sanitizeEntries, (h.clean x m hm).clean "parentId" (by decide)]
    exact h.text x m hm

/-- Reading keeps the invariant. -/
theorem StoresInv.read {stored : History} (h : StoresInv env stored.messages table)
    (hread : readHistory env.greater stored = .ok history) :
    StoresInv env history.messages table := by
  obtain ⟨currentId, -, hread⟩ := bind_eq_ok.mp hread
  cases hread
  have h' : StoresInv env (History.mk stored.messages currentId).messages table := h
  exact h'.sanitize

/-! ## Upserts -/

/-- The database takes only text for the parent of a message. -/
def ParentIsText (env : ChatEnv) : Prop :=
  ∀ row, env.accepts row = true → row.parent_id = .null ∨ ∃ p, row.parent_id = .str p

/-- An upsert leaves the fields of the message it updates. -/
theorem keepsKeys_update (old : Message) (d : Dict String Json) :
    KeepsKeys old (Assoc.update old d.entries) := by
  intro k hk
  rw [Assoc.get?_update d.nodup, Option.or_eq_none_iff] at hk
  exact hk.2

/-- What an upsert stores: an update of the message, or a new message with a role. -/
theorem upsertedMessage_cases {message : Dict String Json} {stored : Message}
    (h : upsertedMessage messages x message now = .ok stored) :
    (∃ old, messages.get? x = some old ∧ KeepsKeys old stored) ∨
      (messages.get? x = none ∧ ∃ role, Assoc.get? stored "role" = some role) := by
  unfold upsertedMessage at h
  dsimp only at h
  cases hm : messages.get? x with
  | some old =>
    rw [hm] at h
    cases h
    exact .inl ⟨old, rfl, keepsKeys_update old (sanitizeContent message)⟩
  | none =>
    rw [hm] at h
    obtain ⟨parent_id, -, h⟩ := bind_eq_ok.mp h
    obtain ⟨parent, -, h⟩ := bind_eq_ok.mp h
    obtain ⟨output_role, -, h⟩ := bind_eq_ok.mp h
    cases h
    refine .inr ⟨rfl, ?_⟩
    rw [Assoc.get?_update (by
      show ["id", "parentId", "childrenIds", "role", "timestamp"].Nodup
      decide)]
    exact ⟨_, rfl⟩

/-- **An upsert that reaches both stores** keeps the invariant. -/
theorem StoresInv.upsert (htext : ParentIsText env) (h : StoresInv env messages table)
    {message : Dict String Json} {stored : Message}
    (hstored : upsertedMessage messages x message now = .ok stored)
    (hwrite : RowWritable env table x stored now) (hclean : CleanMessage x stored) :
    ∃ table', upsert_message env.conv env.floats env.accepts table x env.chat_id env.user_id
        stored now = .ok table' ∧ StoresInv env (messages.set x stored) table' := by
  obtain ⟨row, hrow, haccepts⟩ := hwrite
  refine ⟨table.set (compositeId env.chat_id x) row, ?_, ?_⟩
  · unfold upsert_message
    rw [hrow]
    exact if_pos haccepts
  have hchat : row.chat_id = env.chat_id :=
    chat_id_of_writtenRow hrow fun r hr => (h.own _ r hr).mpr ⟨x, rfl⟩
  have hagree : FieldsAgree row stored := by
    rcases upsertedMessage_cases hstored with ⟨old, hold, hkeys⟩ | ⟨hnone, role, hrole⟩
    · obtain ⟨existing, hexisting, hfields⟩ := h.rows x old hold
      rw [hexisting] at hrow
      exact hfields.written hkeys hclean.parent hrow
    · have hnorow : table.get? (compositeId env.chat_id x) = none := by
        cases hget : table.get? (compositeId env.chat_id x) with
        | none => rfl
        | some r => exact absurd (h.ids x r hget) (Dict.get?_eq_none_iff.mp hnone)
      rw [hnorow] at hrow
      obtain ⟨given, hgiven, -⟩ := bind_eq_ok.mp hrow
      rw [writtenRow_none hgiven] at hrow
      cases hrow
      exact fieldsAgree_newRow hrole hclean.parent _
  have hcases : ∀ {y m}, (messages.set x stored).get? y = some m →
      (y = x ∧ m = stored) ∨ (y ≠ x ∧ messages.get? y = some m) := by
    intro y m hm
    rw [Dict.get?_set] at hm
    split at hm
    · exact .inl ⟨‹_›, (Option.some.inj hm).symm⟩
    · exact .inr ⟨‹_›, hm⟩
  refine ⟨fun id r hr => ?_, fun y m hm => ?_, fun y r hr => ?_, fun y m hm => ?_,
    fun y m hm => ?_⟩
  · rw [Dict.get?_set] at hr
    split at hr
    · rename_i hid
      cases hr
      exact ⟨fun _ => ⟨x, hid⟩, fun _ => hchat⟩
    · exact h.own id r hr
  · rcases hcases hm with ⟨rfl, rfl⟩ | ⟨hne, hm'⟩
    · exact ⟨row, Dict.get?_set_self _ _ _, hagree⟩
    · rw [Dict.get?_set_ne _ fun heq => hne (compositeId_inj heq)]
      exact h.rows y m hm'
  · by_cases hy : y = x
    · exact Dict.mem_set.mpr (.inl hy)
    · rw [Dict.get?_set_ne _ fun heq => hy (compositeId_inj heq)] at hr
      exact Dict.mem_set.mpr (.inr (h.ids y r hr))
  · rcases hcases hm with ⟨rfl, rfl⟩ | ⟨-, hm'⟩
    · exact hclean
    · exact h.clean y m hm'
  · rcases hcases hm with ⟨rfl, rfl⟩ | ⟨-, hm'⟩
    · rw [← hagree.parent]
      exact htext row haccepts
    · exact h.text y m hm'

/-! ## Deletions -/

/-- A deletion keeps the keys of the messages that stay. -/
theorem keepsKeys_messageAfter (l : Links) (x : String) (m : Message) :
    KeepsKeys m (messageAfter l x m) := by
  have hset : ∀ {m : Message} {key : String} {v : Json} {k : String},
      Assoc.get? (m.setField key v) k = none → Assoc.get? m k = none := by
    intro m key v k hk
    rw [Message.setField, Assoc.get?_set] at hk
    split at hk
    · cases hk
    · exact hk
  intro k hk
  unfold messageAfter at hk
  dsimp only at hk
  cases hadopter : l.adopter with
  | none =>
    rw [hadopter] at hk
    split at hk
    · exact hset hk
    · exact hk
  | some a =>
    rw [hadopter] at hk
    dsimp only at hk
    split at hk
    · have hk := hset hk
      split at hk
      · exact hset hk
      · exact hk
    · split at hk
      · exact hset hk
      · exact hk

/-- What a deletion that writes makes of the history. -/
theorem delete_message_ok {fuel : ℕ} {message_id id : String} {ids : List String}
    {history' : History}
    (h : delete_message_from_history fuel history message_id = some (.ok (history', id :: ids))) :
    ∃ message l, history.messages.get? message_id = some message ∧
      readLinks history.messages message_id message = .ok l ∧
      history'.messages = relink history.messages message_id l ∧
      id :: ids = l.deletedIds message_id := by
  unfold delete_message_from_history at h
  cases hm : history.messages.get? message_id with
  | none =>
    rw [hm] at h
    cases h
  | some message =>
    rw [hm] at h
    dsimp only at h
    cases hread : readLinks history.messages message_id message with
    | error e =>
      rw [hread] at h
      cases h
    | ok l =>
      rw [hread] at h
      dsimp only at h
      cases hstart : walkStart (relink history.messages message_id l) l.parentId with
      | error e =>
        rw [hstart] at h
        cases h
      | ok child_ids =>
        rw [hstart] at h
        obtain ⟨r, -, hr⟩ := Option.map_eq_some_iff.mp h
        obtain ⟨current_id, -, hr⟩ := bind_eq_ok.mp hr
        obtain ⟨here, -, hr⟩ := bind_eq_ok.mp hr
        cases hr
        exact ⟨message, l, rfl, hread, rfl, rfl⟩

/-- The row of a message that stays, after the backfill. -/
theorem rowAfter_agree (htext : ParentIsText env) (hfields : FieldsAgree row m)
    (hkeys : KeepsKeys m m') (hparent : (m'.field "parent_id").truthy = false)
    (hsame : ∀ k, k ≠ "parentId" → k ≠ "childrenIds" → m'.field k = m.field k)
    (hold : m.field "parentId" = .null ∨ ∃ p, m.field "parentId" = .str p)
    (hwrite : m'.field "parentId" ≠ m.field "parentId" → (m'.field "role").truthy = true ∧
      ∃ row', writtenRow env.conv env.floats env.chat_id env.user_id m' now (some row) = .ok row' ∧
        env.accepts row' = true) :
    ∃ row', rowAfter env.conv env.floats env.accepts env.chat_id env.user_id now (some row)
        (.dict m') = some row' ∧ row'.chat_id = row.chat_id ∧ FieldsAgree row' m' ∧
      (m'.field "parentId" = .null ∨ ∃ p, m'.field "parentId" = .str p) := by
  have hkeep : m'.field "parentId" = m.field "parentId" → FieldsAgree row m' := by
    intro hp
    refine ⟨by rw [hp, hfields.parent], ?_, ?_, ?_⟩
    · rw [hsame "role" (by decide) (by decide), hfields.role]
    · rw [hfields.content, contentOf, contentOf, hsame "content" (by decide) (by decide)]
    · rw [hsame "output" (by decide) (by decide), hfields.output]
  by_cases hrole : (m'.field "role").truthy = true
  · rw [rowAfter_of_role hrole]
    cases hrow : writtenRow env.conv env.floats env.chat_id env.user_id m' now (some row) with
    | error e =>
      have hp : m'.field "parentId" = m.field "parentId" := by
        by_contra hne
        obtain ⟨-, row', hrow', -⟩ := hwrite hne
        rw [hrow] at hrow'
        cases hrow'
      exact ⟨row, rfl, rfl, hkeep hp, by rwa [hp]⟩
    | ok row' =>
      by_cases haccepts : env.accepts row' = true
      · have hagree := hfields.written hkeys hparent hrow
        refine ⟨row', if_pos haccepts, ?_, hagree, ?_⟩
        · obtain ⟨given, hgiven, -⟩ := bind_eq_ok.mp hrow
          obtain ⟨usage, -, rfl⟩ := (writtenRow_some hgiven).mp hrow
          rfl
        · rw [← hagree.parent]
          exact htext row' haccepts
      · have hp : m'.field "parentId" = m.field "parentId" := by
          by_contra hne
          obtain ⟨-, row₂, hrow₂, haccepts₂⟩ := hwrite hne
          rw [hrow] at hrow₂
          cases hrow₂
          exact haccepts haccepts₂
        exact ⟨row, if_neg haccepts, rfl, hkeep hp, by rwa [hp]⟩
  · have hp : m'.field "parentId" = m.field "parentId" := by
      by_contra hne
      exact hrole (hwrite hne).1
    refine ⟨row, ?_, rfl, hkeep hp, by rwa [hp]⟩
    rw [rowAfter, if_neg hrole]

/-- **A deletion that reaches both stores** keeps the invariant. -/
theorem StoresInv.delete (htext : ParentIsText env) (h : StoresInv env messages table)
    {message_id : String} {message : Message} {l : Links}
    (hmessage : messages.get? message_id = some message)
    (hread : readLinks messages message_id message = .ok l)
    (hwrite : ∀ x m m', messages.get? x = some m →
      (relink messages message_id l).get? x = some m' →
        m'.field "parentId" ≠ m.field "parentId" →
          (m'.field "role").truthy = true ∧ RowWritable env table x m' now) :
    StoresInv env (relink messages message_id l)
      (rowsAfterDelete env table (relink messages message_id l) (l.deletedIds message_id) now) := by
  have hstays : ∀ {x m'}, (relink messages message_id l).get? x = some m' →
      x ∉ l.deletedIds message_id ∧ ∃ m, messages.get? x = some m ∧ m' = messageAfter l x m := by
    intro x m' hm'
    rw [get?_relink] at hm'
    split at hm'
    · cases hm'
    · obtain ⟨m, hm, rfl⟩ := Option.map_eq_some_iff.mp hm'
      exact ⟨‹_›, m, hm, rfl⟩
  have hparent : ∀ {x m}, messages.get? x = some m →
      ((messageAfter l x m).field "parent_id").truthy = false := by
    intro x m hm
    rw [messageAfter_field l x m (by decide) (by decide)]
    exact (h.clean x m hm).parent
  -- the row of a message that stays, after the backfill
  have hrow : ∀ {x m}, x ∉ l.deletedIds message_id → messages.get? x = some m →
      ∃ row, (backfill_messages_by_chat_id env.conv env.floats env.accepts table env.chat_id
          env.user_id ((relink messages message_id l).mapValues fun _ m => .dict m) now).get?
            (compositeId env.chat_id x) = some row ∧ row.chat_id = env.chat_id ∧
        FieldsAgree row (messageAfter l x m) ∧
        ((messageAfter l x m).field "parentId" = .null ∨
          ∃ p, (messageAfter l x m).field "parentId" = .str p) := by
    intro x m hx hm
    obtain ⟨row, hget, hfields⟩ := h.rows x m hm
    have hm' : (relink messages message_id l).get? x = some (messageAfter l x m) := by
      rw [get?_relink, if_neg hx, hm, Option.map_some]
    have hdict : ((relink messages message_id l).mapValues fun _ m => Json.dict m).get? x =
        some (.dict (messageAfter l x m)) := by
      rw [Dict.get?_mapValues, hm', Option.map_some]
    have hwritten : (messageAfter l x m).field "parentId" ≠ m.field "parentId" →
        ((messageAfter l x m).field "role").truthy = true ∧
          ∃ row', writtenRow env.conv env.floats env.chat_id env.user_id (messageAfter l x m) now
            (some row) = .ok row' ∧ env.accepts row' = true := by
      intro hne
      obtain ⟨hrole, row', hrow', haccepts⟩ := hwrite x m _ hm hm' hne
      rw [hget] at hrow'
      exact ⟨hrole, row', hrow', haccepts⟩
    obtain ⟨row', hafter, hchat, hagree, htext'⟩ := rowAfter_agree htext hfields
      (keepsKeys_messageAfter l x m) (hparent hm)
      (fun k hp hc => messageAfter_field l x m hp hc) (h.text x m hm) hwritten
    refine ⟨row', ?_, ?_, hagree, htext'⟩
    · rw [get?_backfill table _ hdict, hget, hafter]
    · rw [hchat]
      exact (h.own _ row hget).mpr ⟨x, rfl⟩
  -- the rows of the other messages are as they were
  have hother : ∀ {id}, (∀ x, id = compositeId env.chat_id x → x ∈ l.deletedIds message_id ∨
      messages.get? x = none) →
      (backfill_messages_by_chat_id env.conv env.floats env.accepts table env.chat_id env.user_id
        ((relink messages message_id l).mapValues fun _ m => .dict m) now).get? id =
          table.get? id := by
    intro id hid
    refine get?_backfill_ne table _ fun x hx heq => ?_
    obtain ⟨v, hv⟩ := Dict.mem_iff_exists.mp hx
    rw [Dict.get?_mapValues] at hv
    obtain ⟨m', hm', -⟩ := Option.map_eq_some_iff.mp hv
    obtain ⟨hnot, m, hm, -⟩ := hstays hm'
    rcases hid x heq with hdel | hnone
    · exact hnot hdel
    · rw [hm] at hnone
      cases hnone
  -- the rows that are left
  have hleft : ∀ {id row}, (rowsAfterDelete env table (relink messages message_id l)
      (l.deletedIds message_id) now).get? id = some row ↔
      (backfill_messages_by_chat_id env.conv env.floats env.accepts table env.chat_id env.user_id
        ((relink messages message_id l).mapValues fun _ m => .dict m) now).get? id = some row ∧
      ¬ (row.chat_id = env.chat_id ∧ ∃ x ∈ l.deletedIds message_id,
        id = compositeId env.chat_id x) := by
    intro id row
    rw [rowsAfterDelete, delete_message_ids_by_chat_id, Dict.get?_filter,
      Option.filter_eq_some_iff]
    refine and_congr_right fun _ => ?_
    rw [Bool.not_eq_true', ← Bool.not_eq_true, Bool.and_eq_true, List.any_eq_true]
    simp only [decide_eq_true_eq]
  have hwas : ∀ {x row}, (rowsAfterDelete env table (relink messages message_id l)
      (l.deletedIds message_id) now).get? (compositeId env.chat_id x) = some row →
      x ∉ l.deletedIds message_id ∧ ∃ m, messages.get? x = some m := by
    intro x row hget
    obtain ⟨hback, hnot⟩ := hleft.mp hget
    by_cases hx : x ∈ l.deletedIds message_id
    · rw [hother fun y hy => .inl (compositeId_inj hy ▸ hx)] at hback
      exact absurd ⟨(h.own _ row hback).mpr ⟨x, rfl⟩, x, hx, rfl⟩ hnot
    · refine ⟨hx, ?_⟩
      cases hm : messages.get? x with
      | some m => exact ⟨m, rfl⟩
      | none =>
        rw [hother fun y hy => .inr (compositeId_inj hy ▸ hm)] at hback
        exact absurd (h.ids x row hback) (Dict.get?_eq_none_iff.mp hm)
  refine ⟨fun id r hr => ?_, fun x m' hm' => ?_, fun x r hr => ?_, fun x m' hm' => ?_,
    fun x m' hm' => ?_⟩
  · by_cases hid : ∃ x, id = compositeId env.chat_id x
    · obtain ⟨x, rfl⟩ := hid
      obtain ⟨hx, m, hm⟩ := hwas hr
      obtain ⟨row, hget, hchat, -⟩ := hrow hx hm
      rw [(hleft.mp hr).1, Option.some.injEq] at hget
      rw [hget]
      exact ⟨fun _ => ⟨x, rfl⟩, fun _ => hchat⟩
    · have hback := (hleft.mp hr).1
      rw [hother fun x hx => absurd ⟨x, hx⟩ hid] at hback
      exact h.own id r hback
  · obtain ⟨hx, m, hm, rfl⟩ := hstays hm'
    obtain ⟨row, hget, -, hagree, -⟩ := hrow hx hm
    refine ⟨row, hleft.mpr ⟨hget, ?_⟩, hagree⟩
    rintro ⟨-, y, hy, heq⟩
    exact hx (compositeId_inj heq ▸ hy)
  · obtain ⟨hx, m, hm⟩ := hwas hr
    rw [Dict.mem_iff_isSome, get?_relink, if_neg hx, hm]
    rfl
  · obtain ⟨hx, m, hm, rfl⟩ := hstays hm'
    have hclean := h.clean x m hm
    refine ⟨fun k hk => ?_, ?_, hparent hm⟩
    · by_cases hp : k = "parentId"
      · subst hp
        rw [messageAfter_parentId]
        split
        · rw [(readLinks_parent hread).1]
          exact (h.clean message_id message hmessage).clean "parentId" (by decide)
        · exact hclean.clean "parentId" (by decide)
      · have hc : k ≠ "childrenIds" := by
          rintro rfl
          revert hk
          decide
        rw [messageAfter_field l x m hp hc]
        exact hclean.clean k hk
    · rw [messageAfter_field l x m (by decide) (by decide)]
      exact hclean.id
  · obtain ⟨hx, m, hm, rfl⟩ := hstays hm'
    obtain ⟨-, -, -, -, htext'⟩ := hrow hx hm
    exact htext'

/-! ## Runs -/

/-- **One call** that reaches both stores keeps the invariant. -/
theorem storesInv_storeStep (htext : ParentIsText env) {s s' : Stores} {call : StoreCall}
    (h : StoresInv env s.history.messages s.table) (hboth : WritesBoth env s call)
    (hstep : storeStep env s call = some s') : StoresInv env s'.history.messages s'.table := by
  unfold storeStep at hstep
  cases hread : readHistory env.greater s.history with
  | error e =>
    rw [hread] at hstep
    cases hstep
    exact h
  | ok history =>
    have hinv := h.read hread
    have hboth := hboth history hread
    rw [hread] at hstep
    dsimp only at hstep
    cases call with
    | upsert x message now =>
      cases hstep
      unfold upsertBoth
      cases hstored : upsertedMessage history.messages x message now with
      | error e => exact hinv
      | ok stored =>
        obtain ⟨hwrite, hclean⟩ := hboth stored hstored
        obtain ⟨table', htable', hinv'⟩ := hinv.upsert htext hstored hwrite hclean
        dsimp only
        rw [htable']
        have hnext : StoresInv env
            (History.mk (history.messages.set x stored) (.str x)).messages table' := hinv'
        exact hnext.sanitize
    | delete fuel message_id now =>
      obtain ⟨r, hdelete, rfl⟩ := Option.map_eq_some_iff.mp hstep
      match r, hdelete with
      | .error _, _ => exact hinv
      | .ok (_, []), _ => exact hinv
      | .ok (history', id :: ids), hdelete =>
        obtain ⟨message, l, hmessage, hlinks, hmessages, hids⟩ := delete_message_ok hdelete
        have hwrite := hboth history' (id :: ids) hdelete
        rw [hmessages] at hwrite
        have hnext : StoresInv env history'.messages
            (rowsAfterDelete env s.table history'.messages (id :: ids) now) := by
          rw [hmessages, hids]
          exact hinv.delete htext hmessage hlinks hwrite
        exact hnext.sanitize

/-- **In every run whose calls reach both stores** the rows and the history agree. -/
theorem storesAgree_of_exec (env : ChatEnv) (htext : ParentIsText env) {s s' : Stores}
    {calls : List StoreCall} (hagree : StoresAgree env s) (hclean : StoredClean env s)
    (hboth : StepsMeet (storeStep env) (WritesBoth env) s calls)
    (hrun : exec (storeStep env) s calls = some s') : StoresAgree env s' :=
  StoresInv.agree (exec_invariant_of_stepsMeet
    (P := fun s => StoresInv env s.history.messages s.table)
    (fun _ _ _ hs hC hstep => storesInv_storeStep htext hs hC hstep)
    (.of_agree hagree hclean) hboth hrun)

/-- A chat in a database that takes text and nothing else for a parent. -/
def textEnv : ChatEnv where
  greater := intGreater
  conv := plainConversions
  floats := noFloats
  accepts row := decide (row.parent_id = .null) || row.parent_id.isStr
  chat_id := "c"
  user_id := "u"

theorem parentIsText_textEnv : ParentIsText textEnv := by
  intro row hrow
  rcases Bool.or_eq_true_iff.mp hrow with hnull | hstr
  · exact .inl (of_decide_eq_true hnull)
  · cases hp : row.parent_id with
    | str p => exact .inr ⟨p, rfl⟩
    | null | bool | int | float | list | dict =>
      rw [hp] at hstr
      cases hstr

/-- A chat without messages. -/
def emptyStores : Stores := ⟨⟨.empty, .null⟩, .empty⟩

theorem storedClean_emptyStores (env : ChatEnv) : StoredClean env emptyStores where
  own _ _ h := nomatch h
  clean _ _ h := nomatch h
  text _ _ h := nomatch h

theorem storesAgree_emptyStores (env : ChatEnv) : StoresAgree env emptyStores := by
  refine StoresInv.agree ⟨?_, ?_, ?_, ?_, ?_⟩
  · exact fun _ _ h => nomatch h
  · exact fun _ _ h => nomatch h
  · exact fun _ _ h => nomatch h
  · exact fun _ _ h => nomatch h
  · exact fun _ _ h => nomatch h

/-- A question. -/
def question : Dict String Json :=
  ⟨[("role", .str "user"), ("content", .str "hi")], (by decide : ["role", "content"].Nodup)⟩

/-- The message that is stored for it. -/
def storedQuestion : Message :=
  [("role", .str "user"), ("content", .str "hi"), ("id", .str "q"), ("parentId", .null),
    ("childrenIds", .list []), ("timestamp", .int 1)]

/-- The stores that hold it. -/
def askedStores : Stores :=
  ⟨⟨.set .empty "q" storedQuestion, .str "q"⟩,
    .set .empty "c-q" (newRow "c" "u" storedQuestion .null 1)⟩

/-- The question is asked and deleted. -/
def askAndDelete : List StoreCall := [.upsert "q" question 1, .delete 3 "q" 2]

theorem askAndDelete_agree : ∃ s, exec (storeStep textEnv) emptyStores askAndDelete = some s ∧
    StoresAgree textEnv s := by
  have hasked : storeStep textEnv emptyStores (.upsert "q" question 1) = some askedStores := by
    decide
  have hupsert : WritesBoth textEnv emptyStores (.upsert "q" question 1) := by
    intro history hread stored hstored
    have hhistory : readHistory textEnv.greater emptyStores.history = .ok ⟨.empty, .null⟩ := rfl
    rw [hhistory] at hread
    cases hread
    have hnew : upsertedMessage .empty "q" question 1 = .ok storedQuestion := by decide
    obtain rfl : storedQuestion = stored := Except.ok.inj (hnew.symm.trans hstored)
    exact ⟨⟨newRow "c" "u" storedQuestion .null 1, rfl, rfl⟩, by decide, rfl, rfl⟩
  have hdelete : WritesBoth textEnv askedStores (.delete 3 "q" 2) := by
    intro history hread history' ids hdelete x m m' _ hm' _
    have hhistory : readHistory textEnv.greater askedStores.history = .ok askedStores.history := by
      decide
    rw [hhistory] at hread
    cases hread
    have hgone : delete_message_from_history 3 askedStores.history "q" =
        some (.ok (⟨.empty, .null⟩, ["q"])) := by
      decide
    rw [hgone] at hdelete
    cases hdelete
    cases hm'
  have hboth : StepsMeet (storeStep textEnv) (WritesBoth textEnv) emptyStores askAndDelete := by
    refine ⟨hupsert, fun s hs => ⟨?_, fun _ _ => trivial⟩⟩
    rw [hasked] at hs
    cases hs
    exact hdelete
  obtain ⟨s, hrun⟩ := Option.isSome_iff_exists.mp
    (by decide : (exec (storeStep textEnv) emptyStores askAndDelete).isSome)
  exact ⟨s, hrun, storesAgree_of_exec textEnv parentIsText_textEnv
    (storesAgree_emptyStores textEnv) (storedClean_emptyStores textEnv) hboth hrun⟩

/-- A message is upserted whose parent stands under `parent_id`. -/
def aliasCalls : List StoreCall :=
  [.upsert "q" question 1,
    .upsert "a" ⟨[("role", .str "assistant"), ("parent_id", .str "q")],
      (by decide : ["role", "parent_id"].Nodup)⟩ 2]

/-- The parent of the answer in the history and in the map made from the rows. -/
def answerParents (s : Stores) : Option Json × Option Json :=
  ((s.history.messages.get? "a").map (Message.field · "parentId"),
    (get_messages_map_by_chat_id s.table "c").toOption.bind fun rows =>
      ((mapOrEmpty rows).get? "a").map (Message.field · "parentId"))

/-- **The stores of a new chat disagree** after two upserts whose writes succeed: the history has no
parent for the answer, the row has the question. -/
theorem aliasCalls_disagree : StoresAgree textEnv emptyStores ∧
    ∃ s, exec (storeStep textEnv) emptyStores aliasCalls = some s ∧
      answerParents s = (some .null, some (.str "q")) ∧ ¬ StoresAgree textEnv s := by
  refine ⟨storesAgree_emptyStores textEnv, ?_⟩
  have hrun : (exec (storeStep textEnv) emptyStores aliasCalls).any
      (fun s => answerParents s = (some .null, some (.str "q"))) = true := by
    decide
  obtain ⟨s, hrun, hs⟩ := (Option.any_eq_true _ _).mp hrun
  have hparents := of_decide_eq_true hs
  refine ⟨s, hrun, hparents, ?_⟩
  rintro ⟨rows, hrows, -, hfields, -⟩
  obtain ⟨hjson, hrow⟩ := Prod.mk.inj hparents
  have hrows' : get_messages_map_by_chat_id s.table "c" = .ok rows := hrows
  rw [hrows'] at hrow
  obtain ⟨m, hm, hnull⟩ := Option.map_eq_some_iff.mp hjson
  obtain ⟨m', hm', hstr⟩ := Option.map_eq_some_iff.mp hrow
  have hsame := (hfields "a" m m' hm hm').1
  rw [hnull, hstr] at hsame
  cases hsame

end OpenLaunch.Chats
