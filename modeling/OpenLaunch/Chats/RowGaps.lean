import Mathlib.Data.List.Dedup
import Mathlib.Data.List.ReduceOption
import OpenLaunch.Chats.RowMap

/-! # Gaps between the rows of a chat

The message map of a chat is read from its rows. Where a row names a parent that has no row, the
parent is filled in from the legacy history, the JSON that the chat itself stores, and written back
as a row. The missing parents are determined once, before the filling: a filled-in message brings a
parent of its own, which may be missing too. -/

namespace OpenLaunch.Chats

open Python

/-- A chat as `get_chat_by_id` reads it: its owner and `chat['history']['messages']`, which counts
as empty where it is missing. -/
structure LegacyChat where
  user_id : String
  messages : Dict String Json

/-- The parent id of a message, if it has one that is absent from the map. -/
def unresolvedParent (messages_map : Dict String Message) (m : Message) :
    Except PyErr (Option Json) :=
  let parent_id := m.field "parentId"
  if parent_id.truthy then do
    let here ← inMessages messages_map parent_id
    return if here then none else some parent_id
  else return none

/-- `ChatTable.get_unresolved_parent_ids`; the order of a set is arbitrary. -/
def get_unresolved_parent_ids (messages_map : Dict String Message) : Except PyErr (List Json) := do
  let ids ← messages_map.values.mapM (unresolvedParent messages_map)
  return ids.reduceOption.dedup

/-- The messages of the map, as the JSON objects they are. -/
def jsonMessages (messages_map : Dict String Message) : Dict String Json :=
  messages_map.mapValues fun _ m => .dict m

variable (conv : Conversions) (floats : Floats)

/-- `ChatTable.get_messages_map_by_chat_id`, of the rows of the chat and the chat itself: the map,
and the rows after the backfill. -/
def ChatTable.get_messages_map_by_chat_id (accepts : Row → Bool) (table : MessageTable)
    (id : String) (chat : Option LegacyChat) (now : ℤ) :
    Except PyErr (Option (Dict String Json) × MessageTable) := do
  match ← Chats.get_messages_map_by_chat_id table id, chat with
  | some messages_map, chat => do
    let unresolved_ids ← get_unresolved_parent_ids messages_map
    if unresolved_ids = [] then return (some (jsonMessages messages_map), table)
    match chat with
    | none => return (some (jsonMessages messages_map), table)
    | some chat =>
      let missing_messages :=
        chat.messages.filter fun message_id _ => .str message_id ∈ unresolved_ids
      if missing_messages.entries = [] then return (some (jsonMessages messages_map), table)
      return (some ((jsonMessages messages_map).update missing_messages),
        backfill_messages_by_chat_id conv floats accepts table id chat.user_id missing_messages now)
  -- no rows: fall back to the legacy history
  | none, none => return (none, table)
  | none, some chat =>
    if chat.messages.entries = [] then return (some chat.messages, table)
    return (some chat.messages,
      backfill_messages_by_chat_id conv floats accepts table id chat.user_id chat.messages now)

/-! ## Parent links -/

/-- The message `c` names `p` as its parent. -/
def NamesParent (messages : Dict String Json) (c p : String) : Prop :=
  p ≠ "" ∧ ∃ m, messages.get? c = some (.dict m) ∧ Message.field m "parentId" = .str p

/-- The messages of a chat in either store; a row hides the legacy message. -/
def inEither (rows : Dict String Message) (legacy : Dict String Json) : Dict String Json :=
  legacy.update (jsonMessages rows)

/-- From a message to its parent, where one of the stores has it. -/
def ParentStep (stores : Dict String Json) (c p : String) : Prop :=
  NamesParent stores c p ∧ p ∈ stores

/-- The map reaches as far back as the stores do: every ancestor of a message that it holds, up to
a root or the first id in neither store. -/
def HoldsAncestors (stores map : Dict String Json) : Prop :=
  ∀ c ∈ map, ∀ a, Relation.ReflTransGen (ParentStep stores) c a → a ∈ map

/-- The legacy message `x` is the missing parent of a row. -/
def FillsGap (rows : Dict String Message) (legacy : Dict String Json) (x : String) : Prop :=
  x ∈ legacy ∧ x ∉ rows ∧ ∃ c, NamesParent (jsonMessages rows) c x

/-- No gap is longer than one message: where a legacy message fills one, its own parent is a row,
fills one too, or is in neither store. -/
def ShortGaps (rows : Dict String Message) (legacy : Dict String Json) : Prop :=
  ∀ x p, FillsGap rows legacy x → NamesParent legacy x p → p ∈ legacy →
    p ∈ rows ∨ FillsGap rows legacy p

variable {rows : Dict String Message} {legacy map : Dict String Json} {unresolved : List Json}
  {c p x : String} {m : Message}

theorem get?_jsonMessages (rows : Dict String Message) (x : String) :
    (jsonMessages rows).get? x = (rows.get? x).map .dict := Dict.get?_mapValues ..

/-! ## The missing parents -/

theorem unresolvedParent_eq_some {v : Json} (h : unresolvedParent rows m = .ok (some v)) :
    v = m.field "parentId" ∧ v.truthy ∧ inMessages rows v = .ok false := by
  unfold unresolvedParent at h
  dsimp only at h
  split at h
  · rename_i htruthy
    obtain ⟨here, hhere, h⟩ := bind_eq_ok.mp h
    cases here with
    | true => cases h
    | false =>
      cases h
      exact ⟨rfl, htruthy, hhere⟩
  · cases h

theorem unresolvedParent_str (hp : m.field "parentId" = .str x) (hne : x ≠ "") (hx : x ∉ rows) :
    unresolvedParent rows m = .ok (some (.str x)) := by
  have hhere : inMessages rows (.str x) = .ok false := congrArg Except.ok (decide_eq_false hx)
  have htruthy : (Json.str x).truthy = true := by
    simpa [Json.truthy] using hne
  unfold unresolvedParent
  rw [hp]
  dsimp only
  rw [if_pos htruthy, hhere]
  rfl

/-- **The unresolved ids** that are strings: the missing parents of the messages of the map. -/
theorem mem_unresolved (h : get_unresolved_parent_ids rows = .ok unresolved) :
    .str x ∈ unresolved ↔ x ∉ rows ∧ ∃ c, NamesParent (jsonMessages rows) c x := by
  obtain ⟨ids, hids, h⟩ := bind_eq_ok.mp h
  cases h
  rw [List.mem_dedup, List.reduceOption_mem_iff]
  obtain ⟨hfrom, hto⟩ := mem_of_mapM hids
  constructor
  · intro hmem
    obtain ⟨m, hm, hrun⟩ := hfrom _ hmem
    obtain ⟨hparent, htruthy, hhere⟩ := unresolvedParent_eq_some hrun
    obtain ⟨⟨c, m'⟩, he, rfl⟩ := List.mem_map.mp hm
    refine ⟨of_decide_eq_false (Except.ok.inj hhere), c, ?_, m', ?_, hparent.symm⟩
    · rintro rfl
      exact absurd htruthy (by decide)
    · rw [get?_jsonMessages, Dict.mem_entries_iff.mp he]
      rfl
  · rintro ⟨hx, c, hne, m, hm, hp⟩
    rw [get?_jsonMessages] at hm
    obtain ⟨m', hm', heq⟩ := Option.map_eq_some_iff.mp hm
    cases heq
    have hval : m ∈ rows.values := List.mem_map.mpr ⟨_, Dict.mem_entries_iff.mpr hm', rfl⟩
    obtain ⟨y, hy, hrun⟩ := hto m hval
    rw [unresolvedParent_str hp hne hx] at hrun
    cases hrun
    exact hy

/-- Parents that are strings or none can be looked up. -/
theorem exists_unresolved (h : ∀ x m, rows.get? x = some m →
      m.field "parentId" = .null ∨ ∃ p, m.field "parentId" = .str p) :
    ∃ unresolved, get_unresolved_parent_ids rows = .ok unresolved := by
  have heach : ∀ m ∈ rows.values, ∃ v, unresolvedParent rows m = .ok v := by
    intro m hm
    obtain ⟨⟨x, m'⟩, he, rfl⟩ := List.mem_map.mp hm
    unfold unresolvedParent
    rcases h x m' (Dict.mem_entries_iff.mp he) with hnull | ⟨p, hp⟩
    · rw [hnull]
      exact ⟨none, rfl⟩
    · rw [hp]
      dsimp only
      split
      · exact ⟨_, rfl⟩
      · exact ⟨none, rfl⟩
  obtain ⟨ids, hids⟩ := exists_mapM heach
  unfold get_unresolved_parent_ids
  rw [hids]
  exact ⟨_, rfl⟩

/-! ## The map that is returned -/

/-- The legacy messages of a chat that may be missing. -/
def legacyMessages (chat : Option LegacyChat) : Dict String Json :=
  (chat.map LegacyChat.messages).getD .empty

/-- The rows with the legacy messages that are missing parents. -/
def filled (rows : Dict String Message) (legacy : Dict String Json) (unresolved : List Json) :
    Dict String Json :=
  (jsonMessages rows).update (legacy.filter fun x _ => .str x ∈ unresolved)

/-- A row stays as it is; what it misses comes from the legacy history. -/
theorem get?_filled (h : get_unresolved_parent_ids rows = .ok unresolved)
    (legacy : Dict String Json) (x : String) :
    (filled rows legacy unresolved).get? x =
      ((rows.get? x).map .dict).or ((legacy.get? x).filter fun _ => .str x ∈ unresolved) := by
  have hfilter := Dict.get?_filter (fun x _ => decide (Json.str x ∈ unresolved)) legacy x
  unfold filled
  rw [Dict.get?_update, hfilter, get?_jsonMessages]
  by_cases hx : Json.str x ∈ unresolved
  · have hnone : rows.get? x = none := Dict.get?_eq_none_iff.mpr ((mem_unresolved h).mp hx).1
    rw [hnone]
    cases legacy.get? x with
    | none => rfl
    | some v => rw [Option.map_none, Option.none_or, Option.or_none]
  · cases legacy.get? x with
    | none => cases rows.get? x <;> rfl
    | some v =>
      rw [Option.filter_some, decide_eq_false hx]
      cases rows.get? x <;> rfl

theorem mem_filled (h : get_unresolved_parent_ids rows = .ok unresolved)
    (legacy : Dict String Json) :
    x ∈ filled rows legacy unresolved ↔ x ∈ rows ∨ FillsGap rows legacy x := by
  rw [Dict.mem_iff_isSome, get?_filled h, Option.isSome_or, Option.isSome_map, Bool.or_eq_true,
    ← Dict.mem_iff_isSome]
  refine or_congr_right ?_
  unfold FillsGap
  rw [← mem_unresolved h, Dict.mem_iff_isSome]
  cases legacy.get? x with
  | none => simp
  | some v => simp

/-- The branches of the function return the filled rows, or the legacy messages of a chat without
rows. -/
theorem returned_map {accepts : Row → Bool} {table table' : MessageTable} {id : String}
    {chat : Option LegacyChat} {now : ℤ} {map : Option (Dict String Json)}
    (h : ChatTable.get_messages_map_by_chat_id conv floats accepts table id chat now =
      .ok (map, table')) :
    (Chats.get_messages_map_by_chat_id table id = .ok none ∧
        map = chat.map LegacyChat.messages) ∨
      ∃ rows unresolved, Chats.get_messages_map_by_chat_id table id = .ok (some rows) ∧
        get_unresolved_parent_ids rows = .ok unresolved ∧
        map = some (filled rows (legacyMessages chat) unresolved) := by
  obtain ⟨rows, hrows, h⟩ := bind_eq_ok.mp h
  cases rows with
  | none =>
    refine .inl ⟨hrows, ?_⟩
    cases chat with
    | none =>
      cases h
      rfl
    | some chat =>
      dsimp only at h
      split at h <;>
      · cases h
        rfl
  | some rows =>
    dsimp only at h
    obtain ⟨unresolved, hunresolved, h⟩ := bind_eq_ok.mp h
    refine .inr ⟨rows, unresolved, hrows, hunresolved, ?_⟩
    -- where nothing is to be filled, an update by nothing
    have hnothing : ∀ {missing : Dict String Json}, missing.entries = [] →
        jsonMessages rows = (jsonMessages rows).update missing := by
      intro missing hmissing
      refine Dict.eq_of_entries ?_
      show _ = Assoc.update _ _
      rw [hmissing]
      rfl
    unfold filled
    split at h
    · rename_i hnil
      cases h
      rw [← hnothing]
      rw [hnil]
      exact List.filter_eq_nil_iff.mpr fun e _ => by simp
    · cases chat with
      | none =>
        cases h
        rw [← hnothing]
        rfl
      | some chat =>
        dsimp only at h
        split at h
        · rename_i hempty
          cases h
          exact congrArg some (hnothing hempty)
        · cases h
          rfl

/-! ## Ancestors -/

/-- It is enough to look one parent back. -/
theorem holdsAncestors_iff {stores : Dict String Json} :
    HoldsAncestors stores map ↔ ∀ c ∈ map, ∀ p, ParentStep stores c p → p ∈ map := by
  constructor
  · exact fun h c hc p hstep => h c hc p (.single hstep)
  · intro h c hc a hpath
    induction hpath with
    | refl => exact hc
    | tail _ hstep ih => exact h _ ih _ hstep

theorem get?_inEither (rows : Dict String Message) (legacy : Dict String Json) (x : String) :
    (inEither rows legacy).get? x = ((rows.get? x).map .dict).or (legacy.get? x) := by
  rw [inEither, Dict.get?_update, get?_jsonMessages]

theorem mem_inEither : x ∈ inEither rows legacy ↔ x ∈ rows ∨ x ∈ legacy := by
  rw [Dict.mem_iff_isSome, get?_inEither, Option.isSome_or, Option.isSome_map, Bool.or_eq_true,
    ← Dict.mem_iff_isSome, ← Dict.mem_iff_isSome]

/-- The parent of a row is the one the row names. -/
theorem namesParent_row (hc : c ∈ rows) :
    NamesParent (inEither rows legacy) c p ↔ NamesParent (jsonMessages rows) c p := by
  obtain ⟨m, hm⟩ := Dict.mem_iff_exists.mp hc
  unfold NamesParent
  rw [get?_inEither, get?_jsonMessages, hm]
  rfl

/-- The parent of another message is the one the legacy history names. -/
theorem namesParent_legacy (hc : c ∉ rows) :
    NamesParent (inEither rows legacy) c p ↔ NamesParent legacy c p := by
  unfold NamesParent
  rw [get?_inEither, Dict.get?_eq_none_iff.mpr hc]
  rfl

/-- **The filled rows reach as far as the stores** exactly if no gap is longer than one message. -/
theorem holdsAncestors_filled (h : get_unresolved_parent_ids rows = .ok unresolved)
    (legacy : Dict String Json) :
    HoldsAncestors (inEither rows legacy) (filled rows legacy unresolved) ↔
      ShortGaps rows legacy := by
  rw [holdsAncestors_iff]
  constructor
  · intro hclosed x p hx hnames hp
    have hstep : ParentStep (inEither rows legacy) x p :=
      ⟨(namesParent_legacy hx.2.1).mpr hnames, mem_inEither.mpr (.inr hp)⟩
    exact (mem_filled h legacy).mp (hclosed x ((mem_filled h legacy).mpr (.inr hx)) p hstep)
  · intro hshort c hc p hstep
    rw [mem_filled h legacy] at hc ⊢
    by_cases hrow : p ∈ rows
    · exact .inl hrow
    · have hp : p ∈ legacy := (mem_inEither.mp hstep.2).resolve_left hrow
      by_cases hc' : c ∈ rows
      · exact .inr ⟨hp, hrow, c, (namesParent_row hc').mp hstep.1⟩
      · have hfills : FillsGap rows legacy c := hc.resolve_left hc'
        exact hshort c p hfills ((namesParent_legacy hc').mp hstep.1) hp

/-- Without rows there are no gaps, and the map is the legacy one. -/
theorem shortGaps_empty (legacy : Dict String Json) : ShortGaps .empty legacy := by
  rintro x p ⟨-, -, c, -, m, hm, -⟩
  cases hm

theorem holdsAncestors_legacy (legacy : Dict String Json) :
    HoldsAncestors (inEither .empty legacy) legacy := by
  refine holdsAncestors_iff.mpr fun c _ p hstep => ?_
  refine (mem_inEither.mp hstep.2).resolve_left ?_
  intro hp
  cases hp

/-! ## The rows of a chat -/

/-- The parent column is a text or empty. -/
def TextParents (table : MessageTable) : Prop :=
  ∀ id row, table.get? id = some row → row.parent_id = .null ∨ ∃ p, row.parent_id = .str p

/-- The parents of the messages come from the column. -/
theorem parentId_messagesOfRows {table : MessageTable} (h : TextParents table) (chat_id : String)
    {e : String × Message}
    (he : e ∈ (messagesOfRows chat_id (table.filter fun _ row => row.chat_id = chat_id)).entries) :
    e.2.field "parentId" = .null ∨ ∃ p, e.2.field "parentId" = .str p := by
  refine Assoc.forall_mem_update
    (P := fun m : Message => m.field "parentId" = .null ∨ ∃ p, m.field "parentId" = .str p)
    (by simp) (fun e' he' => ?_) e he
  obtain ⟨r, hr, rfl⟩ := List.mem_map.mp he'
  have hget := Dict.mem_entries_iff.mp hr
  rw [get?_ownRows] at hget
  dsimp only
  rw [field_messageOfRow _ _ (by decide) (by decide) (by decide)]
  exact h r.1 r.2 (Option.filter_eq_some_iff.mp hget).1

/-- The map of the rows is made, and its parents are texts or none. -/
theorem exists_rowMap {table : MessageTable} (h : TextParents table) (chat_id : String) :
    ∃ rows, Chats.get_messages_map_by_chat_id table chat_id = .ok rows ∧
      ∀ x m, (mapOrEmpty rows).get? x = some m →
        m.field "parentId" = .null ∨ ∃ p, m.field "parentId" = .str p := by
  unfold get_messages_map_by_chat_id
  dsimp only
  split
  · exact ⟨none, rfl, fun x m hm => by cases hm⟩
  · have hparents := fun e he => parentId_messagesOfRows h chat_id (e := e) he
    obtain ⟨map, hmap⟩ := foldlM_addToParent_ok hparents
      (messagesOfRows chat_id (table.filter fun _ row => row.chat_id = chat_id))
    refine ⟨some (map.mapValues fun _ m => m.setdefault "childrenIds" (.list [])), ?_, ?_⟩
    · rw [hmap]
      rfl
    · intro x m hm
      change (map.mapValues fun _ m => m.setdefault "childrenIds" (.list [])).get? x = some m at hm
      rw [Dict.get?_mapValues] at hm
      obtain ⟨m', hm', rfl⟩ := Option.map_eq_some_iff.mp hm
      have hfields := foldlM_addToParent_sameFields hmap x "parentId" (by decide)
      rw [hm', Option.map_some] at hfields
      obtain ⟨m₀, hm₀, heq⟩ := Option.map_eq_some_iff.mp hfields.symm
      have hfield : (m'.setdefault "childrenIds" (.list [])).field "parentId" =
          Message.field m₀ "parentId" := by
        unfold Message.field
        rw [get?_setdefault, if_neg (by decide), ← heq]
      rw [hfield]
      exact hparents (x, m₀) (Dict.mem_entries_iff.mpr hm₀)

theorem exists_bind {α β : Type} {x : Except PyErr α} {f : α → Except PyErr β} {a : α}
    (hx : x = .ok a) (hf : ∃ b, f a = .ok b) : ∃ b, (x >>= f) = .ok b := by
  obtain ⟨b, hb⟩ := hf
  exact ⟨b, bind_eq_ok.mpr ⟨a, hx, hb⟩⟩

/-- The map is returned. -/
theorem exists_returned (accepts : Row → Bool) {table : MessageTable} (h : TextParents table)
    (id : String) (chat : Option LegacyChat) (now : ℤ) :
    ∃ result, ChatTable.get_messages_map_by_chat_id conv floats accepts table id chat now =
      .ok result := by
  obtain ⟨rows, hrows, hparents⟩ := exists_rowMap h id
  refine exists_bind hrows ?_
  cases rows with
  | none =>
    cases chat with
    | none => exact ⟨_, rfl⟩
    | some chat =>
      dsimp only
      split <;> exact ⟨_, rfl⟩
  | some rows =>
    obtain ⟨unresolved, hunresolved⟩ : ∃ unresolved,
        get_unresolved_parent_ids rows = .ok unresolved := exists_unresolved hparents
    refine exists_bind hunresolved ?_
    split
    · exact ⟨_, rfl⟩
    · cases chat with
      | none => exact ⟨_, rfl⟩
      | some chat =>
        dsimp only
        split <;> exact ⟨_, rfl⟩

/-- **The map of a chat** keeps every row as it is, and holds every ancestor that either store has
exactly if no gap between the rows is longer than one message. -/
theorem get_messages_map_holds_ancestors (accepts : Row → Bool) (table : MessageTable)
    (htext : TextParents table) (id : String) (chat : Option LegacyChat) (now : ℤ) :
    ∃ rows map table', Chats.get_messages_map_by_chat_id table id = .ok rows ∧
      ChatTable.get_messages_map_by_chat_id conv floats accepts table id chat now =
        .ok (map, table') ∧
      (∀ x m, (mapOrEmpty rows).get? x = some m → ∃ map', map = some map' ∧
        map'.get? x = some (.dict m)) ∧
      ((∀ map', map = some map' →
          HoldsAncestors (inEither (mapOrEmpty rows) (legacyMessages chat)) map') ↔
        ShortGaps (mapOrEmpty rows) (legacyMessages chat)) := by
  obtain ⟨⟨map, table'⟩, hrun⟩ := exists_returned conv floats accepts htext id chat now
  rcases returned_map conv floats hrun with ⟨hrows, rfl⟩ | ⟨rows, unresolved, hrows, hun, rfl⟩
  · refine ⟨none, _, table', hrows, hrun, ?_, iff_of_true ?_ (shortGaps_empty _)⟩
    · intro x m hm
      cases hm
    intro map' hmap'
    have hlegacy : legacyMessages chat = map' := by
      unfold legacyMessages
      rw [hmap']
      rfl
    rw [hlegacy]
    exact holdsAncestors_legacy map'
  · refine ⟨some rows, _, table', hrows, hrun, fun x m hm => ⟨_, rfl, ?_⟩, ?_⟩
    · change rows.get? x = some m at hm
      rw [get?_filled hun, hm]
      rfl
    · refine Iff.trans ⟨fun h => h _ rfl, fun h map' hmap' => ?_⟩
        (holdsAncestors_filled hun (legacyMessages chat))
      cases hmap'
      exact h

/-! ## A longer gap -/

/-- A row of the chat `"c"` with a parent. -/
def rowOf (parent_id : Json) : Row where
  chat_id := "c"
  user_id := "u"
  role := .str "user"
  parent_id := parent_id
  content := .str "hi"
  output := .null
  model_id := .null
  files := .null
  sources := .null
  embeds := .null
  done := .bool true
  status_history := .null
  error := .null
  usage := .null
  context_summary := .null
  created_at := .int 1

/-- One row, of the message `"z"`, whose parent is `"y"`. -/
def lastRow : MessageTable := ⟨[("c-z", rowOf (.str "y"))], by decide⟩

/-- The legacy history of three messages, one after the other. -/
def threeMessages : LegacyChat :=
  ⟨"u", ⟨[("x", .dict [("role", .str "user")]),
    ("y", .dict [("role", .str "user"), ("parentId", .str "x")]),
    ("z", .dict [("role", .str "user"), ("parentId", .str "y")])], by decide⟩⟩

theorem textParents_lastRow : TextParents lastRow := by
  intro id row h
  cases List.mem_singleton.mp (Dict.mem_entries_iff.mpr h)
  exact .inr ⟨"y", rfl⟩

/-- The map of one row and a history of three messages. -/
theorem get_messages_map_lastRow : ∃ rows map table',
    Chats.get_messages_map_by_chat_id lastRow "c" = .ok rows ∧
      ChatTable.get_messages_map_by_chat_id plainConversions noFloats (fun _ => true) lastRow "c"
        (some threeMessages) 0 = .ok (map, table') ∧
      (∀ x m, (mapOrEmpty rows).get? x = some m → ∃ map', map = some map' ∧
        map'.get? x = some (.dict m)) ∧
      ((∀ map', map = some map' →
          HoldsAncestors (inEither (mapOrEmpty rows) (legacyMessages (some threeMessages))) map') ↔
        ShortGaps (mapOrEmpty rows) (legacyMessages (some threeMessages))) :=
  get_messages_map_holds_ancestors plainConversions noFloats (fun _ => true) lastRow
    textParents_lastRow "c" (some threeMessages) 0

/-- The row's parent is filled in, and its parent is not, which the history has. -/
theorem longer_gap_truncates : ∃ map table',
    ChatTable.get_messages_map_by_chat_id plainConversions noFloats (fun _ => true) lastRow "c"
        (some threeMessages) 0 = .ok (some map, table') ∧
      "y" ∈ map ∧ NamesParent map "y" "x" ∧ "x" ∈ threeMessages.messages ∧ "x" ∉ map := by
  refine ⟨⟨[("z", .dict [("id", .str "z"), ("role", .str "user"), ("parentId", .str "y"),
      ("content", .str "hi"), ("done", .bool true), ("timestamp", .int 1),
      ("childrenIds", .list [])]),
    ("y", .dict [("role", .str "user"), ("parentId", .str "x")])], by decide⟩, _, rfl, by decide,
    ⟨by decide, [("role", .str "user"), ("parentId", .str "x")], rfl, rfl⟩, by decide, by decide⟩

end OpenLaunch.Chats
