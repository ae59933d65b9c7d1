import OpenLaunch.Chats.Usage
import OpenLaunch.Chats.UsageMerge

/-! # Message rows

Besides the history, a chat's messages are kept as rows of the table `chat_message`, one a message,
under the chat's id and the message's. `upsert_message` writes a row from a message of the history:
a new row takes every column from the message, an existing row the columns that the message gives,
and the tokens it reports are added to those of the row.

The column `updated_at`, which every write sets to the clock, is left out. -/

namespace OpenLaunch.Chats

open Python

/-- The row of a message; a column without a value is `None`. -/
structure Row where
  chat_id : String
  user_id : String
  role : Json
  parent_id : Json
  content : Json
  output : Json
  model_id : Json
  files : Json
  sources : Json
  embeds : Json
  done : Json
  status_history : Json
  error : Json
  usage : Json
  context_summary : Json
  created_at : Json
  deriving DecidableEq

variable (conv : Conversions) (floats : Floats)

/-- `data.get(key) or data.get(other)`. -/
def Message.either (data : Message) (key other : String) : Json :=
  (data.field key).or (data.field other)

/-- `data.get('done', True)`. -/
def Message.done (data : Message) : Json := (Assoc.get? data "done").getD (.bool true)

/-- `data.get('usage') or (data.get('info') or {}).get('usage')`. -/
def reportedUsage (data : Message) : Except PyErr Json :=
  if (data.field "usage").truthy then .ok (data.field "usage")
  else ((data.field "info").or (.dict [])).get "usage"

/-- `get_usage`. -/
def get_usage (data : Message) : Except PyErr (Option Usage) := do
  let usage ← reportedUsage data
  if usage.truthy then
    let normalized ← normalize_usage conv floats usage
    return some normalized
  else return none

/-- `new`, if the message has one of the keys. -/
def givenOr (data : Message) (keys : List String) (new old : Json) : Json :=
  if keys.any (Assoc.contains data) then new else old

/-- The columns of an existing row, usage apart, that the message gives. -/
def Row.update (row : Row) (data : Message) : Row where
  chat_id := row.chat_id
  user_id := row.user_id
  role := givenOr data ["role"] (data.field "role") row.role
  parent_id := givenOr data ["parent_id", "parentId"] (data.either "parent_id" "parentId")
    row.parent_id
  content := givenOr data ["content"] (data.field "content") row.content
  output := givenOr data ["output"] (data.field "output") row.output
  model_id := givenOr data ["model_id", "model"] (data.either "model_id" "model") row.model_id
  files := givenOr data ["files"] (data.field "files") row.files
  sources := givenOr data ["sources"] (data.field "sources") row.sources
  embeds := givenOr data ["embeds"] (data.field "embeds") row.embeds
  done := givenOr data ["done"] data.done row.done
  status_history := givenOr data ["status_history", "statusHistory"]
    (data.either "status_history" "statusHistory") row.status_history
  error := givenOr data ["error"] (data.field "error") row.error
  usage := row.usage
  context_summary := givenOr data ["context_summary", "contextSummary"]
    (data.either "context_summary" "contextSummary") row.context_summary
  created_at := row.created_at

/-- A new row. -/
def newRow (chat_id user_id : String) (data : Message) (usage : Json) (now : ℤ) : Row where
  chat_id := chat_id
  user_id := user_id
  role := (Assoc.get? data "role").getD (.str "user")
  parent_id := data.either "parent_id" "parentId"
  content := data.field "content"
  output := data.field "output"
  model_id := data.either "model_id" "model"
  files := data.field "files"
  sources := data.field "sources"
  embeds := data.field "embeds"
  done := data.done
  status_history := data.either "status_history" "statusHistory"
  error := data.field "error"
  usage := usage
  context_summary := data.either "context_summary" "contextSummary"
  created_at := (Assoc.get? data "timestamp").getD (.int now)

/-- The usage of an existing row, once that of the message is added to it. -/
def usageAfter (existing : Json) (usage : Option Usage) : Except PyErr Json :=
  match usage with
  | none => .ok existing
  | some usage => do
    let existing_usage ← normalize_usage conv floats existing
    if floats.equal (.dict usage) (.dict existing_usage) then return .dict existing_usage
    .dict <$> merge_usage conv floats (.dict existing_usage) (.dict usage)

/-- The row that `upsert_message` writes, given the one it finds. -/
def writtenRow (chat_id user_id : String) (data : Message) (now : ℤ) :
    Option Row → Except PyErr Row
  | some existing => do
    let usage ← get_usage conv floats data
    let usage ← usageAfter conv floats existing.usage usage
    return { existing.update data with usage := usage }
  | none => do
    let usage ← get_usage conv floats data
    return newRow chat_id user_id data ((usage.map Json.dict).getD .null) now

/-- The table: rows by their composite id. -/
abbrev MessageTable := Dict String Row

/-- `f'{chat_id}-{message_id}'`. -/
def compositeId (chat_id message_id : String) : String := chat_id ++ "-" ++ message_id

/-- `ChatMessageTable.upsert_message`. `accepts` says which rows the database takes; writing another
raises. -/
def upsert_message (accepts : Row → Bool) (table : MessageTable)
    (message_id chat_id user_id : String) (data : Message) (now : ℤ) : Except PyErr MessageTable := do
  let row ← writtenRow conv floats chat_id user_id data now
    (table.get? (compositeId chat_id message_id))
  if accepts row then return table.set (compositeId chat_id message_id) row
  else .error .upstream

/-- One message of the backfill; what is raised is logged. -/
def backfillMessage (accepts : Row → Bool) (chat_id user_id : String) (now : ℤ)
    (table : MessageTable) (message_id : String) : Json → MessageTable
  | .dict message =>
    if (Message.field message "role").truthy then
      match upsert_message conv floats accepts table message_id chat_id user_id message now with
      | .ok table' => table'
      | .error _ => table
    else table
  | _ => table

/-- `ChatTable.backfill_messages_by_chat_id`. -/
def backfill_messages_by_chat_id (accepts : Row → Bool) (table : MessageTable)
    (chat_id user_id : String) (messages : Dict String Json) (now : ℤ) : MessageTable :=
  messages.entries.foldl
    (fun table e => backfillMessage conv floats accepts chat_id user_id now table e.1 e.2) table

end OpenLaunch.Chats

/-! ## Backfilling twice

The backfill writes a row for every message of the history, by adding the usage of the message to
that of its row. Run a second time it leaves the columns as they are, apart from the usage: that is
left as it is where the two usages are equal, or where the message has none or adds nothing. -/

namespace OpenLaunch.Chats

open Python

variable {conv : Conversions} {floats : Floats}

/-! ## Usages that a second run leaves -/

/-- Normalizing changes nothing, and the usage equals itself (it holds no NaN). -/
def Stable (conv : Conversions) (floats : Floats) (usage : Usage) : Prop :=
  normalize_usage conv floats (.dict usage) = .ok usage ∧
    floats.equal (.dict usage) (.dict usage) = true

/-- A usage with whole counts, no key twice, and no NaN. -/
structure Plain (floats : Floats) (usage : Usage) : Prop where
  wellFormed : Json.WellFormed (.dict usage)
  whole : WholeCounts usage
  self : floats.equal (.dict usage) (.dict usage) = true

/-- A second run leaves the row's usage `existing` (`none` if there is no row) as the first one
does: the message has no usage or one that cannot be read; or the row has none; or the two are
equal; or one of them adds nothing to the other. -/
def UsageSettles (conv : Conversions) (floats : Floats) (existing : Option Json)
    (message : Message) : Prop :=
  ∀ usage, get_usage conv floats message = .ok (some usage) →
    match existing with
    | none => Stable conv floats usage
    | some existing =>
      if existing.truthy then
        ∀ current, normalize_usage conv floats existing = .ok current →
          if floats.equal (.dict usage) (.dict current) then
            normalize_usage conv floats (.dict current) = .ok current
          else Plain floats current ∧ Plain floats usage ∧
            (AddsNothing floats current usage ∨ CurrentAddsNothing floats current usage)
      else Stable conv floats usage

/-- The usages of the message and of the row are plain. -/
def PlainUsages (conv : Conversions) (floats : Floats) (existing : Option Json)
    (message : Message) : Prop :=
  ∀ usage, get_usage conv floats message = .ok (some usage) → Plain floats usage ∧
    ∀ e current, existing = some e → e.truthy → normalize_usage conv floats e = .ok current →
      Plain floats current

/-! ## One usage -/

variable {usage current merged : Usage} {existing existing' : Json}

/-- A usage with counts is not empty. -/
theorem WholeCounts.truthy (h : WholeCounts usage) : (Json.dict usage).truthy = true := by
  obtain ⟨n, m, t, hin, -, -, -⟩ := h
  rw [Json.truthy_dict, decide_eq_true_eq]
  rintro rfl
  cases hin.1

theorem WholeCounts.normalize_usage (h : WholeCounts usage) :
    normalize_usage conv floats (.dict usage) = .ok usage := by
  rw [Chats.normalize_usage, if_pos h.truthy]
  exact h.normalize

/-- Normalizing leaves no usage empty. -/
theorem normalize_usage_ne_nil (h : normalize_usage conv floats existing = .ok current)
    (htruthy : existing.truthy) : current ≠ [] := by
  unfold normalize_usage at h
  rw [if_pos htruthy] at h
  cases existing with
  | dict kvs =>
    obtain ⟨_, -, h⟩ := bind_eq_ok.mp h
    obtain ⟨input, -, h⟩ := bind_eq_ok.mp h
    obtain ⟨output, -, h⟩ := bind_eq_ok.mp h
    obtain ⟨total, -, h⟩ := bind_eq_ok.mp h
    cases h
    intro hnil
    have hget := Assoc.get?_set_self (Assoc.set (Assoc.set kvs "input_tokens" (.int input))
      "output_tokens" (.int output)) "total_tokens" (.int total)
    rw [hnil] at hget
    cases hget
  | null | bool | int | float | str | list => cases h

theorem get_usage_ne_nil {message : Message}
    (h : get_usage conv floats message = .ok (some usage)) : usage ≠ [] := by
  obtain ⟨raw, -, h⟩ := bind_eq_ok.mp h
  split at h
  · rename_i htruthy
    obtain ⟨normalized, hnormalized, h⟩ := bind_eq_ok.mp h
    cases h
    exact normalize_usage_ne_nil hnormalized htruthy
  · cases h

/-- Adding a usage to an existing one that is normalized to `current`. -/
theorem usageAfter_eq (h : normalize_usage conv floats existing = .ok current) (usage : Usage) :
    usageAfter conv floats existing (some usage) =
      if floats.equal (.dict usage) (.dict current) then .ok (.dict current)
      else .dict <$> merge_usage conv floats (.dict current) (.dict usage) := by
  unfold usageAfter
  rw [h]
  rfl

/-- Merging two usages with whole counts. -/
theorem merge_usage_whole (hc : WholeCounts current) (hu : WholeCounts usage) :
    merge_usage conv floats (.dict current) (.dict usage) = mergeNormalized floats current usage := by
  have hcne : current ≠ [] := by
    rintro rfl
    exact absurd hc.truthy (by decide)
  have hune : usage ≠ [] := by
    rintro rfl
    exact absurd hu.truthy (by decide)
  unfold merge_usage
  rw [hc.normalize_usage, hu.normalize_usage]
  show (if usage = [] then pure current else if current = [] then pure usage
    else mergeNormalized floats current usage) = _
  rw [if_neg hune, if_neg hcne]

/-- The usage of a row without one. -/
theorem usageAfter_falsy (hfalsy : ¬ existing.truthy) (hne : usage ≠ [])
    (hstable : Stable conv floats usage) :
    usageAfter conv floats existing (some usage) = .ok (.dict usage) := by
  have hnormal : ∀ v : Json, ¬ v.truthy → normalize_usage conv floats v = .ok [] := by
    intro v hv
    rw [normalize_usage.eq_def, if_neg hv]
  have hequal : floats.equal (.dict usage) (.dict []) = false := by
    rw [Floats.equal, Bool.and_eq_false_iff]
    left
    simpa using hne
  rw [usageAfter_eq (hnormal existing hfalsy), hequal]
  unfold merge_usage
  rw [hnormal (.dict []) (by decide), hstable.1]
  show Json.dict <$> (if usage = [] then pure [] else if ([] : Usage) = [] then pure usage
    else mergeNormalized floats [] usage) = _
  rw [if_neg hne, if_pos rfl]
  rfl

/-- A stable usage is left where the row has it. -/
theorem usageAfter_stable (hstable : Stable conv floats usage) :
    usageAfter conv floats (.dict usage) (some usage) = .ok (.dict usage) := by
  rw [usageAfter_eq hstable.1, if_pos hstable.2]

/-- What two plain usages that differ make. -/
theorem usageAfter_plain (hc : Plain floats current) (hu : Plain floats usage)
    (hdiffer : ¬ floats.equal (.dict usage) (.dict current))
    (hread : normalize_usage conv floats existing = .ok current)
    (h : usageAfter conv floats existing (some usage) = .ok existing') :
    ∃ merged, existing' = .dict merged ∧ mergeNormalized floats current usage = .ok merged ∧
      WholeCounts merged := by
  rw [usageAfter_eq hread, if_neg hdiffer, merge_usage_whole hc.whole hu.whole] at h
  obtain ⟨merged, hmerged, rfl⟩ := map_eq_ok.mp h
  exact ⟨merged, rfl, hmerged, hc.whole.merge (WellFormed.nodup hu.wellFormed) hmerged hu.whole⟩

/-- **Adding two plain usages that differ, twice.** -/
theorem usageAfter_again_iff (hc : Plain floats current) (hu : Plain floats usage)
    (hdiffer : ¬ floats.equal (.dict usage) (.dict current))
    (hread : normalize_usage conv floats existing = .ok current)
    (h : usageAfter conv floats existing (some usage) = .ok existing') :
    usageAfter conv floats existing' (some usage) = .ok existing' ↔
      AddsNothing floats current usage ∨ CurrentAddsNothing floats current usage := by
  obtain ⟨merged, rfl, hmerged, hwhole⟩ := usageAfter_plain hc hu hdiffer hread h
  have hagain := mergeNormalized_again_iff hc.wellFormed hu.wellFormed hmerged
  have hequal := equal_merged_iff (WellFormed.nodup hc.wellFormed) (WellFormed.nodup hu.wellFormed)
    hmerged
  rw [usageAfter_eq hwhole.normalize_usage, merge_usage_whole hwhole hu.whole]
  split
  · rename_i heq
    exact ⟨fun _ => .inr (hequal.mp heq), fun _ => rfl⟩
  · rename_i hneq
    rw [map_eq_ok]
    constructor
    · rintro ⟨merged', hmerged', hsame⟩
      cases hsame
      exact .inl (hagain.mp hmerged')
    · rintro (hadd | hadd)
      · exact ⟨merged, hagain.mpr hadd, rfl⟩
      · exact absurd (hequal.mpr hadd) hneq

/-- **A usage that settles** is left by the second run. -/
theorem usageAfter_again {message : Message} {given : Option Usage}
    (hgiven : get_usage conv floats message = .ok given)
    (hsettles : UsageSettles conv floats (some existing) message)
    (h : usageAfter conv floats existing given = .ok existing') :
    usageAfter conv floats existing' given = .ok existing' := by
  cases given with
  | none => rfl
  | some usage =>
    have hcase := hsettles usage hgiven
    dsimp only at hcase
    by_cases htruthy : existing.truthy = true
    · rw [if_pos htruthy] at hcase
      obtain ⟨current, hread, -⟩ := bind_eq_ok.mp h
      have hcase := hcase current hread
      by_cases heq : floats.equal (.dict usage) (.dict current) = true
      · rw [if_pos heq] at hcase
        rw [usageAfter_eq hread, if_pos heq] at h
        cases h
        rw [usageAfter_eq hcase, if_pos heq]
      · rw [if_neg heq] at hcase
        exact (usageAfter_again_iff hcase.1 hcase.2.1 heq hread h).mpr hcase.2.2
    · rw [if_neg htruthy] at hcase
      rw [usageAfter_falsy htruthy (get_usage_ne_nil hgiven) hcase] at h
      cases h
      exact usageAfter_stable hcase

/-! ## One row -/

variable {chat_id user_id : String} {data : Message} {now now' : ℤ} {row row' : Row}

@[simp] theorem givenOr_self (data : Message) (ks : List String) (v : Json) :
    givenOr data ks v v = v := by
  unfold givenOr
  split <;> rfl

@[simp] theorem givenOr_again (data : Message) (ks : List String) (v old : Json) :
    givenOr data ks v (givenOr data ks v old) = givenOr data ks v old := by
  unfold givenOr
  split <;> simp [*]

/-- The columns that a message gives are left by a second update. -/
theorem Row.update_update (row : Row) (usage : Json) :
    { ({ row.update data with usage := usage } : Row).update data with usage := usage } =
      { row.update data with usage := usage } := by
  simp only [Row.update, givenOr_again]

/-- The columns of a new row are left by an update. -/
theorem newRow_update (hrole : (data.field "role").truthy) (usage : Json) :
    { (newRow chat_id user_id data usage now).update data with usage := usage } =
      newRow chat_id user_id data usage now := by
  have hget : (Assoc.get? data "role").getD (.str "user") = data.field "role" := by
    unfold Message.field at hrole ⊢
    cases hr : Assoc.get? data "role" with
    | none =>
      rw [hr] at hrole
      cases hrole
    | some v => rfl
  simp only [Row.update, newRow, hget, givenOr_self]

/-- What is written to an existing row. -/
theorem writtenRow_some {given : Option Usage}
    (hgiven : get_usage conv floats data = .ok given) :
    writtenRow conv floats chat_id user_id data now (some row) = .ok row' ↔
      ∃ usage, usageAfter conv floats row.usage given = .ok usage ∧
        row' = { row.update data with usage := usage } := by
  unfold writtenRow
  rw [hgiven]
  show (usageAfter conv floats row.usage given >>= fun usage =>
    pure { row.update data with usage := usage }) = _ ↔ _
  rw [bind_eq_ok]
  refine exists_congr fun usage => and_congr_right fun _ => ⟨fun h => ?_, fun h => ?_⟩
  · cases h
    rfl
  · rw [h]
    rfl

/-- What is written to a new row. -/
theorem writtenRow_none {given : Option Usage}
    (hgiven : get_usage conv floats data = .ok given) :
    writtenRow conv floats chat_id user_id data now none =
      .ok (newRow chat_id user_id data ((given.map Json.dict).getD .null) now) := by
  unfold writtenRow
  rw [hgiven]
  rfl

/-- **A second write of a message** leaves the row exactly when it leaves the usage. -/
theorem writtenRow_again_iff (hrole : (data.field "role").truthy) {given : Option Usage}
    (hgiven : get_usage conv floats data = .ok given) {old : Option Row}
    (h : writtenRow conv floats chat_id user_id data now old = .ok row) :
    writtenRow conv floats chat_id user_id data now' (some row) = .ok row ↔
      usageAfter conv floats row.usage given = .ok row.usage := by
  have hself : { row.update data with usage := row.usage } = row := by
    cases old with
    | some existing =>
      obtain ⟨usage, -, rfl⟩ := (writtenRow_some hgiven).mp h
      exact existing.update_update usage
    | none =>
      rw [writtenRow_none hgiven] at h
      cases h
      exact newRow_update hrole _
  rw [writtenRow_some hgiven]
  constructor
  · rintro ⟨usage, husage, heq⟩
    rw [husage]
    exact congrArg (fun r => Except.ok r.usage) heq.symm
  · exact fun husage => ⟨row.usage, husage, hself.symm⟩

/-- The usage that is written settles if it settles in the row that is found. -/
theorem writtenRow_again (hrole : (data.field "role").truthy) {old : Option Row}
    (hsettles : UsageSettles conv floats (old.map Row.usage) data)
    (h : writtenRow conv floats chat_id user_id data now old = .ok row) :
    writtenRow conv floats chat_id user_id data now' (some row) = .ok row := by
  have hread : ∃ given, get_usage conv floats data = .ok given := by
    cases old with
    | some existing =>
      obtain ⟨given, hgiven, -⟩ := bind_eq_ok.mp h
      exact ⟨given, hgiven⟩
    | none =>
      obtain ⟨given, hgiven, -⟩ := bind_eq_ok.mp h
      exact ⟨given, hgiven⟩
  obtain ⟨given, hgiven⟩ := hread
  rw [writtenRow_again_iff hrole hgiven h]
  cases old with
  | some existing =>
    obtain ⟨usage, husage, rfl⟩ := (writtenRow_some hgiven).mp h
    exact usageAfter_again hgiven hsettles husage
  | none =>
    rw [writtenRow_none hgiven] at h
    cases h
    cases given with
    | none => rfl
    | some usage => exact usageAfter_stable (hsettles usage hgiven)

/-- Where the usages are plain, a row that is left has a usage that settles. -/
theorem usageSettles_of_again (hrole : (data.field "role").truthy) {old : Option Row}
    (hplain : PlainUsages conv floats (old.map Row.usage) data)
    (h : writtenRow conv floats chat_id user_id data now old = .ok row)
    (hagain : writtenRow conv floats chat_id user_id data now' (some row) = .ok row) :
    UsageSettles conv floats (old.map Row.usage) data := by
  intro usage hgiven
  obtain ⟨hu, hexisting⟩ := hplain usage hgiven
  have hstable : Stable conv floats usage := ⟨hu.whole.normalize_usage, hu.self⟩
  cases old with
  | none => exact hstable
  | some existing =>
    show if existing.usage.truthy then _ else _
    split
    · rename_i htruthy
      intro current hread
      have hc := hexisting existing.usage current rfl htruthy hread
      split
      · exact hc.whole.normalize_usage
      · rename_i hdiffer
        obtain ⟨written, hwritten, rfl⟩ := (writtenRow_some hgiven).mp h
        have hsame := (writtenRow_again_iff hrole hgiven h).mp hagain
        exact ⟨hc, hu, (usageAfter_again_iff hc hu hdiffer hread hwritten).mp hsame⟩
    · exact hstable

/-! ## The table -/

variable {accepts : Row → Bool} {table : MessageTable}

/-- The tables have the same rows. -/
def SameRows (table table' : MessageTable) : Prop := ∀ id, table.get? id = table'.get? id

theorem compositeId_inj {chat_id x y : String} (h : compositeId chat_id x = compositeId chat_id y) :
    x = y := by
  have hlist := congrArg String.toList h
  simp only [compositeId, String.toList_append] at hlist
  exact String.toList_inj.mp (List.append_cancel_left hlist)

/-- The row that one message of the backfill leaves. -/
def rowAfter (conv : Conversions) (floats : Floats) (accepts : Row → Bool)
    (chat_id user_id : String) (now : ℤ) (row : Option Row) : Json → Option Row
  | .dict message =>
    if (Message.field message "role").truthy then
      match writtenRow conv floats chat_id user_id message now row with
      | .ok row' => if accepts row' then some row' else row
      | .error _ => row
    else row
  | _ => row

theorem rowAfter_of_role {data : Message} (hrole : (data.field "role").truthy) (old : Option Row) :
    rowAfter conv floats accepts chat_id user_id now old (.dict data) =
      match writtenRow conv floats chat_id user_id data now old with
      | .ok row => if accepts row then some row else old
      | .error _ => old := by
  rw [rowAfter, if_pos hrole]

/-- **One message** of the backfill changes its row only. -/
theorem get?_backfillMessage (table : MessageTable) (message_id : String) (v : Json) (id : String) :
    (backfillMessage conv floats accepts chat_id user_id now table message_id v).get? id =
      if id = compositeId chat_id message_id then
        rowAfter conv floats accepts chat_id user_id now (table.get? id) v
      else table.get? id := by
  cases v with
  | dict message =>
    rw [backfillMessage, rowAfter, upsert_message]
    by_cases hrole : (Message.field message "role").truthy = true
    · rw [if_pos hrole, if_pos hrole]
      by_cases hid : id = compositeId chat_id message_id
      · subst hid
        rw [if_pos rfl]
        cases hrow : writtenRow conv floats chat_id user_id message now
            (table.get? (compositeId chat_id message_id)) with
        | error e => rfl
        | ok row =>
          by_cases haccepts : accepts row = true
          · simp [bind, Except.bind, haccepts, pure, Except.pure]
          · simp [bind, Except.bind, haccepts]
      · rw [if_neg hid]
        cases hrow : writtenRow conv floats chat_id user_id message now
            (table.get? (compositeId chat_id message_id)) with
        | error e => rfl
        | ok row =>
          by_cases haccepts : accepts row = true
          · simp [bind, Except.bind, haccepts, pure, Except.pure, Dict.get?_set_ne _ hid]
          · simp [bind, Except.bind, haccepts]
    · rw [if_neg hrole, if_neg hrole, ite_self]
  | null | bool | int | float | str | list =>
    show table.get? id = if _ then table.get? id else _
    rw [ite_self]

/-- The backfill of some entries leaves the rows of the other messages. -/
theorem get?_foldl_backfill_ne {entries : List (String × Json)} {id : String}
    (h : ∀ e ∈ entries, id ≠ compositeId chat_id e.1) (table : MessageTable) :
    (entries.foldl (fun table e =>
      backfillMessage conv floats accepts chat_id user_id now table e.1 e.2) table).get? id =
        table.get? id := by
  induction entries generalizing table with
  | nil => rfl
  | cons e entries ih =>
    rw [List.foldl_cons, ih fun e he => h e (List.mem_cons_of_mem _ he), get?_backfillMessage,
      if_neg (h e List.mem_cons_self)]

/-- **The backfill writes each message's row**, and no other row. -/
theorem get?_backfill (table : MessageTable) (messages : Dict String Json) {message_id : String}
    {v : Json} (hv : messages.get? message_id = some v) :
    (backfill_messages_by_chat_id conv floats accepts table chat_id user_id messages now).get?
        (compositeId chat_id message_id) =
      rowAfter conv floats accepts chat_id user_id now
        (table.get? (compositeId chat_id message_id)) v := by
  obtain ⟨pre, post, hentries⟩ := List.append_of_mem (Dict.mem_entries_iff.mpr hv)
  have hnodup := messages.nodup
  rw [hentries, Assoc.keys, List.map_append, List.map_cons, List.nodup_middle, List.nodup_cons,
    List.mem_append, not_or] at hnodup
  have hne : ∀ {l : List (String × Json)}, message_id ∉ l.map Prod.fst →
      ∀ e ∈ l, compositeId chat_id message_id ≠ compositeId chat_id e.1 := by
    intro l hl e he heq
    exact hl (compositeId_inj heq ▸ List.mem_map_of_mem he)
  rw [backfill_messages_by_chat_id, hentries, List.foldl_append, List.foldl_cons,
    get?_foldl_backfill_ne (hne hnodup.1.2), get?_backfillMessage, if_pos rfl,
    get?_foldl_backfill_ne (hne hnodup.1.1)]

theorem get?_backfill_ne (table : MessageTable) (messages : Dict String Json) {id : String}
    (h : ∀ message_id ∈ messages, id ≠ compositeId chat_id message_id) :
    (backfill_messages_by_chat_id conv floats accepts table chat_id user_id messages now).get? id =
      table.get? id :=
  get?_foldl_backfill_ne
    (fun e he => h e.1 (Dict.mem_iff_exists.mpr ⟨e.2, Dict.mem_entries_iff.mp he⟩)) table

/-- **Two runs leave the same rows** exactly when they do so for each message. -/
theorem sameRows_backfill_iff (table : MessageTable) (messages : Dict String Json) :
    SameRows (backfill_messages_by_chat_id conv floats accepts
        (backfill_messages_by_chat_id conv floats accepts table chat_id user_id messages now)
        chat_id user_id messages now')
      (backfill_messages_by_chat_id conv floats accepts table chat_id user_id messages now) ↔
    ∀ message_id v, messages.get? message_id = some v →
      rowAfter conv floats accepts chat_id user_id now' (rowAfter conv floats accepts chat_id user_id
          now (table.get? (compositeId chat_id message_id)) v) v =
        rowAfter conv floats accepts chat_id user_id now
          (table.get? (compositeId chat_id message_id)) v := by
  constructor
  · intro hsame message_id v hv
    have hrow := hsame (compositeId chat_id message_id)
    rwa [get?_backfill _ messages hv, get?_backfill table messages hv] at hrow
  · intro hall id
    by_cases hid : ∃ message_id ∈ messages, id = compositeId chat_id message_id
    · obtain ⟨message_id, hmem, rfl⟩ := hid
      obtain ⟨v, hv⟩ := Dict.mem_iff_exists.mp hmem
      rw [get?_backfill _ messages hv, get?_backfill table messages hv]
      exact hall message_id v hv
    · have hne : ∀ message_id ∈ messages, id ≠ compositeId chat_id message_id :=
        fun message_id hmem heq => hid ⟨message_id, hmem, heq⟩
      rw [get?_backfill_ne _ messages hne]

/-- The database takes a row with either time. -/
def TakesEitherTime (accepts : Row → Bool) (now now' : ℤ) : Prop :=
  ∀ row : Row, accepts { row with created_at := .int now } =
    accepts { row with created_at := .int now' }

/-- A row that is refused is refused at another time. -/
theorem rowAfter_refused (hclock : TakesEitherTime accepts now now') {data : Message}
    {old : Option Row} (hrow : writtenRow conv floats chat_id user_id data now old = .ok row)
    (hrow' : writtenRow conv floats chat_id user_id data now' old = .ok row') :
    accepts row' = accepts row := by
  cases old with
  | some existing =>
    have hread : ∃ given, get_usage conv floats data = .ok given := by
      obtain ⟨given, hgiven, -⟩ := bind_eq_ok.mp hrow
      exact ⟨given, hgiven⟩
    obtain ⟨given, hgiven⟩ := hread
    obtain ⟨usage, husage, rfl⟩ := (writtenRow_some hgiven).mp hrow
    obtain ⟨usage', husage', rfl⟩ := (writtenRow_some hgiven).mp hrow'
    rw [husage] at husage'
    cases husage'
    rfl
  | none =>
    obtain ⟨given, hgiven, -⟩ := bind_eq_ok.mp hrow
    rw [writtenRow_none hgiven] at hrow hrow'
    cases hrow
    cases hrow'
    cases hstamp : Assoc.get? data "timestamp" with
    | none =>
      have h := hclock (newRow chat_id user_id data ((given.map Json.dict).getD .null) now)
      simp only [newRow, hstamp, Option.getD_none] at h ⊢
      exact h.symm
    | some t => simp only [newRow, hstamp, Option.getD_some]

/-- **A message whose usage settles** has its row left by the second run. -/
theorem rowAfter_again (hclock : TakesEitherTime accepts now now') {data : Message}
    (hrole : (data.field "role").truthy) {old : Option Row}
    (hsettles : UsageSettles conv floats (old.map Row.usage) data) :
    rowAfter conv floats accepts chat_id user_id now'
        (rowAfter conv floats accepts chat_id user_id now old (.dict data)) (.dict data) =
      rowAfter conv floats accepts chat_id user_id now old (.dict data) := by
  rw [rowAfter_of_role hrole, rowAfter_of_role hrole]
  cases hrow : writtenRow conv floats chat_id user_id data now old with
  | error e =>
    have hrow' : ∃ e', writtenRow conv floats chat_id user_id data now' old = .error e' := by
      cases old with
      | some existing => exact ⟨e, hrow⟩
      | none =>
        cases hgiven : get_usage conv floats data with
        | ok given =>
          rw [writtenRow_none hgiven] at hrow
          cases hrow
        | error e' =>
          refine ⟨e', ?_⟩
          unfold writtenRow
          rw [hgiven]
          rfl
    obtain ⟨e', hrow'⟩ := hrow'
    simp only [hrow']
  | ok row =>
    by_cases haccepts : accepts row = true
    · simp only [haccepts, if_true, writtenRow_again hrole hsettles hrow]
    · simp only [haccepts, Bool.false_eq_true, if_false]
      cases hrow' : writtenRow conv floats chat_id user_id data now' old with
      | error e => rfl
      | ok row' =>
        simp only [rowAfter_refused hclock hrow hrow', haccepts, Bool.false_eq_true, if_false]

/-! ## Both runs -/

/-- The message is one that the backfill writes. -/
def Written (messages : Dict String Json) (message_id : String) (message : Message) : Prop :=
  messages.get? message_id = some (.dict message) ∧ (message.field "role").truthy = true

/-- Neither run fails to write the row. -/
def WritesSucceed (conv : Conversions) (floats : Floats) (accepts : Row → Bool)
    (chat_id user_id : String) (now now' : ℤ) (old : Option Row) (message : Message) : Prop :=
  ∃ row row', writtenRow conv floats chat_id user_id message now old = .ok row ∧ accepts row ∧
    writtenRow conv floats chat_id user_id message now' (some row) = .ok row' ∧ accepts row'

/-- **A second backfill leaves the rows as they are** if for each message that it writes the usage
settles in the row; and only if, where the usages are plain and no write fails. -/
theorem backfill_again (conv : Conversions) (floats : Floats) (accepts : Row → Bool)
    (chat_id user_id : String) (messages : Dict String Json) (table : MessageTable) (now now' : ℤ)
    (hclock : TakesEitherTime accepts now now') :
    ((∀ message_id message, Written messages message_id message →
        UsageSettles conv floats
          ((table.get? (compositeId chat_id message_id)).map Row.usage) message) →
      SameRows (backfill_messages_by_chat_id conv floats accepts
          (backfill_messages_by_chat_id conv floats accepts table chat_id user_id messages now)
          chat_id user_id messages now')
        (backfill_messages_by_chat_id conv floats accepts table chat_id user_id messages now)) ∧
    ((∀ message_id message, Written messages message_id message →
        PlainUsages conv floats
          ((table.get? (compositeId chat_id message_id)).map Row.usage) message ∧
        WritesSucceed conv floats accepts chat_id user_id now now'
          (table.get? (compositeId chat_id message_id)) message) →
      SameRows (backfill_messages_by_chat_id conv floats accepts
          (backfill_messages_by_chat_id conv floats accepts table chat_id user_id messages now)
          chat_id user_id messages now')
        (backfill_messages_by_chat_id conv floats accepts table chat_id user_id messages now) →
      ∀ message_id message, Written messages message_id message →
        UsageSettles conv floats
          ((table.get? (compositeId chat_id message_id)).map Row.usage) message) := by
  rw [sameRows_backfill_iff]
  constructor
  · intro hsettles message_id v hv
    cases v with
    | dict message =>
      by_cases hrole : (Message.field message "role").truthy = true
      · exact rowAfter_again hclock hrole (hsettles message_id message ⟨hv, hrole⟩)
      · have hnone : ∀ now old, rowAfter conv floats accepts chat_id user_id now old
            (.dict message) = old := fun now old => by rw [rowAfter, if_neg hrole]
        rw [hnone, hnone]
    | null | bool | int | float | str | list => rfl
  · intro hplain hsame message_id message hwritten
    obtain ⟨husages, row, row', hrow, haccepts, hrow', haccepts'⟩ :=
      hplain message_id message hwritten
    have hrows := hsame message_id (.dict message) hwritten.1
    rw [rowAfter_of_role hwritten.2, rowAfter_of_role hwritten.2] at hrows
    simp only [hrow, haccepts, if_true, hrow', haccepts', Option.some.injEq] at hrows
    subst hrows
    exact usageSettles_of_again hwritten.2 husages hrow hrow'

/-! ## Runs -/

/-- A history with one answer, which reports `n` prompt tokens and one generated token. -/
def answerWithUsage (n : ℕ) : Dict String Json :=
  .set .empty "a" (.dict [("role", .str "assistant"),
    ("usage", .dict [("input_tokens", .int n), ("output_tokens", .int 1),
      ("total_tokens", .int (n + 1))])])

/-- A backfill into a database that takes every row. -/
def backfilled (table : MessageTable) (messages : Dict String Json) : MessageTable :=
  backfill_messages_by_chat_id plainConversions noFloats (fun _ => true) table "c" "u" messages 1

/-- The prompt tokens in the row of the answer. -/
def storedInput (table : MessageTable) : Option Json :=
  (table.get? "c-a").map fun row => Message.field (asDict row.usage) "input_tokens"

theorem backfill_again_answer :
    SameRows (backfilled (backfilled .empty (answerWithUsage 7)) (answerWithUsage 7))
      (backfilled .empty (answerWithUsage 7)) := by
  refine (backfill_again plainConversions noFloats (fun _ => true) "c" "u" (answerWithUsage 7)
    .empty 1 1 (fun _ => rfl)).1 fun message_id message hwritten usage husage => ?_
  have hmessage : message_id = "a" ∧ message = asDict (((answerWithUsage 7).get? "a").getD .null) := by
    have hget := hwritten.1
    by_cases hid : "a" = message_id
    · subst hid
      rw [hget]
      exact ⟨rfl, rfl⟩
    · rw [answerWithUsage, Dict.get?_set_ne _ (Ne.symm hid)] at hget
      cases hget
  obtain ⟨rfl, rfl⟩ := hmessage
  have hread : get_usage plainConversions noFloats
      (asDict (((answerWithUsage 7).get? "a").getD .null)) =
        .ok (some [("input_tokens", .int 7), ("output_tokens", .int 1),
          ("total_tokens", .int 8)]) := by
    rfl
  rw [hread] at husage
  cases husage
  exact ⟨rfl, by decide⟩

/-- The row of an answer that has reported 5 prompt tokens. -/
def countedTable : MessageTable := backfilled .empty (answerWithUsage 5)

/-- **The counts grow with each run**, when the message now reports 7 prompt tokens. -/
theorem backfill_counts_again :
    storedInput (backfilled countedTable (answerWithUsage 7)) = some (.int 12) ∧
      storedInput (backfilled (backfilled countedTable (answerWithUsage 7)) (answerWithUsage 7)) =
        some (.int 19) ∧
      ¬ SameRows (backfilled (backfilled countedTable (answerWithUsage 7)) (answerWithUsage 7))
        (backfilled countedTable (answerWithUsage 7)) := by
  have honce : storedInput (backfilled countedTable (answerWithUsage 7)) = some (.int 12) := by
    decide
  have htwice : storedInput (backfilled (backfilled countedTable (answerWithUsage 7))
      (answerWithUsage 7)) = some (.int 19) := by
    decide
  refine ⟨honce, htwice, fun hsame => ?_⟩
  unfold storedInput at honce htwice
  rw [hsame, honce] at htwice
  cases htwice

end OpenLaunch.Chats
