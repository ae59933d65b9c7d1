import OpenLaunch.Chats.History
import OpenLaunch.Chats.MessageList
import OpenLaunch.Transition

/-! # Writing messages

The writers of a chat's history: `upsert_message_to_chat_by_id_and_message_id` updates a message or
creates it, and `merge_history` merges the history a client sends. The stored history is read by
`get_chat_by_id`, which repairs `currentId` when it names no proper message, and written back by
`update_chat_by_id` without null characters. -/

/-! ## Null characters

Text goes to the database without null characters: `sanitize_data_for_db` removes them from every
string of a value, but not from the keys of its objects. -/

namespace OpenLaunch.Chats

open Python

/-- `sanitize_text_for_db`. -/
def sanitize_text_for_db (s : String) : String :=
  String.ofList (s.toList.filter fun c => c ≠ '\x00')

mutual

/-- `sanitize_data_for_db`; the source takes a shorter way when there is nothing to remove. -/
def sanitize_data_for_db : Json → Json
  | .str s => .str (sanitize_text_for_db s)
  | .list xs => .list (sanitizeItems xs)
  | .dict kvs => .dict (sanitizeEntries kvs)
  | .null => .null
  | .bool b => .bool b
  | .int n => .int n
  | .float x => .float x

/-- The items of a list. -/
def sanitizeItems : List Json → List Json
  | [] => []
  | x :: xs => sanitize_data_for_db x :: sanitizeItems xs

/-- The entries of an object. -/
def sanitizeEntries : List (String × Json) → List (String × Json)
  | [] => []
  | (k, v) :: kvs => (k, sanitize_data_for_db v) :: sanitizeEntries kvs

end

/-- The history, as it is stored. -/
def History.sanitize (history : History) : History where
  messages := history.messages.mapValues fun _ m => sanitizeEntries m
  currentId := sanitize_data_for_db history.currentId

/-! ## What is left -/

/-- The text has no null character. -/
def NullFree (s : String) : Prop := '\x00' ∉ s.toList

instance (s : String) : Decidable (NullFree s) := inferInstanceAs (Decidable (_ ∉ _))

variable {s : String} {v : Json} {m : Message}

theorem nullFree_sanitize_text (s : String) : NullFree (sanitize_text_for_db s) := by
  simp [NullFree, sanitize_text_for_db]

theorem sanitize_text_of_nullFree (h : NullFree s) : sanitize_text_for_db s = s := by
  have hfilter : (s.toList.filter fun c => c ≠ '\x00') = s.toList := by
    rw [List.filter_eq_self]
    intro c hc
    simp only [decide_eq_true_eq]
    rintro rfl
    exact h hc
  rw [sanitize_text_for_db, hfilter, String.ofList_toList]

theorem sanitizeItems_eq (xs : List Json) : sanitizeItems xs = xs.map sanitize_data_for_db := by
  induction xs with
  | nil => rfl
  | cons x xs ih => rw [sanitizeItems, ih, List.map_cons]

theorem sanitizeEntries_eq (kvs : List (String × Json)) :
    sanitizeEntries kvs = kvs.map fun e => (e.1, sanitize_data_for_db e.2) := by
  induction kvs with
  | nil => rfl
  | cons e kvs ih => rw [sanitizeEntries, ih, List.map_cons]

/-- An entry of a message that is stored. -/
theorem get?_sanitizeEntries (m : Message) (k : String) :
    Assoc.get? (sanitizeEntries m) k = (Assoc.get? m k).map sanitize_data_for_db := by
  rw [sanitizeEntries_eq]
  exact Assoc.get?_map (fun _ v => sanitize_data_for_db v) m k

/-- A field of a message that is stored. -/
theorem field_sanitizeEntries (m : Message) (k : String) :
    Message.field (sanitizeEntries m) k = sanitize_data_for_db (m.field k) := by
  rw [Message.field, Message.field, get?_sanitizeEntries]
  cases Assoc.get? m k <;> rfl

/-- **Sanitizing twice is sanitizing once.** -/
theorem sanitize_sanitize (v : Json) :
    sanitize_data_for_db (sanitize_data_for_db v) = sanitize_data_for_db v := by
  induction v with
  | null => rfl
  | bool b => rfl
  | int n => rfl
  | float x => rfl
  | str s =>
    rw [sanitize_data_for_db, sanitize_data_for_db,
      sanitize_text_of_nullFree (nullFree_sanitize_text s)]
  | list xs ih =>
    rw [sanitize_data_for_db, sanitize_data_for_db, sanitizeItems_eq, sanitizeItems_eq,
      List.map_map]
    exact congrArg Json.list (List.map_congr_left ih)
  | dict kvs ih =>
    rw [sanitize_data_for_db, sanitize_data_for_db, sanitizeEntries_eq, sanitizeEntries_eq,
      List.map_map]
    refine congrArg Json.dict (List.map_congr_left fun e he => ?_)
    exact Prod.ext rfl (ih e he)

end OpenLaunch.Chats

namespace OpenLaunch.Chats

open Python

/-! ## Upserting a message -/

/-- The message with its text content sanitized. -/
def sanitizeContent (message : Dict String Json) : Dict String Json :=
  match message.get? "content" with
  | some (.str s) => message.set "content" (.str (sanitize_text_for_db s))
  | _ => message

/-- `message_id in message.get('childrenIds', [])`. -/
def listsChild (message : Message) (message_id : String) : Except PyErr Bool :=
  match message.childrenIds with
  | .list xs => .ok (decide (.str message_id ∈ xs))
  | .str s => .ok (decide (message_id.toList <:+: s.toList))
  | .dict kvs => .ok (decide (message_id ∈ Assoc.keys kvs))
  | _ => .error .typeError

/-- The first message that lists `message_id` among its children. -/
def findParent (message_id : String) : List (String × Message) → Except PyErr (Option String)
  | [] => .ok none
  | (existing_id, existing_message) :: rest => do
    if ← listsChild existing_message message_id then return some existing_id
    findParent message_id rest

/-- `parent_id`: the id the message gives, or that of a message that lists it. -/
def findParentId (messages : Dict String Message) (message_id : String) (message : Message) :
    Except PyErr Json :=
  if message.field "parentId" = .null then do
    let found ← findParent message_id messages.entries
    return match found with
      | some p => .str p
      | none => .null
  else return message.field "parentId"

/-- The role of an output item. -/
def itemRole : Json → Option Json
  | .dict kvs => if (Message.field kvs "role").truthy then some (Message.field kvs "role") else none
  | _ => none

/-- `next((item.get('role') for item in output if …), None)`, of `output or []`. -/
def outputRole (message : Message) : Except PyErr Json := do
  let output ← ((message.field "output").or (.list [])).iter
  return (output.findSome? itemRole).getD .null

/-- The role opposite to the parent's. -/
def oppositeRole (parent_role : Json) : Json :=
  if parent_role = .str "user" then .str "assistant"
  else if parent_role = .str "assistant" then .str "user"
  else .str "assistant"

/-- The role of a new message, given its parent. -/
def newRole (message : Message) (output_role : Json) (parent : Option Message) : Json :=
  let role := (message.field "role").or output_role
  if role.truthy then role else oppositeRole ((parent.getD []).field "role")

/-- The fields a new message is given besides its own. -/
def newFields (message_id : String) (message : Message) (parent_id role now : Json) : Message :=
  [("id", (message.field "id").or (.str message_id)),
    ("parentId", if message.field "parentId" = .null then parent_id
      else message.field "parentId"),
    ("childrenIds", .list (message.field "childrenIds").elems),
    ("role", role),
    ("timestamp", (message.field "timestamp").or now)]

/-- `messages.get(parent_id) if parent_id else None`. -/
def parentMessage (messages : Dict String Message) (parent_id : Json) :
    Except PyErr (Option Message) :=
  if parent_id.truthy then lookup messages parent_id else .ok none

/-- The new message. -/
def newMessage (messages : Dict String Message) (message_id : String) (message : Message)
    (now : ℤ) : Except PyErr Message := do
  let parent_id ← findParentId messages message_id message
  let parent ← parentMessage messages parent_id
  let output_role ← outputRole message
  return Assoc.update message
    (newFields message_id message parent_id (newRole message output_role parent) (.int now))

/-- The message that an upsert stores. -/
def upsertedMessage (messages : Dict String Message) (message_id : String)
    (message : Dict String Json) (now : ℤ) : Except PyErr Message :=
  let message := sanitizeContent message
  match messages.get? message_id with
  | some old => .ok (Assoc.update old message.entries)
  | none => newMessage messages message_id message.entries now

/-- What `upsert_message_to_chat_by_id_and_message_id` makes of the history. -/
def upsertHistory (history : History) (message_id : String) (message : Dict String Json)
    (now : ℤ) : Except PyErr History := do
  let stored ← upsertedMessage history.messages message_id message now
  return ⟨history.messages.set message_id stored, .str message_id⟩

/-! ## Merging a history -/

/-- The entries of a JSON object. -/
def dict? : Json → Option Message
  | .dict kvs => some kvs
  | _ => none

/-- `{**existing, **incoming}`, without the values that are no objects. -/
def mergedMessages (existing : Dict String Message) (incoming : Dict String Json) :
    Dict String Message :=
  ((existing.mapValues fun _ m => Json.dict m).update incoming).filterMap dict?

/-- The ids of the messages whose `parentId` is `p`, in order. -/
def childrenByParent (messages : Dict String Message) (p : String) : List String :=
  (messages.entries.filter fun e => e.2.field "parentId" = .str p).map Prod.fst

/-- The child lists, made anew from the parent links. -/
def rebuildChildren (messages : Dict String Message) : Dict String Message :=
  messages.mapValues fun p m =>
    m.setField "childrenIds" (.list ((childrenByParent messages p).map .str))

/-- `current_id`, if it is in the map. -/
def currentIn (messages : Dict String Message) (current_id : Json) (otherwise : Except PyErr Json) :
    Except PyErr Json := do
  if ← inMessages messages current_id then return current_id else otherwise

/-- `ChatTable.merge_history`, of the stored history and one that a client sends. -/
def merge_history (existing : History) (incoming : Dict String Json) (currentId : Json) :
    Except PyErr History := do
  let merged := mergedMessages existing.messages incoming
  -- `parent_id in merged` raises for an unhashable parent id
  let _ ← merged.values.mapM fun message => inMessages merged (message.field "parentId")
  let current_id ← currentIn merged currentId (currentIn merged existing.currentId (.ok .null))
  return ⟨rebuildChildren merged, current_id⟩

/-! ## Reading the stored history -/

/-- What decides whether `currentId` names a proper message. -/
def isProper (messages : Dict String Message) (m : Message) (output_role : Json) : Bool :=
  (m.field "id").truthy && (m.field "role").truthy &&
    !(output_role = .str "assistant" && m.field "parentId" = .null &&
      !(m.field "timestamp").truthy && 1 < messages.entries.length)

/-- One message of the search for the latest leaf, given the latest so far. -/
def laterLeaf (greater : Json → Json → Except PyErr Bool) (latest : Option String × Json)
    (e : String × Message) : Except PyErr (Option String × Json) := do
  let timestamp := (e.2.field "timestamp").or (.int 0)
  if (e.2.field "role").truthy ∧ (e.2.field "childrenIds").elems = [] then
    if ← greater timestamp latest.2 then return (some e.1, timestamp) else return latest
  else return latest

/-- `_repair_chat_current_id`: the `currentId` of the history that is read. `greater` is `>`. -/
def repairedCurrentId (greater : Json → Json → Except PyErr Bool) (history : History) :
    Except PyErr Json := do
  let current ← lookup history.messages history.currentId
  let output_role ← outputRole (current.getD [])
  if current.any fun m => isProper history.messages m output_role then return history.currentId
  let latest ← history.messages.entries.foldlM (laterLeaf greater) (none, .int (-1))
  return match latest.1 with
    | some leaf => if leaf = "" then history.currentId else .str leaf
    | none => history.currentId

/-- The history `get_chat_by_id` reads and leaves stored; an exception makes it return `None`. -/
def readHistory (greater : Json → Json → Except PyErr Bool) (history : History) :
    Except PyErr History := do
  let currentId ← repairedCurrentId greater history
  return History.sanitize ⟨history.messages, currentId⟩

end OpenLaunch.Chats

/-! ## Runs of the writers of a history

A run is a sequence of upserts, merges and deletions of one stored history. An upsert writes the
message it is given and nothing else; that the child list of its parent names it is left to the
caller, which upserts the parent too. A run therefore carries the ids that wait for this. -/

namespace OpenLaunch.Chats

open Python

/-! ## Steps -/

/-- A call of one of the writers. A deletion is given the number of iterations of its loop. -/
inductive Change
  | upsert (message_id : String) (message : Dict String Json) (now : ℤ)
  | merge (messages : Dict String Json) (currentId : Json)
  | delete (fuel : ℕ) (message_id : String)

/-- What is stored after a call that may raise. -/
def storedAfter (history : History) : Except PyErr History → History
  | .ok history' => history'.sanitize
  | .error _ => history

/-- What is stored after a deletion; without a deleted id nothing is written. -/
def storedAfterDelete (history : History) : Except PyErr (History × List String) → History
  | .ok (_, []) => history
  | .ok (history', _ :: _) => history'.sanitize
  | .error _ => history

/-- The stored history after a call that finds `history`; `none` if the call does not end. -/
def applyChange (history : History) : Change → Option History
  | .upsert message_id message now =>
    some (storedAfter history (upsertHistory history message_id message now))
  | .merge messages currentId => some (storedAfter history (merge_history history messages currentId))
  | .delete fuel message_id =>
    (delete_message_from_history fuel history message_id).map (storedAfterDelete history)

/-- The `childrenIds` of a message list `c`. -/
def ListsId (m : Message) (c : String) : Prop := .str c ∈ (m.field "childrenIds").elems

instance (m : Message) (c : String) : Decidable (ListsId m c) := inferInstanceAs (Decidable (_ ∈ _))

/-- The message at `p` lists `c`. -/
def listedAt (messages : Dict String Message) (p c : String) : Bool :=
  (messages.get? p).any fun m => ListsId m c

/-- The message names a parent that does not list it. -/
def unlisted (messages : Dict String Message) (message_id : String) (message : Message) : Bool :=
  match message.field "parentId" with
  | .str p => !listedAt messages p message_id
  | _ => false

/-- The ids whose parent is still to be told of them. -/
def waitingAfter (history : History) (waiting : List String) : Change → List String
  | .upsert message_id message _ =>
    if message_id ∈ history.messages then waiting.filter fun c => ¬ ListsId message.entries c
    else if unlisted history.messages message_id message.entries then message_id :: waiting
    else waiting
  | .merge messages currentId =>
    match merge_history history messages currentId with
    | .ok _ => []
    | .error _ => waiting
  | .delete _ _ => waiting

/-- One call, on the stored history and the ids that wait. -/
def changeStep (greater : Json → Json → Except PyErr Bool) (s : History × List String)
    (change : Change) : Option (History × List String) :=
  match readHistory greater s.1 with
  | .error _ => some s
  | .ok history => (applyChange history change).map fun history' =>
      (history', waitingAfter history s.2 change)

/-! ## Which calls agree with the stored links -/

/-- A new message: it names an existing parent or none, no other message lists it, and it lists
exactly the messages that name it. -/
structure CreatesAgreeing (messages : Dict String Message) (message_id : String)
    (message : Message) : Prop where
  parent : message.field "parentId" = .null ∨ ∃ p ∈ messages, message.field "parentId" = .str p
  only : ∀ p m, messages.get? p = some m → ListsId m message_id →
    message.field "parentId" = .str p ∨ (message.field "parentId" = .null ∧
      ∀ q m', messages.get? q = some m' → ListsId m' message_id → q = p)
  children : ∀ c m, messages.get? c = some m →
    (ListsId message c ↔ m.field "parentId" = .str message_id)
  clean : ∀ v ∈ (message.field "childrenIds").elems,
    sanitize_data_for_db v = v ∧ v ≠ .str message_id

/-- An update: it leaves the parent as it is, and a child list it gives keeps the listed messages
and adds only messages that name this one. -/
structure UpdatesAgreeing (messages : Dict String Message) (message_id : String) (old : Message)
    (message : Dict String Json) : Prop where
  parent : message.get? "parentId" = none ∨
    message.get? "parentId" = some (old.field "parentId")
  children : message.get? "childrenIds" = none ∨
    ∃ cs, message.get? "childrenIds" = some (.list cs) ∧
      (∀ v ∈ cs, sanitize_data_for_db v = v) ∧
      ∀ c m, messages.get? c = some m → (.str c ∈ cs → m.field "parentId" = .str message_id) ∧
        (ListsId old c → .str c ∈ cs)

/-- The call agrees with the links of the stored history, and its ids have no null characters. -/
def LinksAgree (history : History) : Change → Prop
  | .upsert message_id message _ => NullFree message_id ∧
    match history.messages.get? message_id with
    | none => CreatesAgreeing history.messages message_id message.entries
    | some old => UpdatesAgreeing history.messages message_id old message
  | .merge messages _ => ∀ c m, messages.get? c = some (.dict m) → NullFree c ∧
    sanitize_data_for_db (Message.field m "parentId") = Message.field m "parentId"
  | .delete _ _ => True

/-! ## What holds in every state -/

/-- **The two link fields mirror each other**, apart from the ids whose parent is to be told. -/
structure TreeConsistent (history : History) (waiting : List String) : Prop where
  sound : ∀ p m c m', history.messages.get? p = some m → history.messages.get? c = some m' →
    ListsId m c → m'.field "parentId" = .str p
  listed : ∀ p m c m', history.messages.get? p = some m → history.messages.get? c = some m' →
    m'.field "parentId" = .str p → c ∉ waiting → ListsId m c
  current : history.currentId = .null ∨ ∃ c ∈ history.messages, history.currentId = .str c

end OpenLaunch.Chats
