import OpenLaunch.Python.Json

/-! # Chat histories

A chat's `history` maps message ids to message objects, each with the id of its parent in `parentId`
and the ids of its children in `childrenIds`, and names the message the user is looking at in
`currentId`. The map is stored from client JSON, so both link fields may hold any JSON value.

`delete_message_from_history` removes a message and its children, hands the grandchildren to the
message's parent, and walks down to a leaf. Its loop need not end; the model gives it a number of
iterations and returns `none` when they run out. -/

namespace OpenLaunch.Chats

open Python

/-- A message object, as the entries of its JSON object. -/
abbrev Message := List (String × Json)

/-- `message.get(key)`. -/
def Message.field (m : Message) (key : String) : Json := (Assoc.get? m key).getD .null

/-- `message.get('childrenIds', [])`. -/
def Message.childrenIds (m : Message) : Json := (Assoc.get? m "childrenIds").getD (.list [])

/-- `message['parentId'] = v` and `message['childrenIds'] = v`. -/
def Message.setField (m : Message) (key : String) (v : Json) : Message := Assoc.set m key v

/-- The history of a chat. -/
structure History where
  /-- `history['messages']`. -/
  messages : Dict String Message
  /-- `history['currentId']`. -/
  currentId : Json
  deriving DecidableEq

/-- `v in messages`, which raises for an unhashable `v`. -/
def inMessages (messages : Dict String Message) (v : Json) : Except PyErr Bool := do
  let k ← v.key
  match k with
  | .str s => return decide (s ∈ messages)
  | _ => return false

/-- `messages.get(v, {}).get('childrenIds', [])`, which raises for an unhashable `v`. -/
def childrenOf (messages : Dict String Message) (v : Json) : Except PyErr Json := do
  let k ← v.key
  match k with
  | .str s => return ((messages.get? s).map Message.childrenIds).getD (.list [])
  | _ => return .list []

/-- `i`, if it is in the map; only strings are keys of the map. -/
def presentId (messages : Dict String Message) (i : Json) : Except PyErr (Option String) := do
  let here ← inMessages messages i
  return if here then i.str? else none

/-- `[i for i in (v or []) if i in messages]`. -/
def presentIds (messages : Dict String Message) (v : Json) : Except PyErr (List String) := do
  let ids ← (v.or (.list [])).iter
  let present ← ids.mapM (presentId messages)
  return present.reduceOption

/-- What `delete_message_from_history` reads of the links around a message before it changes any. -/
structure Links where
  /-- `parent_id`. -/
  parentId : Json
  /-- `child_ids`. -/
  childIds : List String
  /-- `grandchild_ids`. -/
  grandchildIds : List String
  /-- The parent's key and its other children, when the parent is in the map. -/
  adopter : Option (String × List Json)

/-- The links around the message `message_id`. -/
def readLinks (messages : Dict String Message) (message_id : String) (message : Message) :
    Except PyErr Links := do
  let parent_id := message.field "parentId"
  let child_ids ← presentIds messages (message.field "childrenIds")
  let grandchild_ids ← child_ids.mapM fun child_id =>
    presentIds messages (((messages.get? child_id).getD []).field "childrenIds")
  let parent_here ← inMessages messages parent_id
  match parent_id, parent_here with
  | .str p, true => do
    let siblings ← ((((messages.get? p).getD []).field "childrenIds").or (.list [])).iter
    return ⟨parent_id, child_ids, grandchild_ids.flatten,
      some (p, siblings.filter fun child_id => child_id ≠ .str message_id)⟩
  | _, _ => return ⟨parent_id, child_ids, grandchild_ids.flatten, none⟩

/-- The ids that go: the message and its children. -/
def Links.deletedIds (l : Links) (message_id : String) : List String := message_id :: l.childIds

/-- The child list the parent is left with. -/
def Links.adopted (l : Links) (siblings : List Json) : Json :=
  .list (siblings ++ l.grandchildIds.map .str)

/-- The map once the parent has adopted the grandchildren and the deleted messages are gone. -/
def relink (messages : Dict String Message) (message_id : String) (l : Links) :
    Dict String Message :=
  let adopted :=
    match l.adopter with
    | some (p, siblings) => messages.modify p (·.setField "childrenIds" (l.adopted siblings))
    | none => messages
  let reparented :=
    l.grandchildIds.foldl (fun ms g => ms.modify g (·.setField "parentId" l.parentId)) adopted
  (l.deletedIds message_id).foldl Dict.erase reparented

/-- Where the walk to a leaf starts: the `child_ids` before the loop. -/
def walkStart (messages : Dict String Message) (parent_id : Json) : Except PyErr Json :=
  if parent_id = .null then
    .ok (.list ((messages.entries.filter fun e => e.2.field "parentId" = .null).map fun e =>
      .str e.1))
  else childrenOf messages parent_id

/-- `while child_ids: current_id = child_ids[-1]; child_ids = …`, for at most `n` iterations. -/
def walkToLeaf (messages : Dict String Message) :
    ℕ → (current_id child_ids : Json) → Option (Except PyErr Json)
  | 0, _, _ => none
  | n + 1, current_id, child_ids =>
    if child_ids.truthy then
      match (do let c ← child_ids.last; return (c, ← childrenOf messages c)) with
      | .ok (c, cs) => walkToLeaf messages n c cs
      | .error e => some (.error e)
    else some (.ok current_id)

/-- `ChatTable.delete_message_from_history`: the history afterwards and the deleted ids, or the
exception raised; `none` when `fuel` iterations of the walk are not enough. -/
def delete_message_from_history (fuel : ℕ) (history : History) (message_id : String) :
    Option (Except PyErr (History × List String)) :=
  match history.messages.get? message_id with
  | none => some (.ok (history, []))
  | some message =>
    match readLinks history.messages message_id message with
    | .error e => some (.error e)
    | .ok l =>
      let messages := relink history.messages message_id l
      match walkStart messages l.parentId with
      | .error e => some (.error e)
      | .ok child_ids =>
        (walkToLeaf messages fuel l.parentId child_ids).map fun r => do
          let current_id ← r
          let here ← inMessages messages current_id
          return (⟨messages, if here then current_id else .null⟩, l.deletedIds message_id)

/-- The function returns or raises after finitely many iterations of its loop. -/
def Terminates (history : History) (message_id : String) : Prop :=
  ∃ fuel, delete_message_from_history fuel history message_id ≠ none

end OpenLaunch.Chats
