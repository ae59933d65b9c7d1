import OpenLaunch.Access.Grants
import OpenLaunch.Python.Lines
import OpenLaunch.Sockets.YdocUpdates
import Mathlib.Data.Finset.Basic

/-! # The documents of notes

A client names a document by a string. Three names are made of it: the normalised one, which is the
name of the room, the key under which the updates are stored, and the note whose access is checked.
The updates of a note are stored under the key of `note:` and its identifier. -/

namespace OpenLaunch.Sockets

open Access Python Transition SnapshotLog

universe u v

/-! ## Names -/

/-- `normalize_document_id`. -/
def normalize_document_id (document_id : List Char) : List Char :=
  if "note_".toList.isPrefixOf document_id then "note:".toList ++ document_id.drop 5
  else document_id

/-- `document_id.replace(':', '_')`, of every method of `YdocManager`. -/
def storageKey (document_id : List Char) : List Char :=
  document_id.map fun c => if c = ':' then '_' else c

/-- `document_id.split(':')[1]` of an identifier that starts with `note:`, and so has two parts. -/
def noteId (document_id : List Char) : Option (List Char) :=
  if "note:".toList.isPrefixOf document_id then
    let parts := splitLines ':' document_id
    some ((parts.1 ++ [parts.2]).getD 1 [])
  else none

/-- The document of a note. -/
def noteDocument (note_id : List Char) : List Char := "note:".toList ++ note_id

/-- A character that is stored as `d`, which is not an underscore, is `d`. -/
theorem eq_of_stored {c d : Char} (hd : d ≠ '_') (h : (if c = ':' then '_' else c) = d) :
    c = d := by
  by_cases hc : c = ':'
  · rw [if_pos hc] at h
    exact absurd h.symm hd
  · rwa [if_neg hc] at h

/-- A name that is stored as one without separators is that one. -/
theorem eq_of_storageKey {cs ds : List Char} (hcolon : ':' ∉ ds) (hunderscore : '_' ∉ ds)
    (h : storageKey cs = storageKey ds) : cs = ds := by
  have hds : storageKey ds = ds := by
    unfold storageKey
    refine (List.map_congr_left fun d hd => if_neg ?_).trans (List.map_id ds)
    rintro rfl
    exact hcolon hd
  rw [hds] at h
  subst h
  refine (List.map_id cs).symm.trans (List.map_congr_left fun c hc => ?_)
  by_cases hcc : c = ':'
  · have hmem : '_' ∈ storageKey cs := List.mem_map.mpr ⟨c, hc, if_pos hcc⟩
    exact absurd hmem hunderscore
  · exact (if_neg hcc).symm

/-- A normalised name does not start with `note_`. -/
theorem not_isPrefixOf_normalize (document_id : List Char) :
    "note_".toList.isPrefixOf (normalize_document_id document_id) = false := by
  unfold normalize_document_id
  split
  · rfl
  · next h => exact Bool.eq_false_iff.mpr h

/-- **Names of one key.** Where the identifier of a note has neither separator, only the name of its
document is stored under the key of its document. -/
theorem normalize_eq_noteDocument {document_id note_id : List Char} (hcolon : ':' ∉ note_id)
    (hunderscore : '_' ∉ note_id)
    (h : storageKey (normalize_document_id document_id) = storageKey (noteDocument note_id)) :
    normalize_document_id document_id = noteDocument note_id := by
  have hnot := not_isPrefixOf_normalize document_id
  generalize normalize_document_id document_id = cs at h hnot
  replace h : storageKey cs = 'n' :: 'o' :: 't' :: 'e' :: '_' :: storageKey note_id := h
  obtain ⟨c₁, cs, rfl, hn, h₁⟩ := List.map_eq_cons_iff.mp h
  obtain ⟨c₂, cs, rfl, ho, h₂⟩ := List.map_eq_cons_iff.mp h₁
  obtain ⟨c₃, cs, rfl, ht, h₃⟩ := List.map_eq_cons_iff.mp h₂
  obtain ⟨c₄, cs, rfl, he, h₄⟩ := List.map_eq_cons_iff.mp h₃
  obtain ⟨c₅, cs, rfl, hsep, h₅⟩ := List.map_eq_cons_iff.mp h₄
  obtain rfl := eq_of_stored (by decide) hn
  obtain rfl := eq_of_stored (by decide) ho
  obtain rfl := eq_of_stored (by decide) ht
  obtain rfl := eq_of_stored (by decide) he
  obtain rfl := eq_of_storageKey hcolon hunderscore h₅
  by_cases hc : c₅ = ':'
  · rw [hc]
    rfl
  · -- the fifth character would be an underscore
    rw [if_neg hc] at hsep
    rw [hsep] at hnot
    exact absurd hnot (by simp [List.isPrefixOf])

/-- The check of the document of a note is made on that note. -/
theorem noteId_noteDocument {note_id : List Char} (hcolon : ':' ∉ note_id) :
    noteId (noteDocument note_id) = some note_id := by
  have hsplit : splitLines ':' (noteDocument note_id) = (["note".toList], note_id) := by
    have hrest : splitLines ':' note_id = ([], note_id) := by
      have := splitLines_append_of_not_mem hcolon []
      rw [List.append_nil] at this
      rw [this]
      simp [splitLines, prependLine]
    show splitLines ':' ("note".toList ++ ':' :: note_id) = _
    rw [splitLines_append_of_not_mem (by decide), splitLines, if_pos rfl, hrest]
    rfl
  have hstarts : "note:".toList.isPrefixOf (noteDocument note_id) = true := by
    simp [noteDocument, List.isPrefixOf]
  unfold noteId
  rw [if_pos hstarts, hsplit]
  rfl

/-! ## Handlers -/

/-- A row of `note`, as far as the handlers read and write it. -/
structure Note where
  id : String
  user_id : String
  data : Dict String Json

/-- What the handlers read and write. A room is named by the identifier of its document, and the
users and the updates of a document are under its key. -/
structure YdocServer (Sid : Type u) (D : Type v) where
  session_pool : Sid → Option User
  db : Database
  notes : List Note
  rooms : Sid → Finset (List Char)
  users : List Char → Finset Sid
  /-- With Redis, the keys of the documents that a session joined. -/
  documents : Sid → Finset (List Char)
  updates : List Char → List D
  /-- The calls of `debounced_save` that are to come. -/
  saves : List (List Char × Dict String Json × User)

variable {Sid : Type u} [DecidableEq Sid] {D : Type v} [SemilatticeSup D] [OrderBot D]

namespace YdocServer

/-- `Notes.get_note_by_id`. -/
def get_note_by_id (s : YdocServer Sid D) (note_id : List Char) : Option Note :=
  s.notes.find? fun note => note.id = String.ofList note_id

/-- The administrator, the owner, and who has a grant. -/
def permits (s : YdocServer Sid D) (user : User) (note : Note) (permission : String) : Bool :=
  user.role = "admin" || user.id = note.user_id ||
    AccessGrantsTable.has_access s.db user.id "note" note.id permission none

/-- The check that a handler makes on the identifier of a document, which is that of a note or not.
-/
def passes (s : YdocServer Sid D) (user : User) (document_id : List Char) (permission : String) :
    Bool :=
  match noteId document_id with
  | some note_id =>
    match s.get_note_by_id note_id with
    | some note => s.permits user note permission
    | none => false
  | none => true

/-- `YdocManager.add_user` and `sio.enter_room`. -/
def add_user (redis : Bool) (s : YdocServer Sid D) (document_id : List Char) (sid : Sid) :
    YdocServer Sid D :=
  let key := storageKey document_id
  { s with
    users := Function.update s.users key (insert sid (s.users key))
    documents :=
      if redis then Function.update s.documents sid (insert key (s.documents sid)) else s.documents
    rooms := Function.update s.rooms sid (insert document_id (s.rooms sid)) }

/-- `YdocManager.remove_user` and `sio.leave_room`. -/
def remove_user (redis : Bool) (s : YdocServer Sid D) (document_id : List Char) (sid : Sid) :
    YdocServer Sid D :=
  let key := storageKey document_id
  { s with
    users := Function.update s.users key ((s.users key).erase sid)
    documents :=
      if redis then Function.update s.documents sid ((s.documents sid).erase key) else s.documents
    rooms := Function.update s.rooms sid ((s.rooms sid).erase document_id) }

/-- `YdocManager.clear_document`. -/
def clear_document (s : YdocServer Sid D) (key : List Char) : YdocServer Sid D :=
  { s with
    users := Function.update s.users key ∅
    updates := Function.update s.updates key [] }

/-- `ydoc_document_join`: the state after it, and the state of the document that is sent. -/
def ydoc_document_join (redis : Bool) (s : YdocServer Sid D) (sid : Sid)
    (document_id : List Char) : Option (YdocServer Sid D × D) :=
  match s.session_pool sid with
  | some user =>
    let document_id := normalize_document_id document_id
    if s.passes user document_id "read" then
      some (s.add_user redis document_id sid, merge (s.updates (storageKey document_id)))
    else none
  | none => none

/-- `yjs_document_state`: the state of the document that is sent. -/
def yjs_document_state (s : YdocServer Sid D) (sid : Sid) (document_id : List Char) : Option D :=
  let document_id := normalize_document_id document_id
  if document_id ∈ s.rooms sid ∧ (s.updates (storageKey document_id)).length ≠ 0 then
    some (merge (s.updates (storageKey document_id)))
  else none

/-- `yjs_document_update`; with data, the document is to be saved. -/
def yjs_document_update (s : YdocServer Sid D) (sid : Sid) (document_id : List Char) (update : D)
    (data : Option (Dict String Json)) : Option (YdocServer Sid D) :=
  let document_id := normalize_document_id document_id
  if document_id ∈ s.rooms sid then
    match s.session_pool sid with
    | some user =>
      if s.passes user document_id "write" then
        let key := storageKey document_id
        some { s with
          updates := Function.update s.updates key (append_to_updates (s.updates key) update)
          saves := s.saves ++ (data.map fun data => (document_id, data, user)).toList }
      else none
    | none => none
  else none

/-- `document_save_handler`: the notes after it. -/
def document_save_handler (s : YdocServer Sid D) (document_id : List Char)
    (data : Dict String Json) (user : User) : Option (List Note) :=
  let document_id := normalize_document_id document_id
  match noteId document_id with
  | some note_id =>
    if s.passes user document_id "write" then
      some (s.notes.map fun note =>
        if note.id = String.ofList note_id then { note with data := note.data.update data }
        else note)
    else none
  | none => none

/-- `yjs_document_leave`. -/
def yjs_document_leave (redis : Bool) (s : YdocServer Sid D) (sid : Sid)
    (document_id : List Char) : YdocServer Sid D :=
  match s.session_pool sid with
  | some _ =>
    let document_id := normalize_document_id document_id
    let key := storageKey document_id
    let s := s.remove_user redis document_id sid
    if (s.updates key).length ≠ 0 ∧ s.users key = ∅ then s.clear_document key else s
  | none => s

/-- The documents from which a disconnection removes the session. -/
def visits (redis : Bool) (s : YdocServer Sid D) (sid : Sid) (key : List Char) : Bool :=
  if redis then key ∈ s.documents sid else sid ∈ s.users key

/-- `disconnect`: the session is removed from its documents, which are cleared if they have no users
then, and it leaves its rooms. -/
def disconnect (redis : Bool) (s : YdocServer Sid D) (sid : Sid) : YdocServer Sid D :=
  let s := { s with rooms := Function.update s.rooms sid ∅ }
  match s.session_pool sid with
  | some _ =>
    { s with
      session_pool := Function.update s.session_pool sid none
      users := fun key => if s.visits redis sid key then (s.users key).erase sid else s.users key
      documents := Function.update s.documents sid ∅
      updates := fun key =>
        if s.visits redis sid key ∧ (s.users key).erase sid = ∅ then [] else s.updates key }
  | none => s

/-- No session, for some notes. -/
def start (db : Database) (notes : List Note) : YdocServer Sid D :=
  ⟨fun _ => none, db, notes, fun _ => ∅, fun _ => ∅, fun _ => ∅, fun _ => [], []⟩

end YdocServer

/-- The events. An entry of the session pool and the tables are written by other handlers, in any
way. -/
inductive YdocEvent (Sid : Type u) (D : Type v)
  | session (sid : Sid) (user : Option User)
  | database (db : Database) (notes : List Note)
  | join (sid : Sid) (document_id : List Char)
  | state (sid : Sid) (document_id : List Char)
  | update (sid : Sid) (document_id : List Char) (update : D) (data : Option (Dict String Json))
  | save (k : ℕ)
  | leave (sid : Sid) (document_id : List Char)
  | disconnect (sid : Sid)

/-- One event, with or without Redis. What a handler refuses changes nothing. -/
def ydocStep (redis : Bool) (s : YdocServer Sid D) : YdocEvent Sid D → Option (YdocServer Sid D)
  | .session sid user => some { s with session_pool := Function.update s.session_pool sid user }
  | .database db notes => some { s with db := db, notes := notes }
  | .join sid document_id =>
    some (((s.ydoc_document_join redis sid document_id).map Prod.fst).getD s)
  | .state _ _ => some s
  | .update sid document_id update data =>
    some ((s.yjs_document_update sid document_id update data).getD s)
  | .save k => s.saves[k]?.map fun save =>
    { s with
      notes := (s.document_save_handler save.1 save.2.1 save.2.2).getD s.notes
      saves := s.saves.eraseIdx k }
  | .leave sid document_id => some (s.yjs_document_leave redis sid document_id)
  | .disconnect sid => some (s.disconnect redis sid)

/-! ## The checks -/

/-- A user has a permission on the note with an identifier. -/
def Permitted (s : YdocServer Sid D) (user : User) (note_id : List Char) (permission : String) :
    Prop :=
  ∃ note, s.get_note_by_id note_id = some note ∧ s.permits user note permission = true

/-- The identifier that a client sends is stored as the document of the note. -/
def Names (document_id note_id : List Char) : Prop :=
  storageKey (normalize_document_id document_id) = storageKey (noteDocument note_id)

/-- **The checks of one event**, for a note: who joins its document has read access to the note, who
updates it or saves it has write access; and its updates are changed only by an update, or by a
session that goes and leaves the document without users and without updates. -/
structure NoteChecked (redis : Bool) (note_id : List Char) (s : YdocServer Sid D)
    (e : YdocEvent Sid D) : Prop where
  join : ∀ sid document_id, e = .join sid document_id → Names document_id note_id →
    ∀ r, s.ydoc_document_join redis sid document_id = some r →
      ∃ user, s.session_pool sid = some user ∧ Permitted s user note_id "read"
  update : ∀ sid document_id update data, e = .update sid document_id update data →
    Names document_id note_id → ∀ s', s.yjs_document_update sid document_id update data = some s' →
      ∃ user, s.session_pool sid = some user ∧ Permitted s user note_id "write"
  save : ∀ k document_id data user, e = .save k → s.saves[k]? = some (document_id, data, user) →
    Names document_id note_id →
      ∀ notes, s.document_save_handler document_id data user = some notes →
        Permitted s user note_id "write"
  changed : ∀ s', ydocStep redis s e = some s' →
    s'.updates (storageKey (noteDocument note_id)) ≠
      s.updates (storageKey (noteDocument note_id)) →
    (∃ sid document_id update data user, e = .update sid document_id update data ∧
      s.session_pool sid = some user ∧ Permitted s user note_id "write") ∨
    (∃ sid, (∃ document_id, e = .leave sid document_id) ∨ e = .disconnect sid) ∧
      s'.users (storageKey (noteDocument note_id)) = ∅ ∧
      s'.updates (storageKey (noteDocument note_id)) = []

variable {redis : Bool} {s s' : YdocServer Sid D} {e : YdocEvent Sid D} {note_id : List Char}

/-- The check of the document of a note. -/
theorem permitted_of_passes (hcolon : ':' ∉ note_id) {user : User} {permission : String}
    (h : s.passes user (noteDocument note_id) permission = true) :
    Permitted s user note_id permission := by
  unfold YdocServer.passes at h
  rw [noteId_noteDocument hcolon] at h
  dsimp only at h
  split at h
  · next note hnote => exact ⟨note, hnote, h⟩
  · cases h

theorem permitted_of_join (hcolon : ':' ∉ note_id) (hunderscore : '_' ∉ note_id) {sid : Sid}
    {document_id : List Char} (hnames : Names document_id note_id)
    {r : YdocServer Sid D × D} (h : s.ydoc_document_join redis sid document_id = some r) :
    ∃ user, s.session_pool sid = some user ∧ Permitted s user note_id "read" := by
  unfold YdocServer.ydoc_document_join at h
  split at h
  · next user huser =>
    rw [Option.ite_none_right_eq_some, normalize_eq_noteDocument hcolon hunderscore hnames] at h
    exact ⟨user, huser, permitted_of_passes hcolon h.1⟩
  · cases h

theorem permitted_of_update (hcolon : ':' ∉ note_id) (hunderscore : '_' ∉ note_id) {sid : Sid}
    {document_id : List Char} {update : D} {data : Option (Dict String Json)}
    (hnames : Names document_id note_id)
    (h : s.yjs_document_update sid document_id update data = some s') :
    ∃ user, s.session_pool sid = some user ∧ Permitted s user note_id "write" := by
  unfold YdocServer.yjs_document_update at h
  rw [normalize_eq_noteDocument hcolon hunderscore hnames] at h
  rw [Option.ite_none_right_eq_some] at h
  obtain ⟨-, h⟩ := h
  split at h
  · next user huser =>
    rw [Option.ite_none_right_eq_some] at h
    exact ⟨user, huser, permitted_of_passes hcolon h.1⟩
  · cases h

theorem permitted_of_save (hcolon : ':' ∉ note_id) (hunderscore : '_' ∉ note_id)
    {document_id : List Char} {data : Dict String Json} {user : User} {notes : List Note}
    (hnames : Names document_id note_id)
    (h : s.document_save_handler document_id data user = some notes) :
    Permitted s user note_id "write" := by
  unfold YdocServer.document_save_handler at h
  rw [normalize_eq_noteDocument hcolon hunderscore hnames] at h
  dsimp only at h
  split at h
  · rw [Option.ite_none_right_eq_some] at h
    exact permitted_of_passes hcolon h.1
  · cases h

/-- An update of a document changes no other one. -/
theorem updates_yjs_document_update {sid : Sid} {document_id key : List Char} {update : D}
    {data : Option (Dict String Json)}
    (h : s.yjs_document_update sid document_id update data = some s')
    (hkey : key ≠ storageKey (normalize_document_id document_id)) :
    s'.updates key = s.updates key := by
  unfold YdocServer.yjs_document_update at h
  rw [Option.ite_none_right_eq_some] at h
  obtain ⟨-, h⟩ := h
  split at h
  · rw [Option.ite_none_right_eq_some] at h
    rw [← Option.some.inj h.2]
    exact Function.update_of_ne hkey _ _
  · cases h

/-- A session that leaves changes the updates of a document only by clearing it. -/
theorem updates_yjs_document_leave {sid : Sid} {document_id key : List Char}
    (h : (s.yjs_document_leave redis sid document_id).updates key ≠ s.updates key) :
    (s.yjs_document_leave redis sid document_id).users key = ∅ ∧
      (s.yjs_document_leave redis sid document_id).updates key = [] := by
  unfold YdocServer.yjs_document_leave at h ⊢
  split at h
  · dsimp only at h ⊢
    split_ifs at h ⊢ with hcleared
    · by_cases hkey : key = storageKey (normalize_document_id document_id)
      · rw [hkey]
        exact ⟨Function.update_self .., Function.update_self ..⟩
      · exact absurd (Function.update_of_ne hkey _ _) h
    · exact absurd rfl h
  · exact absurd rfl h

/-- A session that is disconnected changes the updates of a document only by clearing it. -/
theorem updates_disconnect {sid : Sid} {key : List Char}
    (h : (s.disconnect redis sid).updates key ≠ s.updates key) :
    (s.disconnect redis sid).users key = ∅ ∧ (s.disconnect redis sid).updates key = [] := by
  unfold YdocServer.disconnect at h ⊢
  dsimp only at h ⊢
  split at h
  · dsimp only at h ⊢
    rw [ite_ne_right_iff] at h
    rw [if_pos h.1.1, if_pos h.1]
    exact ⟨h.1.2, rfl⟩
  · exact absurd rfl h

/-- A session that joins a document changes no updates and enters the room. -/
theorem data_ydoc_document_join {sid : Sid} {document_id : List Char} {r : YdocServer Sid D × D}
    (h : s.ydoc_document_join redis sid document_id = some r) :
    r.1.updates = s.updates ∧
      r.1.rooms = Function.update s.rooms sid
        (insert (normalize_document_id document_id) (s.rooms sid)) := by
  unfold YdocServer.ydoc_document_join at h
  split at h
  · rw [Option.ite_none_right_eq_some] at h
    rw [← Option.some.inj h.2]
    exact ⟨rfl, rfl⟩
  · cases h

/-- The updates of a document after one event. -/
theorem updates_of_step {key : List Char} (hstep : ydocStep redis s e = some s')
    (hchanged : s'.updates key ≠ s.updates key) :
    (∃ sid document_id update data, e = .update sid document_id update data ∧
      key = storageKey (normalize_document_id document_id) ∧
      s.yjs_document_update sid document_id update data = some s') ∨
    (∃ sid, (∃ document_id, e = .leave sid document_id) ∨ e = .disconnect sid) ∧
      s'.users key = ∅ ∧ s'.updates key = [] := by
  cases e with
  | session sid user | database db notes | state sid document_id =>
    cases hstep
    exact absurd rfl hchanged
  | join sid document_id =>
    cases hstep
    cases hjoin : s.ydoc_document_join redis sid document_id with
    | none =>
      rw [hjoin] at hchanged
      exact absurd rfl hchanged
    | some r =>
      rw [hjoin] at hchanged
      exact absurd (congrFun (data_ydoc_document_join hjoin).1 key) hchanged
  | update sid document_id update data =>
    cases hstep
    cases hupdate : s.yjs_document_update sid document_id update data with
    | none =>
      rw [hupdate] at hchanged
      exact absurd rfl hchanged
    | some s'' =>
      refine Or.inl ⟨sid, document_id, update, data, rfl, ?_, by rw [hupdate]; rfl⟩
      by_contra hkey
      rw [hupdate] at hchanged
      exact hchanged (updates_yjs_document_update hupdate hkey)
  | save k =>
    obtain ⟨save, -, rfl⟩ := Option.map_eq_some_iff.mp hstep
    exact absurd rfl hchanged
  | leave sid document_id =>
    cases hstep
    exact Or.inr ⟨⟨sid, Or.inl ⟨document_id, rfl⟩⟩, updates_yjs_document_leave hchanged⟩
  | disconnect sid =>
    cases hstep
    exact Or.inr ⟨⟨sid, Or.inr rfl⟩, updates_disconnect hchanged⟩

/-- Every event is checked, in every state. -/
theorem noteChecked (redis : Bool) (hcolon : ':' ∉ note_id) (hunderscore : '_' ∉ note_id)
    (s : YdocServer Sid D) (e : YdocEvent Sid D) : NoteChecked redis note_id s e where
  join _ _ _ hnames _ h := permitted_of_join hcolon hunderscore hnames h
  update _ _ _ _ _ hnames _ h := permitted_of_update hcolon hunderscore hnames h
  save _ _ _ _ _ _ hnames _ h := permitted_of_save hcolon hunderscore hnames h
  changed s' hstep hchanged := by
    rcases updates_of_step hstep hchanged with
      ⟨sid, document_id, update, data, rfl, hkey, hupdate⟩ | hgone
    · obtain ⟨user, huser, hpermitted⟩ :=
        permitted_of_update hcolon hunderscore hkey.symm hupdate
      exact Or.inl ⟨sid, document_id, update, data, user, rfl, huser, hpermitted⟩
    · exact Or.inr hgone

/-- A session comes into the room of a document only by joining it. -/
theorem join_of_room {sid : Sid} {document_id : List Char} (hbefore : document_id ∉ s.rooms sid)
    (hstep : ydocStep redis s e = some s') (hafter : document_id ∈ s'.rooms sid) :
    ∃ document_id' r, e = .join sid document_id' ∧
      normalize_document_id document_id' = document_id ∧
      s.ydoc_document_join redis sid document_id' = some r := by
  cases e with
  | session sid' user | database db notes | state sid' document_id' =>
    cases hstep
    exact absurd hafter hbefore
  | join sid' document_id' =>
    cases hstep
    cases hjoin : s.ydoc_document_join redis sid' document_id' with
    | none =>
      rw [hjoin] at hafter
      exact absurd hafter hbefore
    | some r =>
      rw [hjoin] at hafter
      replace hafter : document_id ∈ r.1.rooms sid := hafter
      rw [(data_ydoc_document_join hjoin).2] at hafter
      rcases eq_or_ne sid sid' with rfl | hsid
      · rw [Function.update_self, Finset.mem_insert] at hafter
        exact ⟨document_id', r, rfl, (hafter.resolve_right hbefore).symm, hjoin⟩
      · rw [Function.update_of_ne hsid] at hafter
        exact absurd hafter hbefore
  | update sid' document_id' update data =>
    cases hstep
    have hrooms : ((s.yjs_document_update sid' document_id' update data).getD s).rooms =
        s.rooms := by
      cases hupdate : s.yjs_document_update sid' document_id' update data with
      | none => rfl
      | some s'' =>
        unfold YdocServer.yjs_document_update at hupdate
        rw [Option.ite_none_right_eq_some] at hupdate
        obtain ⟨-, hupdate⟩ := hupdate
        split at hupdate
        · rw [Option.ite_none_right_eq_some] at hupdate
          rw [← Option.some.inj hupdate.2]
          rfl
        · cases hupdate
    rw [hrooms] at hafter
    exact absurd hafter hbefore
  | save k =>
    obtain ⟨save, -, rfl⟩ := Option.map_eq_some_iff.mp hstep
    exact absurd hafter hbefore
  | leave sid' document_id' =>
    cases hstep
    have hrooms : document_id ∈ (s.yjs_document_leave redis sid' document_id').rooms sid →
        document_id ∈ s.rooms sid := by
      unfold YdocServer.yjs_document_leave
      split
      · dsimp only
        split_ifs
        all_goals
          show document_id ∈ Function.update s.rooms sid' _ sid → _
          intro h
          rcases eq_or_ne sid sid' with rfl | hsid
          · rw [Function.update_self] at h
            exact Finset.mem_of_mem_erase h
          · rwa [Function.update_of_ne hsid] at h
      · exact id
    exact absurd (hrooms hafter) hbefore
  | disconnect sid' =>
    cases hstep
    have hrooms : (s.disconnect redis sid').rooms = Function.update s.rooms sid' ∅ := by
      unfold YdocServer.disconnect
      dsimp only
      split <;> rfl
    rw [hrooms] at hafter
    rcases eq_or_ne sid sid' with rfl | hsid
    · rw [Function.update_self] at hafter
      exact absurd hafter (Finset.notMem_empty _)
    · rw [Function.update_of_ne hsid] at hafter
      exact absurd hafter hbefore

/-- **The documents of notes over runs.** For every note whose identifier has neither separator,
every event of a run is checked; and a session that is sent the state of the document has joined it
before, with read access to the note. -/
theorem note_documents_checked (redis : Bool) (db : Database) (notes : List Note)
    (hcolon : ':' ∉ note_id) (hunderscore : '_' ∉ note_id) (es : List (YdocEvent Sid D)) :
    StepsMeet (ydocStep redis) (NoteChecked redis note_id) (.start db notes) es ∧
    ∀ s sid document_id d, exec (ydocStep redis) (.start db notes) es = some s →
      Names document_id note_id → s.yjs_document_state sid document_id = some d →
      ∃ es₁ document_id' es₂ s₁ user, es = es₁ ++ .join sid document_id' :: es₂ ∧
        exec (ydocStep redis) (.start db notes) es₁ = some s₁ ∧
        s₁.session_pool sid = some user ∧ Permitted s₁ user note_id "read" := by
  constructor
  · exact stepsMeet_of_forall (noteChecked redis hcolon hunderscore) _ es
  · intro s sid document_id d hrun hnames hstate
    have hroom : noteDocument note_id ∈ s.rooms sid := by
      unfold YdocServer.yjs_document_state at hstate
      rw [Option.ite_none_right_eq_some,
        normalize_eq_noteDocument hcolon hunderscore hnames] at hstate
      exact hstate.1.1
    obtain ⟨es₁, e, es₂, s₁, s₂, rfl, hrun₁, hstep, hbefore, hafter⟩ :=
      exec_first (P := fun s => noteDocument note_id ∈ s.rooms sid) (Finset.notMem_empty _) hroom
        hrun
    obtain ⟨document_id', r, rfl, hname, hjoin⟩ := join_of_room hbefore hstep hafter
    obtain ⟨user, huser, hpermitted⟩ := permitted_of_join hcolon hunderscore
      (show Names document_id' note_id by unfold Names; rw [hname]) hjoin
    exact ⟨es₁, document_id', es₂, s₁, user, rfl, hrun₁, huser, hpermitted⟩

/-- The owner of a note and a user who may only read it join and edit its document. -/
def editingRun : List (YdocEvent Bool Bool) :=
  [.session true (some ⟨"o", "user"⟩), .session false (some ⟨"u", "user"⟩),
    .join true "note:m".toList, .update true "note_m".toList true none,
    .join false "note_m".toList, .leave true "note:m".toList]

/-- A note of another owner than the one who reads it. -/
def ownedNotes : List Note := [⟨"m", "o", .empty⟩]

theorem note_documents_checked_owned :
    StepsMeet (ydocStep false) (NoteChecked false "m".toList) (.start noteDatabase ownedNotes)
      editingRun :=
  (note_documents_checked false noteDatabase ownedNotes (by decide) (by decide) editingRun).1

/-- **The reader clears the note**: the owner has left, and when the other session leaves, which may
not write the note, its updates are deleted. -/
theorem updates_cleared_by_reader :
    ∃ s s' : YdocServer Bool Bool,
      exec (ydocStep false) (.start noteDatabase ownedNotes) editingRun = some s ∧
      ydocStep false s (.leave false "note:m".toList) = some s' ∧
      s.updates (storageKey (noteDocument "m".toList)) = [true] ∧
      s'.updates (storageKey (noteDocument "m".toList)) = [] ∧
      ∀ user, s.session_pool false = some user → ¬ Permitted s user "m".toList "write" := by
  refine ⟨_, _, rfl, rfl, by decide, by decide, ?_⟩
  intro user huser
  have hreader : (⟨"u", "user"⟩ : User) = user := Option.some.inj huser
  subst hreader
  rintro ⟨note, hnote, hpermits⟩
  have howned : (⟨"m", "o", .empty⟩ : Note) = note := Option.some.inj hnote
  subst howned
  exact absurd hpermits (by decide)

end OpenLaunch.Sockets
