import OpenLaunch.Sockets.YdocUpdates
import Mathlib.Data.Finset.Basic

/-! # Joining, editing and leaving documents

With Redis a document has a list of updates and a set of users, and a session has the set of the
documents that it joined. Joining, editing and leaving a document, and the disconnection of a
session, are sequences of commands, and the commands of other handlers come anywhere between them. A
document is cleared where its set of users was read and is empty. -/

namespace OpenLaunch.Sockets

open Transition SnapshotLog

universe u v

variable {C Doc S : Type u} [DecidableEq C] [DecidableEq Doc] [DecidableEq S]
variable {D : Type v} [SemilatticeSup D] [OrderBot D]

/-! ## Data -/

/-- What Redis has of the documents, and two records of the history. -/
structure Documents (Doc S : Type u) (D : Type v) where
  updates : Doc → List D
  users : Doc → Finset S
  /-- The reverse index, under `session:{user_id}:documents`. -/
  documents : S → Finset Doc
  /-- The sessions that have joined a document and have not left it. -/
  joined : Doc → Finset S
  /-- The updates that these sessions appended after they joined. -/
  authored : Doc → List (S × D)

namespace Documents

/-- `redis.sadd` of the users of a document: the session has joined it. -/
def addUser (x : Documents Doc S D) (d : Doc) (sid : S) : Documents Doc S D :=
  { x with
    users := Function.update x.users d (insert sid (x.users d))
    joined := Function.update x.joined d (insert sid (x.joined d)) }

/-- `redis.srem` of the users of a document: the session has left it. -/
def removeUser (x : Documents Doc S D) (d : Doc) (sid : S) : Documents Doc S D :=
  { x with
    users := Function.update x.users d ((x.users d).erase sid)
    joined := Function.update x.joined d ((x.joined d).erase sid)
    authored := Function.update x.authored d ((x.authored d).filter fun p => p.1 ≠ sid) }

/-- `redis.rpush` of an update. -/
def push (x : Documents Doc S D) (d : Doc) (sid : S) (update : D) : Documents Doc S D :=
  { x with
    updates := Function.update x.updates d (x.updates d ++ [update])
    authored := Function.update x.authored d
      (x.authored d ++ if sid ∈ x.joined d then [(sid, update)] else []) }

/-- The list of updates is written. -/
def setUpdates (x : Documents Doc S D) (d : Doc) (updates : List D) : Documents Doc S D :=
  { x with updates := Function.update x.updates d updates }

/-- `redis.delete` of the users of a document. -/
def deleteUsers (x : Documents Doc S D) (d : Doc) : Documents Doc S D :=
  { x with users := Function.update x.users d ∅ }

/-- The reverse index of a session is written. -/
def setDocuments (x : Documents Doc S D) (sid : S) (docs : Finset Doc) : Documents Doc S D :=
  { x with documents := Function.update x.documents sid docs }

end Documents

/-! ## Handlers -/

/-- The next command of a handler. After the clean-up of a document, the handler of a disconnection
goes on with the other documents of the session. -/
inductive HandlerPhase (Doc S : Type u) (D : Type v)
  /-- `add_user` adds the document to the reverse index. -/
  | index (sid : S) (d : Doc)
  /-- `append_to_updates`. -/
  | append (d : Doc) (phase : AppendPhase D)
  /-- `remove_user` removes the document from the reverse index. -/
  | unindex (sid : S) (d : Doc)
  /-- `document_exists`. -/
  | exists_ (d : Doc)
  /-- `get_users`. -/
  | get_users (d : Doc) (rest : Option (S × Finset Doc))
  /-- `clear_document` deletes the updates. -/
  | delete_updates (d : Doc) (rest : Option (S × Finset Doc))
  /-- `clear_document` deletes the users. -/
  | delete_users (d : Doc) (rest : Option (S × Finset Doc))
  /-- `remove_user_from_all_documents` has these documents to visit. -/
  | visit (sid : S) (document_ids : Finset Doc)

/-- What follows the check and the clean-up of a document. -/
def afterClear (rest : Option (S × Finset Doc)) : Option (HandlerPhase Doc S D) :=
  rest.map fun r => .visit r.1 r.2

/-- The next command of a handler, and what remains of it. -/
def Documents.command (x : Documents Doc S D) :
    HandlerPhase Doc S D → Option (Documents Doc S D × Option (HandlerPhase Doc S D))
  | .index sid d => some (x.setDocuments sid (insert d (x.documents sid)), none)
  | .append d phase =>
    some (x.setUpdates d (appendCommand (x.updates d) phase).1,
      (appendCommand (x.updates d) phase).2.map (.append d))
  | .unindex sid d => some (x.setDocuments sid ((x.documents sid).erase d), some (.exists_ d))
  | .exists_ d => some (x, if (x.updates d).length = 0 then none else some (.get_users d none))
  | .get_users d rest =>
    some (x, if x.users d = ∅ then some (.delete_updates d rest) else afterClear rest)
  | .delete_updates d rest => some (x.setUpdates d [], some (.delete_users d rest))
  | .delete_users d rest => some (x.deleteUsers d, afterClear rest)
  | .visit sid document_ids =>
    if document_ids = ∅ then some (x.setDocuments sid ∅, none) else none

/-- The data, and what remains of every handler. -/
structure DocumentsState (C Doc S : Type u) (D : Type v) where
  data : Documents Doc S D
  calls : C → Option (HandlerPhase Doc S D)

/-- A handler begins with its first command, a disconnection takes the next document of the session,
or a handler executes its next command. -/
inductive DocumentsEvent (C Doc S : Type u) (D : Type v)
  | join (c : C) (sid : S) (d : Doc)
  | update (c : C) (sid : S) (d : Doc) (update : D)
  | leave (c : C) (sid : S) (d : Doc)
  | disconnect (c : C) (sid : S)
  | visit (c : C) (d : Doc)
  | command (c : C)

/-- The data and one handler are written. -/
def DocumentsState.put (s : DocumentsState C Doc S D) (c : C) (data : Documents Doc S D)
    (phase : Option (HandlerPhase Doc S D)) : DocumentsState C Doc S D :=
  ⟨data, Function.update s.calls c phase⟩

def documentsStep (s : DocumentsState C Doc S D) :
    DocumentsEvent C Doc S D → Option (DocumentsState C Doc S D)
  | .join c sid d =>
    if s.calls c = none then some (s.put c (s.data.addUser d sid) (some (.index sid d))) else none
  | .update c sid d update =>
    if s.calls c = none then
      some (s.put c (s.data.push d sid update) (some (.append d .llen)))
    else none
  | .leave c sid d =>
    if s.calls c = none then some (s.put c (s.data.removeUser d sid) (some (.unindex sid d)))
    else none
  | .disconnect c sid =>
    if s.calls c = none then some (s.put c s.data (some (.visit sid (s.data.documents sid))))
    else none
  | .visit c d =>
    match s.calls c with
    | some (.visit sid document_ids) =>
      if d ∈ document_ids then
        some (s.put c (s.data.removeUser d sid)
          (some (.get_users d (some (sid, document_ids.erase d)))))
      else none
    | _ => none
  | .command c =>
    (s.calls c).bind fun phase => (s.data.command phase).map fun r => s.put c r.1 r.2

/-- No documents, and no handler. -/
def DocumentsState.start : DocumentsState C Doc S D :=
  ⟨⟨fun _ => [], fun _ => ∅, fun _ => ∅, fun _ => ∅, fun _ => []⟩, fun _ => none⟩

/-! ## The clean-up and the editing -/

/-- What a session that has joined and has not left appended is in the document. -/
def Readable (x : Documents Doc S D) : Prop :=
  ∀ d, ∀ p ∈ x.authored d, p.2 ≤ merge (x.updates d)

/-- **A safe step**: the updates of a document are deleted only where its set of users is empty, and
what a session that has joined and has not left appended can be read afterwards. -/
def CleanUpSafe (s : DocumentsState C Doc S D) (e : DocumentsEvent C Doc S D) : Prop :=
  (∀ c d rest, e = .command c → s.calls c = some (.delete_updates d rest) →
    s.data.users d = ∅) ∧
  ∀ s', documentsStep s e = some s' → Readable s'.data

/-- The handler has seen that the document has no users, and has not deleted all of it. -/
def Clears : HandlerPhase Doc S D → Doc → Prop
  | .delete_updates d' _, d | .delete_users d' _, d => d' = d
  | _, _ => False

/-- **What must not come in between**: no session joins a document while a handler clears it, and a
compaction has read everything that is in the list that it replaces. -/
def Undisturbed (s : DocumentsState C Doc S D) : DocumentsEvent C Doc S D → Prop
  | .join _ _ d => ∀ c phase, s.calls c = some phase → ¬ Clears phase d
  | .command c => ∀ d all_updates, s.calls c = some (.append d (.execute all_updates)) →
      ∀ u ∈ s.data.updates d, u ≤ merge all_updates
  | _ => True

/-! ## Invariants of the data -/

/-- The sessions that have joined are users, the authors are among them, and what they appended can
be read. -/
structure DataInv (x : Documents Doc S D) : Prop where
  present : ∀ d, x.joined d ⊆ x.users d
  authors : ∀ d, ∀ p ∈ x.authored d, p.1 ∈ x.joined d
  readable : Readable x

namespace DataInv

variable {x : Documents Doc S D} {d : Doc} {sid : S}

theorem addUser (h : DataInv x) (d : Doc) (sid : S) : DataInv (x.addUser d sid) where
  present d' := by
    unfold Documents.addUser
    rcases eq_or_ne d' d with rfl | hd
    · simpa using Finset.insert_subset_insert sid (h.present d')
    · simpa [Function.update_of_ne hd] using h.present d'
  authors d' p hp := by
    unfold Documents.addUser
    rcases eq_or_ne d' d with rfl | hd
    · simpa using Or.inr (h.authors d' p hp)
    · simpa [Function.update_of_ne hd] using h.authors d' p hp
  readable := h.readable

theorem removeUser (h : DataInv x) (d : Doc) (sid : S) : DataInv (x.removeUser d sid) where
  present d' := by
    unfold Documents.removeUser
    rcases eq_or_ne d' d with rfl | hd
    · simpa using Finset.erase_subset_erase sid (h.present d')
    · simpa [Function.update_of_ne hd] using h.present d'
  authors d' p hp := by
    unfold Documents.removeUser at hp ⊢
    rcases eq_or_ne d' d with rfl | hd
    · have hold : p ∈ x.authored d' ∧ p.1 ≠ sid := by simpa using hp
      simpa using ⟨hold.2, h.authors d' p hold.1⟩
    · have hold : p ∈ x.authored d' := by simpa [Function.update_of_ne hd] using hp
      simpa [Function.update_of_ne hd] using h.authors d' p hold
  readable d' p hp := by
    unfold Documents.removeUser at hp
    rcases eq_or_ne d' d with rfl | hd
    · have hold : p ∈ x.authored d' ∧ p.1 ≠ sid := by simpa using hp
      exact h.readable d' p hold.1
    · have hold : p ∈ x.authored d' := by simpa [Function.update_of_ne hd] using hp
      exact h.readable d' p hold

/-- Updates that cover the old ones leave everything readable. -/
theorem setUpdates (h : DataInv x) {updates : List D}
    (hcovers : x.authored d = [] ∨ merge (x.updates d) ≤ merge updates) :
    DataInv (x.setUpdates d updates) where
  present := h.present
  authors := h.authors
  readable d' p hp := by
    unfold Documents.setUpdates at hp ⊢
    rcases eq_or_ne d' d with rfl | hd
    · dsimp only at hp ⊢
      rw [Function.update_self]
      rcases hcovers with hnone | hle
      · rw [hnone] at hp
        cases hp
      · exact (h.readable d' p hp).trans hle
    · simpa [Function.update_of_ne hd] using h.readable d' p hp

theorem push (h : DataInv x) (d : Doc) (sid : S) (update : D) : DataInv (x.push d sid update) where
  present := h.present
  authors d' p hp := by
    unfold Documents.push at hp
    rcases eq_or_ne d' d with rfl | hd
    · dsimp only at hp
      rw [Function.update_self, List.mem_append] at hp
      rcases hp with hold | hnew
      · exact h.authors d' p hold
      · split at hnew
        · next hjoined =>
          rw [List.mem_singleton.mp hnew]
          exact hjoined
        · cases hnew
    · exact h.authors d' p (by simpa [Function.update_of_ne hd] using hp)
  readable d' p hp := by
    unfold Documents.push at hp ⊢
    rcases eq_or_ne d' d with rfl | hd
    · dsimp only at hp ⊢
      rw [Function.update_self, List.mem_append] at hp
      rw [Function.update_self]
      rcases hp with hold | hnew
      · exact (h.readable d' p hold).trans (merge_mono fun u hu => List.mem_append_left _ hu)
      · split at hnew
        · rw [List.mem_singleton.mp hnew]
          exact le_merge (List.mem_append_right _ (List.mem_singleton.mpr rfl))
        · cases hnew
    · simpa [Function.update_of_ne hd] using
        h.readable d' p (by simpa [Function.update_of_ne hd] using hp)

/-- A document without users has no session that has joined, and so no author. -/
theorem authored_eq_nil (h : DataInv x) (hempty : x.users d = ∅) : x.authored d = [] := by
  rw [List.eq_nil_iff_forall_not_mem]
  intro p hp
  have huser := h.present d (h.authors d p hp)
  rw [hempty] at huser
  exact absurd huser (Finset.notMem_empty _)

theorem deleteUsers (h : DataInv x) (hempty : x.users d = ∅) : DataInv (x.deleteUsers d) := by
  have hsame : x.deleteUsers d = x := by
    unfold Documents.deleteUsers
    rw [← hempty, Function.update_eq_self]
  rw [hsame]
  exact h

theorem setDocuments (h : DataInv x) (sid : S) (docs : Finset Doc) :
    DataInv (x.setDocuments sid docs) :=
  ⟨h.present, h.authors, h.readable⟩

end DataInv

/-! ## Invariants of the handlers -/

/-- A document that a handler clears has no users. -/
structure DocumentsInv (s : DocumentsState C Doc S D) : Prop where
  data : DataInv s.data
  clears : ∀ c phase d, s.calls c = some phase → Clears phase d → s.data.users d = ∅

theorem documentsInv_start : DocumentsInv (DocumentsState.start : DocumentsState C Doc S D) where
  data := ⟨fun _ => Finset.Subset.refl _, fun _ _ hp => by simp [DocumentsState.start] at hp,
    fun _ _ hp => by simp [DocumentsState.start] at hp⟩
  clears c phase d hphase := by simp [DocumentsState.start] at hphase

variable {s s' : DocumentsState C Doc S D} {e : DocumentsEvent C Doc S D}

/-- The handlers that clear a document, after the data and one handler were written. -/
theorem DocumentsInv.put (h : DocumentsInv s) {c : C} {x : Documents Doc S D}
    {phase : Option (HandlerPhase Doc S D)} (hx : DataInv x)
    (hothers : ∀ c' phase' d, s.calls c' = some phase' → Clears phase' d → x.users d = ∅)
    (hphase : ∀ phase' d, phase = some phase' → Clears phase' d → x.users d = ∅) :
    DocumentsInv (s.put c x phase) where
  data := hx
  clears c' phase' d hc' hclears := by
    unfold DocumentsState.put at hc' ⊢
    rcases eq_or_ne c' c with rfl | hcc
    · exact hphase phase' d (by simpa using hc') hclears
    · exact hothers c' phase' d (by simpa [Function.update_of_ne hcc] using hc') hclears

theorem not_clears_afterClear {rest : Option (S × Finset Doc)} {phase : HandlerPhase Doc S D}
    {d : Doc} (h : afterClear rest = some phase) : ¬ Clears phase d := by
  unfold afterClear at h
  obtain ⟨r, -, rfl⟩ := Option.map_eq_some_iff.mp h
  exact id

/-- **What a command does**: it keeps the invariant of the data, adds no user, and goes on to clear
a document only if that has no users. -/
theorem Documents.command_spec {x : Documents Doc S D} {phase : HandlerPhase Doc S D}
    {r : Documents Doc S D × Option (HandlerPhase Doc S D)} (hx : DataInv x)
    (hclears : ∀ d, Clears phase d → x.users d = ∅)
    (hcovers : ∀ d all_updates, phase = .append d (.execute all_updates) →
      ∀ u ∈ x.updates d, u ≤ merge all_updates)
    (hr : x.command phase = some r) :
    DataInv r.1 ∧ (∀ d, x.users d = ∅ → r.1.users d = ∅) ∧
      ∀ phase' d, r.2 = some phase' → Clears phase' d → r.1.users d = ∅ := by
  cases phase with
  | index sid d =>
    cases hr
    exact ⟨hx.setDocuments _ _, fun _ => id, nofun⟩
  | append d phase =>
    cases hr
    refine ⟨hx.setUpdates (Or.inr ?_), fun _ => id, fun phase' d' h => ?_⟩
    · rcases merge_appendCommand (x.updates d) phase with hsame | ⟨all_updates, rfl, hmerge⟩
      · rw [hsame]
      · rw [hmerge, merge_le_iff]
        exact hcovers d all_updates rfl
    · obtain ⟨_, -, rfl⟩ := Option.map_eq_some_iff.mp h
      exact False.elim
  | unindex sid d =>
    cases hr
    refine ⟨hx.setDocuments _ _, fun _ => id, fun phase' d' h => ?_⟩
    cases h
    exact False.elim
  | exists_ d =>
    cases hr
    refine ⟨hx, fun _ => id, fun phase' d' h => ?_⟩
    dsimp only at h
    split at h
    · cases h
    · cases h
      exact False.elim
  | get_users d rest =>
    cases hr
    refine ⟨hx, fun _ => id, fun phase' d' h => ?_⟩
    dsimp only at h
    split at h
    · next hempty =>
      cases h
      rintro rfl
      exact hempty
    · exact fun hclear => absurd hclear (not_clears_afterClear h)
  | delete_updates d rest =>
    cases hr
    have hempty := hclears d rfl
    refine ⟨hx.setUpdates (Or.inl (hx.authored_eq_nil hempty)), fun _ => id,
      fun phase' d' h => ?_⟩
    cases h
    rintro rfl
    exact hempty
  | delete_users d rest =>
    cases hr
    have hempty := hclears d rfl
    refine ⟨hx.deleteUsers hempty, fun d' hd' => ?_,
      fun phase' d' h hclear => absurd hclear (not_clears_afterClear h)⟩
    show Function.update x.users d ∅ d' = ∅
    rcases eq_or_ne d' d with rfl | hd
    · exact Function.update_self ..
    · rw [Function.update_of_ne hd]
      exact hd'
  | visit sid document_ids =>
    unfold Documents.command at hr
    dsimp only at hr
    split at hr
    · cases hr
      exact ⟨hx.setDocuments _ _, fun _ => id, nofun⟩
    · cases hr

omit [DecidableEq C] [SemilatticeSup D] [OrderBot D] in
theorem users_removeUser {x : Documents Doc S D} {d d' : Doc} {sid : S} (h : x.users d' = ∅) :
    (x.removeUser d sid).users d' = ∅ := by
  show Function.update x.users d ((x.users d).erase sid) d' = ∅
  rcases eq_or_ne d' d with rfl | hd
  · rw [Function.update_self, h, Finset.erase_empty]
  · rw [Function.update_of_ne hd]
    exact h

/-- **Step lemma.** An undisturbed step keeps the invariant. -/
theorem DocumentsInv.step (h : DocumentsInv s) (hundisturbed : Undisturbed s e)
    (hstep : documentsStep s e = some s') : DocumentsInv s' := by
  cases e with
  | join c sid d =>
    unfold documentsStep at hstep
    rw [Option.ite_none_right_eq_some] at hstep
    obtain ⟨-, rfl⟩ := And.imp_right Option.some.inj hstep
    refine h.put (h.data.addUser d sid) (fun c' phase' d' hc' hclears => ?_) fun phase' d' hp => ?_
    · rcases eq_or_ne d' d with rfl | hd
      · exact absurd hclears (hundisturbed c' phase' hc')
      · show Function.update s.data.users d _ d' = ∅
        rw [Function.update_of_ne hd]
        exact h.clears c' phase' d' hc' hclears
    · cases hp
      exact False.elim
  | update c sid d update =>
    unfold documentsStep at hstep
    rw [Option.ite_none_right_eq_some] at hstep
    obtain ⟨-, rfl⟩ := And.imp_right Option.some.inj hstep
    refine h.put (h.data.push d sid update) h.clears fun phase' d' hp => ?_
    cases hp
    exact False.elim
  | leave c sid d =>
    unfold documentsStep at hstep
    rw [Option.ite_none_right_eq_some] at hstep
    obtain ⟨-, rfl⟩ := And.imp_right Option.some.inj hstep
    refine h.put (h.data.removeUser d sid)
      (fun c' phase' d' hc' hclears => users_removeUser (h.clears c' phase' d' hc' hclears))
      fun phase' d' hp => ?_
    cases hp
    exact False.elim
  | disconnect c sid =>
    unfold documentsStep at hstep
    rw [Option.ite_none_right_eq_some] at hstep
    obtain ⟨-, rfl⟩ := And.imp_right Option.some.inj hstep
    refine h.put h.data h.clears fun phase' d' hp => ?_
    cases hp
    exact False.elim
  | visit c d =>
    unfold documentsStep at hstep
    dsimp only at hstep
    split at hstep
    · rw [Option.ite_none_right_eq_some] at hstep
      obtain ⟨-, rfl⟩ := And.imp_right Option.some.inj hstep
      refine h.put (h.data.removeUser d _)
        (fun c' phase' d' hc' hclears => users_removeUser (h.clears c' phase' d' hc' hclears))
        fun phase' d' hp => ?_
      cases hp
      exact False.elim
    · cases hstep
  | command c =>
    obtain ⟨phase, hphase, hcommand⟩ := Option.bind_eq_some_iff.mp hstep
    obtain ⟨r, hr, rfl⟩ := Option.map_eq_some_iff.mp hcommand
    obtain ⟨hdata, husers, hnext⟩ := Documents.command_spec h.data
      (fun d => h.clears c phase d hphase)
      (fun d all_updates hall => hundisturbed d all_updates (by rw [hphase, hall])) hr
    exact h.put hdata
      (fun c' phase' d' hc' hclears => husers d' (h.clears c' phase' d' hc' hclears)) hnext

/-- **Clean-up over runs.** In a run of any handlers in which no session joins a document while it
is cleared, and every compaction has read everything that it replaces, the updates of a document are
deleted only where it has no users, and what a session that has joined and has not left appended can
be read in every state. -/
theorem documents_kept_of_undisturbed (es : List (DocumentsEvent C Doc S D))
    (hes : StepsMeet documentsStep Undisturbed .start es) :
    StepsMeet documentsStep CleanUpSafe .start es := by
  refine StepsMeet.of_invariant (fun s e h hundisturbed => ⟨?_, ?_⟩)
    (fun s e s' h => h.step) documentsInv_start hes
  · intro c d rest _ hphase
    exact h.clears c _ d hphase rfl
  · intro s' hstep
    exact (h.step hundisturbed hstep).data.readable

/-- A session that joins, edits and leaves: the document is cleared. -/
theorem documents_kept_of_one_session :
    StepsMeet documentsStep CleanUpSafe
      (.start : DocumentsState Unit Unit Unit Bool)
      [.join () () (), .command (), .update () () () true, .command (), .leave () () (),
        .command (), .command (), .command (), .command (), .command ()] := by
  apply documents_kept_of_undisturbed
  simp [StepsMeet, Undisturbed, documentsStep, DocumentsState.start, DocumentsState.put,
    Documents.addUser, Documents.removeUser, Documents.setDocuments, Documents.push,
    Documents.setUpdates, Documents.deleteUsers, Documents.command, appendCommand,
    compaction_threshold]

/-- The last session leaves, and another one joins and edits between the check and the clean-up: the
updates are deleted where the document has a user, and the edit is lost. -/
theorem edit_lost_by_clean_up :
    ∃ s s' : DocumentsState Bool Unit Bool Bool,
      exec documentsStep .start
        [.join true true (), .command true, .update true true () false, .command true,
          .leave true true (), .command true, .command true, .command true,
          .join false false (), .command false, .update false false () true, .command false] =
        some s ∧
      s.calls true = some (.delete_updates () none) ∧ s.data.users () = {false} ∧
      documentsStep s (.command true) = some s' ∧
      (false, true) ∈ s'.data.authored () ∧ ¬ true ≤ merge (s'.data.updates ()) := by
  refine ⟨_, _, rfl, rfl, by decide, rfl, by decide, by decide⟩

end OpenLaunch.Sockets
