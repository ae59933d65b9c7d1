import OpenLaunch.Knowledge.Store
import OpenLaunch.Transition

/-! # The vectors of a knowledge base

Adding a file to a knowledge base stores vectors of it in the collection of the knowledge base, with
its id and the hash of its content; an update stores them anew, and a removal deletes them by id, and
then by hash. -/

namespace OpenLaunch.Knowledge

open Transition

/-! ## Requests -/

/-- The requests on a file, and a request elsewhere that changes the hash of a file. -/
inductive IndexRequest
  | add_file_to_knowledge_by_id (directory_id : Option String)
  | update_file_from_knowledge_by_id
  | remove_file_from_knowledge_by_id (delete_file : Bool)
  | update_file_hash_by_id (hash : Option String)

/-- A request of a user on a file of a knowledge base. -/
structure IndexCall where
  user_id : String
  admin : Bool
  file_id : String
  /-- The user may write the knowledge base, and for an addition read the file, which has data. -/
  accepted : Bool
  /-- The content in the data of the file, if it has data. -/
  content : Option String
  /-- The number of documents that the content, or what the file's own collection has, is split into. -/
  documents : ℕ
  request : IndexRequest

/-! ## The vectors of a file -/

/-- `Files.update_file_hash_by_id`. -/
def Store.update_file_hash_by_id (s : Store) (file_id : String) (hash : Option String) : Store :=
  { s with
    tables := (Rows.commit { s.tables.toRows with
      files := s.tables.files.map fun f => if f.id = file_id then { f with hash := hash } else f }).getD
        s.tables }

/-- The vectors of a knowledge base. -/
def Store.chunks (s : Store) (id : String) : List Chunk :=
  (s.collections.vectors (.knowledge id)).getD []

/-- When `save_docs_to_vector_db` raises: there is a vector with the hash, and the first one is of
another file, or there is nothing to store. -/
def duplicate (vectors : List Chunk) (file_id hash : String) (documents : ℕ) : Bool :=
  (vectors.find? fun v => v.hash = some hash).any (fun v => v.file_id ≠ file_id) ∨ documents = 0

/-- The vectors of a file are added to the collection of a knowledge base. -/
def Store.insertVectors (s : Store) (id : String) (items : List Chunk) : Store :=
  { s with collections := s.collections.insert (.knowledge id) items }

/-- `process_file` for the collection of the knowledge base, and whether it returns. An error resets
the hash of the file. -/
def process_file (digest : String → String) (id : String) (s : Store) (call : IndexCall) :
    Store × Bool :=
  match (s.tables.get_file_by_id call.file_id).filter fun f =>
    call.admin ∨ f.user_id = call.user_id with
  | none => (s, false)
  | some file =>
    match call.content with
    | none => (s.update_file_hash_by_id file.id none, false)
    | some content =>
      let hash := digest content
      if duplicate (s.chunks id) file.id hash call.documents then
        (s.update_file_hash_by_id file.id none, false)
      else
        let items := List.replicate call.documents ⟨file.id, some hash⟩
        ((s.insertVectors id items).update_file_hash_by_id file.id (some hash), true)

/-! ## The endpoints -/

variable (digest : String → String) (id : String) (s : Store) (call : IndexCall)

/-- `add_file_to_knowledge_by_id`. -/
def addFile (directory_id : Option String) : Store :=
  match s.tables.get_file_by_id call.file_id with
  | none => s
  | some _ =>
    match process_file digest id s call with
    | (s, false) => s
    | (s, true) =>
      { s with tables := (s.tables.add_file_to_knowledge_by_id id call.file_id
          directory_id).getD s.tables }

/-- The vectors of a file are deleted by its id. -/
def Store.deleteVectors (id file_id : String) : Store :=
  { s with collections := s.collections.delete (.knowledge id) fun v => v.file_id = file_id }

/-- `update_file_from_knowledge_by_id`. -/
def updateFile : Store :=
  if (s.tables.get_file_by_id call.file_id).isSome ∧ s.tables.has_file id call.file_id then
    (process_file digest id (s.deleteVectors id call.file_id) call).1
  else s

/-- `remove_file_from_knowledge_by_id`. -/
def removeFile (delete_file : Bool) : Store :=
  match s.tables.get_file_by_id call.file_id with
  | none => s
  | some file =>
    if s.tables.has_file id call.file_id then
      let tables := s.tables.remove_file_from_knowledge_by_id id call.file_id
      let collections := (s.deleteVectors id call.file_id).collections.delete
        (.knowledge id) fun v => v.hash = file.hash
      if delete_file ∧ (file.user_id = call.user_id ∨ call.admin) then
        { s with
          tables := tables.delete_file_by_id call.file_id
          collections :=
            if collections.has_collection (.file call.file_id) then
              collections.delete_collection (.file call.file_id)
            else collections }
      else { s with tables := tables, collections := collections }
    else s

/-- One request. A request that is refused changes nothing. -/
def indexStep : Option Store :=
  some <| match call.request with
  | .update_file_hash_by_id hash => s.update_file_hash_by_id call.file_id hash
  | .add_file_to_knowledge_by_id directory_id =>
    if call.accepted then addFile digest id s call directory_id else s
  | .update_file_from_knowledge_by_id => if call.accepted then updateFile digest id s call else s
  | .remove_file_from_knowledge_by_id delete_file =>
    if call.accepted then removeFile id s call delete_file else s

end OpenLaunch.Knowledge

/-! ## The index and the links

A removal by hash takes vectors of other files with it, an update that cannot process the file loses
its vectors, and an addition whose link is refused leaves vectors of a file that is not linked. In runs
without these, and in no others, the vectors of a knowledge base are those of its files. -/

namespace OpenLaunch.Knowledge

open Transition

variable {digest : String → String} {id x : String} {s s' : Store} {call : IndexCall}
variable {t t' : Tables} {vectors : List Chunk}

/-! ## What is asked of the index -/

/-- The files of a knowledge base are those that have vectors in its collection. -/
def IndexAgrees (id : String) (s : Store) : Prop :=
  ∀ x, s.tables.has_file id x ↔ ∃ v ∈ s.chunks id, v.file_id = x

/-- The vectors of a file in the collection of a knowledge base. -/
def Store.vectorsOf (s : Store) (id x : String) : List Chunk :=
  (s.chunks id).filter fun v => v.file_id = x

/-- The index agrees afterwards, and the vectors of other files than `x` are those of before. -/
def Keeps (id x : String) (s s' : Store) : Prop :=
  IndexAgrees id s' ∧ ∀ y, y ≠ x → s'.vectorsOf id y = s.vectorsOf id y

/-- A request keeps the index. -/
def KeepsIndex (digest : String → String) (id : String) (s : Store) (call : IndexCall) : Prop :=
  ∀ s', indexStep digest id s call = some s' → Keeps id call.file_id s s'

/-- The file can be processed: it is the user's, or the user is an admin, and it has content that is
not that of another file with vectors among the given ones. -/
def Indexable (digest : String → String) (s : Store) (vectors : List Chunk) (call : IndexCall) :
    Prop :=
  ∃ file, s.tables.get_file_by_id call.file_id = some file ∧
    (call.admin ∨ file.user_id = call.user_id) ∧
    ∃ content, call.content = some content ∧
      ¬ duplicate vectors call.file_id (digest content) call.documents

/-- When a request keeps the index. -/
def SoundIndexCall (digest : String → String) (id : String) (s : Store) (call : IndexCall) : Prop :=
  match call.request with
  | .add_file_to_knowledge_by_id directory_id =>
    call.accepted → Indexable digest s (s.chunks id) call → s.tables.has_file id call.file_id ∨
      ∀ d, directory_id = some d → d ∈ s.tables.directories.map Directory.id
  | .update_file_from_knowledge_by_id =>
    call.accepted → s.tables.has_file id call.file_id →
      Indexable digest s ((s.chunks id).filter fun v => v.file_id ≠ call.file_id) call
  | .remove_file_from_knowledge_by_id _ =>
    call.accepted → s.tables.has_file id call.file_id →
      ∀ file, s.tables.get_file_by_id call.file_id = some file →
        ∀ v ∈ s.chunks id, v.file_id ≠ call.file_id → v.hash ≠ file.hash
  | .update_file_hash_by_id _ => True

/-! ## Links -/

theorem has_file_iff : t.has_file id x ↔ ∃ l ∈ t.links, l.knowledge_id = id ∧ l.file_id = x := by
  simp [Rows.has_file]

theorem get_file_of_has_file (h : t.has_file id x) : (t.get_file_by_id x).isSome := by
  obtain ⟨l, hl, -, rfl⟩ := has_file_iff.mp h
  obtain ⟨f, hf, hid⟩ := List.mem_map.mp (t.ok.link_files l hl)
  rw [Rows.get_file_by_id, (Keyed.find?_eq_some_iff t.ok.file_ids).mpr ⟨hf, hid⟩]
  rfl

/-- A new link is refused if there is one already, or the directory is not there. -/
theorem add_file_isSome_iff {directory_id : Option String} (hx : x ∈ t.files.map File.id) :
    (t.add_file_to_knowledge_by_id id x directory_id).isSome ↔
      ¬ t.has_file id x ∧ ∀ d, directory_id = some d → d ∈ t.directories.map Directory.id := by
  rw [Option.isSome_iff_exists]
  constructor
  · rintro ⟨t', h⟩
    refine ⟨not_has_file_of_add h, fun d hd => ?_⟩
    have hrows := Rows.commit_eq_some.mp h
    have hkey := t'.ok.link_directories ⟨id, x, directory_id⟩ (by rw [hrows]; simp) d hd
    rw [hrows] at hkey
    exact hkey
  · rintro ⟨hnew, hdir⟩
    have hok : Rows.Constraints { t.toRows with links := t.links ++ [⟨id, x, directory_id⟩] } := by
      refine ⟨t.ok.file_ids, t.ok.directory_ids, t.ok.parents, t.ok.names, ?_, ?_, ?_⟩
      · rw [List.map_append, List.nodup_append]
        refine ⟨t.ok.links, List.nodup_singleton _, ?_⟩
        rintro key hkey key' hkey' rfl
        obtain ⟨l, hl, hlkey⟩ := List.mem_map.mp hkey
        have heq := hlkey.trans (List.mem_singleton.mp hkey')
        rw [Prod.mk.injEq] at heq
        exact hnew (has_file_iff.mpr ⟨l, hl, heq⟩)
      · intro l hl
        rcases List.mem_append.mp hl with hl | hl
        · exact t.ok.link_files l hl
        · rw [List.mem_singleton.mp hl]
          exact hx
      · intro l hl d hd
        rcases List.mem_append.mp hl with hl | hl
        · exact t.ok.link_directories l hl d hd
        · rw [List.mem_singleton.mp hl] at hd
          exact hdir d hd
    exact ⟨_, Rows.commit_of_constraints hok⟩

/-- The links with a new one. -/
theorem has_file_of_add {y : String} {directory_id : Option String}
    (h : t.add_file_to_knowledge_by_id id x directory_id = some t') :
    t'.has_file id y ↔ t.has_file id y ∨ y = x := by
  have hrows := Rows.commit_eq_some.mp h
  rw [has_file_iff, has_file_iff, hrows]
  simp only [List.mem_append, List.mem_singleton, or_and_right, exists_or, exists_eq_left,
    true_and]
  exact or_congr_right eq_comm

/-- The links without one. -/
theorem has_file_of_remove {y : String} :
    (t.remove_file_from_knowledge_by_id id x).has_file id y ↔ t.has_file id y ∧ y ≠ x := by
  rw [has_file_iff, has_file_iff, remove_file_from_knowledge_by_id_rows]
  simp only [List.mem_filter, decide_eq_true_eq]
  constructor
  · rintro ⟨l, ⟨hl, hne⟩, hk, rfl⟩
    exact ⟨⟨l, hl, hk, rfl⟩, fun heq => hne ⟨hk, heq⟩⟩
  · rintro ⟨⟨l, hl, hk, rfl⟩, hne⟩
    exact ⟨l, ⟨hl, fun heq => hne heq.2⟩, hk, rfl⟩

/-- The links without those of a file. -/
theorem has_file_of_delete {y : String} :
    (t.delete_file_by_id x).has_file id y ↔ t.has_file id y ∧ y ≠ x := by
  rw [has_file_iff, has_file_iff, delete_file_by_id_rows]
  simp only [List.mem_filter, decide_eq_true_eq]
  constructor
  · rintro ⟨l, ⟨hl, hne⟩, hk, rfl⟩
    exact ⟨⟨l, hl, hk, rfl⟩, hne⟩
  · rintro ⟨⟨l, hl, hk, rfl⟩, hne⟩
    exact ⟨l, ⟨hl, hne⟩, hk, rfl⟩

/-- Hashes of files are no matter of links. -/
theorem update_file_hash_by_id_rows {hash : Option String} :
    (s.update_file_hash_by_id x hash).tables.toRows = { s.tables.toRows with
      files := s.tables.files.map fun f => if f.id = x then { f with hash := hash } else f } := by
  have hids : (s.tables.files.map fun f => if f.id = x then { f with hash := hash } else f).map
      File.id = s.tables.files.map File.id := by
    rw [List.map_map]
    refine List.map_congr_left fun f _ => ?_
    rw [Function.comp]
    split_ifs <;> rfl
  have hok : Rows.Constraints { s.tables.toRows with
      files := s.tables.files.map fun f => if f.id = x then { f with hash := hash } else f } :=
    ⟨hids ▸ s.tables.ok.file_ids, s.tables.ok.directory_ids, s.tables.ok.parents,
      s.tables.ok.names, s.tables.ok.links, hids ▸ s.tables.ok.link_files,
      s.tables.ok.link_directories⟩
  rw [Store.update_file_hash_by_id, Rows.commit_of_constraints hok, Option.getD_some]

@[simp] theorem chunks_update_hash {hash : Option String} :
    (s.update_file_hash_by_id x hash).chunks id = s.chunks id := rfl

/-! ## Vectors -/

@[simp] theorem chunks_deleteVectors : (s.deleteVectors id x).chunks id =
    (s.chunks id).filter fun v => v.file_id ≠ x := by
  rw [Store.chunks, Store.deleteVectors]
  dsimp only
  rw [VectorDb.vectors_delete, Store.chunks]
  cases s.collections.vectors (.knowledge id) with
  | none => rfl
  | some vs => simp

@[simp] theorem chunks_insertVectors {items : List Chunk} :
    (s.insertVectors id items).chunks id = s.chunks id ++ items := by
  rw [Store.chunks, Store.insertVectors]
  dsimp only
  rw [VectorDb.vectors_insert]
  rfl

/-- **Processing a file** that can be processed adds vectors of it. -/
theorem process_file_of_indexable (h : Indexable digest s (s.chunks id) call) :
    ∃ content, (process_file digest id s call).2 = true ∧ call.documents ≠ 0 ∧
      (process_file digest id s call).1.chunks id = s.chunks id ++
        List.replicate call.documents ⟨call.file_id, some (digest content)⟩ := by
  obtain ⟨file, hfile, huser, content, hcontent, hdup⟩ := h
  have hid : file.id = call.file_id :=
    ((Keyed.find?_eq_some_iff s.tables.ok.file_ids).mp hfile).2
  have hzero : call.documents ≠ 0 := fun hzero => hdup (by simp [duplicate, hzero])
  refine ⟨content, ?_⟩
  rw [process_file, hfile, Option.filter_some, if_pos (by simpa using huser)]
  dsimp only
  rw [hcontent]
  dsimp only
  rw [hid, if_neg hdup]
  exact ⟨rfl, hzero, chunks_insertVectors⟩

/-- A file that cannot be processed keeps its vectors. -/
theorem process_file_of_not_indexable (h : ¬ Indexable digest s (s.chunks id) call) :
    (process_file digest id s call).2 = false ∧
      (process_file digest id s call).1.chunks id = s.chunks id := by
  rw [process_file]
  split
  · exact ⟨rfl, rfl⟩
  · next file hfile =>
    obtain ⟨hfound, huser⟩ := Option.filter_eq_some_iff.mp hfile
    have hid : file.id = call.file_id :=
      ((Keyed.find?_eq_some_iff s.tables.ok.file_ids).mp hfound).2
    split
    · exact ⟨rfl, rfl⟩
    · next content hcontent =>
      dsimp only
      split_ifs with hdup
      · exact ⟨rfl, rfl⟩
      · rw [hid] at hdup
        exact absurd ⟨file, hfound, by simpa using huser, content, hcontent, hdup⟩ h

/-- Links, directories and the ids of files are those of before. -/
def SameLinks (t t' : Tables) : Prop :=
  t'.links = t.links ∧ t'.directories = t.directories ∧ t'.files.map File.id = t.files.map File.id

theorem SameLinks.has_file (h : SameLinks t t') : t'.has_file id x = t.has_file id x := by
  rw [Rows.has_file, Rows.has_file, h.1]

theorem sameLinks_update_hash {hash : Option String} :
    SameLinks s.tables (s.update_file_hash_by_id x hash).tables := by
  refine ⟨?_, ?_, ?_⟩
  · rw [update_file_hash_by_id_rows]
  · rw [update_file_hash_by_id_rows]
  · rw [update_file_hash_by_id_rows, List.map_map]
    refine List.map_congr_left fun f _ => ?_
    rw [Function.comp]
    split_ifs <;> rfl

/-- Processing a file is no matter of links. -/
theorem sameLinks_process_file : SameLinks s.tables (process_file digest id s call).1.tables := by
  rw [process_file]
  split
  · exact ⟨rfl, rfl, rfl⟩
  · split
    · exact sameLinks_update_hash
    · dsimp only
      split_ifs
      · exact sameLinks_update_hash
      · exact sameLinks_update_hash

/-! ## The vectors of one file -/

theorem vectorsOf_append_replicate {n : ℕ} {hash : Option String} {vs : List Chunk} {y : String}
    (hy : y ≠ x) : (vs ++ List.replicate n (⟨x, hash⟩ : Chunk)).filter (fun v => v.file_id = y) =
      vs.filter fun v => v.file_id = y := by
  rw [List.filter_append, List.filter_replicate, if_neg (by simpa using hy.symm), List.append_nil]

theorem vectorsOf_filter_ne {vs : List Chunk} {y : String} (hy : y ≠ x) :
    (vs.filter fun v => v.file_id ≠ x).filter (fun v => v.file_id = y) =
      vs.filter fun v => v.file_id = y := by
  rw [List.filter_filter]
  refine List.filter_congr fun v _ => ?_
  by_cases hv : v.file_id = y <;> simp [hv, hy]

theorem exists_mem_append_replicate {n : ℕ} {hash : Option String} {vs : List Chunk} {y : String}
    (hn : n ≠ 0) : (∃ v ∈ vs ++ List.replicate n ⟨x, hash⟩, v.file_id = y) ↔
      (∃ v ∈ vs, v.file_id = y) ∨ y = x := by
  simp only [List.mem_append, List.mem_replicate, or_and_right, exists_or]
  refine or_congr_right ⟨?_, ?_⟩
  · rintro ⟨v, ⟨-, rfl⟩, rfl⟩
    rfl
  · rintro rfl
    exact ⟨_, ⟨hn, rfl⟩, rfl⟩

theorem exists_mem_filter_ne {vs : List Chunk} {y : String} :
    (∃ v ∈ vs.filter (fun v => v.file_id ≠ x), v.file_id = y) ↔
      (∃ v ∈ vs, v.file_id = y) ∧ y ≠ x := by
  simp only [List.mem_filter, decide_eq_true_eq]
  constructor
  · rintro ⟨v, ⟨hv, hne⟩, rfl⟩
    exact ⟨⟨v, hv, rfl⟩, hne⟩
  · rintro ⟨⟨v, hv, rfl⟩, hne⟩
    exact ⟨v, ⟨hv, hne⟩, rfl⟩

/-! ## Requests -/

/-- Nothing that the index is about is different. -/
theorem keeps_of_same (h : IndexAgrees id s) (hlinks : SameLinks s.tables s'.tables)
    (hchunks : s'.chunks id = s.chunks id) : Keeps id x s s' := by
  refine ⟨fun y => ?_, fun y _ => ?_⟩
  · rw [hlinks.has_file, hchunks]
    exact h y
  · rw [Store.vectorsOf, Store.vectorsOf, hchunks]

/-- **An addition** keeps the index unless it stores vectors and the directory is not there. -/
theorem keeps_addFile_iff (h : IndexAgrees id s) {directory_id : Option String} :
    Keeps id call.file_id s (addFile digest id s call directory_id) ↔
      (Indexable digest s (s.chunks id) call → s.tables.has_file id call.file_id ∨
        ∀ d, directory_id = some d → d ∈ s.tables.directories.map Directory.id) := by
  rw [addFile]
  cases hfile : s.tables.get_file_by_id call.file_id with
  | none =>
    refine iff_of_true (keeps_of_same h ⟨rfl, rfl, rfl⟩ rfl) ?_
    rintro ⟨file, hsome, -⟩
    rw [hfile] at hsome
    cases hsome
  | some file =>
    have hsame : SameLinks s.tables (process_file digest id s call).1.tables := sameLinks_process_file
    dsimp only
    by_cases hindex : Indexable digest s (s.chunks id) call
    · obtain ⟨content, hok, hzero, hchunks⟩ := process_file_of_indexable hindex
      have hmem : call.file_id ∈ (process_file digest id s call).1.tables.files.map File.id := by
        obtain ⟨hf, hid⟩ := (Keyed.find?_eq_some_iff s.tables.ok.file_ids).mp hfile
        rw [hsame.2.2, ← hid]
        exact List.mem_map_of_mem hf
      have hadd := @add_file_isSome_iff id call.file_id _ directory_id hmem
      rw [hsame.has_file, hsame.2.1] at hadd
      generalize process_file digest id s call = p at hok hchunks hsame hmem hadd
      obtain ⟨p, ok⟩ := p
      cases hok
      dsimp only at hchunks hsame hadd ⊢
      have hothers : ∀ t : Tables, ∀ y, y ≠ call.file_id →
          ({ p with tables := t } : Store).vectorsOf id y = s.vectorsOf id y := by
        intro t y hy
        show (p.chunks id).filter _ = (s.chunks id).filter _
        rw [hchunks, vectorsOf_append_replicate hy]
      have hvectors : ∀ y, (∃ v ∈ p.chunks id, v.file_id = y) ↔
          s.tables.has_file id y ∨ y = call.file_id := by
        intro y
        rw [hchunks, exists_mem_append_replicate hzero, h y]
      cases hlink : p.tables.add_file_to_knowledge_by_id id call.file_id directory_id with
      | some t =>
        rw [hlink] at hadd
        have hsound := hadd.mp rfl
        refine iff_of_true ⟨fun y => ?_, hothers t⟩ fun _ => Or.inr hsound.2
        show t.has_file id y ↔ ∃ v ∈ p.chunks id, v.file_id = y
        rw [has_file_of_add hlink, hsame.has_file, hvectors]
      | none =>
        rw [hlink] at hadd
        have hrefused : s.tables.has_file id call.file_id ∨
            ¬ ∀ d, directory_id = some d → d ∈ s.tables.directories.map Directory.id := by
          by_contra hnot
          rw [not_or, not_not] at hnot
          exact absurd (hadd.mpr hnot) Bool.false_ne_true
        by_cases hlinked : s.tables.has_file id call.file_id
        · refine iff_of_true ⟨fun y => ?_, hothers _⟩ fun _ => Or.inl hlinked
          show p.tables.has_file id y ↔ ∃ v ∈ p.chunks id, v.file_id = y
          rw [hsame.has_file, hvectors]
          refine ⟨Or.inl, ?_⟩
          rintro (hy | rfl)
          · exact hy
          · exact hlinked
        · refine iff_of_false (fun hkeeps => hlinked ?_) fun hsound => ?_
          · rw [← hsame.has_file]
            exact (hkeeps.1 call.file_id).mpr ((hvectors call.file_id).mpr (Or.inr rfl))
          · exact (hsound hindex).elim hlinked (hrefused.resolve_left hlinked)
    · obtain ⟨hok, hchunks⟩ := process_file_of_not_indexable hindex
      generalize process_file digest id s call = p at hok hchunks hsame
      obtain ⟨p, ok⟩ := p
      cases hok
      exact iff_of_true (keeps_of_same h hsame hchunks) fun hyes => absurd hyes hindex

/-- **An update** keeps the index if it can process the file. -/
theorem keeps_updateFile_iff (h : IndexAgrees id s) :
    Keeps id call.file_id s (updateFile digest id s call) ↔
      (s.tables.has_file id call.file_id →
        Indexable digest s ((s.chunks id).filter fun v => v.file_id ≠ call.file_id) call) := by
  rw [updateFile]
  by_cases hlinked : s.tables.has_file id call.file_id
  · rw [if_pos ⟨get_file_of_has_file hlinked, hlinked⟩]
    have hsame : SameLinks s.tables
        (process_file digest id (s.deleteVectors id call.file_id) call).1.tables :=
      @sameLinks_process_file digest id (s.deleteVectors id call.file_id) call
    rw [← chunks_deleteVectors]
    by_cases hindex : Indexable digest s ((s.deleteVectors id call.file_id).chunks id) call
    · obtain ⟨content, -, hzero, hchunks⟩ :=
        @process_file_of_indexable digest id (s.deleteVectors id call.file_id) call hindex
      refine iff_of_true ⟨fun y => ?_, fun y hy => ?_⟩ fun _ => hindex
      · rw [hsame.has_file, hchunks, exists_mem_append_replicate hzero, chunks_deleteVectors,
          exists_mem_filter_ne, h y]
        constructor
        · intro hy
          by_cases heq : y = call.file_id
          · exact Or.inr heq
          · exact Or.inl ⟨hy, heq⟩
        · rintro (hy | rfl)
          · exact hy.1
          · exact (h _).mp hlinked
      · rw [Store.vectorsOf, hchunks, vectorsOf_append_replicate hy, chunks_deleteVectors,
          vectorsOf_filter_ne hy, Store.vectorsOf]
    · obtain ⟨-, hchunks⟩ :=
        @process_file_of_not_indexable digest id (s.deleteVectors id call.file_id) call hindex
      refine iff_of_false (fun hkeeps => ?_) fun hyes => hindex (hyes hlinked)
      -- the file is linked and has no vectors
      have hgone := (hkeeps.1 call.file_id).mp (by rw [hsame.has_file]; exact hlinked)
      rw [hchunks, chunks_deleteVectors, exists_mem_filter_ne] at hgone
      exact hgone.2 rfl
  · rw [if_neg fun hyes => hlinked hyes.2]
    exact iff_of_true (keeps_of_same h ⟨rfl, rfl, rfl⟩ rfl) fun hyes => absurd hyes hlinked

/-- What a removal leaves of the links and of the vectors. -/
theorem removeFile_spec {file : File} (hfile : s.tables.get_file_by_id call.file_id = some file)
    (hlinked : s.tables.has_file id call.file_id) (delete_file : Bool) :
    (∀ y, (removeFile id s call delete_file).tables.has_file id y ↔
      s.tables.has_file id y ∧ y ≠ call.file_id) ∧
    (removeFile id s call delete_file).chunks id =
      ((s.chunks id).filter fun v => v.file_id ≠ call.file_id).filter
        fun v => ¬ v.hash = file.hash := by
  have hchunks : (((s.deleteVectors id call.file_id).collections.delete (.knowledge id)
      fun v => v.hash = file.hash).vectors (.knowledge id)).getD [] =
      ((s.chunks id).filter fun v => v.file_id ≠ call.file_id).filter
        fun v => ¬ v.hash = file.hash := by
    rw [VectorDb.vectors_delete, ← chunks_deleteVectors, Store.chunks]
    cases (s.deleteVectors id call.file_id).collections.vectors (.knowledge id) with
    | none => rfl
    | some vs => simp
  rw [removeFile, hfile]
  dsimp only
  rw [if_pos hlinked]
  split_ifs with hdelete hown
  · refine ⟨fun y => ?_, ?_⟩
    · rw [has_file_of_delete, has_file_of_remove, and_assoc, and_self]
    · rw [Store.chunks, VectorDb.vectors_delete_collection_of_ne (by simp)]
      exact hchunks
  · refine ⟨fun y => ?_, hchunks⟩
    rw [has_file_of_delete, has_file_of_remove, and_assoc, and_self]
  · exact ⟨fun y => has_file_of_remove, hchunks⟩

/-- **A removal** keeps the index if no vectors of other files have the hash. -/
theorem keeps_removeFile_iff (h : IndexAgrees id s) {delete_file : Bool} :
    Keeps id call.file_id s (removeFile id s call delete_file) ↔
      (s.tables.has_file id call.file_id →
        ∀ file, s.tables.get_file_by_id call.file_id = some file →
          ∀ v ∈ s.chunks id, v.file_id ≠ call.file_id → v.hash ≠ file.hash) := by
  by_cases hlinked : s.tables.has_file id call.file_id
  · obtain ⟨file, hfile⟩ := Option.isSome_iff_exists.mp (get_file_of_has_file hlinked)
    obtain ⟨hlinks, hchunks⟩ := removeFile_spec hfile hlinked delete_file
    constructor
    · rintro ⟨-, hothers⟩ - file' hfile' v hv hne hhash
      obtain rfl := Option.some.inj (hfile.symm.trans hfile')
      have hmem : v ∈ (removeFile id s call delete_file).vectorsOf id v.file_id := by
        rw [hothers v.file_id hne]
        exact List.mem_filter.mpr ⟨hv, decide_eq_true rfl⟩
      have hleft := (List.mem_filter.mp hmem).1
      rw [hchunks, List.mem_filter, decide_eq_true_eq] at hleft
      exact hleft.2 hhash
    · intro hsound
      have hkept : (removeFile id s call delete_file).chunks id =
          (s.chunks id).filter fun v => v.file_id ≠ call.file_id := by
        rw [hchunks, List.filter_eq_self]
        intro v hv
        obtain ⟨hv, hne⟩ := List.mem_filter.mp hv
        exact decide_eq_true (hsound hlinked file hfile v hv (of_decide_eq_true hne))
      refine ⟨fun y => ?_, fun y hy => ?_⟩
      · rw [hlinks, hkept, exists_mem_filter_ne, h y]
      · rw [Store.vectorsOf, hkept, vectorsOf_filter_ne hy, Store.vectorsOf]
  · have hsame : removeFile id s call delete_file = s := by
      rw [removeFile]
      split
      · rfl
      · rw [if_neg hlinked]
    rw [hsame]
    exact iff_of_true (keeps_of_same h ⟨rfl, rfl, rfl⟩ rfl) fun hyes => absurd hyes hlinked

/-- **One request** keeps the index exactly if it is sound. -/
theorem keepsIndex_iff (h : IndexAgrees id s) :
    KeepsIndex digest id s call ↔ SoundIndexCall digest id s call := by
  have hrefused : Keeps id call.file_id s s := keeps_of_same h ⟨rfl, rfl, rfl⟩ rfl
  have hstep : KeepsIndex digest id s call ↔
      Keeps id call.file_id s ((indexStep digest id s call).getD s) :=
    ⟨fun hkeeps => hkeeps _ rfl, fun hkeeps s' hs' => Option.some.inj hs' ▸ hkeeps⟩
  rw [hstep, indexStep, SoundIndexCall, Option.getD_some]
  cases call.request with
  | update_file_hash_by_id hash =>
    exact iff_of_true (keeps_of_same h sameLinks_update_hash rfl) trivial
  | add_file_to_knowledge_by_id directory_id =>
    dsimp only
    split_ifs with haccepted
    · rw [keeps_addFile_iff h]
      exact ⟨fun hyes _ => hyes, fun hyes => hyes haccepted⟩
    · exact iff_of_true hrefused fun hyes => absurd hyes haccepted
  | update_file_from_knowledge_by_id =>
    dsimp only
    split_ifs with haccepted
    · rw [keeps_updateFile_iff h]
      exact ⟨fun hyes _ => hyes, fun hyes => hyes haccepted⟩
    · exact iff_of_true hrefused fun hyes => absurd hyes haccepted
  | remove_file_from_knowledge_by_id delete_file =>
    dsimp only
    split_ifs with haccepted
    · rw [keeps_removeFile_iff h]
      exact ⟨fun hyes _ => hyes, fun hyes => hyes haccepted⟩
    · exact iff_of_true hrefused fun hyes => absurd hyes haccepted

/-- **The index of a run agrees** at every step exactly if the requests are sound. -/
theorem stepsMeet_keepsIndex_iff (digest : String → String) (id : String) (s : Store)
    (h : IndexAgrees id s) (calls : List IndexCall) :
    StepsMeet (indexStep digest id) (KeepsIndex digest id) s calls ↔
      StepsMeet (indexStep digest id) (SoundIndexCall digest id) s calls := by
  refine stepsMeet_congr (P := IndexAgrees id) (fun s call hs => keepsIndex_iff hs) ?_ h
  intro s call s' _ hkeeps hs'
  exact (hkeeps s' hs').1

/-! ## Files with one content -/

/-- Two files of the user with the same content, and no links. -/
def sameContent : Store where
  tables := ⟨⟨[⟨"f", "u", "f.txt", none, some "f", none⟩, ⟨"g", "u", "g.txt", none, some "g", none⟩],
    [], []⟩, by decide⟩
  collections := []
  stored := []

/-- A request on a file whose content is one document. -/
def contentCall (user_id file_id : String) (request : IndexRequest) : IndexCall :=
  ⟨user_id, false, file_id, true, some "content", 1, request⟩

/-- Neither is linked. -/
theorem indexAgrees_sameContent : IndexAgrees "k" sameContent := by
  intro x
  refine iff_of_false (by rw [has_file_iff]; rintro ⟨l, hl, -⟩; cases hl) ?_
  rintro ⟨v, hv, -⟩
  cases hv

/-- One of the files is added, updated and removed. -/
theorem keepsIndex_add_update_remove :
    StepsMeet (indexStep (fun content => content) "k") (KeepsIndex (fun content => content) "k")
      sameContent
      [contentCall "u" "f" (.add_file_to_knowledge_by_id none),
        contentCall "u" "f" .update_file_from_knowledge_by_id,
        contentCall "u" "f" (.remove_file_from_knowledge_by_id true)] ↔
    StepsMeet (indexStep (fun content => content) "k")
      (SoundIndexCall (fun content => content) "k") sameContent
      [contentCall "u" "f" (.add_file_to_knowledge_by_id none),
        contentCall "u" "f" .update_file_from_knowledge_by_id,
        contentCall "u" "f" (.remove_file_from_knowledge_by_id true)] :=
  stepsMeet_keepsIndex_iff _ "k" sameContent indexAgrees_sameContent _

/-- A user that does not own the file updates it, which loses its vectors; then a file of the same
content is added, and its vectors go with the removal of the first. -/
def lostVectors : List IndexCall :=
  [contentCall "u" "f" (.add_file_to_knowledge_by_id none),
    contentCall "v" "f" .update_file_from_knowledge_by_id,
    contentCall "u" "g" (.add_file_to_knowledge_by_id none),
    contentCall "u" "f" (.remove_file_from_knowledge_by_id false)]

/-- The file that is left has no vectors. -/
theorem lostVectors_not_indexAgrees :
    ((exec (indexStep (fun content => content) "k") sameContent lostVectors).map fun s =>
      (s.tables.has_file "k" "g", s.chunks "k")) = some (true, []) ∧
    ¬ ∃ s, exec (indexStep (fun content => content) "k") sameContent lostVectors = some s ∧
      IndexAgrees "k" s := by
  have hrun : ((exec (indexStep (fun content => content) "k") sameContent lostVectors).map fun s =>
      (s.tables.has_file "k" "g", s.chunks "k")) = some (true, []) := by decide
  refine ⟨hrun, ?_⟩
  rintro ⟨s, hs, hagrees⟩
  rw [hs, Option.map_some, Option.some.injEq, Prod.mk.injEq] at hrun
  obtain ⟨v, hv, -⟩ := (hagrees "g").mp hrun.1
  rw [hrun.2] at hv
  cases hv

end OpenLaunch.Knowledge
