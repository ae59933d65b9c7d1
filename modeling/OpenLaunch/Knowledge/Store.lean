import OpenLaunch.Knowledge.Subtree

/-! # Files, vectors and stored files

Beside the tables there are the collections of a vector database, and the files that a storage provider
keeps. The file has their operations that requests use, and what these do to collections and rows. -/

namespace OpenLaunch.Knowledge

/-! ## Vectors -/

/-- Names of collections: `id` for a knowledge base, and `file-{file_id}` for a file. -/
inductive CollectionName
  | knowledge (id : String)
  | file (file_id : String)
  deriving DecidableEq

/-- What the metadata of a vector says. -/
structure Chunk where
  file_id : String
  hash : Option String
  deriving DecidableEq

/-- Collections with their vectors. -/
abbrev VectorDb := List (CollectionName × List Chunk)

namespace VectorDb

/-- `has_collection`. -/
def has_collection (db : VectorDb) (name : CollectionName) : Bool := db.any fun c => c.1 = name

/-- `delete_collection`. -/
def delete_collection (db : VectorDb) (name : CollectionName) : VectorDb :=
  db.filter fun c => c.1 ≠ name

/-- The vectors of a collection are changed. -/
def modify (db : VectorDb) (name : CollectionName) (g : List Chunk → List Chunk) : VectorDb :=
  db.map fun c => if c.1 = name then (c.1, g c.2) else c

/-- `delete` with a filter. -/
def delete (db : VectorDb) (name : CollectionName) (matching : Chunk → Bool) : VectorDb :=
  db.modify name fun vs => vs.filter fun v => ¬ matching v

/-- `insert`, which makes the collection if there is none. -/
def insert (db : VectorDb) (name : CollectionName) (items : List Chunk) : VectorDb :=
  if db.has_collection name then db.modify name (· ++ items) else db ++ [(name, items)]

/-- The vectors of a collection, if there is one. -/
def vectors (db : VectorDb) (name : CollectionName) : Option (List Chunk) :=
  (db.find? fun c => c.1 = name).map Prod.snd

variable {db : VectorDb} {name name' : CollectionName}

theorem vectors_modify (g : List Chunk → List Chunk) :
    (db.modify name g).vectors name' =
      if name' = name then (db.vectors name').map g else db.vectors name' := by
  induction db with
  | nil => exact (ite_self none).symm
  | cons c db ih =>
    rw [vectors, vectors, modify, List.map_cons, List.find?_cons, List.find?_cons]
    have hfst : (if c.1 = name then (c.1, g c.2) else c).1 = c.1 := by split_ifs <;> rfl
    rw [hfst]
    by_cases hc : c.1 = name'
    · subst hc
      simp only [decide_true]
      split_ifs <;> rfl
    · simp only [hc, decide_false]
      exact ih

theorem vectors_delete_of_ne (h : name' ≠ name) (matching : Chunk → Bool) :
    (db.delete name matching).vectors name' = db.vectors name' := by
  rw [delete, vectors_modify, if_neg h]

theorem vectors_delete (matching : Chunk → Bool) :
    (db.delete name matching).vectors name =
      (db.vectors name).map fun vs => vs.filter fun v => ¬ matching v := by
  rw [delete, vectors_modify, if_pos rfl]

theorem vectors_delete_collection_of_ne (h : name' ≠ name) :
    (db.delete_collection name).vectors name' = db.vectors name' := by
  rw [vectors, delete_collection, List.find?_filter, vectors]
  refine congrArg (Option.map Prod.snd) (congrArg (fun p => db.find? p) (funext fun c => ?_))
  by_cases hc : c.1 = name'
  · simp [hc, h]
  · simp [hc]

theorem vectors_eq_none_iff : db.vectors name = none ↔ db.has_collection name = false := by
  rw [vectors, Option.map_eq_none_iff, List.find?_eq_none, has_collection, List.any_eq_false]

theorem vectors_delete_collection : (db.delete_collection name).vectors name = none := by
  rw [vectors_eq_none_iff, has_collection, delete_collection, List.any_eq_false]
  intro c hc
  have hne : c.1 ≠ name := of_decide_eq_true (List.mem_filter.mp hc).2
  simpa using hne

theorem vectors_insert (items : List Chunk) :
    (db.insert name items).vectors name = some ((db.vectors name).getD [] ++ items) := by
  rw [insert]
  cases hvs : db.vectors name with
  | none =>
    rw [if_neg (by rw [vectors_eq_none_iff.mp hvs]; exact Bool.false_ne_true), vectors,
      List.find?_append, Option.map_eq_none_iff.mp hvs]
    simp
  | some vs =>
    have hhas : db.has_collection name = true := by
      by_contra hnot
      rw [Bool.not_eq_true, ← vectors_eq_none_iff, hvs] at hnot
      cases hnot
    rw [if_pos hhas, vectors_modify, if_pos rfl, hvs]
    rfl

end VectorDb

/-! ## Stores -/

/-- The tables, the vector database, and the names of the stored files. -/
structure Store where
  tables : Tables
  collections : VectorDb
  stored : List String

/-! ## The operations on files -/

/-- `remove_file_from_knowledge_by_id`. -/
def Tables.remove_file_from_knowledge_by_id (t : Tables) (knowledge_id file_id : String) : Tables :=
  (Rows.commit { t.toRows with
    links := t.links.filter fun l => ¬ (l.knowledge_id = knowledge_id ∧ l.file_id = file_id) }).getD t

/-- `Files.delete_file_by_id`. Links of the file go with it. -/
def Tables.delete_file_by_id (t : Tables) (id : String) : Tables :=
  (Rows.commit { t.toRows with
    files := t.files.filter fun f => f.id ≠ id
    links := t.links.filter fun l => l.file_id ≠ id }).getD t

variable {t : Tables} {x id : String}

theorem remove_file_from_knowledge_by_id_rows :
    (t.remove_file_from_knowledge_by_id id x).toRows = { t.toRows with
      links := t.links.filter fun l => ¬ (l.knowledge_id = id ∧ l.file_id = x) } := by
  rw [Tables.remove_file_from_knowledge_by_id,
    Rows.commit_of_constraints (t.ok.sublinks List.filter_sublist), Option.getD_some]

theorem delete_file_by_id_rows :
    (t.delete_file_by_id x).toRows = { t.toRows with
      files := t.files.filter fun f => f.id ≠ x
      links := t.links.filter fun l => l.file_id ≠ x } := by
  have hok : Rows.Constraints { t.toRows with
      files := t.files.filter fun f => f.id ≠ x
      links := t.links.filter fun l => l.file_id ≠ x } :=
    { t.ok.sublinks (List.filter_sublist (p := fun l => decide (l.file_id ≠ x))) with
      file_ids := t.ok.file_ids.sublist (List.filter_sublist.map File.id)
      link_files := by
        intro l hl
        obtain ⟨hmem, hne⟩ := List.mem_filter.mp hl
        obtain ⟨f, hf, hid⟩ := List.mem_map.mp (t.ok.link_files l hmem)
        rw [← hid] at hne ⊢
        exact List.mem_map_of_mem (List.mem_filter.mpr ⟨hf, hne⟩) }
  rw [Tables.delete_file_by_id, Rows.commit_of_constraints hok, Option.getD_some]

end OpenLaunch.Knowledge
