import OpenLaunch.Forest
import OpenLaunch.Keyed

/-! # The tables of knowledge bases

Files, the directories of knowledge bases, and the links of files to knowledge bases. A write is
committed if the constraints of the tables hold afterwards. That siblings have different names is a
constraint on directories with a parent only: a missing parent is equal to no other one. -/

namespace OpenLaunch.Knowledge

open Forest

/-! ## Rows -/

/-- A row of `file`, without its content and dates. `file_hash` is that of `meta`. -/
structure File where
  id : String
  user_id : String
  filename : String
  hash : Option String
  path : Option String
  file_hash : Option String
  deriving DecidableEq

/-- A row of `knowledge_directory`. -/
structure Directory where
  id : String
  knowledge_id : String
  parent_id : Option String
  name : String
  deriving DecidableEq

/-- A row of `knowledge_file`, which links a file to a knowledge base. -/
structure KnowledgeFile where
  knowledge_id : String
  file_id : String
  directory_id : Option String
  deriving DecidableEq

structure Rows where
  files : List File
  directories : List Directory
  links : List KnowledgeFile
  deriving DecidableEq

/-! ## Constraints -/

/-- `UniqueConstraint('knowledge_id', 'parent_id', 'name')`. -/
def NamesApart (d d' : Directory) : Prop :=
  ¬ (d.knowledge_id = d'.knowledge_id ∧ d.parent_id = d'.parent_id ∧ d.parent_id.isSome ∧
    d.name = d'.name)

instance (d d' : Directory) : Decidable (NamesApart d d') := by
  unfold NamesApart
  infer_instance

instance : Std.Symm NamesApart where
  symm _ _ h := fun ⟨hknowledge, hparent, hsome, hname⟩ =>
    h ⟨hknowledge.symm, hparent.symm, hparent ▸ hsome, hname.symm⟩

/-- Primary keys, the two `UniqueConstraint`s, and the foreign keys between the tables. -/
structure Rows.Constraints (r : Rows) : Prop where
  file_ids : (r.files.map File.id).Nodup
  directory_ids : (r.directories.map Directory.id).Nodup
  parents : ∀ d ∈ r.directories, ∀ p, d.parent_id = some p → p ∈ r.directories.map Directory.id
  names : r.directories.Pairwise NamesApart
  links : (r.links.map fun l => (l.knowledge_id, l.file_id)).Nodup
  link_files : ∀ l ∈ r.links, l.file_id ∈ r.files.map File.id
  link_directories : ∀ l ∈ r.links, ∀ d, l.directory_id = some d →
    d ∈ r.directories.map Directory.id

/-- A value of a nullable column, if there is one, is a key. -/
def RefersTo (keys : List String) : Option String → Bool
  | none => true
  | some key => decide (key ∈ keys)

theorem refersTo_iff {keys : List String} {value : Option String} :
    RefersTo keys value = true ↔ ∀ key, value = some key → key ∈ keys := by
  cases value <;> simp [RefersTo]

instance (r : Rows) : Decidable r.Constraints :=
  decidable_of_iff
    ((r.files.map File.id).Nodup ∧ (r.directories.map Directory.id).Nodup ∧
      (∀ d ∈ r.directories, RefersTo (r.directories.map Directory.id) d.parent_id = true) ∧
      r.directories.Pairwise NamesApart ∧
      (r.links.map fun l => (l.knowledge_id, l.file_id)).Nodup ∧
      (∀ l ∈ r.links, l.file_id ∈ r.files.map File.id) ∧
      ∀ l ∈ r.links, RefersTo (r.directories.map Directory.id) l.directory_id = true) (by
    simp only [refersTo_iff]
    constructor
    · rintro ⟨h₁, h₂, h₃, h₄, h₅, h₆, h₇⟩
      exact ⟨h₁, h₂, h₃, h₄, h₅, h₆, h₇⟩
    · rintro ⟨h₁, h₂, h₃, h₄, h₅, h₆, h₇⟩
      exact ⟨h₁, h₂, h₃, h₄, h₅, h₆, h₇⟩)

/-- The tables between writes. -/
structure Tables extends Rows where
  ok : toRows.Constraints
  deriving DecidableEq

/-- `db.commit()`. It raises if a constraint is violated. -/
def Rows.commit (r : Rows) : Option Tables := if h : r.Constraints then some ⟨r, h⟩ else none

theorem Rows.commit_eq_some {r : Rows} {t : Tables} : r.commit = some t ↔ t.toRows = r := by
  rw [Rows.commit]
  constructor
  · intro h
    split_ifs at h
    cases h
    rfl
  · rintro rfl
    rw [dif_pos t.ok]

namespace Rows

variable (r : Rows)

/-! ## Queries -/

/-- `get_directory_by_id`. -/
def get_directory_by_id (id : String) : Option Directory := r.directories.find? fun d => d.id = id

/-- `Files.get_file_by_id`. -/
def get_file_by_id (id : String) : Option File := r.files.find? fun f => f.id = id

/-- `has_file`. -/
def has_file (knowledge_id file_id : String) : Bool :=
  r.links.any fun l => l.knowledge_id = knowledge_id ∧ l.file_id = file_id

/-- The parent of a directory. -/
def parent (id : String) : Option String := (r.get_directory_by_id id).bind Directory.parent_id

/-- The ids of the children of a directory. -/
def childIds (id : String) : List String :=
  (r.directories.filter fun d => d.parent_id = some id).map Directory.id

/-- There is a directory of that id in the knowledge base. -/
def IsDirectoryOf (id knowledge_id : String) : Prop :=
  ∃ d ∈ r.directories, d.id = id ∧ d.knowledge_id = knowledge_id

/-! ## Deleting rows -/

/-- The directory `id` is above the directory `x`, or the same. -/
def above (id x : String) : Bool := reaches r.parent r.directories.length x id

/-- `delete(KnowledgeDirectory)`: directories go with what is below them, and links lose directories
that go. -/
def removeDirectory (id : String) : Rows where
  files := r.files
  directories := r.directories.filter fun d => ¬ r.above id d.id
  links := r.links.map fun l =>
    if l.directory_id.any (r.above id) then { l with directory_id := none } else l

variable {r} {d : Directory} {x p id knowledge_id : String}

theorem mem_childIds : x ∈ r.childIds id ↔ ∃ d ∈ r.directories, d.id = x ∧ d.parent_id = some id := by
  simp only [childIds, List.mem_map, List.mem_filter, decide_eq_true_eq]
  constructor
  · rintro ⟨d, ⟨hd, hp⟩, rfl⟩
    exact ⟨d, hd, rfl, hp⟩
  · rintro ⟨d, hd, rfl, hp⟩
    exact ⟨d, ⟨hd, hp⟩, rfl⟩

theorem mem_ids_of_parent (h : r.parent x = some p) : x ∈ r.directories.map Directory.id := by
  obtain ⟨d, hd, -⟩ := Option.bind_eq_some_iff.mp h
  by_contra hnot
  rw [get_directory_by_id, Keyed.find?_eq_none_iff.mpr hnot] at hd
  cases hd

theorem above_iff : r.above id x = true ↔ Relation.ReflTransGen (Edge r.parent) x id := by
  rw [above, ← List.length_map Directory.id]
  exact reaches_iff fun x p hx => mem_ids_of_parent hx

section

variable (hr : r.Constraints)
include hr

theorem get_directory_by_id_eq_some :
    r.get_directory_by_id id = some d ↔ d ∈ r.directories ∧ d.id = id :=
  Keyed.find?_eq_some_iff hr.directory_ids

theorem parent_eq_some :
    r.parent x = some p ↔ ∃ d ∈ r.directories, d.id = x ∧ d.parent_id = some p := by
  rw [parent, Option.bind_eq_some_iff]
  constructor
  · rintro ⟨d, hd, hp⟩
    obtain ⟨hmem, hid⟩ := (get_directory_by_id_eq_some hr).mp hd
    exact ⟨d, hmem, hid, hp⟩
  · rintro ⟨d, hmem, hid, hp⟩
    exact ⟨d, (get_directory_by_id_eq_some hr).mpr ⟨hmem, hid⟩, hp⟩

theorem parent_of_mem (hd : d ∈ r.directories) : r.parent d.id = d.parent_id := by
  rw [parent, (get_directory_by_id_eq_some hr).mpr ⟨hd, rfl⟩, Option.bind_some]

theorem parent_mem_ids (h : r.parent x = some p) : p ∈ r.directories.map Directory.id := by
  obtain ⟨d, hd, -, hp⟩ := (parent_eq_some hr).mp h
  exact hr.parents d hd p hp

/-- **Deleting a directory leaves no dangling references.** -/
theorem Constraints.removeDirectory (id : String) : (r.removeDirectory id).Constraints where
  file_ids := hr.file_ids
  directory_ids := hr.directory_ids.sublist (List.filter_sublist.map Directory.id)
  parents := by
    intro d hd p hp
    obtain ⟨hmem, hkept⟩ := List.mem_filter.mp hd
    obtain ⟨d', hd', rfl⟩ := List.mem_map.mp (hr.parents d hmem p hp)
    refine List.mem_map_of_mem (List.mem_filter.mpr ⟨hd', ?_⟩)
    -- a parent that goes takes its children along
    rw [decide_eq_true_eq, above_iff] at hkept ⊢
    exact fun hpath => hkept (.head ((parent_of_mem hr hmem).trans hp) hpath)
  names := hr.names.sublist List.filter_sublist
  links := by
    have hkeys : (r.removeDirectory id).links.map (fun l => (l.knowledge_id, l.file_id)) =
        r.links.map fun l => (l.knowledge_id, l.file_id) := by
      rw [Rows.removeDirectory, List.map_map]
      apply List.map_congr_left
      intro l _
      dsimp only [Function.comp]
      split_ifs <;> rfl
    rw [hkeys]
    exact hr.links
  link_files := by
    intro l hl
    obtain ⟨l', hl', rfl⟩ := List.mem_map.mp hl
    split_ifs
    · exact hr.link_files l' hl'
    · exact hr.link_files l' hl'
  link_directories := by
    intro l hl p hp
    obtain ⟨l', hl', rfl⟩ := List.mem_map.mp hl
    split_ifs at hp with habove
    · rw [hp, Option.any_some] at habove
      obtain ⟨d, hd, rfl⟩ := List.mem_map.mp (hr.link_directories l' hl' p hp)
      refine List.mem_map_of_mem (List.mem_filter.mpr ⟨hd, ?_⟩)
      rw [decide_eq_true_eq]
      exact habove

end

end Rows

end OpenLaunch.Knowledge
