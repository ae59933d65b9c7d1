import OpenLaunch.Knowledge.Tables
import OpenLaunch.Transition

/-! # Directories of knowledge bases

The operations of `KnowledgeTable` on directories and on the links of files, and the requests that
call them. An operation is missing if it fails, and then the tables are as before. -/

namespace OpenLaunch.Knowledge

open Forest Transition

/-! ## Directories -/

namespace Tables

/-- `create_directory`. -/
def create_directory (t : Tables) (id knowledge_id name : String) (parent_id : Option String) :
    Option Tables :=
  Rows.commit { t.toRows with directories := t.directories ++ [⟨id, knowledge_id, parent_id, name⟩] }

/-- `rename_directory`. -/
def rename_directory (t : Tables) (directory_id name : String) : Option Tables :=
  Rows.commit { t.toRows with
    directories := t.directories.map fun d =>
      if d.id = directory_id then { d with name := name } else d }

/-- The loop of `move_directory`: whether the directory is met on the way up. -/
def meets (t : Tables) (directory_id : String) : ℕ → Option String → List String → Bool
  | 0, _, _ => false
  | _ + 1, none, _ => false
  | n + 1, some current, seen =>
    if current = "" ∨ current ∈ seen then false
    else if current = directory_id then true
    else meets t directory_id n (t.parent current) (current :: seen)

/-- `move_directory`. The loop ends after all directories and an id of none at the latest. -/
def move_directory (t : Tables) (directory_id : String) (new_parent_id : Option String) :
    Option Tables :=
  if t.meets directory_id (t.directories.length + 2) new_parent_id [] then none
  else
    Rows.commit { t.toRows with
      directories := t.directories.map fun d =>
        if d.id = directory_id then { d with parent_id := new_parent_id } else d }

/-- `update_directory`. The directory stays moved if it cannot be renamed. -/
def update_directory (t : Tables) (directory_id : String) (name parent_id : Option String) :
    Tables :=
  let moved := if parent_id ≠ some "__unset__" then t.move_directory directory_id parent_id else some t
  match moved with
  | none => t
  | some moved =>
    match name with
    | some name => (moved.rename_directory directory_id name).getD moved
    | none => moved

end Tables

/-- `update(KnowledgeFile).filter_by(directory_id=…)`. -/
def moveFiles (directory_id : String) (target : Option String) (links : List KnowledgeFile) :
    List KnowledgeFile :=
  links.map fun l => if l.directory_id = some directory_id then { l with directory_id := target } else l

/-- `delete(KnowledgeFile).filter_by(directory_id=…)`. -/
def deleteFiles (directory_id : String) (links : List KnowledgeFile) : List KnowledgeFile :=
  links.filter fun l => l.directory_id ≠ some directory_id

namespace Rows

/-- `_move_files_from_subtree`, for a number of nested calls. -/
def moveFilesFromSubtree (r : Rows) (target : Option String) :
    ℕ → String → List KnowledgeFile → Option (List KnowledgeFile)
  | 0, _, _ => none
  | n + 1, directory_id, links =>
    (r.childIds directory_id).foldlM (fun links child_id =>
      moveFilesFromSubtree r target n child_id (moveFiles child_id target links)) links

/-- `_delete_files_in_subtree`, for a number of nested calls. -/
def deleteFilesInSubtree (r : Rows) :
    ℕ → String → List KnowledgeFile → Option (List KnowledgeFile)
  | 0, _, _ => none
  | n + 1, directory_id, links =>
    (r.childIds directory_id).foldlM (fun links child_id => deleteFilesInSubtree r n child_id links)
      (deleteFiles directory_id links)

end Rows

namespace Tables

/-- `delete_directory`. The calls are nested as deep as there are directories, or without end. -/
def delete_directory (t : Tables) (directory_id : String) (move_files_to_parent : Bool) :
    Option Tables :=
  (t.get_directory_by_id directory_id).bind fun directory =>
    let depth := t.directories.length + 1
    let links :=
      if move_files_to_parent then
        t.moveFilesFromSubtree directory.parent_id depth directory_id
          (moveFiles directory_id directory.parent_id t.links)
      else t.deleteFilesInSubtree depth directory_id t.links
    links.bind fun links => ({ t.toRows with links := links }.removeDirectory directory_id).commit

/-! ## Links -/

/-- `add_file_to_knowledge_by_id`. -/
def add_file_to_knowledge_by_id (t : Tables) (knowledge_id file_id : String)
    (directory_id : Option String) : Option Tables :=
  Rows.commit { t.toRows with links := t.links ++ [⟨knowledge_id, file_id, directory_id⟩] }

/-- `move_file_to_directory`. -/
def move_file_to_directory (t : Tables) (knowledge_id file_id : String)
    (directory_id : Option String) : Option Tables :=
  Rows.commit { t.toRows with
    links := t.links.map fun l =>
      if l.knowledge_id = knowledge_id ∧ l.file_id = file_id then
        { l with directory_id := directory_id }
      else l }

end Tables

/-! ## Requests -/

/-- The requests on directories and links of a knowledge base. -/
inductive DirectoryRequest
  /-- A new directory, for a fresh UUID. -/
  | create_knowledge_directory (directory_id name : String) (parent_id : Option String)
  /-- A new name, a new parent, or both. -/
  | update_knowledge_directory (dir_id : String) (name parent_id : Option String)
  | delete_knowledge_directory (dir_id : String) (move_files : Bool)
  /-- A file for which access, content and processing are as they should, if `accepted`. -/
  | add_file_to_knowledge_by_id (file_id : String) (directory_id : Option String) (accepted : Bool)
  | move_file_in_knowledge (file_id : String) (directory_id : Option String)

/-- A request on a knowledge base, and the answer of `_verify_knowledge_write_access`. -/
structure DirectoryCall where
  id : String
  writable : Bool
  request : DirectoryRequest

/-- The directory of a request is one of the knowledge base. -/
def Tables.ownDirectory (t : Tables) (id dir_id : String) : Option Directory :=
  (t.get_directory_by_id dir_id).filter fun d => d.knowledge_id = id

/-- One request. A request that is refused changes nothing. -/
def directoryStep (t : Tables) (call : DirectoryCall) : Option Tables :=
  if call.writable then
    match call.request with
    | .create_knowledge_directory directory_id name parent_id =>
      if directory_id = "" ∨ directory_id ∈ t.directories.map Directory.id ∨
          parent_id = some directory_id then none
      else some ((t.create_directory directory_id call.id name parent_id).getD t)
    | .update_knowledge_directory dir_id name parent_id =>
      match t.ownDirectory call.id dir_id with
      | some _ => some (t.update_directory dir_id name parent_id)
      | none => some t
    | .delete_knowledge_directory dir_id move_files =>
      match t.ownDirectory call.id dir_id with
      | some _ => some ((t.delete_directory dir_id move_files).getD t)
      | none => some t
    | .add_file_to_knowledge_by_id file_id directory_id accepted =>
      if accepted ∧ (t.get_file_by_id file_id).isSome then
        some ((t.add_file_to_knowledge_by_id call.id file_id directory_id).getD t)
      else some t
    | .move_file_in_knowledge file_id directory_id =>
      if t.has_file call.id file_id ∧ ∀ d, directory_id = some d → d ≠ "" →
          (t.ownDirectory call.id d).isSome then
        some ((t.move_file_to_directory call.id file_id directory_id).getD t)
      else some t
  else some t

end OpenLaunch.Knowledge

/-! ## The forest of directories

`move_directory` looks for cycles, but nothing looks at the knowledge base of a new parent, nor at the
directory of a file that is added; and two directories without a parent may have the same name. Runs
whose requests are sound in these respects keep the directories a forest in each knowledge base. -/

namespace OpenLaunch.Knowledge

open Forest Transition

variable {t t' : Tables} {r : Rows} {d directory : Directory} {l : KnowledgeFile}
variable {x p id dir_id directory_id knowledge_id name : String} {parent_id : Option String}

/-! ## What is asked of directories -/

/-- The files of links are in directories of their knowledge bases, or in none. -/
def LinksInside (r : Rows) (links : List KnowledgeFile) : Prop :=
  ∀ l ∈ links, ∀ d, l.directory_id = some d → r.IsDirectoryOf d l.knowledge_id

/-- The directories of all knowledge bases are a forest of siblings with different names. -/
structure DirectoryForest (t : Tables) : Prop where
  acyclic : Acyclic t.parent
  parents : ∀ d ∈ t.directories, ∀ p, d.parent_id = some p → t.IsDirectoryOf p d.knowledge_id
  links : LinksInside t.toRows t.links
  siblings : ∀ d ∈ t.directories, ∀ d' ∈ t.directories, d.knowledge_id = d'.knowledge_id →
    d.parent_id = d'.parent_id → d.name = d'.name → d = d'

/-- A directory is not of another knowledge base. -/
def NotForeign (t : Tables) (id : String) (directory_id : Option String) : Prop :=
  ∀ p, directory_id = some p → ∀ d, t.get_directory_by_id p = some d → d.knowledge_id = id

/-- The parent of a directory after an update of which nothing is refused. -/
def newParent (directory : Directory) (parent_id : Option String) : Option String :=
  if parent_id ≠ some "__unset__" then parent_id else directory.parent_id

/-- A new parent is no directory of another knowledge base, and a directory of an added file neither;
and what comes to be at the root does not have the name of another directory there. -/
def SoundDirectoryCall (t : Tables) (call : DirectoryCall) : Prop :=
  call.writable →
  match call.request with
  | .create_knowledge_directory _ name parent_id =>
    NotForeign t call.id parent_id ∧
    (parent_id = none → ∀ d ∈ t.directories, d.knowledge_id = call.id → d.parent_id = none →
      d.name ≠ name)
  | .update_knowledge_directory dir_id name parent_id =>
    ∀ directory, t.ownDirectory call.id dir_id = some directory →
      (parent_id ≠ some "__unset__" → NotForeign t call.id parent_id) ∧
      (newParent directory parent_id = none → ∀ d ∈ t.directories, d.id ≠ dir_id →
        d.knowledge_id = call.id → d.parent_id = none → d.name ≠ name.getD directory.name)
  | .add_file_to_knowledge_by_id file_id directory_id accepted =>
    accepted → (t.get_file_by_id file_id).isSome → ¬ t.has_file call.id file_id →
      NotForeign t call.id directory_id
  | _ => True

instance (t : Tables) (id : String) (directory_id : Option String) :
    Decidable (NotForeign t id directory_id) :=
  inferInstanceAs (Decidable (∀ p, directory_id = some p → ∀ d, _ = some d → _))

instance (t : Tables) (call : DirectoryCall) : Decidable (SoundDirectoryCall t call) :=
  match call with
  | ⟨_, _, .create_knowledge_directory _ _ _⟩ => inferInstanceAs (Decidable (_ → _ ∧ (_ → ∀ d ∈ _, _)))
  | ⟨_, _, .update_knowledge_directory _ _ _⟩ =>
    inferInstanceAs (Decidable (_ → ∀ directory, _ = some directory → _ ∧ (_ → ∀ d ∈ _, _)))
  | ⟨_, _, .delete_knowledge_directory _ _⟩ => inferInstanceAs (Decidable (_ → True))
  | ⟨_, _, .add_file_to_knowledge_by_id _ _ _⟩ =>
    inferInstanceAs (Decidable (_ → _ → _ → _ → NotForeign _ _ _))
  | ⟨_, _, .move_file_in_knowledge _ _⟩ => inferInstanceAs (Decidable (_ → True))

/-! ## Invariants -/

/-- What requests keep, of which the names of the directories at the root are a part. -/
structure DirectoryInv (t : Tables) : Prop where
  acyclic : Acyclic t.parent
  parents : ∀ d ∈ t.directories, ∀ p, d.parent_id = some p → t.IsDirectoryOf p d.knowledge_id
  links : LinksInside t.toRows t.links
  roots : ∀ d ∈ t.directories, ∀ d' ∈ t.directories, d.knowledge_id = d'.knowledge_id →
    d.parent_id = none → d'.parent_id = none → d.name = d'.name → d.id = d'.id
  ids : "" ∉ t.directories.map Directory.id

/-- The constraint on names is about the directories that are not at the root. -/
theorem DirectoryInv.forest (h : DirectoryInv t) : DirectoryForest t where
  acyclic := h.acyclic
  parents := h.parents
  links := h.links
  siblings := by
    intro d hd d' hd' hknowledge hparent hname
    by_contra hne
    have hapart := t.ok.names.forall hd hd' hne
    cases hp : d.parent_id with
    | none =>
      refine hne (Keyed.eq_of_key t.ok.directory_ids hd hd' ?_)
      exact h.roots d hd d' hd' hknowledge hp (hparent.symm.trans hp) hname
    | some p => exact hapart ⟨hknowledge, hparent, by rw [hp]; rfl, hname⟩

/-! ## Cycles -/

/-- The loop meets a directory that is above where it starts. -/
theorem meets_of_walk (hacyclic : Acyclic t.parent) (hids : "" ∉ t.directories.map Directory.id)
    (hid : id ∈ t.directories.map Directory.id) {m n : ℕ} {seen : List String}
    (hm : walk t.parent x m = some id) (hn : m < n)
    (hseen : ∀ s ∈ seen, Relation.TransGen (Edge t.parent) s x) :
    t.meets id n (some x) seen = true := by
  induction m generalizing x n seen with
  | zero =>
    obtain ⟨n, rfl⟩ := Nat.exists_eq_succ_of_ne_zero (by omega : n ≠ 0)
    cases hm
    rw [Tables.meets, if_neg, if_pos rfl]
    rintro (rfl | hx)
    · exact hids hid
    · exact hacyclic id (hseen id hx)
  | succ m ih =>
    obtain ⟨n, rfl⟩ := Nat.exists_eq_succ_of_ne_zero (by omega : n ≠ 0)
    rw [walk_succ'] at hm
    obtain ⟨y, hy, hm⟩ := Option.bind_eq_some_iff.mp hm
    rw [Tables.meets, if_neg]
    · split_ifs
      · rfl
      · rw [hy]
        refine ih hm (by omega) fun s hs => ?_
        rcases List.mem_cons.mp hs with rfl | hs
        · exact .single hy
        · exact (hseen s hs).tail hy
    · rintro (rfl | hx)
      · exact hids (Rows.mem_ids_of_parent hy)
      · exact hacyclic x (hseen x hx)

/-- **The loop of a move finds every cycle** that the move would close. -/
theorem not_below_of_not_meets (h : DirectoryInv t) (hid : id ∈ t.directories.map Directory.id)
    (hmeets : t.meets id (t.directories.length + 2) (some p) [] = false) :
    p ≠ id ∧ ¬ Relation.TransGen (Edge t.parent) p id := by
  have hnot : ¬ Relation.ReflTransGen (Edge t.parent) p id := by
    intro hpath
    obtain ⟨n, hn⟩ := reflTransGen_iff_walk.mp hpath
    obtain ⟨m, hm, hwalk⟩ := exists_walk_le (fun x p hx => Rows.mem_ids_of_parent hx) hn
    rw [List.length_map] at hm
    rw [meets_of_walk h.acyclic h.ids hid hwalk (by omega) (by simp)] at hmeets
    cases hmeets
  exact ⟨fun heq => hnot (heq ▸ .refl), fun hpath => hnot hpath.to_reflTransGen⟩

/-! ## Directories of a knowledge base -/

theorem isDirectoryOf_unique (h : t.IsDirectoryOf x id) (hd : d ∈ t.directories) (hx : d.id = x) :
    d.knowledge_id = id := by
  obtain ⟨d', hd', hid, hknowledge⟩ := h
  rw [← hknowledge, Keyed.eq_of_key t.ok.directory_ids hd hd' (hx.trans hid.symm)]

/-- Where there are directories of an id, it is enough to know that none is foreign. -/
theorem isDirectoryOf_of_notForeign (hp : p ∈ t.directories.map Directory.id)
    (h : NotForeign t id (some p)) : t.IsDirectoryOf p id := by
  obtain ⟨d, hd, rfl⟩ := List.mem_map.mp hp
  exact ⟨d, hd, rfl, h d.id rfl d ((Rows.get_directory_by_id_eq_some t.ok).mpr ⟨hd, rfl⟩)⟩

/-- Directories that are kept stay directories of their knowledge bases. -/
theorem isDirectoryOf_of_sub (hsub : ∀ d ∈ t'.directories, d ∈ t.directories)
    (hp : p ∈ t'.directories.map Directory.id) (h : t.IsDirectoryOf p id) :
    t'.IsDirectoryOf p id := by
  obtain ⟨d, hd, rfl⟩ := List.mem_map.mp hp
  exact ⟨d, hd, rfl, isDirectoryOf_unique h (hsub d hd) rfl⟩

theorem ownDirectory_eq_some : t.ownDirectory id dir_id = some directory ↔
    directory ∈ t.directories ∧ directory.id = dir_id ∧ directory.knowledge_id = id := by
  rw [Tables.ownDirectory, Option.filter_eq_some_iff, Rows.get_directory_by_id_eq_some t.ok,
    and_assoc, decide_eq_true_eq]

/-! ## New directories -/

/-- A new directory with a sound parent. -/
theorem DirectoryInv.create (h : DirectoryInv t) (hid : directory_id ≠ "")
    (hnew : directory_id ∉ t.directories.map Directory.id) (hself : parent_id ≠ some directory_id)
    (hparent : NotForeign t id parent_id)
    (hroot : parent_id = none → ∀ d ∈ t.directories, d.knowledge_id = id → d.parent_id = none →
      d.name ≠ name)
    (hcreate : t.create_directory directory_id id name parent_id = some t') : DirectoryInv t' := by
  have hrows := Rows.commit_eq_some.mp hcreate
  have hmem : ∀ d, d ∈ t'.directories ↔
      d ∈ t.directories ∨ d = ⟨directory_id, id, parent_id, name⟩ := by
    intro d
    rw [hrows, List.mem_append, List.mem_singleton]
  have hold : ∀ p k, t.IsDirectoryOf p k → t'.IsDirectoryOf p k := by
    rintro p k ⟨d, hd, hp, hk⟩
    exact ⟨d, (hmem d).mpr (Or.inl hd), hp, hk⟩
  have hnewParent : ∀ p, parent_id = some p → t.IsDirectoryOf p id := by
    rintro p rfl
    refine isDirectoryOf_of_notForeign ?_ hparent
    have hp := t'.ok.parents _ ((hmem _).mpr (Or.inr rfl)) p rfl
    obtain ⟨d, hd, hdp⟩ := List.mem_map.mp hp
    rcases (hmem d).mp hd with hd | rfl
    · exact hdp ▸ List.mem_map_of_mem hd
    · exact absurd (congrArg some hdp.symm) hself
  refine ⟨?_, ?_, ?_, ?_, ?_⟩
  · refine h.acyclic.reparent (x := directory_id) (q := parent_id) (fun y p hy => ?_)
      fun p hp => ⟨?_, not_below_of_childless fun y hy => hnew (Rows.parent_mem_ids t.ok hy)⟩
    · obtain ⟨d, hd, rfl, hp⟩ := (Rows.parent_eq_some t'.ok).mp hy
      rcases (hmem d).mp hd with hd | rfl
      · refine Or.inr ⟨fun heq => hnew (heq ▸ List.mem_map_of_mem hd), ?_⟩
        exact (Rows.parent_eq_some t.ok).mpr ⟨d, hd, rfl, hp⟩
      · exact Or.inl ⟨rfl, hp⟩
    · rintro rfl
      exact hself hp
  · intro d hd p hp
    rcases (hmem d).mp hd with hd | rfl
    · exact hold p _ (h.parents d hd p hp)
    · exact hold p _ (hnewParent p hp)
  · intro l hl d hd
    rw [hrows] at hl
    exact hold d _ (h.links l hl d hd)
  · intro d hd d' hd' hk hp hp' hname
    rcases (hmem d).mp hd with hd | rfl <;> rcases (hmem d').mp hd' with hd' | rfl
    · exact h.roots d hd d' hd' hk hp hp' hname
    · exact absurd hname (hroot hp' d hd hk hp)
    · exact absurd hname.symm (hroot hp d' hd' hk.symm hp')
    · rfl
  · rw [hrows, List.map_append, List.mem_append, not_or]
    exact ⟨h.ids, by simpa using hid.symm⟩

/-! ## Updates -/

/-- Another parent and another name for a directory. -/
def Directory.placed (dir_id : String) (parent_id : Option String) (name : String)
    (d : Directory) : Directory :=
  if d.id = dir_id then { d with parent_id := parent_id, name := name } else d

@[simp] theorem Directory.placed_id : (d.placed dir_id parent_id name).id = d.id := by
  rw [Directory.placed]
  split_ifs <;> rfl

@[simp] theorem Directory.placed_knowledge_id :
    (d.placed dir_id parent_id name).knowledge_id = d.knowledge_id := by
  rw [Directory.placed]
  split_ifs <;> rfl

theorem Directory.placed_of_eq (h : d.id = dir_id) :
    d.placed dir_id parent_id name = { d with parent_id := parent_id, name := name } := if_pos h

theorem Directory.placed_of_ne (h : d.id ≠ dir_id) : d.placed dir_id parent_id name = d := if_neg h

/-- The tables with another parent and another name of a directory. -/
def Rows.place (r : Rows) (dir_id : String) (parent_id : Option String) (name : String) : Rows :=
  { r with directories := r.directories.map (Directory.placed dir_id parent_id name) }

@[simp] theorem Rows.place_ids : (r.place dir_id parent_id name).directories.map Directory.id =
    r.directories.map Directory.id := by
  rw [Rows.place, List.map_map]
  exact List.map_congr_left fun d _ => Directory.placed_id

/-- A directory at the root can be given any name. -/
theorem constraints_place_root (h : r.Constraints) (dir_id name : String) :
    (r.place dir_id none name).Constraints where
  file_ids := h.file_ids
  directory_ids := by
    rw [Rows.place_ids]
    exact h.directory_ids
  parents := by
    rw [Rows.place_ids]
    intro d hd p hp
    obtain ⟨d, hmem, rfl⟩ := List.mem_map.mp hd
    by_cases heq : d.id = dir_id
    · rw [Directory.placed_of_eq heq] at hp
      cases hp
    · rw [Directory.placed_of_ne heq] at hp
      exact h.parents d hmem p hp
  names := by
    refine List.pairwise_map.mpr (h.names.imp_of_mem fun {d d'} hd hd' hapart => ?_)
    rintro ⟨hknowledge, hparent, hsome, hname⟩
    by_cases heq : d.id = dir_id
    · rw [Directory.placed_of_eq heq] at hsome
      cases hsome
    · by_cases heq' : d'.id = dir_id
      · rw [hparent, Directory.placed_of_eq heq'] at hsome
        cases hsome
      · rw [Directory.placed_of_ne heq, Directory.placed_of_ne heq'] at *
        exact hapart ⟨hknowledge, hparent, hsome, hname⟩
  links := h.links
  link_files := h.link_files
  link_directories := by
    rw [Rows.place_ids]
    exact h.link_directories

theorem Rows.place_place {parent_id' : Option String} {name' : String} :
    (r.place dir_id parent_id name).place dir_id parent_id' name' =
      r.place dir_id parent_id' name' := by
  rw [Rows.place, Rows.place, Rows.place, List.map_map]
  refine congrArg (fun ds => (⟨r.files, ds, r.links⟩ : Rows)) (List.map_congr_left fun d _ => ?_)
  rw [Function.comp, Directory.placed]
  by_cases heq : d.id = dir_id
  · rw [Directory.placed_id, if_pos heq, Directory.placed_of_eq heq, Directory.placed_of_eq heq]
  · rw [Directory.placed_id, if_neg heq, Directory.placed_of_ne heq, Directory.placed_of_ne heq]

section Place

variable (hdir : directory ∈ t.directories) (hid : directory.id = dir_id)
include hdir hid

/-- A move keeps the name. -/
theorem place_of_move : { t.toRows with directories := t.directories.map fun d =>
      if d.id = dir_id then { d with parent_id := parent_id } else d } =
    t.place dir_id parent_id directory.name := by
  rw [Rows.place, Rows.mk.injEq]
  refine ⟨rfl, List.map_congr_left fun d hd => ?_, rfl⟩
  rw [Directory.placed]
  split_ifs with heq
  · rw [Keyed.eq_of_key t.ok.directory_ids hd hdir (heq.trans hid.symm)]
  · rfl

/-- A new name keeps the parent. -/
theorem place_of_rename : { t.toRows with directories := t.directories.map fun d =>
      if d.id = dir_id then { d with name := name } else d } =
    t.place dir_id directory.parent_id name := by
  rw [Rows.place, Rows.mk.injEq]
  refine ⟨rfl, List.map_congr_left fun d hd => ?_, rfl⟩
  rw [Directory.placed]
  split_ifs with heq
  · rw [Keyed.eq_of_key t.ok.directory_ids hd hdir (heq.trans hid.symm)]
  · rfl

/-- The place where it is. -/
theorem place_self : t.place dir_id directory.parent_id directory.name = t.toRows := by
  have hmap : t.directories.map (Directory.placed dir_id directory.parent_id directory.name) =
      t.directories.map id := by
    refine List.map_congr_left fun d hd => ?_
    by_cases heq : d.id = dir_id
    · rw [Keyed.eq_of_key t.ok.directory_ids hd hdir (heq.trans hid.symm),
        Directory.placed_of_eq hid]
      rfl
    · exact Directory.placed_of_ne heq
  rw [Rows.place, hmap, List.map_id]

/-- Renaming returns the directory in the same place, or fails, which it does not at the root. -/
theorem rename_directory_getD (name : String) : ∃ N,
    ((t.rename_directory dir_id name).getD t).toRows = t.place dir_id directory.parent_id N ∧
      (directory.parent_id = none → N = name) := by
  rw [Tables.rename_directory, place_of_rename hdir hid]
  cases hcommit : (t.place dir_id directory.parent_id name).commit with
  | some t' => exact ⟨name, Rows.commit_eq_some.mp hcommit, fun _ => rfl⟩
  | none =>
    refine ⟨directory.name, (place_self hdir hid).symm, fun hroot => ?_⟩
    · rw [Rows.commit, dif_pos] at hcommit
      · cases hcommit
      · rw [hroot]
        exact constraints_place_root t.ok dir_id name

/-- **What an update comes to**: nothing, or a new place, with the name that was asked for if it is at
the root. -/
theorem update_directory_cases (dir_name : Option String) (parent_id : Option String) :
    t.update_directory dir_id dir_name parent_id = t ∨
    ∃ N, (t.update_directory dir_id dir_name parent_id).toRows =
        t.place dir_id (newParent directory parent_id) N ∧
      (newParent directory parent_id = none → N = dir_name.getD directory.name) ∧
      (parent_id ≠ some "__unset__" →
        t.meets dir_id (t.directories.length + 2) parent_id [] = false) := by
  rw [Tables.update_directory, newParent]
  by_cases hset : parent_id ≠ some "__unset__"
  · rw [if_pos hset, if_pos hset]
    cases hmove : t.move_directory dir_id parent_id with
    | none => exact Or.inl rfl
    | some moved =>
      rw [Tables.move_directory] at hmove
      split_ifs at hmove with hmeets
      have hmoved := Rows.commit_eq_some.mp hmove
      rw [place_of_move hdir hid] at hmoved
      right
      cases dir_name with
      | none => exact ⟨directory.name, hmoved, fun _ => rfl, fun _ => by simpa using hmeets⟩
      | some name =>
        have hdir' : directory.placed dir_id parent_id directory.name ∈ moved.directories := by
          rw [hmoved]
          exact List.mem_map_of_mem hdir
        obtain ⟨N, hN, hname⟩ := rename_directory_getD hdir' (Directory.placed_id.trans hid) name
        rw [Directory.placed_of_eq hid] at hN hname
        refine ⟨N, ?_, hname, fun _ => by simpa using hmeets⟩
        rw [hmoved, Rows.place_place] at hN
        exact hN
  · rw [if_neg hset, if_neg hset]
    cases dir_name with
    | none => exact Or.inl rfl
    | some name =>
      obtain ⟨N, hN, hname⟩ := rename_directory_getD hdir hid name
      exact Or.inr ⟨N, hN, hname, fun h => absurd h hset⟩

/-- A directory in a sound place. -/
theorem DirectoryInv.place (h : DirectoryInv t) {N : String}
    (hrows : t'.toRows = t.place dir_id parent_id N)
    (hparent : parent_id = directory.parent_id ∨ NotForeign t directory.knowledge_id parent_id ∧
      t.meets dir_id (t.directories.length + 2) parent_id [] = false)
    (hroot : parent_id = none → ∀ d ∈ t.directories, d.id ≠ dir_id →
      d.knowledge_id = directory.knowledge_id → d.parent_id = none → d.name ≠ N) :
    DirectoryInv t' := by
  have hids : t'.directories.map Directory.id = t.directories.map Directory.id := by
    rw [hrows, Rows.place_ids]
  have hmem : ∀ d ∈ t'.directories, ∃ d₀ ∈ t.directories, d = d₀.placed dir_id parent_id N := by
    intro d hd
    rw [hrows] at hd
    obtain ⟨d₀, hd₀, rfl⟩ := List.mem_map.mp hd
    exact ⟨d₀, hd₀, rfl⟩
  have hunique : ∀ d ∈ t.directories, d.id = dir_id → d = directory := fun d hd heq =>
    Keyed.eq_of_key t.ok.directory_ids hd hdir (heq.trans hid.symm)
  have hold : ∀ p k, t.IsDirectoryOf p k → t'.IsDirectoryOf p k := by
    rintro p k ⟨d, hd, hp, hk⟩
    refine ⟨d.placed dir_id parent_id N, ?_, Directory.placed_id.trans hp,
      Directory.placed_knowledge_id.trans hk⟩
    rw [hrows]
    exact List.mem_map_of_mem hd
  have hdirId : dir_id ∈ t.directories.map Directory.id := hid ▸ List.mem_map_of_mem hdir
  -- the parent is a directory of the knowledge base
  have hplace : ∀ p, parent_id = some p → t.IsDirectoryOf p directory.knowledge_id := by
    rintro p rfl
    rcases hparent with heq | ⟨hforeign, -⟩
    · exact h.parents directory hdir p heq.symm
    · refine isDirectoryOf_of_notForeign ?_ hforeign
      rw [← hids]
      have hdir' : directory.placed dir_id (some p) N ∈ t'.directories := by
        rw [hrows]
        exact List.mem_map_of_mem hdir
      exact t'.ok.parents _ hdir' p (by rw [Directory.placed_of_eq hid])
  refine ⟨?_, ?_, ?_, ?_, ?_⟩
  · have hof : ∀ y p, t'.parent y = some p →
        y = dir_id ∧ parent_id = some p ∨ y ≠ dir_id ∧ t.parent y = some p := by
      intro y p hy
      obtain ⟨d, hd, rfl, hp⟩ := (Rows.parent_eq_some t'.ok).mp hy
      obtain ⟨d, hd₀, rfl⟩ := hmem d hd
      by_cases heq : d.id = dir_id
      · rw [Directory.placed_of_eq heq] at hp
        exact Or.inl ⟨Directory.placed_id.trans heq, hp⟩
      · rw [Directory.placed_of_ne heq] at hp ⊢
        exact Or.inr ⟨heq, (Rows.parent_eq_some t.ok).mpr ⟨d, hd₀, rfl, hp⟩⟩
    refine h.acyclic.reparent hof fun p hp => ?_
    subst hp
    rcases hparent with heq | ⟨-, hmeets⟩
    · have hedge : t.parent dir_id = some p := by
        rw [← hid, Rows.parent_of_mem t.ok hdir, heq]
      exact ⟨(h.acyclic.ne_parent hedge).symm, fun hpath => h.acyclic dir_id (.head hedge hpath)⟩
    · exact not_below_of_not_meets h hdirId hmeets
  · intro d hd p hp
    obtain ⟨d, hd₀, rfl⟩ := hmem d hd
    rw [Directory.placed_knowledge_id]
    by_cases heq : d.id = dir_id
    · rw [Directory.placed_of_eq heq] at hp
      rw [hunique d hd₀ heq]
      exact hold p _ (hplace p hp)
    · rw [Directory.placed_of_ne heq] at hp
      exact hold p _ (h.parents d hd₀ p hp)
  · intro l hl p hp
    rw [hrows] at hl
    exact hold p _ (h.links l hl p hp)
  · intro d hd d' hd' hk hp hp' hname
    obtain ⟨d, hd₀, rfl⟩ := hmem d hd
    obtain ⟨d', hd₀', rfl⟩ := hmem d' hd'
    rw [Directory.placed_knowledge_id, Directory.placed_knowledge_id] at hk
    rw [Directory.placed_id, Directory.placed_id]
    by_cases heq : d.id = dir_id <;> by_cases heq' : d'.id = dir_id
    · rw [heq, heq']
    · rw [Directory.placed_of_eq heq] at hp hname
      rw [Directory.placed_of_ne heq'] at hp' hname
      rw [hunique d hd₀ heq] at hk
      exact absurd hname.symm (hroot hp d' hd₀' heq' hk.symm hp')
    · rw [Directory.placed_of_ne heq] at hp hname
      rw [Directory.placed_of_eq heq'] at hp' hname
      rw [hunique d' hd₀' heq'] at hk
      exact absurd hname (hroot hp' d hd₀ heq hk hp)
    · rw [Directory.placed_of_ne heq] at hp hname
      rw [Directory.placed_of_ne heq'] at hp' hname
      exact h.roots d hd₀ d' hd₀' hk hp hp' hname
  · rw [hids]
    exact h.ids

/-- **An update** keeps the invariant if the new parent and the name at the root are sound. -/
theorem DirectoryInv.update (h : DirectoryInv t) (dir_name : Option String)
    (hforeign : parent_id ≠ some "__unset__" → NotForeign t directory.knowledge_id parent_id)
    (hroot : newParent directory parent_id = none → ∀ d ∈ t.directories, d.id ≠ dir_id →
      d.knowledge_id = directory.knowledge_id → d.parent_id = none →
      d.name ≠ dir_name.getD directory.name) :
    DirectoryInv (t.update_directory dir_id dir_name parent_id) := by
  rcases update_directory_cases hdir hid dir_name parent_id with hsame | ⟨N, hrows, hN, hmeets⟩
  · rw [hsame]
    exact h
  · refine h.place hdir hid hrows ?_ fun hnone => ?_
    · rw [newParent]
      split_ifs with hset
      · exact Or.inr ⟨hforeign hset, hmeets hset⟩
      · exact Or.inl rfl
    · rw [hN hnone]
      exact hroot hnone

end Place

/-! ## Deletions -/

section Delete

variable {links links' : List KnowledgeFile} {target : Option String}

/-- Links of a directory are moved to another one of its knowledge base. -/
theorem LinksInside.moveFiles (h : LinksInside r links)
    (htarget : ∀ k p, r.IsDirectoryOf id k → target = some p → r.IsDirectoryOf p k) :
    LinksInside r (moveFiles id target links) := by
  intro l hl p hp
  obtain ⟨l, hl₀, rfl⟩ := List.mem_map.mp hl
  split_ifs at hp ⊢ with hid
  · exact htarget l.knowledge_id p (h l hl₀ id hid) hp
  · exact h l hl₀ p hp

theorem LinksInside.filter (h : LinksInside r links) (keep : KnowledgeFile → Bool) :
    LinksInside r (links.filter keep) :=
  fun l hl => h l (List.mem_of_mem_filter hl)

/-- What each step of a loop keeps holds after the loop. -/
theorem foldlM_invariant {α β : Type} {P : β → Prop} {f : β → α → Option β} {xs : List α}
    (hstep : ∀ b, ∀ a ∈ xs, P b → ∀ b', f b a = some b' → P b') {b b' : β} (hb : P b)
    (h : xs.foldlM f b = some b') : P b' := by
  induction xs generalizing b with
  | nil =>
    cases h
    exact hb
  | cons a xs ih =>
    rw [List.foldlM_cons] at h
    obtain ⟨c, hc, hrest⟩ := Option.bind_eq_some_iff.mp h
    exact ih (fun b a ha => hstep b a (List.mem_cons_of_mem _ ha))
      (hstep b a List.mem_cons_self hb c hc) hrest

/-- A child is in the knowledge base of its parent. -/
theorem DirectoryInv.isDirectoryOf_parent (h : DirectoryInv t) (hx : x ∈ t.childIds id)
    (hk : t.IsDirectoryOf x knowledge_id) : t.IsDirectoryOf id knowledge_id := by
  obtain ⟨d, hd, rfl, hp⟩ := Rows.mem_childIds.mp hx
  rw [← isDirectoryOf_unique hk hd rfl]
  exact h.parents d hd id hp

/-- The links of a subtree are moved to a directory of its knowledge base. -/
theorem DirectoryInv.moveFilesFromSubtree (h : DirectoryInv t) {n : ℕ}
    (htarget : ∀ k p, t.IsDirectoryOf id k → target = some p → t.IsDirectoryOf p k)
    (hlinks : LinksInside t.toRows links)
    (hmoved : t.moveFilesFromSubtree target n id links = some links') :
    LinksInside t.toRows links' := by
  induction n generalizing id links links' with
  | zero => cases hmoved
  | succ n ih =>
    rw [Rows.moveFilesFromSubtree] at hmoved
    refine foldlM_invariant (fun links x hx hlinks links' hstep => ?_) hlinks hmoved
    have hchild : ∀ k p, t.IsDirectoryOf x k → target = some p → t.IsDirectoryOf p k :=
      fun k p hk => htarget k p (h.isDirectoryOf_parent hx hk)
    exact ih hchild (hlinks.moveFiles hchild) hstep

theorem deleteFilesInSubtree_inside {n : ℕ} (hlinks : LinksInside r links)
    (hdeleted : r.deleteFilesInSubtree n id links = some links') : LinksInside r links' := by
  induction n generalizing id links links' with
  | zero => cases hdeleted
  | succ n ih =>
    rw [Rows.deleteFilesInSubtree] at hdeleted
    exact foldlM_invariant (fun links x _ hlinks links' hstep => ih hlinks hstep)
      (hlinks.filter _) hdeleted

/-- **A deletion keeps the invariant.** -/
theorem DirectoryInv.delete (h : DirectoryInv t) {move_files : Bool}
    (hdelete : t.delete_directory directory_id move_files = some t') : DirectoryInv t' := by
  obtain ⟨directory, hdir, hdelete⟩ := Option.bind_eq_some_iff.mp hdelete
  obtain ⟨links, hlinks, hcommit⟩ := Option.bind_eq_some_iff.mp hdelete
  obtain ⟨hmem, hid⟩ := (Rows.get_directory_by_id_eq_some t.ok).mp hdir
  have hrows := Rows.commit_eq_some.mp hcommit
  have hinside : LinksInside t.toRows links := by
    have htarget : ∀ k p, t.IsDirectoryOf directory_id k → directory.parent_id = some p →
        t.IsDirectoryOf p k := by
      intro k p hk hp
      rw [← isDirectoryOf_unique hk hmem hid]
      exact h.parents directory hmem p hp
    split_ifs at hlinks
    · exact h.moveFilesFromSubtree htarget (h.links.moveFiles htarget) hlinks
    · exact deleteFilesInSubtree_inside h.links hlinks
  have hsub : ∀ d ∈ t'.directories, d ∈ t.directories := by
    intro d hd
    rw [hrows] at hd
    exact List.mem_of_mem_filter hd
  refine ⟨?_, ?_, ?_, ?_, ?_⟩
  · refine h.acyclic.of_sub fun y p hy => ?_
    obtain ⟨d, hd, hy, hp⟩ := (Rows.parent_eq_some t'.ok).mp hy
    exact (Rows.parent_eq_some t.ok).mpr ⟨d, hsub d hd, hy, hp⟩
  · intro d hd p hp
    exact isDirectoryOf_of_sub hsub (t'.ok.parents d hd p hp) (h.parents d (hsub d hd) p hp)
  · intro l hl p hp
    refine isDirectoryOf_of_sub hsub (t'.ok.link_directories l hl p hp) ?_
    rw [hrows] at hl
    obtain ⟨l, hl₀, rfl⟩ := List.mem_map.mp hl
    split_ifs at hp ⊢
    · exact hinside l hl₀ p hp
  · exact fun d hd d' hd' => h.roots d (hsub d hd) d' (hsub d' hd')
  · rintro hempty
    obtain ⟨d, hd, hd'⟩ := List.mem_map.mp hempty
    exact h.ids (hd' ▸ List.mem_map_of_mem (hsub d hd))

end Delete

/-! ## Links -/

/-- Other links, which are in directories of their knowledge bases. -/
theorem DirectoryInv.of_links (h : DirectoryInv t) {links : List KnowledgeFile}
    (hrows : t'.toRows = { t.toRows with links := links })
    (hlinks : LinksInside t.toRows links) : DirectoryInv t' := by
  obtain ⟨⟨files, directories, links'⟩, ok⟩ := t'
  cases hrows
  exact ⟨h.acyclic, h.parents, hlinks, h.roots, h.ids⟩

/-- A file is linked to a knowledge base once. -/
theorem not_has_file_of_add {file_id : String} {target : Option String}
    (hadd : t.add_file_to_knowledge_by_id id file_id target = some t') :
    ¬ t.has_file id file_id := by
  have hrows := Rows.commit_eq_some.mp hadd
  have hlinks := t'.ok.links
  rw [hrows, List.map_append, List.nodup_append] at hlinks
  intro hfile
  obtain ⟨l, hl, heq⟩ := List.any_eq_true.mp hfile
  obtain ⟨hk, hf⟩ := of_decide_eq_true heq
  exact hlinks.2.2 (id, file_id) (List.mem_map.mpr ⟨l, hl, by rw [hk, hf]⟩) (id, file_id)
    (by simp) rfl

theorem DirectoryInv.add_file (h : DirectoryInv t) {file_id : String} {target : Option String}
    (htarget : NotForeign t id target)
    (hadd : t.add_file_to_knowledge_by_id id file_id target = some t') : DirectoryInv t' := by
  have hrows := Rows.commit_eq_some.mp hadd
  refine h.of_links hrows fun l hl p hp => ?_
  rcases List.mem_append.mp hl with hl | hl
  · exact h.links l hl p hp
  · rw [List.mem_singleton.mp hl] at hp ⊢
    cases hp
    refine isDirectoryOf_of_notForeign ?_ htarget
    have hkey := t'.ok.link_directories ⟨id, file_id, some p⟩ (by rw [hrows]; simp) p rfl
    rw [hrows] at hkey
    exact hkey

theorem DirectoryInv.move_file (h : DirectoryInv t) {file_id : String} {target : Option String}
    (htarget : ∀ d, target = some d → d ≠ "" → (t.ownDirectory id d).isSome)
    (hmove : t.move_file_to_directory id file_id target = some t') : DirectoryInv t' := by
  have hrows := Rows.commit_eq_some.mp hmove
  refine h.of_links hrows fun l hl p hp => ?_
  have hl' : l ∈ t'.links := by
    rw [hrows]
    exact hl
  have hkey := t'.ok.link_directories l hl' p hp
  obtain ⟨l, hl₀, rfl⟩ := List.mem_map.mp hl
  split_ifs at hp ⊢ with hown
  · rw [hrows] at hkey
    have hp' : target = some p := hp
    obtain ⟨directory, hdir⟩ := Option.isSome_iff_exists.mp
      (htarget p hp' fun hempty => h.ids (hempty ▸ hkey))
    obtain ⟨hmem, hid, hk⟩ := ownDirectory_eq_some.mp hdir
    exact ⟨directory, hmem, hid, hk.trans hown.1.symm⟩
  · exact h.links l hl₀ p hp

/-! ## Runs -/

/-- Files without knowledge bases. -/
def noDirectories (files : List File) (h : (files.map File.id).Nodup) : Tables :=
  ⟨⟨files, [], []⟩, ⟨h, List.nodup_nil, by simp, List.Pairwise.nil, List.nodup_nil, by simp, by simp⟩⟩

theorem directoryInv_noDirectories (files : List File) (h : (files.map File.id).Nodup) :
    DirectoryInv (noDirectories files h) where
  acyclic := by
    intro x hx
    obtain ⟨y, -, hy⟩ := Relation.TransGen.tail'_iff.mp hx
    cases hy
  parents := fun d hd => by cases hd
  links := fun l hl => by cases hl
  roots := fun d hd => by cases hd
  ids := List.not_mem_nil

/-- **One sound request** keeps the invariant. -/
theorem DirectoryInv.step (h : DirectoryInv t) {call : DirectoryCall}
    (hcall : SoundDirectoryCall t call) (hstep : directoryStep t call = some t') :
    DirectoryInv t' := by
  rw [directoryStep] at hstep
  rw [SoundDirectoryCall] at hcall
  split_ifs at hstep with hwritable
  · replace hcall := hcall hwritable
    split at hstep
    · next directory_id name parent_id hrequest =>
      rw [hrequest] at hcall
      split_ifs at hstep with hfresh
      cases hstep
      rw [not_or, not_or] at hfresh
      cases hcreate : t.create_directory directory_id call.id name parent_id with
      | none => exact h
      | some t' => exact h.create hfresh.1 hfresh.2.1 hfresh.2.2 hcall.1 hcall.2 hcreate
    · next dir_id name parent_id hrequest =>
      rw [hrequest] at hcall
      split at hstep
      · next directory hown =>
        cases hstep
        obtain ⟨hmem, hid, hk⟩ := ownDirectory_eq_some.mp hown
        obtain ⟨hforeign, hroot⟩ := hcall directory hown
        rw [← hk] at hforeign hroot
        exact h.update hmem hid name hforeign hroot
      · cases hstep
        exact h
    · next dir_id move_files hrequest =>
      split at hstep
      · cases hstep
        cases hdelete : t.delete_directory dir_id move_files with
        | none => exact h
        | some t' => exact h.delete hdelete
      · cases hstep
        exact h
    · next file_id directory_id accepted hrequest =>
      rw [hrequest] at hcall
      split_ifs at hstep with haccepted
      · cases hstep
        cases hadd : t.add_file_to_knowledge_by_id call.id file_id directory_id with
        | none => exact h
        | some t' =>
          exact h.add_file (hcall haccepted.1 haccepted.2 (not_has_file_of_add hadd)) hadd
      · cases hstep
        exact h
    · next file_id directory_id hrequest =>
      split_ifs at hstep with hmove
      · cases hstep
        cases hmoved : t.move_file_to_directory call.id file_id directory_id with
        | none => exact h
        | some t' => exact h.move_file hmove.2 hmoved
      · cases hstep
        exact h
  · cases hstep
    exact h

/-- **Sound runs keep the directories a forest** in each knowledge base. -/
theorem stepsMeet_directoryForest (files : List File) (hfiles : (files.map File.id).Nodup)
    (calls : List DirectoryCall)
    (h : StepsMeet directoryStep SoundDirectoryCall (noDirectories files hfiles) calls) :
    StepsMeet directoryStep (fun t call => ∀ t', directoryStep t call = some t' → DirectoryForest t')
      (noDirectories files hfiles) calls := by
  refine StepsMeet.of_invariant (P := DirectoryInv) (fun t call hinv hcall t' hstep => ?_)
    (fun t call t' hinv hcall hstep => hinv.step hcall hstep)
    (directoryInv_noDirectories files hfiles) h
  exact (hinv.step hcall hstep).forest

/-! ## Two knowledge bases -/

/-- A request that the user may make. -/
def writableCall (id : String) (request : DirectoryRequest) : DirectoryCall := ⟨id, true, request⟩

/-- A new directory, whose name is its id. -/
def newDirectory (id directory_id : String) (parent_id : Option String) : DirectoryCall :=
  writableCall id (.create_knowledge_directory directory_id directory_id parent_id)

/-- No files. -/
def noTables : Tables := noDirectories [] List.nodup_nil

/-- Two directories, of which the second is below the first, and is renamed and moved to the root. -/
theorem moved_to_root_directoryForest :
    StepsMeet directoryStep (fun t call => ∀ t', directoryStep t call = some t' → DirectoryForest t')
      noTables
      [newDirectory "k" "a" none, newDirectory "k" "b" (some "a"),
        writableCall "k" (.update_knowledge_directory "b" (some "c") none)] := by
  apply stepsMeet_directoryForest
  decide

/-- A directory below one of another knowledge base. -/
def foreignParent : Tables :=
  ⟨⟨[], [⟨"a", "k", none, "a"⟩, ⟨"b", "m", some "a", "b"⟩], []⟩, by decide⟩

/-- Two directories of one name at the root. -/
def sameRoots : Tables :=
  ⟨⟨[], [⟨"a", "k", none, "n"⟩, ⟨"b", "k", none, "n"⟩], []⟩, by decide⟩

/-- A directory is created below one of another knowledge base; and two at the root have one name. -/
theorem created_directories_no_forest :
    exec directoryStep noTables [newDirectory "k" "a" none, newDirectory "m" "b" (some "a")] =
      some foreignParent ∧ ¬ DirectoryForest foreignParent ∧
    exec directoryStep noTables
      [writableCall "k" (.create_knowledge_directory "a" "n" none),
        writableCall "k" (.create_knowledge_directory "b" "n" none)] =
      some sameRoots ∧ ¬ DirectoryForest sameRoots := by
  refine ⟨by decide, fun h => ?_, by decide, fun h => ?_⟩
  · obtain ⟨d, hd, hid, hk⟩ := h.parents ⟨"b", "m", some "a", "b"⟩ (by decide) "a" rfl
    rcases List.mem_cons.mp hd with rfl | hd
    · simp at hk
    · rw [List.mem_singleton.mp hd] at hid
      simp at hid
  · have heq := h.siblings ⟨"a", "k", none, "n"⟩ (by decide) ⟨"b", "k", none, "n"⟩
      (by decide) rfl rfl rfl
    simp at heq

end OpenLaunch.Knowledge
