import OpenLaunch.Knowledge.Store

/-! # Cleaning up after a synchronisation

`sync_knowledge_cleanup` takes ids of files and of directories from the client. For each file it
removes the link, vectors, and a collection of its own, and the file if the user may delete it; then it
deletes the directories. -/

namespace OpenLaunch.Knowledge

open Forest

/-! ## The request -/

/-- A request by a user that may write the knowledge base `id`. -/
structure CleanupCall where
  id : String
  user_id : String
  admin : Bool
  file_ids : List String
  dir_ids : List String

/-- `file.user_id == user.id or user.role == 'admin'`. -/
def CleanupCall.mayDelete (call : CleanupCall) (file : File) : Bool :=
  file.user_id = call.user_id ∨ call.admin

/-- The vectors of a file are removed from the collection of the knowledge base, by the file's id and
by its hash, and with the collection of the file. -/
def cleanupVectors (knowledge_id file_id : String) (hash : Option String) (db : VectorDb) :
    VectorDb :=
  let db := db.delete (.knowledge knowledge_id) fun v => v.file_id = file_id
  let db := db.delete (.knowledge knowledge_id) fun v => v.hash = hash
  if db.has_collection (.file file_id) then db.delete_collection (.file file_id) else db

/-- The loop's body for a file. `stored_name` is the name of the stored file that a path is for. -/
def cleanupFile (stored_name : String → String) (call : CleanupCall) (s : Store)
    (file_id : String) : Store :=
  match s.tables.get_file_by_id file_id with
  | none => s
  | some file =>
    let tables := s.tables.remove_file_from_knowledge_by_id call.id file_id
    let collections := cleanupVectors call.id file_id file.hash s.collections
    if call.mayDelete file then
      { tables := tables.delete_file_by_id file_id
        collections := collections
        stored := s.stored.filter fun name => file.path.map stored_name ≠ some name }
    else { s with tables := tables, collections := collections }

/-- `sync_knowledge_cleanup`. -/
def sync_knowledge_cleanup (stored_name : String → String) (s : Store) (call : CleanupCall) :
    Store :=
  let s := call.file_ids.foldl (cleanupFile stored_name call) s
  { s with
    tables := call.dir_ids.reverse.foldl
      (fun t dir_id => (t.delete_directory dir_id false).getD t) s.tables }

end OpenLaunch.Knowledge

/-! ## What a clean-up leaves alone

The ids of a clean-up may be any. What it removes is known exactly: links, files, stored files and
collections of the files it names, and the subtrees of the directories it names. So a clean-up is
confined to its knowledge base if and only if none of these are outside. -/

namespace OpenLaunch.Knowledge

open Forest

variable {t t' : Tables} {s s' s'' : Store} {stored_name : String → String} {call : CleanupCall}
variable {f : File} {d : Directory} {l : KnowledgeFile} {x y id : String} {ids : List String}
variable {db : VectorDb} {name name' : CollectionName}

/-! ## The files -/

/-- What the loop over the files has removed after some ids. -/
structure FilesCleaned (stored_name : String → String) (call : CleanupCall) (ids : List String)
    (s s' : Store) : Prop where
  directories : s'.tables.directories = s.tables.directories
  files : ∀ f, f ∈ s'.tables.files ↔ f ∈ s.tables.files ∧ ¬ (f.id ∈ ids ∧ call.mayDelete f)
  links : ∀ l, l ∈ s'.tables.links ↔ l ∈ s.tables.links ∧ ¬ (l.file_id ∈ ids ∧
    (l.knowledge_id = call.id ∨ ∃ f ∈ s.tables.files, f.id = l.file_id ∧ call.mayDelete f))
  stored : ∀ n, n ∈ s'.stored ↔ n ∈ s.stored ∧ ¬ ∃ f ∈ s.tables.files, f.id ∈ ids ∧
    call.mayDelete f ∧ f.path.map stored_name = some n
  own : ∀ y, s'.collections.vectors (.file y) =
    if y ∈ ids ∧ y ∈ s.tables.files.map File.id then none else s.collections.vectors (.file y)
  others : ∀ k, k ≠ call.id → s'.collections.vectors (.knowledge k) =
    s.collections.vectors (.knowledge k)

theorem filesCleaned_nil (s : Store) : FilesCleaned stored_name call [] s s where
  directories := rfl
  files := by simp
  links := by simp
  stored := by simp
  own := by simp
  others := fun _ _ => rfl

/-- A file, and then more of them. -/
theorem FilesCleaned.cons (h : FilesCleaned stored_name call [x] s s')
    (h' : FilesCleaned stored_name call ids s' s'') :
    FilesCleaned stored_name call (x :: ids) s s'' where
  directories := h'.directories.trans h.directories
  files := by
    intro f
    simp only [h'.files, h.files, List.mem_cons, List.not_mem_nil, or_false, or_and_right, not_or,
      and_assoc]
  links := by
    intro l
    rw [h'.links, h.links]
    constructor
    · rintro ⟨⟨hl, hfirst⟩, hrest⟩
      refine ⟨hl, fun ⟨hid, hgone⟩ => ?_⟩
      by_cases hx : l.file_id = x
      · exact hfirst ⟨List.mem_singleton.mpr hx, hgone⟩
      · refine hrest ⟨(List.mem_cons.mp hid).resolve_left hx, hgone.imp_right ?_⟩
        rintro ⟨f, hf, hfl, hmay⟩
        refine ⟨f, (h.files f).mpr ⟨hf, fun ⟨hfx, _⟩ => ?_⟩, hfl, hmay⟩
        exact hx (hfl.symm.trans (List.mem_singleton.mp hfx))
    · rintro ⟨hl, hgone⟩
      refine ⟨⟨hl, fun ⟨hx, hfirst⟩ => ?_⟩, fun ⟨hid, hrest⟩ => ?_⟩
      · exact hgone ⟨List.mem_cons.mpr (Or.inl (List.mem_singleton.mp hx)), hfirst⟩
      · refine hgone ⟨List.mem_cons_of_mem x hid, hrest.imp_right ?_⟩
        rintro ⟨f, hf, hfl⟩
        exact ⟨f, ((h.files f).mp hf).1, hfl⟩
  stored := by
    intro n
    rw [h'.stored, h.stored]
    constructor
    · rintro ⟨⟨hn, hfirst⟩, hrest⟩
      refine ⟨hn, ?_⟩
      rintro ⟨f, hf, hid, hmay, hpath⟩
      by_cases hx : f.id = x
      · exact hfirst ⟨f, hf, List.mem_singleton.mpr hx, hmay, hpath⟩
      · refine hrest ⟨f, (h.files f).mpr ⟨hf, fun ⟨hfx, _⟩ => hx (List.mem_singleton.mp hfx)⟩,
          (List.mem_cons.mp hid).resolve_left hx, hmay, hpath⟩
    · rintro ⟨hn, hgone⟩
      refine ⟨⟨hn, ?_⟩, ?_⟩
      · rintro ⟨f, hf, hx, hrest⟩
        exact hgone ⟨f, hf, List.mem_cons.mpr (Or.inl (List.mem_singleton.mp hx)), hrest⟩
      · rintro ⟨f, hf, hid, hrest⟩
        exact hgone ⟨f, ((h.files f).mp hf).1, List.mem_cons_of_mem x hid, hrest⟩
  own := by
    intro y
    rw [h'.own, h.own]
    have hsub : y ∈ s'.tables.files.map File.id → y ∈ s.tables.files.map File.id := by
      intro hy
      obtain ⟨f, hf, rfl⟩ := List.mem_map.mp hy
      exact List.mem_map_of_mem ((h.files f).mp hf).1
    by_cases hx : y = x
    · subst hx
      by_cases hmem : y ∈ s.tables.files.map File.id
      · rw [if_pos (c := y ∈ [y] ∧ _) ⟨List.mem_cons_self, hmem⟩,
          if_pos (c := y ∈ y :: ids ∧ _) ⟨List.mem_cons_self, hmem⟩, ite_self]
      · rw [if_neg fun hy => hmem (hsub hy.2), if_neg fun hy => hmem hy.2,
          if_neg fun hy => hmem hy.2]
    · have hkeep : y ∈ s.tables.files.map File.id → y ∈ s'.tables.files.map File.id := by
        intro hy
        obtain ⟨f, hf, rfl⟩ := List.mem_map.mp hy
        exact List.mem_map_of_mem
          ((h.files f).mpr ⟨hf, fun ⟨hfx, _⟩ => hx (List.mem_singleton.mp hfx)⟩)
      rw [if_neg (c := y ∈ [x] ∧ _) fun hy => hx (List.mem_singleton.mp hy.1)]
      refine if_congr (and_congr ?_ ⟨hsub, hkeep⟩) rfl rfl
      exact ⟨List.mem_cons_of_mem x, fun hy => (List.mem_cons.mp hy).resolve_left hx⟩
  others := fun k hk => (h'.others k hk).trans (h.others k hk)

/-- A file that is not there. -/
theorem filesCleaned_of_missing (hx : x ∉ s.tables.files.map File.id) :
    FilesCleaned stored_name call [x] s s where
  directories := rfl
  files := by
    intro f
    refine ⟨fun hf => ⟨hf, fun ⟨hid, _⟩ => hx ?_⟩, And.left⟩
    rw [← List.mem_singleton.mp hid]
    exact List.mem_map_of_mem hf
  links := by
    intro l
    refine ⟨fun hl => ⟨hl, fun ⟨hid, _⟩ => hx ?_⟩, And.left⟩
    rw [← List.mem_singleton.mp hid]
    exact s.tables.ok.link_files l hl
  stored := by
    intro n
    refine ⟨fun hn => ⟨hn, ?_⟩, And.left⟩
    rintro ⟨f, hf, hid, -⟩
    rw [← List.mem_singleton.mp hid] at hx
    exact hx (List.mem_map_of_mem hf)
  own := by
    intro y
    rw [if_neg]
    rintro ⟨hy, hmem⟩
    exact hx (List.mem_singleton.mp hy ▸ hmem)
  others := fun _ _ => rfl

/-- The collections after a file: its own one is gone. -/
theorem vectors_cleanupVectors (hash : Option String) :
    (cleanupVectors id x hash db).vectors name =
      if name = .file x then none
      else if name = .knowledge id then (cleanupVectors id x hash db).vectors name
      else db.vectors name := by
  split_ifs with hfile hknowledge
  · subst hfile
    rw [cleanupVectors]
    split_ifs with hhas
    · exact VectorDb.vectors_delete_collection
    · rw [VectorDb.vectors_eq_none_iff]
      exact Bool.eq_false_iff.mpr hhas
  · rfl
  · rw [cleanupVectors]
    split_ifs
    · rw [VectorDb.vectors_delete_collection_of_ne hfile, VectorDb.vectors_delete_of_ne hknowledge,
        VectorDb.vectors_delete_of_ne hknowledge]
    · rw [VectorDb.vectors_delete_of_ne hknowledge, VectorDb.vectors_delete_of_ne hknowledge]

/-- **One file.** -/
theorem filesCleaned_cleanupFile (s : Store) (x : String) :
    FilesCleaned stored_name call [x] s (cleanupFile stored_name call s x) := by
  rw [cleanupFile]
  cases hfile : s.tables.get_file_by_id x with
  | none => exact filesCleaned_of_missing (Keyed.find?_eq_none_iff.mp hfile)
  | some file =>
    obtain ⟨hmem, rfl⟩ := (Keyed.find?_eq_some_iff s.tables.ok.file_ids).mp hfile
    have hunique : ∀ f ∈ s.tables.files, f.id = file.id → f = file := fun f hf heq =>
      Keyed.eq_of_key s.tables.ok.file_ids hf hmem heq
    have hown : ∀ y, (cleanupVectors call.id file.id file.hash s.collections).vectors (.file y) =
        if y ∈ [file.id] ∧ y ∈ s.tables.files.map File.id then none
        else s.collections.vectors (.file y) := by
      intro y
      rw [vectors_cleanupVectors, if_neg (c := _ = CollectionName.knowledge _) (by simp)]
      refine if_congr ?_ rfl rfl
      simp only [CollectionName.file.injEq, List.mem_singleton]
      exact ⟨fun heq => ⟨heq, heq ▸ List.mem_map_of_mem hmem⟩, And.left⟩
    have hothers : ∀ k, k ≠ call.id →
        (cleanupVectors call.id file.id file.hash s.collections).vectors (.knowledge k) =
          s.collections.vectors (.knowledge k) := by
      intro k hk
      rw [vectors_cleanupVectors, if_neg (by simp), if_neg (by simpa using hk)]
    dsimp only
    split_ifs with hmay
    · refine ⟨?_, fun f => ?_, fun l => ?_, fun n => ?_, hown, hothers⟩
      · rw [delete_file_by_id_rows, remove_file_from_knowledge_by_id_rows]
      · rw [delete_file_by_id_rows, remove_file_from_knowledge_by_id_rows]
        dsimp only
        rw [List.mem_filter, decide_eq_true_eq, List.mem_singleton]
        refine and_congr_right fun hf => not_congr ⟨fun heq => ⟨heq, ?_⟩, And.left⟩
        rw [hunique f hf heq]
        exact hmay
      · rw [delete_file_by_id_rows, remove_file_from_knowledge_by_id_rows]
        dsimp only
        rw [List.mem_filter, List.mem_filter, and_assoc, decide_eq_true_eq, decide_eq_true_eq,
          List.mem_singleton]
        refine and_congr_right fun _ => ?_
        constructor
        · rintro ⟨-, hne⟩ ⟨heq, -⟩
          exact hne heq
        · intro hnot
          have hne : l.file_id ≠ file.id := fun heq =>
            hnot ⟨heq, Or.inr ⟨file, hmem, heq.symm, hmay⟩⟩
          exact ⟨fun heq => hne heq.2, hne⟩
      · rw [List.mem_filter, decide_eq_true_eq]
        refine and_congr_right fun _ => not_congr ⟨fun heq => ?_, ?_⟩
        · exact ⟨file, hmem, List.mem_singleton.mpr rfl, hmay, heq⟩
        · rintro ⟨f, hf, hid, -, heq⟩
          rw [← hunique f hf (List.mem_singleton.mp hid)]
          exact heq
    · have hnot : ∀ f ∈ s.tables.files, f.id = file.id → ¬ call.mayDelete f := fun f hf heq => by
        rw [hunique f hf heq]
        exact hmay
      refine ⟨?_, fun f => ?_, fun l => ?_, fun n => ?_, hown, hothers⟩
      · rw [remove_file_from_knowledge_by_id_rows]
      · rw [remove_file_from_knowledge_by_id_rows]
        exact ⟨fun hf => ⟨hf, fun h => hnot f hf (List.mem_singleton.mp h.1) h.2⟩, And.left⟩
      · rw [remove_file_from_knowledge_by_id_rows]
        dsimp only
        rw [List.mem_filter, decide_eq_true_eq, List.mem_singleton]
        refine and_congr_right fun _ => not_congr ⟨fun h => ⟨h.2, Or.inl h.1⟩, ?_⟩
        rintro ⟨heq, hk | ⟨f, hf, hid, h⟩⟩
        · exact ⟨hk, heq⟩
        · exact absurd h (hnot f hf (hid.trans heq))
      · refine ⟨fun hn => ⟨hn, ?_⟩, And.left⟩
        rintro ⟨f, hf, hid, h, -⟩
        exact hnot f hf (List.mem_singleton.mp hid) h

/-- **The loop over the files.** -/
theorem filesCleaned_foldl (ids : List String) (s : Store) :
    FilesCleaned stored_name call ids s (ids.foldl (cleanupFile stored_name call) s) := by
  induction ids generalizing s with
  | nil => exact filesCleaned_nil s
  | cons x ids ih => exact (filesCleaned_cleanupFile s x).cons (ih _)

/-! ## The directories -/

section Survivors

variable (hsub : ∀ d ∈ t'.directories, d ∈ t.directories)
include hsub

/-- What is left has the parent it had, which is left too. -/
theorem parent_of_survivor (hx : x ∈ t'.directories.map Directory.id) :
    t'.parent x = t.parent x := by
  obtain ⟨d, hd, rfl⟩ := List.mem_map.mp hx
  rw [Rows.parent_of_mem t'.ok hd, Rows.parent_of_mem t.ok (hsub d hd)]

/-- The way up from what is left is left. -/
theorem path_of_survivor (hx : x ∈ t'.directories.map Directory.id) :
    Relation.ReflTransGen (Edge t.parent) x y →
      Relation.ReflTransGen (Edge t'.parent) x y ∧ y ∈ t'.directories.map Directory.id := by
  intro hpath
  induction hpath with
  | refl => exact ⟨.refl, hx⟩
  | tail _ hyz ih =>
    have hedge : Edge t'.parent _ _ := (parent_of_survivor hsub ih.2).trans hyz
    exact ⟨ih.1.tail hedge, Rows.parent_mem_ids t'.ok hedge⟩

theorem path_of_path_left (hpath : Relation.ReflTransGen (Edge t'.parent) x y) :
    Relation.ReflTransGen (Edge t.parent) x y := by
  refine Relation.ReflTransGen.mono ?_ x y hpath
  intro u v huv
  exact (parent_of_survivor hsub (Rows.mem_ids_of_parent huv)).symm.trans huv

/-- What is left can be deleted as before. -/
theorem deletable_of_survivor (hx : x ∈ t'.directories.map Directory.id) :
    t'.Deletable x ↔ t.Deletable x := by
  have hmem : x ∈ t.directories.map Directory.id := by
    obtain ⟨d, hd, rfl⟩ := List.mem_map.mp hx
    exact List.mem_map_of_mem (hsub d hd)
  refine and_congr ⟨fun _ => hmem, fun _ => hx⟩ (not_congr ?_)
  rw [Rows.OnCycle, Rows.OnCycle, Relation.TransGen.head'_iff, Relation.TransGen.head'_iff]
  constructor
  · rintro ⟨y, hxy, hyx⟩
    exact ⟨y, (parent_of_survivor hsub hx).symm.trans hxy, path_of_path_left hsub hyx⟩
  · rintro ⟨y, hxy, hyx⟩
    have hedge : Edge t'.parent x y := (parent_of_survivor hsub hx).trans hxy
    exact ⟨y, hedge, (path_of_survivor hsub (Rows.parent_mem_ids t'.ok hedge) hyx).1⟩

/-- What is left is below the same directories that can be deleted. -/
theorem below_of_survivor (hx : x ∈ t'.directories.map Directory.id) :
    (∃ id ∈ ids, t'.Deletable id ∧ Relation.ReflTransGen (Edge t'.parent) x id) ↔
      ∃ id ∈ ids, t.Deletable id ∧ Relation.ReflTransGen (Edge t.parent) x id := by
  constructor
  · rintro ⟨id, hid, hdel, hpath⟩
    exact ⟨id, hid, (deletable_of_survivor hsub hdel.1).mp hdel, path_of_path_left hsub hpath⟩
  · rintro ⟨id, hid, hdel, hpath⟩
    obtain ⟨hpath', hleft⟩ := path_of_survivor hsub hx hpath
    exact ⟨id, hid, (deletable_of_survivor hsub hleft).mpr hdel, hpath'⟩

end Survivors

/-- A directory is in a subtree that is deleted with one of the ids. -/
def InSubtrees (t : Tables) (ids : List String) (x : String) : Prop :=
  ∃ id ∈ ids, t.Deletable id ∧ Relation.ReflTransGen (Edge t.parent) x id

/-- What the loop over the directories has removed after some ids. -/
structure DirectoriesCleaned (ids : List String) (t t' : Tables) : Prop where
  files : t'.files = t.files
  directories : ∀ d, d ∈ t'.directories ↔ d ∈ t.directories ∧ ¬ InSubtrees t ids d.id
  links : ∀ l, l ∈ t'.links ↔
    l ∈ t.links ∧ ∀ x, l.directory_id = some x → ¬ InSubtrees t ids x

theorem inSubtrees_singleton :
    InSubtrees t [id] x ↔ t.Deletable id ∧ Relation.ReflTransGen (Edge t.parent) x id := by
  simp [InSubtrees]

/-- **One directory.** -/
theorem directoriesCleaned_delete (t : Tables) (id : String) :
    DirectoriesCleaned [id] t ((t.delete_directory id false).getD t) := by
  by_cases hdel : t.Deletable id
  · obtain ⟨t', ht', hfiles, hdirectories, hlinks⟩ := delete_directory_of_deletable hdel
    rw [ht', Option.getD_some]
    refine ⟨hfiles, fun d => ?_, fun l => ?_⟩
    · simp only [hdirectories, inSubtrees_singleton, hdel, true_and]
    · simp only [hlinks, inSubtrees_singleton, hdel, true_and]
  · rw [delete_directory_eq_none hdel, Option.getD_none]
    refine ⟨rfl, fun d => ?_, fun l => ?_⟩
    · simp [inSubtrees_singleton, hdel]
    · simp [inSubtrees_singleton, hdel]

/-- **The loop over the directories.** -/
theorem directoriesCleaned_foldl (ids : List String) (t : Tables) :
    DirectoriesCleaned ids t
      (ids.foldl (fun t dir_id => (t.delete_directory dir_id false).getD t) t) := by
  induction ids generalizing t with
  | nil => exact ⟨rfl, by simp [InSubtrees], by simp [InSubtrees]⟩
  | cons id ids ih =>
    have hfirst := directoriesCleaned_delete t id
    have hrest := ih ((t.delete_directory id false).getD t)
    have hsub := fun d hd => ((hfirst.directories d).mp hd).1
    have hcons : ∀ x, InSubtrees t (id :: ids) x ↔ InSubtrees t [id] x ∨ InSubtrees t ids x :=
      fun x => by simp only [InSubtrees, List.exists_mem_cons_iff, List.not_mem_nil, false_and,
        exists_false, or_false]
    refine ⟨hrest.files.trans hfirst.files, fun d => ?_, fun l => ?_⟩
    · rw [List.foldl_cons, hrest.directories, hcons, not_or, ← and_assoc, ← hfirst.directories]
      refine and_congr_right fun hd => not_congr ?_
      exact below_of_survivor hsub (List.mem_map_of_mem hd)
    · rw [List.foldl_cons, hrest.links]
      simp only [hcons, not_or, forall_and, imp_and]
      rw [← and_assoc, ← hfirst.links]
      refine and_congr_right fun hl => forall_congr' fun x => imp_congr_right fun hx => not_congr ?_
      exact below_of_survivor hsub (Tables.ok _ |>.link_directories l hl x hx)

/-! ## The request -/

/-- **What a clean-up leaves**, of the directories, links, files, stored files and collections. -/
structure CleanedUp (stored_name : String → String) (call : CleanupCall) (s s' : Store) : Prop where
  directories : ∀ d, d ∈ s'.tables.directories ↔
    d ∈ s.tables.directories ∧ ¬ InSubtrees s.tables call.dir_ids d.id
  links : ∀ l, l ∈ s'.tables.links ↔ l ∈ s.tables.links ∧
    ¬ (l.file_id ∈ call.file_ids ∧
      (l.knowledge_id = call.id ∨ ∃ f ∈ s.tables.files, f.id = l.file_id ∧ call.mayDelete f)) ∧
    ∀ x, l.directory_id = some x → ¬ InSubtrees s.tables call.dir_ids x
  files : ∀ f, f ∈ s'.tables.files ↔
    f ∈ s.tables.files ∧ ¬ (f.id ∈ call.file_ids ∧ call.mayDelete f)
  stored : ∀ n, n ∈ s'.stored ↔ n ∈ s.stored ∧ ¬ ∃ f ∈ s.tables.files, f.id ∈ call.file_ids ∧
    call.mayDelete f ∧ f.path.map stored_name = some n
  own : ∀ y, s'.collections.vectors (.file y) =
    if y ∈ call.file_ids ∧ y ∈ s.tables.files.map File.id then none
    else s.collections.vectors (.file y)
  others : ∀ k, k ≠ call.id → s'.collections.vectors (.knowledge k) =
    s.collections.vectors (.knowledge k)

/-- Subtrees are a matter of the directories. -/
theorem inSubtrees_congr (h : t'.directories = t.directories) :
    InSubtrees t' ids x ↔ InSubtrees t ids x := by
  have hparent : t'.parent = t.parent := by
    funext y
    rw [Rows.parent, Rows.parent, Rows.get_directory_by_id, Rows.get_directory_by_id, h]
  rw [InSubtrees, InSubtrees]
  simp only [Rows.Deletable, Rows.OnCycle, hparent, h]

theorem cleanedUp_sync_knowledge_cleanup (s : Store) (call : CleanupCall) :
    CleanedUp stored_name call s (sync_knowledge_cleanup stored_name s call) := by
  have hfiles : FilesCleaned stored_name call call.file_ids s
      (call.file_ids.foldl (cleanupFile stored_name call) s) := filesCleaned_foldl call.file_ids s
  have hdirs := directoriesCleaned_foldl call.dir_ids.reverse
    (call.file_ids.foldl (cleanupFile stored_name call) s).tables
  have hsub : ∀ x, InSubtrees (call.file_ids.foldl (cleanupFile stored_name call) s).tables
      call.dir_ids.reverse x ↔ InSubtrees s.tables call.dir_ids x := by
    intro x
    rw [inSubtrees_congr hfiles.directories]
    simp only [InSubtrees, List.mem_reverse]
  refine ⟨fun d => ?_, fun l => ?_, fun f => ?_, hfiles.stored, hfiles.own, hfiles.others⟩
  · rw [sync_knowledge_cleanup]
    dsimp only
    rw [hdirs.directories, hsub, hfiles.directories]
  · rw [sync_knowledge_cleanup]
    dsimp only
    rw [hdirs.links, hfiles.links, and_assoc]
    simp only [hsub]
  · rw [sync_knowledge_cleanup]
    dsimp only
    rw [hdirs.files, hfiles.files]

/-! ## The frame -/

/-- Nothing is different outside a knowledge base, except for files that were linked to it. -/
structure ConfinedTo (stored_name : String → String) (id : String) (s s' : Store) : Prop where
  directories : ∀ d, d.knowledge_id ≠ id → (d ∈ s'.tables.directories ↔ d ∈ s.tables.directories)
  links : ∀ l, l.knowledge_id ≠ id → (l ∈ s'.tables.links ↔ l ∈ s.tables.links)
  files : ∀ f, ¬ s.tables.has_file id f.id → (f ∈ s'.tables.files ↔ f ∈ s.tables.files)
  stored : ∀ f ∈ s.tables.files, ¬ s.tables.has_file id f.id → ∀ path, f.path = some path →
    (stored_name path ∈ s'.stored ↔ stored_name path ∈ s.stored)
  collections : ∀ f ∈ s.tables.files, ¬ s.tables.has_file id f.id →
    s'.collections.vectors (.file f.id) = s.collections.vectors (.file f.id)
  others : ∀ k, k ≠ id → s'.collections.vectors (.knowledge k) =
    s.collections.vectors (.knowledge k)

/-- The files of a clean-up that are not in the knowledge base have no collections and are not the
user's; those that are the user's are in no other knowledge base, and no other file is stored where
they are; and what is in the subtrees is of the knowledge base. -/
structure NamesOwn (stored_name : String → String) (s : Store) (call : CleanupCall) : Prop where
  unlinked : ∀ f ∈ s.tables.files, f.id ∈ call.file_ids → ¬ s.tables.has_file call.id f.id →
    ¬ call.mayDelete f ∧ ¬ s.collections.has_collection (.file f.id)
  deleted : ∀ f ∈ s.tables.files, f.id ∈ call.file_ids → call.mayDelete f →
    (∀ l ∈ s.tables.links, l.file_id = f.id → l.knowledge_id = call.id) ∧
    ∀ f' ∈ s.tables.files, ¬ s.tables.has_file call.id f'.id → ∀ path, f'.path = some path →
      f.path.map stored_name = some (stored_name path) → stored_name path ∉ s.stored
  subtrees : ∀ id ∈ call.dir_ids, s.tables.Deletable id →
    (∀ d ∈ s.tables.directories, Relation.ReflTransGen (Edge s.tables.parent) d.id id →
      d.knowledge_id = call.id) ∧
    ∀ l ∈ s.tables.links, ∀ x, l.directory_id = some x →
      Relation.ReflTransGen (Edge s.tables.parent) x id → l.knowledge_id = call.id

/-- **A clean-up is confined to its knowledge base** exactly if what it names is there. -/
theorem confinedTo_iff_namesOwn (stored_name : String → String) (s : Store) (call : CleanupCall) :
    ConfinedTo stored_name call.id s (sync_knowledge_cleanup stored_name s call) ↔
      NamesOwn stored_name s call := by
  have hclean : CleanedUp stored_name call s (sync_knowledge_cleanup stored_name s call) :=
    cleanedUp_sync_knowledge_cleanup s call
  constructor
  · intro h
    refine ⟨fun f hf hid hlinked => ⟨fun hmay => ?_, fun hhas => ?_⟩,
      fun f hf hid hmay => ⟨fun l hl hfile => ?_, fun f' hf' hlinked path hpath hname hstored => ?_⟩,
      fun id hid hdel => ⟨fun d hd hpath => ?_, fun l hl x hx hpath => ?_⟩⟩
    · exact ((hclean.files f).mp ((h.files f hlinked).mpr hf)).2 ⟨hid, hmay⟩
    · have hown := hclean.own f.id
      rw [if_pos ⟨hid, List.mem_map_of_mem hf⟩, h.collections f hf hlinked,
        VectorDb.vectors_eq_none_iff, hhas] at hown
      cases hown
    · by_contra hk
      refine ((hclean.links l).mp ((h.links l hk).mpr hl)).2.1 ⟨hfile ▸ hid, Or.inr ?_⟩
      exact ⟨f, hf, hfile.symm, hmay⟩
    · exact ((hclean.stored _).mp ((h.stored f' hf' hlinked path hpath).mpr hstored)).2
        ⟨f, hf, hid, hmay, hname⟩
    · by_contra hk
      exact ((hclean.directories d).mp ((h.directories d hk).mpr hd)).2 ⟨id, hid, hdel, hpath⟩
    · by_contra hk
      exact ((hclean.links l).mp ((h.links l hk).mpr hl)).2.2 x hx ⟨id, hid, hdel, hpath⟩
  · intro h
    refine ⟨fun d hk => ?_, fun l hk => ?_, fun f hlinked => ?_, fun f hf hlinked path hpath => ?_,
      fun f hf hlinked => ?_, hclean.others⟩
    · rw [hclean.directories]
      refine and_iff_left_of_imp fun hd => ?_
      rintro ⟨id, hid, hdel, hpath⟩
      exact hk ((h.subtrees id hid hdel).1 d hd hpath)
    · rw [hclean.links]
      refine and_iff_left_of_imp fun hl => ⟨?_, fun x hx => ?_⟩
      · rintro ⟨hid, heq | ⟨f, hf, hfile, hmay⟩⟩
        · exact hk heq
        · exact hk ((h.deleted f hf (hfile ▸ hid) hmay).1 l hl hfile.symm)
      · rintro ⟨id, hid, hdel, hpath⟩
        exact hk ((h.subtrees id hid hdel).2 l hl x hx hpath)
    · rw [hclean.files]
      refine and_iff_left_of_imp fun hf => ?_
      rintro ⟨hid, hmay⟩
      exact (h.unlinked f hf hid hlinked).1 hmay
    · rw [hclean.stored]
      refine and_iff_left_of_imp fun hstored => ?_
      rintro ⟨g, hg, hid, hmay, hname⟩
      exact (h.deleted g hg hid hmay).2 f hf hlinked path hpath hname hstored
    · rw [hclean.own]
      split_ifs with hid
      · have hnone := (h.unlinked f hf hid.1 hlinked).2
        rw [Bool.not_eq_true, ← VectorDb.vectors_eq_none_iff] at hnone
        exact hnone.symm
      · rfl

/-! ## A file of another knowledge base -/

/-- Two knowledge bases with a file and a directory each, all of them the user's. -/
def twoKnowledgeBases : Store where
  tables := ⟨⟨[⟨"f", "u", "f.txt", some "1", some "f", none⟩,
      ⟨"g", "u", "g.txt", some "2", some "g", none⟩],
    [⟨"a", "k", none, "a"⟩, ⟨"b", "m", none, "b"⟩], [⟨"k", "f", none⟩, ⟨"m", "g", some "b"⟩]⟩,
    by decide⟩
  collections := [(.file "f", []), (.file "g", [])]
  stored := ["f", "g"]

/-- A clean-up of one of them that names the file and the directory of the other one. -/
def foreignCleanup : CleanupCall := ⟨"k", "u", false, ["g"], ["b"]⟩

/-- The file is deleted, and so is the directory. -/
theorem foreign_cleanup_not_confined :
    ¬ ConfinedTo (fun path => path) foreignCleanup.id twoKnowledgeBases
      (sync_knowledge_cleanup (fun path => path) twoKnowledgeBases foreignCleanup) := by
  intro h
  have hgone := (h.directories ⟨"b", "m", none, "b"⟩ (by decide)).mpr (by decide)
  revert hgone
  decide

end OpenLaunch.Knowledge
