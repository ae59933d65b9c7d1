import OpenLaunch.Access.FolderForest

/-! # Runs of folder requests

`update_folder_parent_id_by_id` takes any id for the new parent. The folders stay a forest in every
run that moves no folder into itself or below itself, and then each deletion is exact in every run
that deletes no folder with a descendant of the same owner behind a folder of another one. -/

namespace OpenLaunch.Access

open Forest Transition

variable {ilike : String → String → Bool} {t t' : FolderTable} {call : FolderCall}
variable {f folder : Folder} {id user_id name : String}

/-! ## What is asked of the folders -/

/-- Every folder is below its ancestors. -/
def FolderTable.Descendant (t : FolderTable) (x id : String) : Prop :=
  Relation.TransGen (Edge t.parent) x id

/-- The parents have no cycles, and each of the functions that go up or down returns. -/
structure FolderForest (t : FolderTable) : Prop where
  acyclic : Acyclic t.parent
  has_folder_access : ∀ granted user_id, ∀ f ∈ t.rows,
    ∃ n, ∀ m, n ≤ m → (t.has_folder_access granted user_id m f).isSome
  get_children_folders : ∀ id user_id,
    ∃ n, ∀ m, n ≤ m → (t.get_children_folders_by_id_and_user_id m id user_id).isSome
  get_folder_ids : ∀ id user_id,
    ∃ n, ∀ m, n ≤ m → (t.get_folder_ids_by_id_and_user_id_in_subtree m id user_id).isSome
  delete_folder : ∀ id user_id,
    ∃ n, ∀ m, n ≤ m → (t.delete_folder_by_id_and_user_id m id user_id).isSome

/-- A deletion that is not refused removes the folder and its descendants of the same owner. -/
def DeletesExactly (t : FolderTable) (call : FolderCall) (t' : FolderTable) : Prop :=
  ∀ id chats_deletable folder, call.request = .delete_folder_by_id id chats_deletable →
    deletable t call id = some (some folder) → chats_deletable ∨ call.admin →
    ∀ f, f ∈ t'.rows ↔
      f ∈ t.rows ∧ ¬ (f.id = id ∨ f.user_id = folder.user_id ∧ t.Descendant f.id id)

/-- After the request there is a forest, and if it was a deletion then an exact one. -/
def KeepsForest (ilike : String → String → Bool) (t : FolderTable) (call : FolderCall) : Prop :=
  ∀ t', folderStep ilike t call = some t' → FolderForest t' ∧ DeletesExactly t call t'

/-- A move is not into the folder itself nor to below it, and a deletion has no descendants of the
same owner behind folders of another one. -/
def SoundFolderCall (t : FolderTable) (call : FolderCall) : Prop :=
  match call.request with
  | .update_folder_parent_id_by_id id parent_id =>
    ∀ p, parent_id = some p → p ≠ id ∧ ¬ t.Descendant p id
  | .delete_folder_by_id id _ =>
    ∀ folder, t.get_folder_by_id id = some folder → ∀ f ∈ t.rows, f.user_id = folder.user_id →
      t.Descendant f.id id → t.Below folder.user_id f.id id
  | _ => True

/-! ## One request -/

theorem FolderForest.of_acyclic (h : Acyclic t.parent) : FolderForest t where
  acyclic := h
  has_folder_access granted user_id f hf := FolderTable.exists_has_folder_access h hf granted user_id
  get_children_folders id user_id := by
    cases hf : t.get_folder_by_id_and_user_id id user_id with
    | none =>
      refine ⟨0, fun m _ => ?_⟩
      rw [FolderTable.get_children_folders_by_id_and_user_id, hf]
      rfl
    | some f =>
      obtain ⟨n, hn⟩ := FolderTable.exists_get_children h user_id f.id
      refine ⟨n, fun m hm => ?_⟩
      rw [FolderTable.get_children_folders_by_id_and_user_id, hf]
      dsimp only
      rw [Option.isSome_map]
      exact hn m hm
  get_folder_ids id user_id := FolderTable.exists_get_folder_ids h id user_id
  delete_folder id user_id := by
    cases hf : t.get_folder_by_id_and_user_id id user_id with
    | none =>
      refine ⟨0, fun m _ => ?_⟩
      rw [FolderTable.delete_folder_by_id_and_user_id, hf]
      rfl
    | some f =>
      obtain ⟨n, hn⟩ := FolderTable.exists_delete_folder h hf
      refine ⟨n, fun m hm => ?_⟩
      obtain ⟨t', ids, hdelete, -⟩ := hn m hm
      rw [hdelete]
      rfl

/-- No folders have no cycles. -/
theorem acyclic_empty : Acyclic FolderTable.empty.parent := by
  intro x hx
  obtain ⟨y, -, hy⟩ := Relation.TransGen.tail'_iff.mp hx
  cases hy

theorem FolderTable.acyclic_of_isWithout {removed : String → Prop} (h : Acyclic t.parent)
    (ht' : t.IsWithout removed t') : Acyclic t'.parent := by
  refine h.of_sub fun x p hx => ?_
  obtain ⟨f, hf, hid, hp⟩ := FolderTable.parent_eq_some.mp hx
  exact FolderTable.parent_eq_some.mpr ⟨f, (ht'.mem_rows.mp hf).1, hid, hp⟩

/-- A creation adds a folder that is no one's parent, or nothing. -/
theorem acyclic_create_folder (h : Acyclic t.parent) {parent_id : Option String}
    (hcreate : create_folder ilike t call id name parent_id = some t') : Acyclic t'.parent := by
  rw [create_folder] at hcreate
  split at hcreate
  · next hnew =>
    have hinsert : ∀ user_id, Acyclic (t.insert ⟨id, parent_id, user_id, name⟩ hnew.1).parent :=
      fun user_id => FolderTable.acyclic_insert h hnew.1 hnew.2.1 hnew.2.2
    split_ifs at hcreate with hexists
    · cases hcreate
      exact h
    · dsimp only at hcreate
      split at hcreate
      · next parent _ =>
        split_ifs at hcreate
        · obtain ⟨allowed, -, rfl⟩ := Option.map_eq_some_iff.mp hcreate
          cases allowed
          · exact h
          · exact hinsert parent.user_id
        · cases hcreate
          exact hinsert call.user_id
      · cases hcreate
        exact hinsert call.user_id
  · cases hcreate

/-- A new name keeps the parents. -/
theorem acyclic_rename (h : Acyclic t.parent) (folder : Folder) (name : String) :
    Acyclic (t.rename folder name).parent := by
  rw [FolderTable.rename]
  split_ifs
  · exact h
  · refine FolderTable.acyclic_mapRows h _ fun row _ p hp => ?_
    split_ifs at hp <;> exact hp

/-- An update of the name renames a folder, or nothing. -/
theorem eq_or_rename_of_update {name : Option String}
    (hupdate : update_folder_name_by_id ilike t call id name = some t') :
    t' = t ∨ ∃ folder name, t' = t.rename folder name := by
  cases name with
  | none =>
    rw [update_folder_name_by_id] at hupdate
    split at hupdate
    · exact Or.inl (Option.some.inj hupdate).symm
    · split at hupdate
      · obtain ⟨allowed, -, rfl⟩ := Option.map_eq_some_iff.mp hupdate
        exact Or.inl (ite_self t)
      · exact Or.inl (Option.some.inj hupdate).symm
  | some name =>
    rw [update_folder_name_by_id] at hupdate
    split at hupdate
    · obtain rfl := Option.some.inj hupdate
      dsimp only
      split_ifs
      · exact Or.inl rfl
      · exact Or.inr ⟨_, _, rfl⟩
    · split at hupdate
      · obtain ⟨allowed, -, rfl⟩ := Option.map_eq_some_iff.mp hupdate
        cases allowed
        · exact Or.inl rfl
        · rw [if_pos rfl]
          dsimp only
          split_ifs
          · exact Or.inl rfl
          · exact Or.inr ⟨_, _, rfl⟩
      · exact Or.inl (Option.some.inj hupdate).symm

/-- The parents that are reset are missing. -/
theorem acyclic_get_folders (h : Acyclic t.parent) (call : FolderCall) :
    Acyclic (get_folders t call).parent := by
  refine FolderTable.acyclic_mapRows h _ fun row _ p hp => ?_
  split_ifs at hp
  · exact hp

/-- The folder of a deletion is in the table. -/
theorem get_folder_of_deletable (h : deletable t call id = some (some folder)) :
    t.get_folder_by_id id = some folder := by
  rw [deletable] at h
  split at h
  · next hown =>
    cases h
    exact (Option.filter_eq_some_iff.mp hown).1
  · split at h
    · next hfound =>
      split_ifs at h
      · obtain ⟨allowed, -, hallowed⟩ := Option.map_eq_some_iff.mp h
        cases allowed
        · cases hallowed
        · cases hallowed
          exact hfound
      · cases h
        exact hfound
      · cases h
    · cases h

/-- **A deletion that is not refused is exact**, for what is below the folder through folders of its
owner. -/
theorem isWithout_of_delete (h : Acyclic t.parent) {chats_deletable : Bool}
    (hfolder : deletable t call id = some (some folder)) (hallowed : chats_deletable ∨ call.admin)
    (hdelete : delete_folder_by_id t call id chats_deletable = some t') :
    t.IsWithout (fun x => x = id ∨ t.Below folder.user_id x id) t' := by
  have hfound := get_folder_of_deletable hfolder
  obtain ⟨-, hid⟩ := FolderTable.get_folder_by_id_eq_some.mp hfound
  rw [delete_folder_by_id, hfolder, Option.bind_some] at hdelete
  obtain ⟨ids, -, hdelete⟩ := Option.bind_eq_some_iff.mp hdelete
  rw [if_pos hallowed, hid] at hdelete
  obtain ⟨result, hresult, rfl⟩ := Option.map_eq_some_iff.mp hdelete
  have hown : t.get_folder_by_id_and_user_id id folder.user_id = some folder :=
    Option.filter_eq_some_iff.mpr ⟨hfound, decide_eq_true rfl⟩
  exact FolderTable.delete_folder_exact h hown hresult

/-- A deletion removes folders, or nothing. -/
theorem acyclic_delete_folder (h : Acyclic t.parent) {chats_deletable : Bool}
    (hdelete : delete_folder_by_id t call id chats_deletable = some t') : Acyclic t'.parent := by
  obtain ⟨found, hfound, hrest⟩ := Option.bind_eq_some_iff.mp hdelete
  cases found with
  | none =>
    cases hrest
    exact h
  | some folder =>
    by_cases hallowed : chats_deletable ∨ call.admin
    · exact FolderTable.acyclic_of_isWithout h (isWithout_of_delete h hfound hallowed hdelete)
    · obtain ⟨ids, -, hrest⟩ := Option.bind_eq_some_iff.mp hrest
      rw [if_neg hallowed] at hrest
      cases hrest
      exact h

/-- **One request.** Only a move asks for its condition. -/
theorem folderStep_acyclic (h : Acyclic t.parent) (hcall : SoundFolderCall t call)
    (hstep : folderStep ilike t call = some t') : Acyclic t'.parent := by
  rw [folderStep] at hstep
  rw [SoundFolderCall] at hcall
  split at hstep
  · exact acyclic_create_folder h hstep
  · rcases eq_or_rename_of_update hstep with rfl | ⟨folder, name, rfl⟩
    · exact h
    · exact acyclic_rename h folder name
  · next id parent_id hrequest =>
    rw [hrequest] at hcall
    cases hstep
    rw [update_folder_parent_id_by_id]
    split
    · split_ifs
      · exact h
      · exact FolderTable.acyclic_setParent h hcall
    · exact h
  · exact acyclic_delete_folder h hstep
  · cases hstep
    exact acyclic_get_folders h call

/-- **A deletion without descendants of the same owner behind other folders removes them all.** -/
theorem deletesExactly_of_acyclic (h : Acyclic t.parent) (hcall : SoundFolderCall t call)
    (hstep : folderStep ilike t call = some t') : DeletesExactly t call t' := by
  intro id chats_deletable folder hrequest hfolder hallowed f
  rw [folderStep, hrequest] at hstep
  rw [SoundFolderCall, hrequest] at hcall
  have hbelow := hcall folder (get_folder_of_deletable hfolder)
  rw [(isWithout_of_delete h hfolder hallowed hstep).mem_rows, and_congr_right_iff]
  intro hf
  apply not_congr
  apply or_congr_right
  constructor
  · intro hx
    refine ⟨?_, hx.transGen⟩
    obtain ⟨y, ⟨g, hg, hid, -, huser⟩, -⟩ := Relation.TransGen.head'_iff.mp hx
    rw [← huser, ← List.inj_on_of_nodup_map t.nodup hg hf hid]
  · rintro ⟨huser, hx⟩
    exact hbelow f hf huser hx

/-- **Sound runs keep the folders a forest**, and their deletions are exact. -/
theorem stepsMeet_keepsForest (ilike : String → String → Bool) (calls : List FolderCall)
    (h : StepsMeet (folderStep ilike) SoundFolderCall FolderTable.empty calls) :
    StepsMeet (folderStep ilike) (KeepsForest ilike) FolderTable.empty calls := by
  refine StepsMeet.of_invariant (P := fun t => Acyclic t.parent) ?_ ?_ acyclic_empty h
  · intro t call hacyclic hcall t' hstep
    exact ⟨.of_acyclic (folderStep_acyclic hacyclic hcall hstep),
      deletesExactly_of_acyclic hacyclic hcall hstep⟩
  · intro t call t' hacyclic hcall hstep
    exact folderStep_acyclic hacyclic hcall hstep

/-! ## Two folders -/

/-- A request of the only user. -/
def ownRequest (request : FolderRequest) : FolderCall := ⟨"u", false, fun _ => false, 9, request⟩

/-- A new folder at the root, named by its id. -/
def newFolder (id : String) : FolderCall := ownRequest (.create_folder id id none)

/-- A move of a folder. -/
def moveFolder (id parent_id : String) : FolderCall :=
  ownRequest (.update_folder_parent_id_by_id id (some parent_id))

/-- A folder. -/
def oneFolder : FolderTable := ⟨[⟨"a", none, "u", "a"⟩], by decide⟩

/-- Two folders at the root. -/
def twoFolders : FolderTable := ⟨[⟨"a", none, "u", "a"⟩, ⟨"b", none, "u", "b"⟩], by decide⟩

/-- The second folder below the first one. -/
def oneBelow : FolderTable := ⟨[⟨"a", none, "u", "a"⟩, ⟨"b", some "a", "u", "b"⟩], by decide⟩

/-- Each folder below the other one. -/
def eachBelow : FolderTable := ⟨[⟨"a", some "b", "u", "a"⟩, ⟨"b", some "a", "u", "b"⟩], by decide⟩

/-- A folder is moved below another one, which is then deleted. -/
theorem moved_and_deleted_keepsForest :
    StepsMeet (folderStep fun a b => a == b) (KeepsForest fun a b => a == b) FolderTable.empty
      [newFolder "a", newFolder "b", moveFolder "b" "a",
        ownRequest (.delete_folder_by_id "a" true)] := by
  apply stepsMeet_keepsForest
  -- at the root nothing is above a folder
  have hroot (t : FolderTable) (ht : t.parent "a" = none) (x : String) : ¬ t.Descendant "a" x := by
    intro hx
    obtain ⟨y, hy, -⟩ := Relation.TransGen.head'_iff.mp hx
    rw [Edge, ht] at hy
    cases hy
  refine .cons trivial (show _ = some oneFolder by decide) ?_
  refine .cons trivial (show _ = some twoFolders by decide) ?_
  refine .cons ?_ (show _ = some oneBelow by decide) ⟨?_, fun _ _ => trivial⟩
  · rintro p ⟨⟩
    exact ⟨by decide, hroot _ (by decide) "b"⟩
  · rintro folder hfolder f hf - hx
    have ha : oneBelow.get_folder_by_id "a" = some ⟨"a", none, "u", "a"⟩ := by decide
    obtain rfl := Option.some.inj (ha.symm.trans hfolder)
    rcases List.mem_cons.mp hf with rfl | hb
    · exact absurd hx (hroot _ (by decide) "a")
    · obtain rfl := List.mem_singleton.mp hb
      exact .single ⟨_, hf, rfl, rfl, rfl⟩

/-- A folder is moved below its child. The loop over its subtree does not end. -/
theorem moved_below_child_closes_cycle :
    exec (folderStep fun a b => a == b) FolderTable.empty
      [newFolder "a", newFolder "b", moveFolder "b" "a", moveFolder "a" "b"] = some eachBelow ∧
    ¬ FolderForest eachBelow ∧
    ∀ n, eachBelow.get_folder_ids_by_id_and_user_id_in_subtree n "a" "u" = none := by
  refine ⟨by decide, fun h => h.acyclic "a" ?_, fun n => ?_⟩
  · have hb : Edge eachBelow.parent "a" "b" := by
      show _ = _
      decide
    have ha : Edge eachBelow.parent "b" "a" := by
      show _ = _
      decide
    exact (Relation.TransGen.single hb).tail ha
  · have hloop : ∀ n ids,
        eachBelow.subtreeLoop "u" n [⟨"a", some "b", "u", "a"⟩] ids = none ∧
        eachBelow.subtreeLoop "u" n [⟨"b", some "a", "u", "b"⟩] ids = none := by
      intro n
      induction n with
      | zero => exact fun ids => ⟨rfl, rfl⟩
      | succ n ih =>
        have hb : eachBelow.get_folders_by_parent_id_and_user_id "a" "u" =
            [⟨"b", some "a", "u", "b"⟩] := by decide
        have ha : eachBelow.get_folders_by_parent_id_and_user_id "b" "u" =
            [⟨"a", some "b", "u", "a"⟩] := by decide
        intro ids
        constructor
        · show eachBelow.subtreeLoop "u" n
            (eachBelow.get_folders_by_parent_id_and_user_id "a" "u") _ = none
          rw [hb]
          exact (ih _).2
        · show eachBelow.subtreeLoop "u" n
            (eachBelow.get_folders_by_parent_id_and_user_id "b" "u") _ = none
          rw [ha]
          exact (ih _).1
    have hfolder : eachBelow.get_folder_by_id_and_user_id "a" "u" =
        some ⟨"a", some "b", "u", "a"⟩ := by decide
    rw [FolderTable.get_folder_ids_by_id_and_user_id_in_subtree, hfolder]
    exact (hloop n _).1

end OpenLaunch.Access
