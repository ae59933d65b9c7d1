import OpenLaunch.Access.Folders

/-! # The forest of folders

Of the requests only a move can close a cycle: it does not look at what is below the folder. Without
cycles the functions that go up and down return, and a deletion removes what is below a folder through
folders of its owner. -/

namespace OpenLaunch.Access

open Forest Transition

variable {t t' : FolderTable} {f : Folder} {x p id user_id : String}

namespace FolderTable

/-! ## Parents -/

theorem get_folder_by_id_eq_some :
    t.get_folder_by_id id = some f ↔ f ∈ t.rows ∧ f.id = id :=
  Keyed.find?_eq_some_iff t.nodup

theorem parent_eq_some :
    t.parent x = some p ↔ ∃ f ∈ t.rows, f.id = x ∧ f.parent_id = some p := by
  rw [parent, Option.bind_eq_some_iff]
  constructor
  · rintro ⟨f, hf, hp⟩
    obtain ⟨hmem, hid⟩ := get_folder_by_id_eq_some.mp hf
    exact ⟨f, hmem, hid, hp⟩
  · rintro ⟨f, hmem, hid, hp⟩
    exact ⟨f, get_folder_by_id_eq_some.mpr ⟨hmem, hid⟩, hp⟩

theorem parent_of_mem (hf : f ∈ t.rows) : t.parent f.id = f.parent_id := by
  rw [parent, get_folder_by_id_eq_some.mpr ⟨hf, rfl⟩, Option.bind_some]

/-- A new folder that is no one's parent. -/
theorem acyclic_insert (h : Acyclic t.parent) (hnew : f.id ∉ t.rows.map Folder.id)
    (hchild : ∀ g ∈ t.rows, g.parent_id ≠ some f.id) (hself : f.parent_id ≠ some f.id) :
    Acyclic (t.insert f hnew).parent := by
  have hparent : ∀ x p, (t.insert f hnew).parent x = some p →
      x = f.id ∧ f.parent_id = some p ∨ x ≠ f.id ∧ t.parent x = some p := by
    intro x p hx
    obtain ⟨g, hg, rfl, hp⟩ := parent_eq_some.mp hx
    rcases List.mem_append.mp hg with hg | hg
    · refine Or.inr ⟨fun heq => hnew ?_, parent_eq_some.mpr ⟨g, hg, rfl, hp⟩⟩
      rw [← heq]
      exact List.mem_map_of_mem hg
    · rw [List.mem_singleton.mp hg] at hp ⊢
      exact Or.inl ⟨rfl, hp⟩
  refine h.reparent hparent fun p hp => ⟨?_, not_below_of_childless fun y hy => ?_⟩
  · rintro rfl
    exact hself hp
  · obtain ⟨g, hg, -, hgp⟩ := parent_eq_some.mp hy
    exact hchild g hg hgp

/-- Rows whose parents are as before, or missing. -/
theorem acyclic_mapRows (h : Acyclic t.parent) {g : Folder → Folder}
    (hg : ∀ row, (g row).id = row.id)
    (hparent : ∀ row ∈ t.rows, ∀ p, (g row).parent_id = some p → row.parent_id = some p) :
    Acyclic (t.mapRows g hg).parent := by
  refine h.of_sub fun x p hx => ?_
  obtain ⟨row', hrow', hid, hp⟩ := parent_eq_some.mp hx
  obtain ⟨row, hrow, rfl⟩ := List.mem_map.mp hrow'
  exact parent_eq_some.mpr ⟨row, hrow, (hg row).symm.trans hid, hparent row hrow p hp⟩

/-- A folder that is moved below none of the folders below it. -/
theorem acyclic_setParent (h : Acyclic t.parent) {parent_id : Option String}
    (hparent : ∀ p, parent_id = some p → p ≠ id ∧ ¬ Relation.TransGen (Edge t.parent) p id) :
    Acyclic (t.setParent id parent_id).parent := by
  have hof : ∀ x p, (t.setParent id parent_id).parent x = some p →
      x = id ∧ parent_id = some p ∨ x ≠ id ∧ t.parent x = some p := by
    intro x p hx
    obtain ⟨row', hrow', rfl, hp⟩ := parent_eq_some.mp hx
    obtain ⟨row, hrow, rfl⟩ := List.mem_map.mp hrow'
    split_ifs at hp ⊢ with hid
    · exact Or.inl ⟨hid, hp⟩
    · exact Or.inr ⟨hid, parent_eq_some.mpr ⟨row, hrow, rfl, hp⟩⟩
  exact h.reparent hof hparent

/-! ## Going up -/

/-- Enough calls for the ancestors of a folder. -/
theorem has_folder_access_isSome {l : List String} (hl : Ancestors t.parent x l)
    (hf : f ∈ t.rows) (hx : f.id = x) (granted : String → Bool) (user_id : String) {n : ℕ}
    (hn : l.length < n) : (t.has_folder_access granted user_id n f).isSome := by
  induction hl generalizing f n with
  | root hroot =>
    obtain ⟨n, rfl⟩ := Nat.exists_eq_succ_of_ne_zero (by omega : n ≠ 0)
    rw [← hx, parent_of_mem hf] at hroot
    rw [has_folder_access, hroot]
    split_ifs <;> rfl
  | step hp _ ih =>
    obtain ⟨n, rfl⟩ := Nat.exists_eq_succ_of_ne_zero (by omega : n ≠ 0)
    rw [← hx, parent_of_mem hf] at hp
    rw [has_folder_access, hp]
    split_ifs with hown hgranted
    · rfl
    · rfl
    · dsimp only
      split_ifs with hempty
      · rfl
      · split
        · next parent hparent =>
          obtain ⟨hmem, hid⟩ := get_folder_by_id_eq_some.mp hparent
          exact ih hmem hid (by rw [List.length_cons] at hn; omega)
        · rfl

theorem exists_has_folder_access (h : Acyclic t.parent) (hf : f ∈ t.rows)
    (granted : String → Bool) (user_id : String) :
    ∃ n, ∀ m, n ≤ m → (t.has_folder_access granted user_id m f).isSome := by
  have hparents : ∀ x p, t.parent x = some p → p ∈ t.rows.filterMap Folder.parent_id := by
    intro x p hx
    obtain ⟨g, hg, -, hp⟩ := parent_eq_some.mp hx
    exact List.mem_filterMap.mpr ⟨g, hg, hp⟩
  obtain ⟨l, hl⟩ := h.exists_ancestors hparents f.id
  exact ⟨l.length + 1, fun m hm => has_folder_access_isSome hl hf rfl granted user_id hm⟩

/-! ## Going down -/

/-- From a folder to what is below it there are only finitely many steps. -/
theorem wellFounded_down (h : Acyclic t.parent) : WellFounded fun x y => t.parent x = some y := by
  refine h.wellFounded_down (s := t.rows.map Folder.id) fun x p hx => ?_
  obtain ⟨f, hf, rfl, -⟩ := parent_eq_some.mp hx
  exact List.mem_map_of_mem hf

theorem mem_children :
    f ∈ t.get_folders_by_parent_id_and_user_id id user_id ↔
      f ∈ t.rows ∧ f.parent_id = some id ∧ f.user_id = user_id := by
  simp [get_folders_by_parent_id_and_user_id]

theorem parent_of_mem_children (hf : f ∈ t.get_folders_by_parent_id_and_user_id id user_id) :
    t.parent f.id = some id := by
  obtain ⟨hmem, hparent, -⟩ := mem_children.mp hf
  rw [parent_of_mem hmem, hparent]

end FolderTable

/-- What holds of each item from some number on holds of all from some number on. -/
theorem exists_forall_of_forall_exists {α : Type} {P : α → ℕ → Prop} {xs : List α}
    (h : ∀ a ∈ xs, ∃ n, ∀ m, n ≤ m → P a m) : ∃ n, ∀ m, n ≤ m → ∀ a ∈ xs, P a m := by
  induction xs with
  | nil => exact ⟨0, fun _ _ _ ha => by cases ha⟩
  | cons a xs ih =>
    obtain ⟨⟨n, hn⟩, hxs⟩ := List.forall_mem_cons.mp h
    obtain ⟨k, hk⟩ := ih hxs
    exact ⟨max n k, fun m hm => List.forall_mem_cons.mpr
      ⟨hn m (le_trans (le_max_left n k) hm), hk m (le_trans (le_max_right n k) hm)⟩⟩

theorem isSome_mapM {α β : Type} {g : α → Option β} {xs : List α}
    (h : ∀ a ∈ xs, (g a).isSome) : (xs.mapM g).isSome := by
  induction xs with
  | nil => rfl
  | cons a xs ih =>
    obtain ⟨ha, hxs⟩ := List.forall_mem_cons.mp h
    obtain ⟨b, hb⟩ := Option.isSome_iff_exists.mp ha
    obtain ⟨bs, hbs⟩ := Option.isSome_iff_exists.mp (ih hxs)
    rw [List.mapM_cons, hb, hbs]
    rfl

namespace FolderTable

theorem exists_get_children (h : Acyclic t.parent) (user_id id : String) :
    ∃ n, ∀ m, n ≤ m → (t.get_children user_id m id).isSome := by
  induction id using (wellFounded_down h).induction with
  | _ id ih =>
    have hchildren : ∀ child ∈ t.get_folders_by_parent_id_and_user_id id user_id,
        ∃ n, ∀ m, n ≤ m → (t.get_children user_id m child.id).isSome :=
      fun child hchild => ih child.id (parent_of_mem_children hchild)
    obtain ⟨n, hn⟩ := exists_forall_of_forall_exists hchildren
    refine ⟨n + 1, fun m hm => ?_⟩
    obtain ⟨m, rfl⟩ := Nat.exists_eq_succ_of_ne_zero (by omega : m ≠ 0)
    rw [get_children, Option.isSome_map]
    apply isSome_mapM
    intro child hchild
    rw [Option.isSome_map]
    exact hn m (by omega) child hchild

/-- The loop over a subtree takes a number of steps, and adds some ids. -/
theorem exists_subtreeLoop (h : Acyclic t.parent) (user_id id : String) :
    ∃ k added, ∀ f : Folder, f.id = id → ∀ m stack ids,
      t.subtreeLoop user_id (k + m) (stack ++ [f]) ids =
        t.subtreeLoop user_id m stack (ids ++ added) := by
  induction id using (wellFounded_down h).induction with
  | _ id ih =>
    have hchildren : ∀ children : List Folder, (∀ f ∈ children, t.parent f.id = some id) →
        ∃ k added, ∀ m stack ids, t.subtreeLoop user_id (k + m) (stack ++ children) ids =
          t.subtreeLoop user_id m stack (ids ++ added) := by
      intro children hmem
      induction children using List.reverseRecOn with
      | nil => exact ⟨0, [], fun m stack ids => by simp⟩
      | append_singleton children f ihc =>
        obtain ⟨k, added, hk⟩ := ih f.id (hmem f (by simp))
        obtain ⟨k', added', hk'⟩ := ihc fun g hg => hmem g (by simp [hg])
        refine ⟨k + k', added ++ added', fun m stack ids => ?_⟩
        rw [← List.append_assoc, Nat.add_assoc, hk f rfl, hk', List.append_assoc]
    obtain ⟨k, added, hk⟩ := hchildren (t.get_folders_by_parent_id_and_user_id id user_id)
      fun f hf => parent_of_mem_children hf
    refine ⟨k + 1, (t.get_folders_by_parent_id_and_user_id id user_id).map Folder.id ++ added,
      fun f hf m stack ids => ?_⟩
    rw [Nat.add_right_comm, subtreeLoop, List.getLast?_concat]
    dsimp only
    rw [List.dropLast_concat, hf, hk, List.append_assoc]

theorem exists_get_folder_ids (h : Acyclic t.parent) (id user_id : String) :
    ∃ n, ∀ m, n ≤ m → (t.get_folder_ids_by_id_and_user_id_in_subtree m id user_id).isSome := by
  cases hf : t.get_folder_by_id_and_user_id id user_id with
  | none => exact ⟨0, fun m _ => by rw [get_folder_ids_by_id_and_user_id_in_subtree, hf]; rfl⟩
  | some f =>
    obtain ⟨k, added, hk⟩ := exists_subtreeLoop h user_id f.id
    refine ⟨k, fun m hm => ?_⟩
    obtain ⟨m, rfl⟩ := Nat.exists_eq_add_of_le hm
    have hloop := hk f rfl m [] [f.id]
    rw [List.nil_append] at hloop
    rw [get_folder_ids_by_id_and_user_id_in_subtree, hf]
    dsimp only
    rw [hloop]
    cases m <;> rfl

/-! ## Deletion -/

/-- A folder of a user with its parent. -/
def OwnEdge (t : FolderTable) (user_id x p : String) : Prop :=
  ∃ f ∈ t.rows, f.id = x ∧ f.parent_id = some p ∧ f.user_id = user_id

/-- A folder is below another one, through folders of a user. -/
def Below (t : FolderTable) (user_id : String) : String → String → Prop :=
  Relation.TransGen (t.OwnEdge user_id)

theorem Below.transGen {y : String} (h : t.Below user_id x y) :
    Relation.TransGen (Edge t.parent) x y := by
  have hedge : ∀ u v, t.OwnEdge user_id u v → Edge t.parent u v := by
    rintro u v ⟨f, hf, hid, hp, -⟩
    exact parent_eq_some.mpr ⟨f, hf, hid, hp⟩
  exact Relation.TransGen.mono hedge x y h

/-- What is below a folder is a child of it or below one. -/
theorem below_iff : t.Below user_id x id ↔
    ∃ f ∈ t.get_folders_by_parent_id_and_user_id id user_id, x = f.id ∨ t.Below user_id x f.id := by
  constructor
  · intro h
    obtain ⟨y, hxy, f, hf, rfl, hp, huser⟩ := Relation.TransGen.tail'_iff.mp h
    refine ⟨f, mem_children.mpr ⟨hf, hp, huser⟩, ?_⟩
    rcases Relation.reflTransGen_iff_eq_or_transGen.mp hxy with heq | hxy
    · exact Or.inl heq.symm
    · exact Or.inr hxy
  · rintro ⟨f, hf, h⟩
    obtain ⟨hmem, hp, huser⟩ := mem_children.mp hf
    have hedge : t.OwnEdge user_id f.id id := ⟨f, hmem, rfl, hp, huser⟩
    rcases h with rfl | h
    · exact .single hedge
    · exact h.tail hedge

/-- The table is another one without some ids. -/
def IsWithout (t : FolderTable) (removed : String → Prop) (t' : FolderTable) : Prop :=
  ∃ p : String → Bool, (∀ x, p x = true ↔ removed x) ∧ t'.rows = t.rows.filter fun f => ¬ p f.id

section Without

variable {removed removed' : String → Prop}

theorem IsWithout.mem_rows (h : t.IsWithout removed t') :
    f ∈ t'.rows ↔ f ∈ t.rows ∧ ¬ removed f.id := by
  obtain ⟨p, hp, hrows⟩ := h
  rw [hrows, List.mem_filter, decide_eq_true_eq, hp]

theorem isWithout_self (t : FolderTable) : t.IsWithout (fun _ => False) t :=
  ⟨fun _ => false, by simp, by simp⟩

theorem IsWithout.congr (h : t.IsWithout removed t') (hiff : ∀ x, removed x ↔ removed' x) :
    t.IsWithout removed' t' := by
  obtain ⟨p, hp, hrows⟩ := h
  exact ⟨p, fun x => (hp x).trans (hiff x), hrows⟩

/-- One more folder is removed. -/
theorem IsWithout.remove (h : t.IsWithout removed t') (id : String) :
    t.IsWithout (fun x => removed x ∨ x = id) (t'.remove fun x => x = id) := by
  obtain ⟨p, hp, hrows⟩ := h
  refine ⟨fun x => p x || decide (x = id), fun x => by simp [hp], ?_⟩
  show (t'.rows.filter _) = _
  rw [hrows, List.filter_filter]
  apply List.filter_congr
  intro g _
  by_cases hg : g.id = id <;> simp [hg]

/-- The children of a folder below which nothing was removed are those of before. -/
theorem IsWithout.children (h : t.IsWithout removed t')
    (hbelow : ∀ x, t.Below user_id x id → ¬ removed x) :
    t'.get_folders_by_parent_id_and_user_id id user_id =
      t.get_folders_by_parent_id_and_user_id id user_id := by
  obtain ⟨p, hp, hrows⟩ := h
  rw [get_folders_by_parent_id_and_user_id, get_folders_by_parent_id_and_user_id, hrows,
    List.filter_filter]
  apply List.filter_congr
  intro g hg
  by_cases hchild : g.parent_id = some id ∧ g.user_id = user_id
  · have hnot := hbelow g.id (.single ⟨g, hg, rfl, hchild.1, hchild.2⟩)
    rw [← hp] at hnot
    simp [hchild, hnot]
  · simp [hchild]

end Without

/-- What is below two children of a folder is below the same child. -/
theorem eq_of_below {c c' : Folder} (h : Acyclic t.parent)
    (hc : c ∈ t.get_folders_by_parent_id_and_user_id id user_id)
    (hc' : c' ∈ t.get_folders_by_parent_id_and_user_id id user_id)
    (hx : x = c.id ∨ t.Below user_id x c.id) (hx' : x = c'.id ∨ t.Below user_id x c'.id) :
    c.id = c'.id := by
  have hup {g : Folder} (hg : x = g.id ∨ t.Below user_id x g.id) :
      Relation.ReflTransGen (Edge t.parent) x g.id := by
    rcases hg with rfl | hg
    · exact .refl
    · exact hg.transGen.to_reflTransGen
  exact h.eq_of_siblings (parent_of_mem_children hc) (parent_of_mem_children hc') (hup hx) (hup hx')

/-- What is below a folder is deleted, and its ids are returned. -/
def DeletesBelow (t : FolderTable) (user_id id : String) (m : ℕ) : Prop :=
  ∀ t' removed, t.IsWithout removed t' → (∀ x, t.Below user_id x id → ¬ removed x) →
    ∃ t'' ids, deleteChildren user_id m t' id = some (t'', some ids) ∧
      t.IsWithout (fun x => removed x ∨ t.Below user_id x id) t'' ∧
      ∀ x, x ∈ ids ↔ t.Below user_id x id

/-- The loop deletes the children with what is below them. -/
theorem exists_deleteEach (h : Acyclic t.parent) {m : ℕ} {children : List Folder}
    (hchildren : ∀ c ∈ children, c ∈ t.get_folders_by_parent_id_and_user_id id user_id)
    (hnodup : (children.map Folder.id).Nodup)
    (hbelow : ∀ c ∈ children, t.DeletesBelow user_id c.id m) {t' : FolderTable}
    {removed : String → Prop} (ht' : t.IsWithout removed t')
    (hremoved : ∀ c ∈ children, ∀ x, x = c.id ∨ t.Below user_id x c.id → ¬ removed x) :
    ∃ t'' ids, deleteEach (deleteChildren user_id m) children t' = some (t'', some ids) ∧
      t.IsWithout (fun x => removed x ∨ ∃ c ∈ children, x = c.id ∨ t.Below user_id x c.id) t'' ∧
      ∀ x, x ∈ ids ↔ ∃ c ∈ children, x = c.id ∨ t.Below user_id x c.id := by
  induction children generalizing t' removed with
  | nil => exact ⟨t', [], rfl, ht'.congr (by simp), by simp⟩
  | cons c children ih =>
    obtain ⟨hc, hrest⟩ := List.forall_mem_cons.mp hchildren
    obtain ⟨hcbelow, hrestbelow⟩ := List.forall_mem_cons.mp hbelow
    obtain ⟨hcremoved, hrestremoved⟩ := List.forall_mem_cons.mp hremoved
    rw [List.map_cons, List.nodup_cons] at hnodup
    obtain ⟨t₁, ids, hdelete, ht₁, hids⟩ :=
      hcbelow t' removed ht' fun x hx => hcremoved x (Or.inr hx)
    -- the child itself is still there
    have hcself : ¬ t.Below user_id c.id c.id := fun hb => h c.id hb.transGen
    have hfound : t₁.get_folder_by_id c.id = some c := by
      refine get_folder_by_id_eq_some.mpr ⟨ht₁.mem_rows.mpr ⟨(mem_children.mp hc).1, ?_⟩, rfl⟩
      rintro (hr | hb)
      · exact hcremoved c.id (Or.inl rfl) hr
      · exact hcself hb
    obtain ⟨t₂, ids', hdelete', ht₂, hids'⟩ := ih hrest hnodup.2 hrestbelow (ht₁.remove c.id) (by
      rintro c' hc' x hx ((hr | hb) | rfl)
      · exact hrestremoved c' hc' x hx hr
      · have heq := eq_of_below h hc (hrest c' hc') (Or.inr hb) hx
        exact hnodup.1 (heq ▸ List.mem_map_of_mem hc')
      · have heq := eq_of_below h hc (hrest c' hc') (Or.inl rfl) hx
        exact hnodup.1 (heq ▸ List.mem_map_of_mem hc'))
    refine ⟨t₂, ids ++ c.id :: ids', ?_, ht₂.congr fun x => ?_, fun x => ?_⟩
    · rw [deleteEach, hdelete, Option.bind_some]
      dsimp only
      rw [hfound]
      dsimp only
      rw [hdelete']
      rfl
    · have hcons := List.exists_mem_cons_iff (fun c => x = c.id ∨ t.Below user_id x c.id) c children
      rw [hcons, or_assoc, or_assoc, ← or_assoc (a := t.Below user_id x c.id),
        or_comm (a := t.Below user_id x c.id)]
    · have hcons := List.exists_mem_cons_iff (fun c => x = c.id ∨ t.Below user_id x c.id) c children
      rw [hcons, List.mem_append, List.mem_cons, hids, hids', ← or_assoc,
        or_comm (a := t.Below user_id x c.id)]

theorem exists_deletesBelow (h : Acyclic t.parent) (user_id id : String) :
    ∃ n, ∀ m, n ≤ m → t.DeletesBelow user_id id m := by
  induction id using (wellFounded_down h).induction with
  | _ id ih =>
    have hchildren : ∀ c ∈ t.get_folders_by_parent_id_and_user_id id user_id,
        ∃ n, ∀ m, n ≤ m → t.DeletesBelow user_id c.id m :=
      fun c hc => ih c.id (parent_of_mem_children hc)
    obtain ⟨n, hn⟩ := exists_forall_of_forall_exists hchildren
    refine ⟨n + 1, fun m hm t' removed ht' hremoved => ?_⟩
    obtain ⟨m, rfl⟩ := Nat.exists_eq_succ_of_ne_zero (by omega : m ≠ 0)
    have hnodup : ((t.get_folders_by_parent_id_and_user_id id user_id).map Folder.id).Nodup :=
      t.nodup.sublist (List.filter_sublist.map Folder.id)
    obtain ⟨t'', ids, hdelete, ht'', hids⟩ := exists_deleteEach h (fun c hc => hc) hnodup
      (hn m (by omega)) ht' fun c hc x hx => hremoved x (below_iff.mpr ⟨c, hc, hx⟩)
    refine ⟨t'', ids, ?_, ht''.congr fun x => by rw [below_iff], fun x => by rw [hids, below_iff]⟩
    rw [deleteChildren, ht'.children hremoved]
    exact hdelete

/-- **A deletion removes a folder and what is below it through folders of its owner.** -/
theorem exists_delete_folder (h : Acyclic t.parent)
    (hf : t.get_folder_by_id_and_user_id id user_id = some f) :
    ∃ n, ∀ m, n ≤ m → ∃ t' ids, t.delete_folder_by_id_and_user_id m id user_id = some (t', ids) ∧
      t.IsWithout (fun x => x = id ∨ t.Below user_id x id) t' ∧
      ∀ x, x ∈ ids ↔ x = id ∨ t.Below user_id x id := by
  obtain ⟨hfind, -⟩ := Option.filter_eq_some_iff.mp hf
  obtain ⟨hmem, rfl⟩ := get_folder_by_id_eq_some.mp hfind
  obtain ⟨n, hn⟩ := exists_deletesBelow h user_id f.id
  refine ⟨n, fun m hm => ?_⟩
  obtain ⟨t', ids, hdelete, ht', hids⟩ := hn m hm t _ (isWithout_self t) fun _ _ hfalse => hfalse
  have hself : ¬ t.Below user_id f.id f.id := fun hb => h f.id hb.transGen
  have hfound : t'.get_folder_by_id f.id = some f :=
    get_folder_by_id_eq_some.mpr ⟨ht'.mem_rows.mpr ⟨hmem, by simpa using hself⟩, rfl⟩
  refine ⟨t'.remove fun x => x = f.id, f.id :: ids, ?_, (ht'.remove f.id).congr fun x => ?_,
    fun x => ?_⟩
  · rw [delete_folder_by_id_and_user_id, hf]
    dsimp only
    rw [hdelete, Option.map_some]
    dsimp only
    rw [hfound, Option.isSome_some, if_pos rfl]
  · tauto
  · rw [List.mem_cons, hids]

end FolderTable

/-! ## More nested calls -/

section Fuel

variable {deleteBelow deleteBelow' : FolderTable → String → Option (FolderTable × Option (List String))}
  {result : FolderTable × Option (List String)}

/-- The loop returns the same if what it calls does. -/
theorem deleteEach_mono
    (hcalls : ∀ t id r, deleteBelow t id = some r → deleteBelow' t id = some r)
    (children : List Folder) (h : deleteEach deleteBelow children t = some result) :
    deleteEach deleteBelow' children t = some result := by
  induction children generalizing t result with
  | nil => exact h
  | cons c children ih =>
    rw [deleteEach] at h ⊢
    obtain ⟨below, hbelow, hrest⟩ := Option.bind_eq_some_iff.mp h
    rw [hcalls t c.id below hbelow, Option.bind_some]
    obtain ⟨t₁, ids | ids⟩ := below
    · exact hrest
    · dsimp only at hrest ⊢
      split at hrest
      · exact hrest
      · obtain ⟨rest, hloop, rfl⟩ := Option.map_eq_some_iff.mp hrest
        rw [ih hloop, Option.map_some]

/-- A deletion that returns does so with more nested calls. -/
theorem deleteChildren_mono {n m : ℕ} (hm : n ≤ m)
    (h : deleteChildren user_id n t id = some result) :
    deleteChildren user_id m t id = some result := by
  induction n generalizing t id result m with
  | zero => cases h
  | succ n ih =>
    obtain ⟨m, rfl⟩ := Nat.exists_eq_succ_of_ne_zero (by omega : m ≠ 0)
    rw [deleteChildren] at h ⊢
    exact deleteEach_mono (fun t id r hr => ih (by omega) hr) _ h

end Fuel

namespace FolderTable

theorem delete_folder_mono {n m : ℕ} (hm : n ≤ m) {result : FolderTable × List String}
    (h : t.delete_folder_by_id_and_user_id n id user_id = some result) :
    t.delete_folder_by_id_and_user_id m id user_id = some result := by
  rw [delete_folder_by_id_and_user_id] at h ⊢
  split at h
  · exact h
  · obtain ⟨below, hbelow, rfl⟩ := Option.map_eq_some_iff.mp h
    rw [deleteChildren_mono hm hbelow]
    rfl

/-- **A deletion that returns is exact.** -/
theorem delete_folder_exact (h : Acyclic t.parent)
    (hf : t.get_folder_by_id_and_user_id id user_id = some f) {n : ℕ}
    {result : FolderTable × List String}
    (hdelete : t.delete_folder_by_id_and_user_id n id user_id = some result) :
    t.IsWithout (fun x => x = id ∨ t.Below user_id x id) result.1 := by
  obtain ⟨m, hm⟩ := exists_delete_folder h hf
  obtain ⟨t', ids, hlate, ht', -⟩ := hm (max n m) (le_max_right n m)
  rw [delete_folder_mono (le_max_left n m) hdelete, Option.some.injEq] at hlate
  rw [hlate]
  exact ht'

end FolderTable

end OpenLaunch.Access
