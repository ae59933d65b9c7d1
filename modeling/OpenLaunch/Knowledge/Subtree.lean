import OpenLaunch.Knowledge.Directories

/-! # Deleting a subtree

`_delete_files_in_subtree` returns unless the directory is on a cycle, and then the links that are left
are those outside the subtree. So a deletion with the files leaves the directories and the links
outside the subtree as they are. -/

namespace OpenLaunch.Knowledge

open Forest

variable {t t' : Tables} {r : Rows} {d : Directory} {l : KnowledgeFile} {x y id : String}

/-! ## Loops that remove items -/

section Loops

variable {α β : Type} {f : List β → α → Option (List β)} {gone : α → β → Prop} {xs : List α}
variable {bs bs' : List β} {b : β}

/-- A loop removes what its steps remove. -/
theorem mem_foldlM
    (hf : ∀ a ∈ xs, ∀ bs bs', f bs a = some bs' → ∀ b, b ∈ bs' ↔ b ∈ bs ∧ ¬ gone a b)
    (h : xs.foldlM f bs = some bs') : b ∈ bs' ↔ b ∈ bs ∧ ∀ a ∈ xs, ¬ gone a b := by
  induction xs generalizing bs with
  | nil =>
    cases h
    simp
  | cons a xs ih =>
    rw [List.foldlM_cons] at h
    obtain ⟨cs, hcs, hrest⟩ := Option.bind_eq_some_iff.mp h
    rw [ih (fun a ha => hf a (List.mem_cons_of_mem _ ha)) hrest,
      hf a List.mem_cons_self bs cs hcs, List.forall_mem_cons, and_assoc]

/-- A loop returns if its steps do. -/
theorem isSome_foldlM (hf : ∀ a ∈ xs, ∀ bs, (f bs a).isSome) : (xs.foldlM f bs).isSome := by
  induction xs generalizing bs with
  | nil => rfl
  | cons a xs ih =>
    obtain ⟨ha, hxs⟩ := List.forall_mem_cons.mp hf
    obtain ⟨cs, hcs⟩ := Option.isSome_iff_exists.mp (ha bs)
    rw [List.foldlM_cons, hcs]
    exact ih hxs

/-- A loop that returns has had a result at each item. -/
theorem exists_of_foldlM (h : xs.foldlM f bs = some bs') : ∀ a ∈ xs, ∃ cs cs', f cs a = some cs' := by
  induction xs generalizing bs with
  | nil => exact fun a ha => by cases ha
  | cons a xs ih =>
    rw [List.foldlM_cons] at h
    obtain ⟨cs, hcs, hrest⟩ := Option.bind_eq_some_iff.mp h
    exact List.forall_mem_cons.mpr ⟨⟨bs, cs, hcs⟩, ih hrest⟩

end Loops

/-! ## The subtree -/

/-- What is below a directory, or the same, is so or below one of its children, or the same. -/
theorem below_iff_child (ht : r.Constraints) :
    Relation.ReflTransGen (Edge r.parent) x id ↔
      x = id ∨ ∃ c ∈ r.childIds id, Relation.ReflTransGen (Edge r.parent) x c := by
  have hchild : ∀ c, c ∈ r.childIds id ↔ Edge r.parent c id := fun c =>
    Rows.mem_childIds.trans (Rows.parent_eq_some ht).symm
  simp only [hchild]
  constructor
  · intro h
    rcases Relation.ReflTransGen.cases_tail h with heq | ⟨c, hx, hc⟩
    · exact Or.inl heq.symm
    · exact Or.inr ⟨c, hc, hx⟩
  · rintro (rfl | ⟨c, hc, hx⟩)
    · exact .refl
    · exact hx.tail hc

/-- A directory is its own ancestor. -/
def Rows.OnCycle (r : Rows) (id : String) : Prop := Relation.TransGen (Edge r.parent) id id

/-- **The links that are left** by `_delete_files_in_subtree`. -/
theorem mem_deleteFilesInSubtree (ht : r.Constraints) {n : ℕ} {links links' : List KnowledgeFile}
    (h : r.deleteFilesInSubtree n id links = some links') :
    l ∈ links' ↔ l ∈ links ∧ ∀ x, l.directory_id = some x →
      ¬ Relation.ReflTransGen (Edge r.parent) x id := by
  induction n generalizing id links links' l with
  | zero => cases h
  | succ n ih =>
    rw [Rows.deleteFilesInSubtree] at h
    have hchild : ∀ c ∈ r.childIds id, ∀ ls ls', r.deleteFilesInSubtree n c ls = some ls' →
        ∀ l, l ∈ ls' ↔ l ∈ ls ∧ ¬ ∃ x, l.directory_id = some x ∧
          Relation.ReflTransGen (Edge r.parent) x c := by
      intro c _ ls ls' hc l
      rw [ih hc]
      simp only [not_exists, not_and]
    rw [mem_foldlM hchild h, deleteFiles, List.mem_filter, and_assoc]
    refine and_congr_right fun _ => ?_
    have hbelow := fun x => @below_iff_child r x id ht
    simp only [decide_eq_true_eq, hbelow, not_or, not_exists, not_and]
    constructor
    · rintro ⟨hid, hc⟩ x hx
      exact ⟨fun heq => hid (heq ▸ hx), fun c hchild => hc c hchild x hx⟩
    · intro hx
      exact ⟨fun hid => (hx id hid).1 rfl, fun c hchild x hl => (hx x hl).2 c hchild⟩

theorem sublist_deleteFilesInSubtree {n : ℕ} {links links' : List KnowledgeFile}
    (h : r.deleteFilesInSubtree n id links = some links') : links'.Sublist links := by
  induction n generalizing id links links' with
  | zero => cases h
  | succ n ih =>
    rw [Rows.deleteFilesInSubtree] at h
    exact foldlM_invariant (P := fun ls => ls.Sublist links)
      (fun ls c _ hls ls' hc => (ih hc).trans hls) List.filter_sublist h

/-- The directories below a directory. -/
noncomputable def Rows.belowCard (r : Rows) (id : String) : ℕ := by
  classical
  exact ((r.directories.map Directory.id).toFinset.filter fun x =>
    Relation.TransGen (Edge r.parent) x id).card

/-- A child that is on no cycle has fewer directories below it. -/
theorem belowCard_lt (hxy : r.parent x = some y) (hx : ¬ r.OnCycle x) :
    r.belowCard x < r.belowCard y := by
  classical
  apply Finset.card_lt_card
  refine (Finset.ssubset_iff_of_subset fun z hz => ?_).mpr ⟨x, ?_, ?_⟩
  · rw [Finset.mem_filter] at hz ⊢
    exact ⟨hz.1, hz.2.tail hxy⟩
  · rw [Finset.mem_filter, List.mem_toFinset]
    exact ⟨Rows.mem_ids_of_parent hxy, .single hxy⟩
  · rw [Finset.mem_filter]
    exact fun h => hx h.2

theorem belowCard_le : r.belowCard id ≤ r.directories.length := by
  classical
  refine (Finset.card_filter_le _ _).trans ((List.toFinset_card_le _).trans ?_)
  rw [List.length_map]

/-- Above a cycle there is only the cycle. -/
theorem onCycle_of_parent (hxy : r.parent x = some y) (hx : r.OnCycle x) : r.OnCycle y := by
  obtain ⟨z, hxz, hzx⟩ := Relation.TransGen.head'_iff.mp hx
  rw [Option.some.inj (hxy.symm.trans hxz)]
  exact Relation.TransGen.tail' hzx hxz

/-- **The loops over a subtree return**, unless the directory is on a cycle. -/
theorem isSome_deleteFilesInSubtree_iff (ht : r.Constraints) {links : List KnowledgeFile} :
    (r.deleteFilesInSubtree (r.directories.length + 1) id links).isSome ↔ ¬ r.OnCycle id := by
  have hchild : ∀ {c id}, c ∈ r.childIds id → r.parent c = some id := fun hc =>
    (Rows.parent_eq_some ht).mpr (Rows.mem_childIds.mp hc)
  constructor
  · generalize r.directories.length + 1 = n
    intro h hcycle
    -- the child that closes the cycle is on it
    induction n generalizing id links with
    | zero => cases h
    | succ n ih =>
      obtain ⟨c, hc, hedge⟩ := Relation.TransGen.tail'_iff.mp hcycle
      have hmem : c ∈ r.childIds id := Rows.mem_childIds.mpr ((Rows.parent_eq_some ht).mp hedge)
      obtain ⟨links', hlinks'⟩ := Option.isSome_iff_exists.mp h
      rw [Rows.deleteFilesInSubtree] at hlinks'
      obtain ⟨ls, ls', hls⟩ := exists_of_foldlM hlinks' c hmem
      exact ih (Option.isSome_iff_exists.mpr ⟨ls', hls⟩) (Relation.TransGen.head' hedge hc)
  · intro hcycle
    have hreturns : ∀ n id links, ¬ r.OnCycle id → r.belowCard id < n →
        (r.deleteFilesInSubtree n id links).isSome := by
      intro n
      induction n with
      | zero => exact fun id links _ hn => absurd hn (Nat.not_lt_zero _)
      | succ n ih =>
        intro id links hcycle hn
        rw [Rows.deleteFilesInSubtree]
        apply isSome_foldlM
        intro c hc links
        have hnot : ¬ r.OnCycle c := fun h => hcycle (onCycle_of_parent (hchild hc) h)
        have hlt := belowCard_lt (hchild hc) hnot
        exact ih c links hnot (by omega)
    have hle : r.belowCard id ≤ r.directories.length := belowCard_le
    exact hreturns _ id links hcycle (by omega)

/-! ## Deleting a directory with its files -/

/-- A directory that is there, and on no cycle. -/
def Rows.Deletable (r : Rows) (id : String) : Prop :=
  id ∈ r.directories.map Directory.id ∧ ¬ r.OnCycle id

/-- Fewer links meet the constraints. -/
theorem Rows.Constraints.sublinks (hr : r.Constraints) {links : List KnowledgeFile}
    (hsub : links.Sublist r.links) : Rows.Constraints { r with links := links } where
  file_ids := hr.file_ids
  directory_ids := hr.directory_ids
  parents := hr.parents
  names := hr.names
  links := hr.links.sublist (hsub.map _)
  link_files := fun l hl => hr.link_files l (hsub.subset hl)
  link_directories := fun l hl => hr.link_directories l (hsub.subset hl)

theorem Rows.commit_of_constraints (hr : r.Constraints) : r.commit = some ⟨r, hr⟩ := dif_pos hr

/-- A directory that is on a cycle, or that is not there, is not deleted. -/
theorem delete_directory_eq_none (h : ¬ t.Deletable id) : t.delete_directory id false = none := by
  rw [Tables.delete_directory]
  cases hdir : t.get_directory_by_id id with
  | none => rfl
  | some d =>
    obtain ⟨hd, rfl⟩ := (Rows.get_directory_by_id_eq_some t.ok).mp hdir
    have hcycle : t.OnCycle d.id := by
      by_contra hnot
      exact h ⟨List.mem_map_of_mem hd, hnot⟩
    have hnone : t.deleteFilesInSubtree (t.directories.length + 1) d.id t.links = none := by
      by_contra hsome
      rw [← ne_eq, ← Option.isSome_iff_ne_none, isSome_deleteFilesInSubtree_iff t.ok] at hsome
      exact hsome hcycle
    rw [Option.bind_some]
    dsimp only
    rw [if_neg Bool.false_ne_true, hnone, Option.bind_none]

/-- **A deletion removes the subtree**: its directories and the links into it, and nothing else. -/
theorem delete_directory_of_deletable (h : t.Deletable id) :
    ∃ t', t.delete_directory id false = some t' ∧ t'.files = t.files ∧
      (∀ d, d ∈ t'.directories ↔
        d ∈ t.directories ∧ ¬ Relation.ReflTransGen (Edge t.parent) d.id id) ∧
      ∀ l, l ∈ t'.links ↔ l ∈ t.links ∧ ∀ x, l.directory_id = some x →
        ¬ Relation.ReflTransGen (Edge t.parent) x id := by
  obtain ⟨d, hd, rfl⟩ := List.mem_map.mp h.1
  have hreturns : (t.deleteFilesInSubtree (t.directories.length + 1) d.id t.links).isSome :=
    (isSome_deleteFilesInSubtree_iff t.ok).mpr h.2
  obtain ⟨links, hlinks⟩ := Option.isSome_iff_exists.mp hreturns
  have hok := (t.ok.sublinks (sublist_deleteFilesInSubtree hlinks)).removeDirectory d.id
  refine ⟨⟨_, hok⟩, ?_, rfl, fun d' => ?_, fun l => ?_⟩
  · rw [Tables.delete_directory, (Rows.get_directory_by_id_eq_some t.ok).mpr ⟨hd, rfl⟩,
      Option.bind_some]
    dsimp only
    rw [if_neg Bool.false_ne_true, hlinks, Option.bind_some]
    exact Rows.commit_of_constraints hok
  · show d' ∈ t.directories.filter _ ↔ _
    rw [List.mem_filter, decide_eq_true_eq, Rows.above_iff]
    rfl
  · rw [← mem_deleteFilesInSubtree t.ok hlinks]
    show l ∈ links.map _ ↔ _
    -- no link that is left has a directory that goes
    have hsame : links.map (fun l => if l.directory_id.any
        (Rows.above { t.toRows with links := links } d.id) then { l with directory_id := none }
        else l) = links.map id := by
      refine List.map_congr_left fun l hl => if_neg ?_
      rw [Option.any_eq_true]
      rintro ⟨x, hx, habove⟩
      exact ((mem_deleteFilesInSubtree t.ok hlinks).mp hl).2 x hx (Rows.above_iff.mp habove)
    rw [hsame, List.map_id]

end OpenLaunch.Knowledge
