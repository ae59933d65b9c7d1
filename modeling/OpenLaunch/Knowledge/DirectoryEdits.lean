import OpenLaunch.Knowledge.Subtree

/-! # Deletions that keep the files, and updates

A deletion moves the files of the subtree to the parent of the directory that is deleted, or removes
their links. An update moves and then renames, and each of the two is committed: an update that
fails at the new name has moved the directory. -/

namespace OpenLaunch.Knowledge

open Forest

variable {t t' : Tables} {r : Rows} {d : Directory} {l : KnowledgeFile} {x p id : String}
variable {target : Option String}

/-! ## Moving the files of a subtree -/

/-- The link with another directory, if its directory is one of those. -/
def redirect (those : String → Bool) (target : Option String) (l : KnowledgeFile) : KnowledgeFile :=
  if l.directory_id.any those then { l with directory_id := target } else l

theorem moveFiles_eq (id : String) (target : Option String) (links : List KnowledgeFile) :
    moveFiles id target links = links.map (redirect (fun x => x = id) target) := by
  refine List.map_congr_left fun l _ => ?_
  rw [redirect]
  cases l.directory_id with
  | none => simp
  | some x => simp

/-- A link that was redirected is not redirected again, if the target is no such directory. -/
theorem redirect_redirect {p q : String → Bool} (hq : ∀ y, target = some y → q y = false) :
    redirect q target (redirect p target l) = redirect (fun x => p x || q x) target l := by
  have htarget : target.any q = false := by
    rw [Option.any_eq_false]
    exact fun y hy => by simp [hq y hy]
  cases hdir : l.directory_id with
  | none => simp [redirect, hdir]
  | some x =>
    by_cases hp : p x = true
    · simp [redirect, hdir, hp, htarget]
    · simp [redirect, hdir, hp]

/-- A loop whose steps change each item changes each item by all of them. -/
theorem foldlM_eq_map {α β : Type} {f : List β → α → Option (List β)} {g : α → β → β} {xs : List α}
    (hf : ∀ a ∈ xs, ∀ bs, f bs a = some (bs.map (g a))) (bs : List β) :
    xs.foldlM f bs = some (bs.map fun b => xs.foldl (fun b a => g a b) b) := by
  induction xs generalizing bs with
  | nil =>
    rw [List.foldlM_nil]
    exact congrArg some (List.map_id bs).symm
  | cons a xs ih =>
    rw [List.foldlM_cons, hf a List.mem_cons_self bs, Option.bind_eq_bind, Option.bind_some,
      ih (fun a ha => hf a (List.mem_cons_of_mem _ ha)), List.map_map]
    rfl

/-- Redirecting from several sets of directories, one after the other. -/
theorem foldl_redirect {q : String → String → Bool} {xs : List String}
    (hq : ∀ c ∈ xs, ∀ y, target = some y → q c y = false) (those : String → Bool) :
    xs.foldl (fun l c => redirect (q c) target l) (redirect those target l) =
      redirect (fun x => those x || xs.any fun c => q c x) target l := by
  induction xs generalizing those with
  | nil => simp
  | cons c xs ih =>
    rw [List.foldl_cons, redirect_redirect (hq c List.mem_cons_self),
      ih fun c hc => hq c (List.mem_cons_of_mem _ hc)]
    simp only [List.any_cons, Bool.or_assoc]

/-- The directory is below another one, and not the same. -/
def Rows.below (r : Rows) (id x : String) : Bool := (r.childIds id).any fun c => r.above c x

theorem above_eq (ht : r.Constraints) : r.above id x = (decide (x = id) || r.below id x) := by
  rw [Bool.eq_iff_iff, Rows.above_iff, below_iff_child ht, Bool.or_eq_true, decide_eq_true_eq,
    Rows.below, List.any_eq_true]
  simp only [Rows.above_iff]

/-- **`_move_files_from_subtree`** moves the files of the directories below, unless the directory is
on a cycle. -/
theorem moveFilesFromSubtree_eq (ht : r.Constraints) {n : ℕ} (hcycle : ¬ r.OnCycle id)
    (hn : r.belowCard id < n) (htarget : ∀ y, target = some y → r.below id y = false)
    (links : List KnowledgeFile) :
    r.moveFilesFromSubtree target n id links = some (links.map (redirect (r.below id) target)) := by
  induction n generalizing id links with
  | zero => exact absurd hn (Nat.not_lt_zero _)
  | succ n ih =>
    have hnot : ∀ c ∈ r.childIds id, ∀ y, target = some y → r.above c y = false := by
      intro c hc y hy
      have hbelow := htarget y hy
      rw [Rows.below, List.any_eq_false] at hbelow
      simpa using hbelow c hc
    -- a call for a child, after its own files were moved, moves what is below the child or in it
    have hstep : ∀ c ∈ r.childIds id, ∀ ls, r.moveFilesFromSubtree target n c
        (moveFiles c target ls) = some (ls.map (redirect (r.above c) target)) := by
      intro c hc ls
      have hparent : r.parent c = some id := (Rows.parent_eq_some ht).mpr (Rows.mem_childIds.mp hc)
      have hacyclic : ¬ r.OnCycle c := fun h => hcycle (onCycle_of_parent hparent h)
      have hlt := belowCard_lt hparent hacyclic
      have hbelow : ∀ y, target = some y → r.below c y = false := by
        intro y hy
        have habove := hnot c hc y hy
        rw [above_eq ht, Bool.or_eq_false_iff] at habove
        exact habove.2
      rw [moveFiles_eq, ih hacyclic (by omega) hbelow, List.map_map]
      refine congrArg some (List.map_congr_left fun l _ => ?_)
      rw [Function.comp_apply, redirect_redirect hbelow]
      exact congrArg (fun those => redirect those target l) (funext fun x => (above_eq ht).symm)
    rw [Rows.moveFilesFromSubtree, foldlM_eq_map hstep]
    refine congrArg some (List.map_congr_left fun l _ => ?_)
    have hnone : redirect (fun _ => false) target l = l := by
      rw [redirect, if_neg]
      cases l.directory_id <;> simp
    rw [← hnone, foldl_redirect hnot, hnone]
    rfl

/-- Redirecting links to a directory that is there meets the constraints. -/
theorem Rows.Constraints.redirect (hr : r.Constraints) (those : String → Bool)
    (htarget : ∀ y, target = some y → y ∈ r.directories.map Directory.id) :
    Rows.Constraints { r with links := r.links.map (redirect those target) } where
  file_ids := hr.file_ids
  directory_ids := hr.directory_ids
  parents := hr.parents
  names := hr.names
  links := by
    have hkeys : (r.links.map (Knowledge.redirect those target)).map
        (fun l => (l.knowledge_id, l.file_id)) =
        r.links.map fun l => (l.knowledge_id, l.file_id) := by
      rw [List.map_map]
      refine List.map_congr_left fun l _ => ?_
      rw [Function.comp_apply, Knowledge.redirect]
      split_ifs <;> rfl
    rw [hkeys]
    exact hr.links
  link_files := by
    intro l hl
    obtain ⟨l', hl', rfl⟩ := List.mem_map.mp hl
    rw [Knowledge.redirect]
    split_ifs
    · exact hr.link_files l' hl'
    · exact hr.link_files l' hl'
  link_directories := by
    intro l hl y hy
    obtain ⟨l', hl', rfl⟩ := List.mem_map.mp hl
    rw [Knowledge.redirect] at hy
    split_ifs at hy
    · exact htarget y hy
    · exact hr.link_directories l' hl' y hy

/-- **A deletion that keeps the files** puts those of the subtree into the parent, and removes the
directories of the subtree. -/
theorem delete_directory_keeps_files (hacyclic : Acyclic t.parent)
    (hid : id ∈ t.directories.map Directory.id) :
    ∃ t', t.delete_directory id true = some t' ∧ t'.files = t.files ∧
      (∀ d, d ∈ t'.directories ↔
        d ∈ t.directories ∧ ¬ Relation.ReflTransGen (Edge t.parent) d.id id) ∧
      t'.links = t.links.map (redirect (t.above id) (t.parent id)) := by
  obtain ⟨d, hd, rfl⟩ := List.mem_map.mp hid
  have hparent : t.parent d.id = d.parent_id := Rows.parent_of_mem t.ok hd
  -- the parent is above the directory, so it is not in the subtree
  have htarget : ∀ y, d.parent_id = some y → t.above d.id y = false := by
    intro y hy
    by_contra habove
    rw [Bool.not_eq_false, Rows.above_iff] at habove
    exact hacyclic d.id (Relation.TransGen.head' (hparent.trans hy) habove)
  have hbelow : ∀ y, d.parent_id = some y → t.below d.id y = false := by
    intro y hy
    have habove := htarget y hy
    rw [above_eq t.ok, Bool.or_eq_false_iff] at habove
    exact habove.2
  have hle : t.belowCard d.id ≤ t.directories.length := belowCard_le
  have hlinks : t.moveFilesFromSubtree d.parent_id (t.directories.length + 1) d.id
      (moveFiles d.id d.parent_id t.links) =
      some (t.links.map (redirect (t.above d.id) d.parent_id)) := by
    rw [moveFilesFromSubtree_eq t.ok (hacyclic d.id) (by omega) hbelow, moveFiles_eq, List.map_map]
    refine congrArg some (List.map_congr_left fun l _ => ?_)
    rw [Function.comp_apply, redirect_redirect hbelow]
    exact congrArg (fun those => redirect those d.parent_id l)
      (funext fun x => (above_eq t.ok).symm)
  have hok := (t.ok.redirect (t.above d.id) (t.ok.parents d hd)).removeDirectory d.id
  refine ⟨⟨_, hok⟩, ?_, rfl, fun d' => ?_, ?_⟩
  · rw [Tables.delete_directory, (Rows.get_directory_by_id_eq_some t.ok).mpr ⟨hd, rfl⟩,
      Option.bind_some]
    dsimp only
    rw [if_pos rfl, hlinks, Option.bind_some]
    exact Rows.commit_of_constraints hok
  · show d' ∈ t.directories.filter _ ↔ _
    rw [List.mem_filter, decide_eq_true_eq, Rows.above_iff]
    rfl
  · rw [hparent]
    show (t.links.map (redirect (t.above d.id) d.parent_id)).map (redirect (t.above d.id) none) = _
    rw [List.map_map]
    refine List.map_congr_left fun l _ => ?_
    -- no link is left in a directory that goes
    rw [Function.comp_apply, redirect, if_neg]
    rw [redirect]
    split_ifs with hin
    · rw [Option.any_eq_true]
      rintro ⟨y, hy, habove⟩
      rw [htarget y hy] at habove
      cases habove
    · exact hin

/-! ## Updates -/

/-- What `update_directory` returns. A move returns the directory it finds afterwards. -/
def Tables.update_directory_returns (t : Tables) (directory_id : String)
    (name parent_id : Option String) : Option Directory :=
  let moved :=
    if parent_id ≠ some "__unset__" then t.move_directory directory_id parent_id else some t
  moved.bind fun moved =>
    if parent_id ≠ some "__unset__" ∧ moved.get_directory_by_id directory_id = none then none
    else
      match name with
      | some name => (moved.rename_directory directory_id name).bind fun renamed =>
          renamed.get_directory_by_id directory_id
      | none => moved.get_directory_by_id directory_id

/-- No other directory under the parent has the name. -/
def Tables.FreeName (t : Tables) (d : Directory) (p name : String) : Prop :=
  ∀ s ∈ t.directories, s.id ≠ d.id → s.knowledge_id = d.knowledge_id → s.parent_id = some p →
    s.name ≠ name

/-- **The directory is moved and cannot get its new name there**: another parent, which is no
directory of its subtree, has room for the old name and not for the new one. -/
def Tables.RenameCollides (t : Tables) (id : String) (name parent_id : Option String) : Prop :=
  ∃ d ∈ t.directories, ∃ p n, d.id = id ∧ parent_id = some p ∧ name = some n ∧ p ≠ "__unset__" ∧
    d.parent_id ≠ some p ∧ t.meets id (t.directories.length + 2) (some p) [] = false ∧
    p ∈ t.directories.map Directory.id ∧ t.FreeName d p d.name ∧ ¬ t.FreeName d p n

/-- An update that returns nothing leaves the directory as it was. -/
def Tables.AllOrNothing (t : Tables) (id : String) (name parent_id : Option String) : Prop :=
  t.update_directory_returns id name parent_id = none →
    (t.update_directory id name parent_id).get_directory_by_id id = t.get_directory_by_id id

/-- A directory may be put under a parent that is there and has room for its name. -/
theorem constraints_place_iff (hd : d ∈ t.directories) (hid : d.id = id) {p name : String} :
    (t.place id (some p) name).Constraints ↔
      p ∈ t.directories.map Directory.id ∧ t.FreeName d p name := by
  have hplaced : d.placed id (some p) name ∈ (t.place id (some p) name).directories :=
    List.mem_map_of_mem hd
  constructor
  · intro h
    constructor
    · have hp := h.parents _ hplaced p (by rw [Directory.placed_of_eq hid])
      rwa [Rows.place_ids] at hp
    · intro s hs hne hknowledge hparent hname
      have hs' : s ∈ (t.place id (some p) name).directories := by
        have hmem := List.mem_map_of_mem (f := Directory.placed id (some p) name) hs
        rwa [Directory.placed_of_ne (hid ▸ hne)] at hmem
      refine h.names.forall hs' hplaced ?_ ⟨?_, ?_, ?_, ?_⟩
      · intro heq
        exact hne (by rw [heq, Directory.placed_id])
      · rw [Directory.placed_knowledge_id]
        exact hknowledge
      · rw [Directory.placed_of_eq hid]
        exact hparent
      · rw [hparent]
        rfl
      · rw [Directory.placed_of_eq hid]
        exact hname
  · rintro ⟨hp, hfree⟩
    refine ⟨t.ok.file_ids, ?_, ?_, ?_, t.ok.links, t.ok.link_files, ?_⟩
    · rw [Rows.place_ids]
      exact t.ok.directory_ids
    · rw [Rows.place_ids]
      intro d' hd' y hy
      obtain ⟨d₀, hd₀, rfl⟩ := List.mem_map.mp hd'
      by_cases heq : d₀.id = id
      · rw [Directory.placed_of_eq heq] at hy
        cases hy
        exact hp
      · rw [Directory.placed_of_ne heq] at hy
        exact t.ok.parents d₀ hd₀ y hy
    · -- only the directory that is placed can clash, and with another one
      have hids := List.pairwise_map.mp t.ok.directory_ids
      refine List.pairwise_map.mpr
        ((t.ok.names.and hids).imp_of_mem fun {a b} ha hb hab => ?_)
      obtain ⟨hapart, hne⟩ := hab
      rintro ⟨hknowledge, hparent, hsome, hname⟩
      rw [Directory.placed_knowledge_id, Directory.placed_knowledge_id] at hknowledge
      by_cases heq : a.id = id
      · have heq' : b.id ≠ id := fun h => hne (heq.trans h.symm)
        have had : a = d := Keyed.eq_of_key t.ok.directory_ids ha hd (heq.trans hid.symm)
        rw [Directory.placed_of_eq heq, Directory.placed_of_ne heq'] at hparent hname
        exact hfree b hb (hid ▸ heq') (had ▸ hknowledge.symm) hparent.symm hname.symm
      · by_cases heq' : b.id = id
        · have hbd : b = d := Keyed.eq_of_key t.ok.directory_ids hb hd (heq'.trans hid.symm)
          rw [Directory.placed_of_ne heq, Directory.placed_of_eq heq'] at hparent hname
          exact hfree a ha (hid ▸ heq) (hbd ▸ hknowledge) hparent hname
        · rw [Directory.placed_of_ne heq, Directory.placed_of_ne heq'] at *
          exact hapart ⟨hknowledge, hparent, hsome, hname⟩
    · rw [Rows.place_ids]
      exact t.ok.link_directories

/-- A move, as another place. -/
theorem move_directory_eq (hd : d ∈ t.directories) (hid : d.id = id) (parent_id : Option String) :
    t.move_directory id parent_id =
      if t.meets id (t.directories.length + 2) parent_id [] then none
      else (t.place id parent_id d.name).commit := by
  rw [Tables.move_directory, place_of_move hd hid]

/-- A new name, as another place. -/
theorem rename_directory_eq (hd : d ∈ t.directories) (hid : d.id = id) (name : String) :
    t.rename_directory id name = (t.place id d.parent_id name).commit := by
  rw [Tables.rename_directory, place_of_rename hd hid]

theorem commit_eq_none {r : Rows} : r.commit = none ↔ ¬ r.Constraints := by
  rw [Rows.commit]
  split_ifs with h
  · simp [h]
  · simp [h]

/-- A directory that is moved. -/
theorem moved_of_move (hd : d ∈ t.directories) (hid : d.id = id) {parent_id : Option String}
    {moved : Tables} (h : t.move_directory id parent_id = some moved) :
    moved.toRows = t.place id parent_id d.name ∧
      { d with parent_id := parent_id } ∈ moved.directories ∧
      moved.get_directory_by_id id = some { d with parent_id := parent_id } := by
  rw [move_directory_eq hd hid] at h
  split_ifs at h
  have hrows := Rows.commit_eq_some.mp h
  have hmem : { d with parent_id := parent_id } ∈ moved.directories := by
    have hplaced := List.mem_map_of_mem (f := Directory.placed id parent_id d.name) hd
    rw [Directory.placed_of_eq hid] at hplaced
    rw [hrows]
    exact hplaced
  exact ⟨hrows, hmem, (Rows.get_directory_by_id_eq_some moved.ok).mpr ⟨hmem, hid⟩⟩

/-- A directory that is not there is not there afterwards. -/
theorem get_directory_by_id_of_ids (hids : t'.directories.map Directory.id =
    t.directories.map Directory.id) (h : t.get_directory_by_id id = none) :
    t'.get_directory_by_id id = none := by
  rw [Rows.get_directory_by_id, Keyed.find?_eq_none_iff] at h ⊢
  rwa [hids]

/-- The collision, as what the two writes come to. -/
theorem renameCollides_iff (hd : d ∈ t.directories) (hid : d.id = id)
    {name parent_id : Option String} :
    t.RenameCollides id name parent_id ↔
      ∃ n, name = some n ∧ parent_id ≠ some "__unset__" ∧ parent_id ≠ d.parent_id ∧
        (t.move_directory id parent_id).isSome ∧ (t.place id parent_id n).commit = none := by
  rw [move_directory_eq hd hid]
  constructor
  · rintro ⟨d', hd', p, n, hid', rfl, rfl, hset, hparent, hmeets, hp, hold, hnew⟩
    have hsame : d' = d := Keyed.eq_of_key t.ok.directory_ids hd' hd (hid'.trans hid.symm)
    subst hsame
    refine ⟨n, rfl, by simpa using hset, fun h => hparent h.symm, ?_, ?_⟩
    · rw [if_neg (by simp [hmeets]),
        Rows.commit_of_constraints ((constraints_place_iff hd hid).mpr ⟨hp, hold⟩)]
      rfl
    · rw [commit_eq_none, constraints_place_iff hd hid]
      exact fun h => hnew h.2
  · rintro ⟨n, rfl, hset, hparent, hmove, hrename⟩
    split_ifs at hmove with hmeets
    · cases hmove
    · obtain ⟨moved, hmoved⟩ := Option.isSome_iff_exists.mp hmove
      rw [commit_eq_none] at hrename
      cases parent_id with
      | none => exact absurd (constraints_place_root t.ok id n) hrename
      | some p =>
        have hold : (t.place id (some p) d.name).Constraints :=
          Rows.commit_eq_some.mp hmoved ▸ moved.ok
        obtain ⟨hp, hfree⟩ := (constraints_place_iff hd hid).mp hold
        rw [constraints_place_iff hd hid] at hrename
        exact ⟨d, hd, p, n, hid, rfl, rfl, fun h => hset (congrArg some h), fun h => hparent h.symm,
          by simpa using hmeets, hp, hfree, fun hnew => hrename ⟨hp, hnew⟩⟩

/-- A write that gives a directory other columns changes no ids. -/
theorem ids_of_commit (change : Directory → Directory) (hchange : ∀ d, (change d).id = d.id)
    (h : Rows.commit { t.toRows with
      directories := t.directories.map fun d => if d.id = id then change d else d } = some t') :
    t'.directories.map Directory.id = t.directories.map Directory.id := by
  rw [Rows.commit_eq_some.mp h]
  show (t.directories.map _).map Directory.id = _
  rw [List.map_map]
  refine List.map_congr_left fun d _ => ?_
  rw [Function.comp_apply]
  split_ifs
  · exact hchange d
  · rfl

/-- An update changes no ids. -/
theorem ids_update_directory (name parent_id : Option String) :
    (t.update_directory id name parent_id).directories.map Directory.id =
      t.directories.map Directory.id := by
  have hrename : ∀ (u : Tables) (n : String), ((u.rename_directory id n).getD u).directories.map
      Directory.id = u.directories.map Directory.id := by
    intro u n
    cases h : u.rename_directory id n with
    | none => rfl
    | some u' => exact ids_of_commit (fun d => { d with name := n }) (fun d => rfl) h
  rw [Tables.update_directory]
  split_ifs
  · cases hmove : t.move_directory id parent_id with
    | none => rfl
    | some moved =>
      have hids : moved.directories.map Directory.id = t.directories.map Directory.id := by
        rw [Tables.move_directory] at hmove
        split_ifs at hmove
        exact ids_of_commit (fun d => { d with parent_id := parent_id }) (fun d => rfl) hmove
      cases name with
      | none => exact hids
      | some n => exact (hrename moved n).trans hids
  · cases name with
    | none => rfl
    | some n => exact hrename t n

/-- **An update is all or nothing** exactly if the directory is not moved to where it cannot get its
new name. -/
theorem allOrNothing_iff (t : Tables) (id : String) (name parent_id : Option String) :
    t.AllOrNothing id name parent_id ↔ ¬ t.RenameCollides id name parent_id := by
  cases hdir : t.get_directory_by_id id with
  | none =>
    constructor
    · rintro - ⟨d, hd, p, n, hid, -⟩
      rw [(Rows.get_directory_by_id_eq_some t.ok).mpr ⟨hd, hid⟩] at hdir
      cases hdir
    · intro _ _
      rw [get_directory_by_id_of_ids (ids_update_directory name parent_id) hdir, hdir]
  | some d =>
    obtain ⟨hd, hid⟩ := (Rows.get_directory_by_id_eq_some t.ok).mp hdir
    rw [renameCollides_iff hd hid, Tables.AllOrNothing, Tables.update_directory_returns,
      Tables.update_directory, hdir]
    by_cases hset : parent_id ≠ some "__unset__"
    · rw [if_pos hset]
      cases hmove : t.move_directory id parent_id with
      | none => simp [hdir]
      | some moved =>
        obtain ⟨hrows, hmem, hget⟩ := moved_of_move hd hid hmove
        cases name with
        | none => simp [hget]
        | some n =>
          have hrename : moved.rename_directory id n = (t.place id parent_id n).commit := by
            rw [rename_directory_eq hmem hid, hrows, Rows.place_place]
          cases hcommit : (t.place id parent_id n).commit with
          | some renamed =>
            have hplaced : (renamed.get_directory_by_id id).isSome := by
              rw [Rows.get_directory_by_id, List.find?_isSome, Rows.commit_eq_some.mp hcommit]
              exact ⟨_, List.mem_map_of_mem hd, decide_eq_true (Directory.placed_id.trans hid)⟩
            obtain ⟨d', hd'⟩ := Option.isSome_iff_exists.mp hplaced
            simp [hget, hrename, hcommit, hd']
          | none =>
            -- the directory stays where it was moved to
            have hmoved : ({ d with parent_id := parent_id } : Directory) = d ↔
                parent_id = d.parent_id := by
              obtain ⟨_, _, _, _⟩ := d
              simp
            simp [hget, hrename, hcommit, hmoved, hset]
    · rw [if_neg hset]
      cases name with
      | none => simp [hdir, hset]
      | some n =>
        cases hrename : t.rename_directory id n with
        | none => simp [hrename, hdir, hset]
        | some renamed =>
          have hids := ids_of_commit (fun d => { d with name := n }) (fun d => rfl) hrename
          have hsome : renamed.get_directory_by_id id ≠ none := by
            rw [Ne, Rows.get_directory_by_id, Keyed.find?_eq_none_iff, hids, not_not]
            exact List.mem_map.mpr ⟨d, hd, hid⟩
          simp [hrename, hset, hsome]

/-! ## Both -/

/-- What deleting and updating a directory are for. -/
structure Tables.EditsDirectory (t : Tables) (id : String) (name parent_id : Option String) :
    Prop where
  /-- A deletion that keeps the files puts those of the subtree into the parent, or the root. -/
  keeps : ∃ t', t.delete_directory id true = some t' ∧ t'.files = t.files ∧
    (∀ d, d ∈ t'.directories ↔
      d ∈ t.directories ∧ ¬ Relation.ReflTransGen (Edge t.parent) d.id id) ∧
    t'.links = t.links.map (redirect (t.above id) (t.parent id))
  /-- A deletion with the files removes the links of the subtree. -/
  removes : ∃ t', t.delete_directory id false = some t' ∧ t'.files = t.files ∧
    (∀ d, d ∈ t'.directories ↔
      d ∈ t.directories ∧ ¬ Relation.ReflTransGen (Edge t.parent) d.id id) ∧
    ∀ l, l ∈ t'.links ↔ l ∈ t.links ∧ ∀ x, l.directory_id = some x →
      ¬ Relation.ReflTransGen (Edge t.parent) x id
  updates : t.AllOrNothing id name parent_id

/-- **Directories of a forest** are deleted as they should be, and updated as they should be exactly
if a move does not take them to where they cannot get their new name. -/
theorem editsDirectory_iff (t : Tables) (id : String) (name parent_id : Option String)
    (hacyclic : Acyclic t.parent) (hid : id ∈ t.directories.map Directory.id) :
    t.EditsDirectory id name parent_id ↔ ¬ t.RenameCollides id name parent_id := by
  constructor
  · exact fun h => (allOrNothing_iff t id name parent_id).mp h.updates
  · intro h
    exact ⟨delete_directory_keeps_files hacyclic hid,
      delete_directory_of_deletable ⟨hid, hacyclic id⟩,
      (allOrNothing_iff t id name parent_id).mpr h⟩

/-- Two directories at the root, of which the first has a directory with a file in it. -/
def threeDirectories : Tables :=
  ⟨⟨[⟨"f", "u", "f.md", none, none, none⟩],
    [⟨"a", "k", none, "a"⟩, ⟨"b", "k", some "a", "n"⟩, ⟨"c", "k", none, "c"⟩],
    [⟨"k", "f", some "b"⟩]⟩, by decide⟩

theorem acyclic_threeDirectories : Acyclic threeDirectories.parent := by
  have hedge : ∀ x p, threeDirectories.parent x = some p → x = "b" ∧ p = "a" := by
    intro x p h
    obtain ⟨d, hd, rfl, hp⟩ := (Rows.parent_eq_some threeDirectories.ok).mp h
    simp only [threeDirectories, List.mem_cons, List.not_mem_nil, or_false] at hd
    rcases hd with rfl | rfl | rfl
    · cases hp
    · exact ⟨rfl, (Option.some.inj hp).symm⟩
    · cases hp
  refine @acyclic_of_before String threeDirectories.parent _ ["a", "b"] (fun x p h _ => ?_)
    fun x p h => ?_
  · obtain ⟨rfl, rfl⟩ := hedge x p h
    decide
  · rw [(hedge x p h).1]
    decide

/-- The directory that is not moved to a place where its name is taken. -/
theorem editsDirectory_threeDirectories :
    threeDirectories.EditsDirectory "c" (some "d") (some "a") := by
  refine (editsDirectory_iff threeDirectories "c" (some "d") (some "a") acyclic_threeDirectories
    (by decide)).mpr ?_
  rintro ⟨d, hd, p, n, hid, hp, hn, -, -, -, -, -, hnew⟩
  cases hp
  cases hn
  refine hnew fun s hs _ _ _ => ?_
  simp only [threeDirectories, List.mem_cons, List.not_mem_nil, or_false] at hs
  rcases hs with rfl | rfl | rfl <;> decide

/-- A directory that is moved and renamed at once stays moved when its new name is taken. -/
theorem update_moved_and_failed : Acyclic threeDirectories.parent ∧
    "c" ∈ threeDirectories.directories.map Directory.id ∧
    threeDirectories.update_directory_returns "c" (some "n") (some "a") = none ∧
    (threeDirectories.update_directory "c" (some "n") (some "a")).get_directory_by_id "c" =
      some ⟨"c", "k", some "a", "c"⟩ ∧
    ¬ threeDirectories.EditsDirectory "c" (some "n") (some "a") := by
  have hreturns : threeDirectories.update_directory_returns "c" (some "n") (some "a") = none := by
    decide
  have hmoved : (threeDirectories.update_directory "c" (some "n") (some "a")).get_directory_by_id
      "c" = some ⟨"c", "k", some "a", "c"⟩ := by decide
  refine ⟨acyclic_threeDirectories, by decide, hreturns, hmoved, fun h => ?_⟩
  have hsame := h.updates hreturns
  rw [hmoved] at hsame
  exact absurd hsame (by decide)

end OpenLaunch.Knowledge
