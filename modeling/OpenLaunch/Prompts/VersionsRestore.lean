import OpenLaunch.Prompts.Versions

/-! # What a restored version brings back

A version is to bring back what the prompt had right after the operation that created it. Three
things come in between: where a form omits the data, the row keeps the old one and the snapshot has
none; an update by command leaves the tags out of the snapshot, so that restoring it leaves whatever
tags the prompt has by then; and of two entries of one second the older one may be taken for the
latest, so that the chain of parents forks. -/

namespace OpenLaunch.Prompts

open Python Transition

/-! ## What is to hold -/

/-- Each entry names the one before it as its parent, and the first one names `p`. -/
def ParentChain : Option String → List HistoryEntry → Prop
  | _, [] => True
  | p, entry :: entries => entry.parent_id = p ∧ ParentChain (some entry.id) entries

/-- **What is to hold in every state**: restoring a version brings back what it was created with,
the entries form one chain in the order of their creation, and the active version is one of them. -/
structure Restorable (s : PromptState) : Prop where
  restores : ∀ prompt, s.prompt = some prompt → ∀ v ∈ s.versions,
    (prompt.restore v.entry).saved = v.saved
  chain : ParentChain none s.entries
  active : ∀ prompt, s.prompt = some prompt → ∀ id, prompt.version_id = some id → id ∈ s.ids

/-- The value is given and not empty, or there was none before. -/
def GivenOrNone (d : Option (Dict String Json)) (old : Dict String Json) : Prop :=
  (∃ new, d = some new ∧ new.entries ≠ []) ∨ old = .empty

/-- The tags stay, or every snapshot has its own. -/
def TagsStay (s : PromptState) (prompt : Prompt) (tags : Tags) : Prop :=
  tags = prompt.tags ∨ ∀ entry ∈ s.entries, entry.snapshot.tags ≠ none

variable (query : LatestQuery)

/-- The entry found as the latest is the one that was created last. -/
def FindsLast (s : PromptState) : Prop :=
  s.parentId query = s.entries.getLast?.map HistoryEntry.id

/-- **The condition on a call.** One that creates a version gives the data and the meta, or the
prompt has none, and finds the last entry; and the tags change only while every snapshot has its
own. -/
def Faithful (s : PromptState) : PromptEvent → Prop
  | .insert_new_prompt _ _ _ | .delete_history_entry _ => True
  | .update_prompt_by_id form_data _ _ => ∀ prompt, s.prompt = some prompt →
      contentChangedById prompt form_data = true →
        GivenOrNone form_data.data prompt.data ∧ GivenOrNone form_data.meta_ prompt.meta_ ∧
          FindsLast query s ∧ TagsStay s prompt (form_data.tags.getD prompt.tags)
  | .update_prompt_by_command command form_data _ _ => ∀ prompt, s.prompt = some prompt →
      command ≠ "" → prompt.command = command → contentChangedByCommand prompt form_data = true →
        GivenOrNone form_data.data prompt.data ∧ GivenOrNone form_data.meta_ prompt.meta_ ∧
          FindsLast query s
  | .update_prompt_metadata _ _ tags => ∀ prompt, s.prompt = some prompt →
      TagsStay s prompt (tags.getD prompt.tags)
  | .update_prompt_version version_id => ∀ prompt, s.prompt = some prompt →
      ∀ entry, (s.entries.find? fun entry => entry.id = version_id) = some entry →
        TagsStay s prompt (entry.snapshot.tags.getD prompt.tags)

/-- The ids of the entries are distinct, and there are none before the prompt. -/
structure PromptInv (s : PromptState) : Prop where
  distinct : s.ids.Nodup
  before : s.prompt = none → s.versions = []

variable {query} {s s' : PromptState} {prompt prompt' : Prompt} {entry : HistoryEntry}
  {p : Option String} {entries : List HistoryEntry} {v : Version} {id : String}

/-! ## Fields -/

/-- The snapshot's data are the row's exactly if they are given, or there were none. -/
theorem orElse_eq_iff (d : Option (Dict String Json)) (old : Dict String Json) :
    orElse d .empty = orElse d old ↔ GivenOrNone d old := by
  unfold GivenOrNone
  cases d with
  | none =>
    refine ⟨fun h => .inr h.symm, fun h => ?_⟩
    rcases h with ⟨new, hnew, -⟩ | hold
    · cases hnew
    · exact hold.symm
  | some new =>
    unfold orElse
    dsimp only
    by_cases hnil : new.entries = []
    · rw [if_pos hnil, if_pos hnil]
      refine ⟨fun h => .inr h.symm, fun h => ?_⟩
      rcases h with ⟨new', hnew', hne⟩ | hold
      · cases hnew'
        exact absurd hnil hne
      · exact hold.symm
    · rw [if_neg hnil, if_neg hnil]
      exact iff_of_true rfl (.inl ⟨new, rfl, hnil⟩)

/-- Of the prompt, restoring an entry reads the tags alone, and only if the snapshot has none. -/
theorem saved_restore_congr (h : entry.snapshot.tags = none → prompt'.tags = prompt.tags) :
    (prompt'.restore entry).saved = (prompt.restore entry).saved := by
  unfold Prompt.restore Prompt.saved
  cases htags : entry.snapshot.tags with
  | none => rw [Option.getD_none, Option.getD_none, h htags]
  | some tags => rfl

/-- **Restoring after a change of the prompt** brings back the same exactly if the tags stay, or
every snapshot has its own. -/
theorem restores_iff (h : ∀ v ∈ s.versions, (prompt.restore v.entry).saved = v.saved) :
    (∀ v ∈ s.versions, (prompt'.restore v.entry).saved = v.saved) ↔
      TagsStay s prompt prompt'.tags := by
  constructor
  · intro h'
    by_cases hall : ∀ entry ∈ s.entries, entry.snapshot.tags ≠ none
    · exact .inr hall
    · push Not at hall
      obtain ⟨entry, hentry, hnone⟩ := hall
      obtain ⟨v, hv, rfl⟩ := List.mem_map.mp hentry
      have htags := congrArg Saved.tags ((h' v hv).trans (h v hv).symm)
      unfold Prompt.restore Prompt.saved at htags
      rw [hnone] at htags
      exact .inl htags
  · intro hstay v hv
    rw [← h v hv]
    refine saved_restore_congr fun hnone => ?_
    rcases hstay with htags | hall
    · exact htags
    · exact absurd hnone (hall v.entry (List.mem_map.mpr ⟨v, hv, rfl⟩))

/-! ## Chains -/

/-- The parent of the next entry. -/
theorem parentChain_append (p : Option String) (entries : List HistoryEntry)
    (entry : HistoryEntry) :
    ParentChain p (entries ++ [entry]) ↔ ParentChain p entries ∧
      entry.parent_id = (entries.getLast?.map HistoryEntry.id).or p := by
  induction entries generalizing p with
  | nil => simp [ParentChain]
  | cons first entries ih =>
    rw [List.cons_append, ParentChain, ParentChain, ih, and_assoc]
    cases entries with
    | nil => simp
    | cons second entries =>
      obtain ⟨last, hlast⟩ : ∃ last, (second :: entries).getLast? = some last :=
        ⟨_, List.getLast?_eq_some_getLast (List.cons_ne_nil second entries)⟩
      rw [List.getLast?_cons_cons, hlast]
      rfl

/-- The entries but for one, whose children go to its parent. -/
def reparentEntries (entry : HistoryEntry) (entries : List HistoryEntry) : List HistoryEntry :=
  (entries.map fun e =>
    if e.parent_id = some entry.id then { e with parent_id := entry.parent_id } else e).filter
      fun e => e.id ≠ entry.id

theorem entries_reparent (entry : HistoryEntry) (versions : List Version) :
    (reparent entry versions).map Version.entry =
      reparentEntries entry (versions.map Version.entry) := by
  unfold reparent reparentEntries
  rw [List.map_map, List.filter_map, List.filter_map, List.map_map]
  have hfilter : ∀ v : Version, ((fun w : Version => decide (w.entry.id ≠ entry.id)) ∘ fun v =>
      if v.entry.parent_id = some entry.id then
        { v with entry := { v.entry with parent_id := entry.parent_id } } else v) v =
      decide (v.entry.id ≠ entry.id) := by
    intro v
    dsimp only [Function.comp]
    split <;> rfl
  have hfilter' : ∀ v : Version, ((fun e : HistoryEntry => decide (e.id ≠ entry.id)) ∘
      (fun e : HistoryEntry => if e.parent_id = some entry.id then
        { e with parent_id := entry.parent_id } else e) ∘ Version.entry) v =
      decide (v.entry.id ≠ entry.id) := by
    intro v
    dsimp only [Function.comp]
    split <;> rfl
  rw [List.filter_congr fun v _ => hfilter v, List.filter_congr fun v _ => hfilter' v]
  refine List.map_congr_left fun v _ => ?_
  dsimp only [Function.comp]
  split <;> rfl

/-- A chain that neither has the entry nor starts at it. -/
theorem reparentEntries_of_not_mem (hchain : ParentChain p entries) (hp : p ≠ some entry.id)
    (hnot : entry.id ∉ entries.map HistoryEntry.id) : reparentEntries entry entries = entries := by
  unfold reparentEntries
  induction entries generalizing p with
  | nil => rfl
  | cons first entries ih =>
    obtain ⟨hparent, hchain⟩ := hchain
    rw [List.map_cons, List.mem_cons, not_or] at hnot
    rw [List.map_cons, if_neg (hparent ▸ hp), List.filter_cons_of_pos (by simpa using Ne.symm hnot.1),
      ih hchain (fun h => hnot.1 (Option.some.inj h).symm) hnot.2]

/-- **Taking an entry out** leaves a chain. -/
theorem parentChain_reparentEntries (hchain : ParentChain p entries)
    (hdistinct : (entries.map HistoryEntry.id).Nodup) (hp : p ≠ some entry.id)
    (hmem : entry ∈ entries) : ParentChain p (reparentEntries entry entries) := by
  induction entries generalizing p with
  | nil => cases hmem
  | cons first entries ih =>
    obtain ⟨hparent, hchain⟩ := hchain
    rw [List.map_cons, List.nodup_cons] at hdistinct
    rcases List.mem_cons.mp hmem with rfl | hrest
    · -- its only child is the next entry
      cases entries with
      | nil =>
        have hnil : reparentEntries entry [entry] = [] := by
          unfold reparentEntries
          rw [List.map_singleton, if_neg (hparent ▸ hp), List.filter_cons_of_neg (by simp)]
          rfl
        rw [hnil]
        trivial
      | cons second entries =>
        obtain ⟨hsecond, hchain⟩ := hchain
        rw [List.map_cons, List.mem_cons, not_or] at hdistinct
        obtain ⟨⟨hne, hnot⟩, -⟩ := hdistinct
        have hrest := reparentEntries_of_not_mem hchain
          (fun h => hne (Option.some.inj h).symm) hnot
        have hstep : reparentEntries entry (entry :: second :: entries) =
            { second with parent_id := entry.parent_id } :: reparentEntries entry entries := by
          unfold reparentEntries
          rw [List.map_cons, List.map_cons, if_neg (hparent ▸ hp), if_pos hsecond,
            List.filter_cons_of_neg (by simp), List.filter_cons_of_pos (by simpa using Ne.symm hne)]
        rw [hstep, hrest]
        exact ⟨hparent, hchain⟩
    · have hne : first.id ≠ entry.id := fun h =>
        hdistinct.1 (h ▸ List.mem_map.mpr ⟨entry, hrest, rfl⟩)
      have hstep : reparentEntries entry (first :: entries) =
          first :: reparentEntries entry entries := by
        unfold reparentEntries
        rw [List.map_cons, if_neg (hparent ▸ hp), List.filter_cons_of_pos (by simpa using hne)]
      rw [hstep]
      exact ⟨hparent, ih hchain hdistinct.2 (fun h => hne (Option.some.inj h)) hrest⟩

/-- The ids that are left, in their order. -/
theorem reparentEntries_ids (entry : HistoryEntry) (entries : List HistoryEntry) :
    (reparentEntries entry entries).map HistoryEntry.id =
      (entries.map HistoryEntry.id).filter fun x => x ≠ entry.id := by
  unfold reparentEntries
  rw [List.filter_map, List.filter_map, List.map_map]
  have hid : ∀ e : HistoryEntry, (if e.parent_id = some entry.id then
      { e with parent_id := entry.parent_id } else e).id = e.id := by
    intro e
    split <;> rfl
  simp only [Function.comp_def, hid]

theorem mem_reparentEntries_ids {x : String} :
    x ∈ (reparentEntries entry entries).map HistoryEntry.id ↔
      x ∈ entries.map HistoryEntry.id ∧ x ≠ entry.id := by
  rw [reparentEntries_ids, List.mem_filter, decide_eq_true_eq]

/-! ## New versions -/

theorem entries_commit (s : PromptState) (prompt : Prompt) (entry : HistoryEntry) (b : Bool) :
    (s.commit prompt entry b).entries = s.entries ++ [entry] := by
  unfold PromptState.commit PromptState.entries
  rw [List.map_append, List.map_singleton]

theorem ids_commit (s : PromptState) (prompt : Prompt) (entry : HistoryEntry) (b : Bool) :
    (s.commit prompt entry b).ids = s.ids ++ [entry.id] := by
  rw [PromptState.ids, entries_commit, List.map_append]
  rfl

theorem PromptInv.commit (h : PromptInv s) (hnew : entry.id ∉ s.ids) (prompt : Prompt) (b : Bool) :
    PromptInv (s.commit prompt entry b) where
  distinct := by
    rw [ids_commit, List.nodup_append]
    refine ⟨h.distinct, List.nodup_singleton _, fun a ha b' hb' => ?_⟩
    rw [List.mem_singleton] at hb'
    rintro rfl
    exact hnew (hb' ▸ ha)
  before hnone := by cases hnone

/-- **A new version** is kept as it has to be exactly if its snapshot brings back what the row has,
its parent is the last entry, and the other versions do not miss the tags. -/
theorem restorable_commit_iff (h : Restorable s) (hprompt : s.prompt = some prompt)
    (hversion : prompt'.version_id = prompt.version_id) (b : Bool) :
    Restorable (s.commit prompt' entry b) ↔
      TagsStay s prompt prompt'.tags ∧ (prompt'.restore entry).saved = prompt'.saved ∧
        entry.parent_id = s.entries.getLast?.map HistoryEntry.id := by
  have hsaved : ∀ e : HistoryEntry, ((if b then { prompt' with version_id := some entry.id }
      else prompt').restore e).saved = (prompt'.restore e).saved := by
    intro e
    cases b <;> rfl
  have hchain : ParentChain none (s.commit prompt' entry b).entries ↔
      entry.parent_id = s.entries.getLast?.map HistoryEntry.id := by
    rw [entries_commit, parentChain_append, Option.or_none]
    exact and_iff_right h.chain
  constructor
  · intro hnew
    have hrestores : ∀ v ∈ s.versions ++ [⟨entry, prompt'.saved⟩],
        (prompt'.restore v.entry).saved = v.saved := by
      intro v hv
      rw [← hsaved]
      exact hnew.restores _ rfl v hv
    refine ⟨(restores_iff (h.restores prompt hprompt)).mp fun v hv =>
      hrestores v (List.mem_append_left _ hv), ?_, hchain.mp hnew.chain⟩
    exact hrestores ⟨entry, prompt'.saved⟩ (List.mem_append_right _ (List.mem_singleton_self _))
  · rintro ⟨hstay, hown, hparent⟩
    refine ⟨fun prompt'' hprompt'' v hv => ?_, hchain.mpr hparent, fun prompt'' hprompt'' id hid => ?_⟩
    · cases hprompt''
      rw [hsaved]
      rcases List.mem_append.mp hv with hold | hlast
      · exact (restores_iff (h.restores prompt hprompt)).mpr hstay v hold
      · rw [List.mem_singleton.mp hlast]
        exact hown
    · cases hprompt''
      rw [ids_commit, List.mem_append, List.mem_singleton]
      cases b with
      | true => exact .inr (Option.some.inj hid).symm
      | false => exact .inl (h.active prompt hprompt id (hversion ▸ hid))

/-- A change of the prompt alone. -/
theorem restorable_change_iff (h : Restorable s) (hprompt : s.prompt = some prompt)
    (hactive : ∀ id, prompt'.version_id = some id → id ∈ s.ids) :
    Restorable { s with prompt := some prompt' } ↔ TagsStay s prompt prompt'.tags := by
  rw [← restores_iff (h.restores prompt hprompt)]
  constructor
  · exact fun hnew => hnew.restores prompt' rfl
  · refine fun hnew => ⟨fun prompt'' hprompt'' => ?_, h.chain, fun prompt'' hprompt'' => ?_⟩
    · cases hprompt''
      exact hnew
    · cases hprompt''
      exact hactive

/-- Taking an entry out that is not the active one. -/
theorem Restorable.delete (h : Restorable s) (hinv : PromptInv s) (hmem : entry ∈ s.entries)
    (hprompt : s.prompt = some prompt) (hactive : prompt.version_id ≠ some entry.id) :
    Restorable { s with versions := reparent entry s.versions } where
  restores prompt' hprompt' v hv := by
    obtain ⟨v', hv', rfl⟩ := List.mem_map.mp (List.mem_of_mem_filter hv)
    have hsaved := h.restores prompt' hprompt' v' hv'
    split <;> exact hsaved
  chain := by
    show ParentChain none ((reparent entry s.versions).map Version.entry)
    rw [entries_reparent]
    exact parentChain_reparentEntries h.chain hinv.distinct (by simp) hmem
  active prompt' hprompt' id hid := by
    show id ∈ ((reparent entry s.versions).map Version.entry).map HistoryEntry.id
    rw [entries_reparent, mem_reparentEntries_ids]
    refine ⟨h.active prompt' hprompt' id hid, ?_⟩
    rintro rfl
    change s.prompt = some prompt' at hprompt'
    rw [hprompt] at hprompt'
    cases hprompt'
    exact hactive hid

/-! ## Calls -/

theorem saved_restore_updatedById (prompt : Prompt) (form_data : PromptForm) (id : String)
    (parent_id : Option String) (now : ℕ) :
    ((updatedById prompt form_data).restore
      ⟨id, parent_id, snapshotById prompt form_data, now⟩).saved =
        (updatedById prompt form_data).saved ↔
      GivenOrNone form_data.data prompt.data ∧ GivenOrNone form_data.meta_ prompt.meta_ := by
  rw [← orElse_eq_iff, ← orElse_eq_iff]
  unfold Prompt.restore Prompt.saved snapshotById updatedById
  simp

theorem saved_restore_updatedByCommand (prompt : Prompt) (command : String)
    (form_data : PromptForm) (id : String) (parent_id : Option String) (now : ℕ) :
    ((updatedByCommand prompt form_data).restore
      ⟨id, parent_id, snapshotByCommand command form_data, now⟩).saved =
        (updatedByCommand prompt form_data).saved ↔
      GivenOrNone form_data.data prompt.data ∧ GivenOrNone form_data.meta_ prompt.meta_ := by
  rw [← orElse_eq_iff, ← orElse_eq_iff]
  unfold Prompt.restore Prompt.saved snapshotByCommand updatedByCommand
  simp

/-- An update by id. -/
theorem update_prompt_by_id_iff (h : Restorable s) (hprompt : s.prompt = some prompt)
    (form_data : PromptForm) (id : String) (now : ℕ) :
    Restorable (s.update_prompt_by_id query prompt form_data id now) ↔
      (contentChangedById prompt form_data = true →
        GivenOrNone form_data.data prompt.data ∧ GivenOrNone form_data.meta_ prompt.meta_ ∧
          FindsLast query s ∧ TagsStay s prompt (form_data.tags.getD prompt.tags)) := by
  have hversion : (updatedById prompt form_data).version_id = prompt.version_id := rfl
  unfold PromptState.update_prompt_by_id
  split
  · rename_i hchanged
    rw [restorable_commit_iff h hprompt hversion, saved_restore_updatedById]
    constructor
    · exact fun ⟨hstay, ⟨hdata, hmeta⟩, hlast⟩ _ => ⟨hdata, hmeta, hlast, hstay⟩
    · intro hall
      obtain ⟨hdata, hmeta, hlast, hstay⟩ := hall hchanged
      exact ⟨hstay, ⟨hdata, hmeta⟩, hlast⟩
  · rename_i hsame
    rw [restorable_change_iff h hprompt (hversion.symm ▸ h.active prompt hprompt)]
    refine iff_of_true (.inl ?_) fun hchanged => absurd hchanged hsame
    -- without a new version the form gives no other tags
    show form_data.tags.getD prompt.tags = prompt.tags
    cases htags : form_data.tags with
    | none => rfl
    | some tags =>
      rw [contentChangedById, htags] at hsame
      simp only [Option.any_some, Bool.or_eq_true, decide_eq_true_eq, not_or, not_not] at hsame
      exact hsame.2.symm

/-- An update by command, which leaves the tags. -/
theorem update_prompt_by_command_iff (h : Restorable s) (hprompt : s.prompt = some prompt)
    (command : String) (form_data : PromptForm) (id : String) (now : ℕ) :
    Restorable (s.update_prompt_by_command query prompt command form_data id now) ↔
      (contentChangedByCommand prompt form_data = true →
        GivenOrNone form_data.data prompt.data ∧ GivenOrNone form_data.meta_ prompt.meta_ ∧
          FindsLast query s) := by
  have hversion : (updatedByCommand prompt form_data).version_id = prompt.version_id := rfl
  unfold PromptState.update_prompt_by_command
  split
  · rename_i hchanged
    rw [restorable_commit_iff h hprompt hversion, saved_restore_updatedByCommand]
    constructor
    · exact fun ⟨_, ⟨hdata, hmeta⟩, hlast⟩ _ => ⟨hdata, hmeta, hlast⟩
    · intro hall
      obtain ⟨hdata, hmeta, hlast⟩ := hall hchanged
      exact ⟨.inl rfl, ⟨hdata, hmeta⟩, hlast⟩
  · rename_i hsame
    rw [restorable_change_iff h hprompt (hversion.symm ▸ h.active prompt hprompt)]
    exact iff_of_true (.inl rfl) fun hchanged => absurd hchanged hsame

/-- The first version. -/
theorem restorable_insert (hinv : PromptInv s) (hnone : s.prompt = none) (form_data : PromptForm)
    (id : String) (now : ℕ) : Restorable
      (s.commit (insertedPrompt form_data) ⟨id, none, initialSnapshot form_data, now⟩ true) := by
  have hnil := hinv.before hnone
  refine ⟨fun prompt hprompt v hv => ?_, ?_, fun prompt hprompt x hx => ?_⟩
  · cases hprompt
    unfold PromptState.commit at hv
    rw [hnil] at hv
    cases List.mem_singleton.mp hv
    rfl
  · rw [entries_commit, PromptState.entries, hnil]
    exact ⟨rfl, trivial⟩
  · cases hprompt
    rw [ids_commit, List.mem_append, List.mem_singleton]
    exact .inr (Option.some.inj hx).symm

variable {e : PromptEvent}

/-- The invariant is of the ids and of whether there is a prompt. -/
theorem PromptInv.of_ids (h : PromptInv s) (hids : s'.ids.Sublist s.ids)
    (hprompt : s'.prompt.isSome = s.prompt.isSome) : PromptInv s' where
  distinct := hids.nodup h.distinct
  before hnone := by
    rw [hnone, Option.isSome_none] at hprompt
    have hnone' : s.prompt = none :=
      Option.isNone_iff_eq_none.mp (Option.isSome_eq_false_iff.mp hprompt.symm)
    have hversions := h.before hnone'
    have hnil : s'.ids = [] := by
      have hold : s.ids = [] := by
        rw [PromptState.ids, PromptState.entries, hversions]
        rfl
      rw [hold] at hids
      exact List.sublist_nil.mp hids
    exact List.map_eq_nil_iff.mp (List.map_eq_nil_iff.mp hnil)

/-- **Step lemma**: a call keeps what is to hold exactly if it is faithful. -/
theorem promptStep_iff (hinv : PromptInv s) (h : Restorable s)
    (hstep : promptStep query s e = some s') :
    PromptInv s' ∧ (Restorable s' ↔ Faithful query s e) := by
  cases e with
  | insert_new_prompt form_data id now =>
    unfold promptStep at hstep
    dsimp only at hstep
    split at hstep
    · rename_i hnone
      cases hstep
      refine ⟨hinv.commit ?_ _ true, iff_of_true (restorable_insert hinv hnone _ _ _) trivial⟩
      rw [PromptState.ids, PromptState.entries, hinv.before hnone]
      exact List.not_mem_nil
    · cases hstep
  | update_prompt_by_id form_data id now =>
    unfold promptStep at hstep
    dsimp only at hstep
    split at hstep
    · rename_i prompt hprompt
      obtain ⟨hnew, hs'⟩ := Option.ite_none_right_eq_some.mp hstep
      cases hs'
      constructor
      · unfold PromptState.update_prompt_by_id
        split
        · exact hinv.commit hnew _ _
        · exact hinv.of_ids (List.Sublist.refl _) (by rw [hprompt]; rfl)
      · rw [update_prompt_by_id_iff h hprompt]
        refine ⟨fun hall prompt' hprompt' => ?_, fun hall => hall prompt hprompt⟩
        rw [hprompt] at hprompt'
        cases hprompt'
        exact hall
    · rename_i hnone
      cases hstep
      refine ⟨hinv, iff_of_true h fun prompt hprompt => ?_⟩
      rw [hnone] at hprompt
      cases hprompt
  | update_prompt_by_command command form_data id now =>
    unfold promptStep at hstep
    dsimp only at hstep
    split at hstep
    · rename_i prompt hprompt
      split at hstep
      · rename_i hother
        cases hstep
        refine ⟨hinv, iff_of_true h fun prompt' hprompt' hne hsame => ?_⟩
        rw [hprompt] at hprompt'
        cases hprompt'
        rcases hother with hempty | hcommand
        · exact absurd hempty hne
        · exact absurd hsame hcommand
      · rename_i hmatch
        rw [not_or, not_not] at hmatch
        obtain ⟨hnew, hs'⟩ := Option.ite_none_right_eq_some.mp hstep
        cases hs'
        constructor
        · unfold PromptState.update_prompt_by_command
          split
          · exact hinv.commit hnew _ _
          · exact hinv.of_ids (List.Sublist.refl _) (by rw [hprompt]; rfl)
        · rw [update_prompt_by_command_iff h hprompt]
          refine ⟨fun hall prompt' hprompt' _ _ => ?_, fun hall =>
            hall prompt hprompt hmatch.1 hmatch.2⟩
          rw [hprompt] at hprompt'
          cases hprompt'
          exact hall
    · rename_i hnone
      cases hstep
      refine ⟨hinv, iff_of_true h fun prompt hprompt => ?_⟩
      rw [hnone] at hprompt
      cases hprompt
  | update_prompt_metadata name command tags =>
    cases hstep
    refine ⟨hinv.of_ids (List.Sublist.refl _) (Option.isSome_map ..), ?_⟩
    cases hprompt : s.prompt with
    | none =>
      have hsame : (⟨none, s.versions⟩ : PromptState) = s := by
        rw [← hprompt]
      rw [Option.map_none, hsame]
      refine iff_of_true h fun prompt hprompt' => ?_
      rw [hprompt] at hprompt'
      cases hprompt'
    | some prompt =>
      rw [Option.map_some]
      have hversion : (updatedMetadata prompt name command tags).version_id =
          prompt.version_id := rfl
      rw [restorable_change_iff h hprompt (hversion.symm ▸ h.active prompt hprompt)]
      refine ⟨fun hstay prompt' hprompt' => ?_, fun hall => hall prompt hprompt⟩
      rw [hprompt] at hprompt'
      cases hprompt'
      exact hstay
  | update_prompt_version version_id =>
    unfold promptStep at hstep
    dsimp only at hstep
    split at hstep
    · rename_i prompt entry hprompt hfind
      cases hstep
      refine ⟨hinv.of_ids (List.Sublist.refl _) (by rw [hprompt]; rfl), ?_⟩
      have hmem : entry.id ∈ s.ids :=
        List.mem_map.mpr ⟨entry, List.mem_of_find?_eq_some hfind, rfl⟩
      have hactive : ∀ id, (prompt.restore entry).version_id = some id → id ∈ s.ids := by
        intro id hid
        cases hid
        exact hmem
      rw [restorable_change_iff h hprompt hactive]
      refine ⟨fun hstay prompt' hprompt' entry' hfind' => ?_, fun hall =>
        hall prompt hprompt entry hfind⟩
      rw [hprompt] at hprompt'
      rw [hfind] at hfind'
      cases hprompt'
      cases hfind'
      exact hstay
    · rename_i hnone
      cases hstep
      exact ⟨hinv, iff_of_true h fun prompt hprompt entry hfind =>
        absurd hfind (hnone prompt entry hprompt)⟩
  | delete_history_entry history_id =>
    unfold promptStep at hstep
    dsimp only at hstep
    split at hstep
    · rename_i prompt entry hprompt hfind
      have hid : entry.id = history_id := by simpa using List.find?_some hfind
      subst hid
      split at hstep
      · cases hstep
        exact ⟨hinv, iff_of_true h trivial⟩
      · rename_i hactive
        cases hstep
        refine ⟨hinv.of_ids ?_ rfl, iff_of_true
          (h.delete hinv (List.mem_of_find?_eq_some hfind) hprompt hactive) trivial⟩
        show (((reparent entry s.versions).map Version.entry).map HistoryEntry.id).Sublist s.ids
        rw [entries_reparent, reparentEntries_ids]
        exact List.filter_sublist
    · cases hstep
      exact ⟨hinv, iff_of_true h trivial⟩

/-- **Versions restore what was saved exactly if every call is faithful**: in every run of calls on
a prompt, it holds in every state that restoring a version brings back what it was created with,
that the entries form one chain, and that the active version is one of them, exactly if each call
that creates a version gives the data and the meta (or the prompt has none) and finds the last
entry, and the tags change only while every snapshot has its own. -/
theorem restorable_iff_faithful (query : LatestQuery) {run : List PromptEvent} {s : PromptState}
    (hrun : exec (promptStep query) .start run = some s) :
    (∀ n t, exec (promptStep query) .start (run.take n) = some t → Restorable t) ↔
      StepsMeet (promptStep query) (Faithful query) .start run := by
  have hinv : PromptInv .start := ⟨List.nodup_nil, fun _ => rfl⟩
  have hstart : Restorable .start := by
    refine ⟨?_, trivial, ?_⟩
    · intro prompt hprompt
      cases hprompt
    · intro prompt hprompt
      cases hprompt
  exact forall_take_iff_stepsMeet (fun _ _ _ hQ hP hstep => promptStep_iff hQ hP hstep) hinv hstart
    hrun

/-! ## Omitted data, and entries of one second -/

/-- Of the entries of the latest second, the one that was created first. -/
def firstOfLatest : List HistoryEntry → Option HistoryEntry
  | [] => none
  | entry :: entries =>
    match firstOfLatest entries with
    | none => some entry
    | some other => if other.created_at ≤ entry.created_at then some entry else some other

theorem firstOfLatest_eq_none {entries : List HistoryEntry} (h : firstOfLatest entries = none) :
    entries = [] := by
  cases entries with
  | nil => rfl
  | cons entry entries =>
    rw [firstOfLatest] at h
    split at h
    · cases h
    · split at h <;> cases h

theorem firstOfLatest_mem {entries : List HistoryEntry} {entry : HistoryEntry}
    (h : firstOfLatest entries = some entry) :
    entry ∈ entries ∧ ∀ other ∈ entries, other.created_at ≤ entry.created_at := by
  induction entries generalizing entry with
  | nil => cases h
  | cons first entries ih =>
    rw [firstOfLatest] at h
    split at h
    · rename_i hnone
      cases h
      rw [firstOfLatest_eq_none hnone]
      simp
    · rename_i latest hlatest
      obtain ⟨hmem, hle⟩ := ih hlatest
      split at h
      · rename_i hfirst
        cases h
        refine ⟨List.mem_cons_self, List.forall_mem_cons.mpr ⟨Nat.le_refl _, fun other hother => ?_⟩⟩
        exact Nat.le_trans (hle other hother) hfirst
      · rename_i hlater
        cases h
        exact ⟨List.mem_cons_of_mem _ hmem, List.forall_mem_cons.mpr ⟨by omega, hle⟩⟩

/-- A database that finds them in the order of creation. -/
def inOrder : LatestQuery where
  get_latest_history_entry := firstOfLatest
  eq_none _ := firstOfLatest_eq_none
  mem _ _ := firstOfLatest_mem

/-- A form that gives a text, and some data or none. -/
def formWith (content : String) (data : Option (Dict String Json)) : PromptForm :=
  ⟨"/p", "P", content, data, none, none, false, true⟩

/-- A prompt that is edited twice in later seconds, and restored. -/
def editedTwice : List PromptEvent :=
  [.insert_new_prompt (formWith "a" none) "1" 10, .update_prompt_by_id (formWith "b" none) "2" 11,
    .update_prompt_by_command "/p" (formWith "c" none) "3" 12, .update_prompt_version "1",
    .delete_history_entry "2"]

/-- Its versions restore what was saved. -/
theorem restorable_editedTwice : ∃ s, exec (promptStep inOrder) .start editedTwice = some s ∧
    ∀ n t, exec (promptStep inOrder) .start (editedTwice.take n) = some t → Restorable t := by
  have hmeet : StepsMeet (promptStep inOrder) (Faithful inOrder) .start editedTwice := by
    refine .cons trivial rfl (.cons ?_ rfl (.cons ?_ rfl (.cons ?_ rfl (.cons trivial rfl
      trivial))))
    · intro prompt hprompt _
      cases hprompt
      exact ⟨.inr rfl, .inr rfl, rfl, .inl rfl⟩
    · intro prompt hprompt _ _ _
      cases hprompt
      exact ⟨.inr rfl, .inr rfl, rfl⟩
    · intro prompt hprompt entry hfind
      cases hprompt
      cases hfind
      exact .inl rfl
  have hrun : ∃ s, exec (promptStep inOrder) .start editedTwice = some s := ⟨_, rfl⟩
  obtain ⟨s, hs⟩ := hrun
  exact ⟨s, hs, (restorable_iff_faithful inOrder hs).mpr hmeet⟩

/-- An update without data keeps the row's and has none in its snapshot; and of three entries of one
second the last two have the same parent. -/
theorem data_lost_and_chain_forked :
    (∃ s prompt v, exec (promptStep inOrder) .start
        [.insert_new_prompt (formWith "a" (some (Dict.empty.set "k" (.int 1)))) "1" 10,
          .update_prompt_by_id (formWith "b" none) "2" 11] = some s ∧
        s.prompt = some prompt ∧ s.versions[1]? = some v ∧
        v.saved.data = Dict.empty.set "k" (.int 1) ∧ (prompt.restore v.entry).data = .empty) ∧
      ∃ s, exec (promptStep inOrder) .start
        [.insert_new_prompt (formWith "a" none) "1" 10,
          .update_prompt_by_id (formWith "b" none) "2" 10,
          .update_prompt_by_id (formWith "c" none) "3" 10] = some s ∧
        s.entries.map HistoryEntry.parent_id = [none, some "1", some "1"] :=
  ⟨⟨_, _, _, rfl, rfl, rfl, rfl, rfl⟩, ⟨_, rfl, rfl⟩⟩

end OpenLaunch.Prompts
