import OpenLaunch.Observation
import OpenLaunch.Retrieval.Sources

/-! # Sources come from what the user may read

Of the stored texts, the sources of a request show only those of objects that the user may read. So
they stay the same when other texts change. -/

namespace OpenLaunch.Retrieval

open Python Access Function

/-! ## What a user may read -/

/-- What a collection holds the chunks of, by its name. -/
inductive Content
  /-- The descriptions of all knowledge bases. -/
  | system
  | file (id : String)
  | memory (user_id : String)
  | webSearch
  | knowledge (id : String)

/-- The collections of files, of memories and of web searches have their own names. -/
def contentOf (name : String) : Content :=
  if name = "knowledge-bases" then .system
  else if startsWith name "file-" then .file (String.ofList (name.toList.drop 5))
  else if startsWith name "user-memory-" then .memory (String.ofList (name.toList.drop 12))
  else if startsWith name "web-search-" then .webSearch
  else .knowledge name

/-- The user owns the file or has access to it. -/
def ReadableFile (s : Tables) (user : User) (id : String) : Prop :=
  ∃ f, s.get_file_by_id id = some f ∧
    (f.user_id = user.id ∨ has_access_to_file s id "read" user = .ok true)

/-- The user owns the knowledge base or has a grant. -/
def ReadableKnowledge (s : Tables) (user : User) (id : String) : Prop :=
  ∃ k, s.get_knowledge_by_id id = some k ∧
    (k.user_id = user.id ∨ s.has_access user.id "knowledge" id "read" none = true)

/-- **What a user may read.** -/
def Readable (s : Tables) (user : User) : Object → Prop
  | .note id => ∃ n, s.get_note_by_id id = some n ∧
      (n.user_id = user.id ∨ s.has_access user.id "note" id "read" none = true)
  | .chat id => ∃ c, s.get_chat_by_id id = some c ∧ c.user_id = user.id
  | .file id => ReadableFile s user id
  | .knowledge id => ReadableKnowledge s user id
  | .collection name =>
    match contentOf name with
    | .system => False
    | .file id => ReadableFile s user id
    | .memory user_id => user_id = user.id
    | .webSearch => True
    | .knowledge id => ReadableKnowledge s user id

/-- **Where a result comes from**: from the item itself, or from stored texts that the user may
read. -/
inductive Origin {γ : Type} (b : Backend γ) (settings : Settings) (s : Tables) (user : User)
    (texts : Texts γ) (queries : List Json) (fuel : ℕ) (full_context : Bool) (item : Json) :
    QueryResult → Prop
  | fileData {q : QueryResult} (h : suppliedFile item = .ok q) :
    Origin b settings s user texts queries fuel full_context item q
  | content {q : QueryResult} (h : suppliedContent item = .ok q) :
    Origin b settings s user texts queries fuel full_context item q
  | fullFile {q : QueryResult} {content : Json} (h : suppliedFull item content = .ok q) :
    Origin b settings s user texts queries fuel full_context item q
  | docs {q : QueryResult} (h : suppliedDocs item = .ok q) :
    Origin b settings s user texts queries fuel full_context item q
  | url {q : QueryResult} (h : urlResult b item = .ok (some q)) :
    Origin b settings s user texts queries fuel full_context item q
  | note {q : QueryResult} {id : String} (hread : Readable s user (.note id))
    (h : noteResult id (texts (.note id)) = .ok q) :
    Origin b settings s user texts queries fuel full_context item q
  | chat {q : QueryResult} {id : String} (hread : Readable s user (.chat id))
    (h : chatResult b fuel id (texts (.chat id)) = some (.ok (some q))) :
    Origin b settings s user texts queries fuel full_context item q
  | file {q : QueryResult} {id : String} {item_id : Json} (hread : Readable s user (.file id))
    (h : fileResult item_id (texts (.file id)) = .ok q) :
    Origin b settings s user texts queries fuel full_context item q
  | files {q : QueryResult} {ids : List String} (hread : ∀ id ∈ ids, Readable s user (.file id))
    (h : filesResult (ids.map fun id => (id, texts (.file id))) = .ok q) :
    Origin b settings s user texts queries fuel full_context item q
  | external {q : QueryResult} {id : String} (hread : Readable s user (.knowledge id))
    (h : b.retrieve_external_knowledge id (texts (.knowledge id)) queries = .ok q) :
    Origin b settings s user texts queries fuel full_context item q
  | search {q : QueryResult} {names : List String}
    (hread : ∀ name ∈ names, Readable s user (.collection name))
    (h : searchCollections b.store settings full_context (contents texts) names queries = some q) :
    Origin b settings s user texts queries fuel full_context item q

/-! ## The checks -/

variable {γ : Type} {b : Backend γ} {settings : Settings} {s : Tables} {user : User}
  {texts : Texts γ} {queries : List Json} {fuel : ℕ} {full_context : Bool} {item : Json}

theorem readableFile_of_has_access {id : String}
    (h : has_access_to_file s id "read" user = .ok true) : ReadableFile s user id := by
  cases hget : s.get_file_by_id id with
  | none =>
    rw [has_access_to_file, hget] at h
    cases h
  | some f => exact ⟨f, hget, .inr h⟩

theorem get_knowledge_by_id_id {id : String} {k : Owned} (h : s.get_knowledge_by_id id = some k) :
    k.id = id := by
  rw [Tables.get_knowledge_by_id] at h
  simpa using List.find?_some h

/-- A name that the filter keeps is that of a collection the user may read. -/
theorem readable_of_keeps (hunscoped : settings.ENABLE_RETRIEVAL_UNSCOPED_COLLECTIONS = false)
    {name : String} (h : keepsCollection settings s user "read" name = .ok true) :
    Readable s user (.collection name) := by
  rw [keepsCollection] at h
  rw [Readable, contentOf]
  by_cases hsystem : name = "knowledge-bases"
  · rw [if_pos hsystem] at h
    cases h
  by_cases hfile : startsWith name "file-" = true
  · rw [if_neg hsystem, if_pos hfile] at h ⊢
    exact readableFile_of_has_access h
  by_cases hmemory : startsWith name "user-memory-" = true
  · rw [if_neg hsystem, if_neg hfile, if_pos hmemory] at h ⊢
    have hname : name = "user-memory-" ++ user.id := by simpa using h
    rw [hname]
    simp
  by_cases hweb : startsWith name "web-search-" = true
  · rw [if_neg hsystem, if_neg hfile, if_neg hmemory, if_pos hweb]
    trivial
  rw [if_neg hsystem, if_neg hfile, if_neg hmemory, if_neg hweb] at h ⊢
  have hcheck : s.check_access_by_user_id name user.id "read" = true := by
    simpa [hunscoped] using h
  show ReadableKnowledge s user name
  rw [Tables.check_access_by_user_id] at hcheck
  cases hget : s.get_knowledge_by_id name with
  | none => simp [hget] at hcheck
  | some k =>
    rw [hget] at hcheck
    dsimp only at hcheck
    rw [has_access_group_ids, get_knowledge_by_id_id hget] at hcheck
    exact ⟨k, hget, by simpa using hcheck⟩

/-- A row that is found by a key is found by its own key. -/
theorem find?_own_key {α : Type} {key : α → String} {rows : List α} {k : Option String} {r : α}
    (h : (k.bind fun id => rows.find? fun r => key r = id) = some r) :
    (rows.find? fun r' => key r' = key r) = some r := by
  obtain ⟨id, -, hfind⟩ := Option.bind_eq_some_iff.mp h
  have hid : key r = id := by simpa using List.find?_some hfind
  rw [hid]
  exact hfind

/-- The check of a file that an item names. -/
theorem readable_of_readsFile (hadmin : user.role ≠ "admin") {k : Option String} {f : File}
    (hget : k.bind s.get_file_by_id = some f) (h : readsFile s user f = .ok true) :
    Readable s user (.file f.id) := by
  refine ⟨f, @find?_own_key File File.id s.files _ _ hget, ?_⟩
  rw [readsFile] at h
  by_cases howner : f.user_id = user.id
  · exact .inl howner
  · rw [if_neg (by simp [hadmin, howner])] at h
    exact .inr h

/-- The check of a knowledge base that an item names. -/
theorem readable_of_readsKnowledge (hadmin : user.role ≠ "admin") {k : Option String} {kb : Owned}
    (hget : k.bind s.get_knowledge_by_id = some kb) (h : readsKnowledge s user kb = true) :
    Readable s user (.knowledge kb.id) :=
  ⟨kb, @find?_own_key Owned Owned.id s.knowledge _ _ hget, by
    simpa [readsKnowledge, hadmin] using h⟩

/-- The files of a knowledge base that the user may read. -/
theorem readable_files {kb : Owned} (h : Readable s user (.knowledge kb.id)) :
    ∀ f ∈ s.get_files_by_id kb.id, Readable s user (.file f.id) := by
  intro f hf
  obtain ⟨k, hget, hgives⟩ := h
  have hid := get_knowledge_by_id_id hget
  rw [← hid] at hgives hf
  exact readableFile_of_has_access
    (has_access_to_file_of_knowledge (List.mem_of_find?_eq_some hget) hgives hf)

/-- The names that are searched. -/
theorem readable_of_namesToSearch (hadmin : user.role ≠ "admin")
    (hunscoped : settings.ENABLE_RETRIEVAL_UNSCOPED_COLLECTIONS = false)
    {extracted : List String} {collection_names : List Json} {names : List String}
    (h : namesToSearch settings s user extracted collection_names = .ok names) :
    ∀ name ∈ names, Readable s user (.collection name) := by
  obtain ⟨keys, -, h⟩ := bind_eq_ok.mp h
  dsimp only at h
  split at h
  · cases h
    exact fun _ hname => absurd hname List.not_mem_nil
  · rw [filter_accessible_collections, if_neg hadmin] at h
    exact fun name hname => readable_of_keeps hunscoped (keeps_of_mem_validate h name hname)

/-! ## Where the results come from -/

/-- What an item comes to has an origin. -/
def Traced (b : Backend γ) (settings : Settings) (s : Tables) (user : User) (texts : Texts γ)
    (queries : List Json) (fuel : ℕ) (full_context : Bool) (item : Json) (found : Found) : Prop :=
  ∀ q, found.query_result = some q →
    Origin b settings s user texts queries fuel full_context item q

theorem traced_nothing :
    Traced b settings s user texts queries fuel full_context item .nothing := nofun

theorem traced_names (names : List Json) :
    Traced b settings s user texts queries fuel full_context item (.names names) := nofun

theorem traced_result {q : QueryResult}
    (h : Origin b settings s user texts queries fuel full_context item q) :
    Traced b settings s user texts queries fuel full_context item (.result q) := by
  rintro q' ⟨⟩
  exact h

theorem textItem_traced :
    (textItem item).Returns (Traced b settings s user texts queries fuel full_context item) := by
  refine .bind fun context _ => .bind fun file _ => .ite (fun _ => ?_) fun _ => ?_
  · exact .map fun q hq => traced_result (.fileData hq)
  · refine .bind fun collection_name _ => .ite (fun _ => .pure (traced_names _)) fun _ => ?_
    refine .ite (fun _ => ?_) fun _ => ?_
    · exact .map fun q hq => traced_result (.fileData hq)
    · exact .map fun q hq => traced_result (.content hq)

theorem noteItem_traced (hadmin : user.role ≠ "admin") :
    (noteItem b s user texts item).Returns
      (Traced b settings s user texts queries fuel full_context item) := by
  refine .bind fun id _ => ?_
  split
  · exact .pure traced_nothing
  · rename_i note hnote
    refine .ite (fun h => .map fun q hq => traced_result (.note ?_ hq)) fun _ =>
      .pure traced_nothing
    exact ⟨note, @find?_own_key Owned Owned.id s.notes _ _ hnote, by simpa [hadmin] using h⟩

theorem urlItem_traced :
    (urlItem b item).Returns (Traced b settings s user texts queries fuel full_context item) := by
  refine .bind fun query_result hq => .pure fun q hsome => .url ?_
  rw [hq]
  exact congrArg Except.ok hsome

theorem fileItem_traced (hadmin : user.role ≠ "admin") :
    (fileItem b settings s user texts item).Returns
      (Traced b settings s user texts queries fuel full_context item) := by
  refine .bind fun context _ => .bind fun id _ => .ite (fun _ => ?_) fun _ => ?_
  · refine .bind fun data _ => .bind fun content _ => .ite (fun _ => ?_) fun _ => ?_
    · exact .map fun q hq => traced_result (.fullFile hq)
    · refine .ite (fun _ => ?_) fun _ => .pure traced_nothing
      split
      · exact .pure traced_nothing
      · rename_i file_object hfile
        refine .bind fun reads hreads => .ite (fun h => ?_) fun _ => .pure traced_nothing
        rw [h] at hreads
        exact .map fun q hq => traced_result (.file (readable_of_readsFile hadmin hfile hreads) hq)
  · refine .ite (fun _ => .ite (fun _ => ?_) fun _ => ?_) fun _ => .pure traced_nothing
    · exact .bind fun name _ => .pure (traced_names _)
    · split
      · exact .pure traced_nothing
      · exact .bind fun reads _ => .ite (fun _ => .bind fun name _ => .pure (traced_names _))
          fun _ => .pure traced_nothing

theorem collectionItem_traced (hadmin : user.role ≠ "admin") :
    (collectionItem b settings s user texts queries item).Returns
      (Traced b settings s user texts queries fuel full_context item) := by
  refine .bind fun id _ => ?_
  split
  · exact .pure traced_nothing
  · rename_i kb hkb
    refine .ite (fun _ => .pure traced_nothing) fun hreads => ?_
    have hread : Readable s user (.knowledge kb.id) :=
      readable_of_readsKnowledge hadmin hkb (by simpa using hreads)
    refine .bind fun source _ => .bind fun context _ => .bind fun legacy _ => ?_
    refine .ite (fun _ => .bind fun q hq => .pure ?_) fun _ => .ite (fun _ => ?_) fun _ => ?_
    · rintro q' ⟨⟩
      exact .external hread hq
    · refine .ite (fun _ => .map fun q hq => traced_result ?_) fun _ => .pure traced_nothing
      refine @Origin.files γ b settings s user texts queries fuel full_context item q
        ((s.get_files_by_id kb.id).map File.id) ?_ ?_
      · rw [List.forall_mem_map]
        exact readable_files hread
      · rw [List.map_map]
        exact hq
    · exact .ite (fun _ => .map fun names _ => traced_names names)
        fun _ => .bind fun id _ => .pure (traced_names _)

theorem otherItem_traced : (otherItem settings item).Returns
    (Traced b settings s user texts queries fuel full_context item) := by
  refine .bind fun type _ => .bind fun docs _ => .bind fun collection_name _ => .bind fun names _ =>
    .ite (fun _ => .map fun q hq => traced_result (.docs hq)) fun _ => ?_
  refine .ite (fun _ => .pure (traced_names _)) fun _ => .ite (fun _ => ?_) fun _ => ?_
  · exact .ite (fun _ => .pure (traced_names _)) fun _ => .pure traced_nothing
  · refine .ite (fun _ => ?_) fun _ => .pure traced_nothing
    exact .ite (fun _ => .map fun names _ => traced_names names) fun _ => .pure traced_nothing

theorem chatItem_traced (hadmin : user.role ≠ "admin") {r : Except PyErr Found}
    (h : chatItem b s user texts fuel item = some r) :
    r.Returns (Traced b settings s user texts queries fuel full_context item) := by
  rw [chatItem] at h
  split at h
  · cases h
    exact nofun
  split at h
  · cases h
    exact .pure traced_nothing
  rename_i chat hchat
  split at h
  · rename_i hreads
    obtain ⟨r', hr', rfl⟩ := Option.map_eq_some_iff.mp h
    have hread : Readable s user (.chat chat.id) :=
      ⟨chat, @find?_own_key Chat Chat.id s.chats _ _ hchat, by simpa [hadmin] using hreads⟩
    refine .bind fun query_result hok => .pure fun q hq => .chat hread ?_
    have hsome : query_result = some q := hq
    rw [hr', hok, hsome]
  · cases h
    exact .pure traced_nothing

/-- **The result of an item** comes from the item, or from what the user may read. -/
theorem foundIn_traced (hadmin : user.role ≠ "admin") {r : Except PyErr Found}
    (h : foundIn b settings s user texts queries fuel item = some r) :
    r.Returns (Traced b settings s user texts queries fuel full_context item) := by
  rw [foundIn] at h
  split at h
  · cases h
    exact nofun
  split_ifs at h
  · cases h
    exact textItem_traced
  · cases h
    exact noteItem_traced hadmin
  · exact chatItem_traced hadmin h
  · cases h
    exact urlItem_traced
  · cases h
    exact fileItem_traced hadmin
  · cases h
    exact collectionItem_traced hadmin
  · cases h
    exact otherItem_traced

/-- A result of the loop, with the item that it is for. -/
def FromItem (b : Backend γ) (settings : Settings) (s : Tables) (user : User) (texts : Texts γ)
    (queries : List Json) (fuel : ℕ) (full_context : Bool) (item : Json)
    (e : QueryResult × Json) : Prop :=
  Origin b settings s user texts queries fuel full_context item e.1 ∧ e.2 = withoutData item

theorem retrieve_traced (hadmin : user.role ≠ "admin")
    (hunscoped : settings.ENABLE_RETRIEVAL_UNSCOPED_COLLECTIONS = false) {st : Progress}
    {found : Found}
    (h : Traced b settings s user texts queries fuel full_context item found) :
    (retrieve b settings s user texts queries full_context st item found).Returns fun st' =>
      ∀ e ∈ st'.query_results, e ∈ st.query_results ∨
        FromItem b settings s user texts queries fuel full_context item e := by
  rw [retrieve]
  dsimp only
  split
  · rename_i q hq
    refine .pure fun e he => ?_
    rcases List.mem_append.mp he with he | he
    · exact .inl he
    · rw [List.mem_singleton] at he
      rw [he]
      exact .inr ⟨h q hq, rfl⟩
  · refine .bind fun names hnames => .ite (fun _ => .pure fun e he => .inl he) fun _ => ?_
    refine .pure fun e he => ?_
    rcases List.mem_append.mp he with he | he
    · exact .inl he
    · obtain ⟨q, hq, rfl⟩ := List.mem_map.mp he
      exact .inr ⟨.search (readable_of_namesToSearch hadmin hunscoped hnames)
        (Option.mem_toList.mp hq), rfl⟩

/-- Where a computation in two parts returns. -/
theorem run_bind_eq_ok {α β : Type} {x : ExceptT PyErr Option α}
    {k : α → ExceptT PyErr Option β} {c : β} :
    (x >>= k).run = some (.ok c) ↔ ∃ a, x.run = some (.ok a) ∧ (k a).run = some (.ok c) := by
  rw [ExceptT.run_bind]
  constructor
  · intro h
    obtain ⟨r, hr, hc⟩ := Option.bind_eq_some_iff.mp h
    cases r with
    | error e => cases hc
    | ok a => exact ⟨a, hr, hc⟩
  · rintro ⟨a, ha, hc⟩
    exact Option.bind_eq_some_iff.mpr ⟨.ok a, ha, hc⟩

/-- An iteration adds results of its item. -/
theorem nextItem_traced (hadmin : user.role ≠ "admin")
    (hunscoped : settings.ENABLE_RETRIEVAL_UNSCOPED_COLLECTIONS = false) {st st' : Progress}
    (h : (nextItem b settings s user texts queries fuel full_context st item).run =
      some (.ok st')) :
    ∀ e ∈ st'.query_results, e ∈ st.query_results ∨
      FromItem b settings s user texts queries fuel full_context item e := by
  obtain ⟨r, hr, hst⟩ := Option.map_eq_some_iff.mp h
  obtain ⟨found, rfl, hretrieve⟩ := bind_eq_ok.mp hst
  exact retrieve_traced hadmin hunscoped (foundIn_traced hadmin hr found rfl) st' hretrieve

/-- The loop has results of its items only. -/
theorem loop_traced (hadmin : user.role ≠ "admin")
    (hunscoped : settings.ENABLE_RETRIEVAL_UNSCOPED_COLLECTIONS = false) {items : List Json}
    {st st' : Progress}
    (h : (items.foldlM (nextItem b settings s user texts queries fuel full_context) st).run =
      some (.ok st')) :
    ∀ e ∈ st'.query_results, e ∈ st.query_results ∨
      ∃ item ∈ items, FromItem b settings s user texts queries fuel full_context item e := by
  induction items generalizing st with
  | nil =>
    cases h
    exact fun e he => .inl he
  | cons item items ih =>
    rw [List.foldlM_cons] at h
    obtain ⟨st₁, hstep, hrest⟩ := run_bind_eq_ok.mp h
    intro e he
    rcases ih hrest e he with hold | ⟨item', hitem', hfrom⟩
    · rcases nextItem_traced hadmin hunscoped hstep e hold with hold | hfrom
      · exact .inl hold
      · exact .inr ⟨item, List.mem_cons_self, hfrom⟩
    · exact .inr ⟨item', List.mem_cons_of_mem item hitem', hfrom⟩

/-! ## What the results depend on -/

/-- The texts that the user may read. -/
abbrev readableTexts (γ : Type) (s : Tables) (user : User) :
    Texts γ → ∀ o : {o // Readable s user o}, Stored γ o :=
  Set.domRestrict {o | Readable s user o}

/-- A text that the user may read. -/
theorem sees {o : Object} (h : Readable s user o) :
    (fun texts : Texts γ => texts o).FactorsThrough (readableTexts γ s user) :=
  FactorsThrough.eval h

theorem noteItem_sees (hadmin : user.role ≠ "admin") :
    (fun texts : Texts γ => noteItem b s user texts item).FactorsThrough
      (readableTexts γ s user) := by
  refine .bind_ok fun id _ => ?_
  split
  · exact .const _
  · rename_i note hnote
    refine .ite (fun h => ?_) fun _ => .const _
    have hread : Readable s user (.note note.id) :=
      ⟨note, @find?_own_key Owned Owned.id s.notes _ _ hnote, by simpa [hadmin] using h⟩
    exact (sees hread).map fun note_text : NoteText =>
      Found.result <$> noteResult note.id note_text

theorem chatItem_sees (hadmin : user.role ≠ "admin") :
    (fun texts : Texts γ => chatItem b s user texts fuel item).FactorsThrough
      (readableTexts γ s user) := by
  unfold chatItem
  split
  · exact .const _
  split
  · exact .const _
  rename_i chat hchat
  refine .ite (fun h => ?_) fun _ => .const _
  have hread : Readable s user (.chat chat.id) :=
    ⟨chat, @find?_own_key Chat Chat.id s.chats _ _ hchat, by simpa [hadmin] using h⟩
  exact (sees hread).map fun chat_text : ChatText =>
    (chatResult b fuel chat.id chat_text).map fun r =>
      (r >>= fun query_result => pure ⟨query_result, [], []⟩ : Except PyErr Found)

theorem fileItem_sees (hadmin : user.role ≠ "admin") :
    (fun texts : Texts γ => fileItem b settings s user texts item).FactorsThrough
      (readableTexts γ s user) := by
  refine .bind_ok fun context _ => .bind_ok fun id _ => .ite (fun _ => ?_) fun _ => .const _
  refine .bind_ok fun data _ => .bind_ok fun content _ => .ite (fun _ => .const _) fun _ => ?_
  refine .ite (fun _ => ?_) fun _ => .const _
  split
  · exact .const _
  · rename_i file_object hfile
    refine .bind_ok fun reads hreads => .ite (fun h => ?_) fun _ => .const _
    rw [h] at hreads
    exact (sees (readable_of_readsFile hadmin hfile hreads)).map fun file_text : FileText =>
      Found.result <$> fileResult id file_text

/-- The `meta` of a knowledge base decides what is read next. -/
theorem collectionItem_sees (hadmin : user.role ≠ "admin") :
    (fun texts : Texts γ => collectionItem b settings s user texts queries item).FactorsThrough
      (readableTexts γ s user) := by
  refine .bind_ok fun id _ => ?_
  split
  · exact .const _
  rename_i kb hkb
  refine .ite (fun _ => .const _) fun hreads => ?_
  have hread : Readable s user (.knowledge kb.id) :=
    readable_of_readsKnowledge hadmin hkb (by simpa using hreads)
  intro texts texts' h
  have hmeta : texts (.knowledge kb.id) = texts' (.knowledge kb.id) := sees hread h
  have hfiles : ((s.get_files_by_id kb.id).map fun file =>
        (file.id, (texts (.file file.id) : FileText))) =
      (s.get_files_by_id kb.id).map fun file => (file.id, (texts' (.file file.id) : FileText)) := by
    refine List.map_congr_left fun file hfile => ?_
    have hfile_text : texts (.file file.id) = texts' (.file file.id) :=
      sees (readable_files hread file hfile) h
    rw [hfile_text]
  dsimp only
  rw [hmeta, hfiles]

/-- **What an item comes to** depends on the texts that the user may read. -/
theorem foundIn_sees (hadmin : user.role ≠ "admin") :
    (fun texts : Texts γ => foundIn b settings s user texts queries fuel item).FactorsThrough
      (readableTexts γ s user) := by
  unfold foundIn
  split
  · exact .const _
  refine .ite (fun _ => .const _) fun _ => .ite (fun _ => (noteItem_sees hadmin).map some) fun _ =>
    .ite (fun _ => chatItem_sees hadmin) fun _ => .ite (fun _ => .const _) fun _ => ?_
  exact .ite (fun _ => (fileItem_sees hadmin).map some) fun _ =>
    .ite (fun _ => (collectionItem_sees hadmin).map some) fun _ => .const _

theorem retrieve_sees (hadmin : user.role ≠ "admin")
    (hunscoped : settings.ENABLE_RETRIEVAL_UNSCOPED_COLLECTIONS = false) {st : Progress}
    {found : Found} :
    (fun texts : Texts γ =>
      retrieve b settings s user texts queries full_context st item found).FactorsThrough
        (readableTexts γ s user) := by
  unfold retrieve
  dsimp only
  split
  · exact .const _
  · refine .bind_ok fun names hnames => .ite (fun _ => .const _) fun _ => ?_
    intro texts texts' h
    have hsearch : searchCollections b.store settings full_context (contents texts) names queries =
        searchCollections b.store settings full_context (contents texts') names queries :=
      searchCollections_congr fun name hname =>
        sees (readable_of_namesToSearch hadmin hunscoped hnames name hname) h
    dsimp only
    rw [hsearch]

theorem nextItem_sees (hadmin : user.role ≠ "admin")
    (hunscoped : settings.ENABLE_RETRIEVAL_UNSCOPED_COLLECTIONS = false) {st : Progress} :
    (fun texts : Texts γ =>
      nextItem b settings s user texts queries fuel full_context st item).FactorsThrough
        (readableTexts γ s user) := by
  intro texts texts' h
  have hfound : foundIn b settings s user texts queries fuel item =
      foundIn b settings s user texts' queries fuel item := foundIn_sees hadmin h
  have hretrieve : retrieve b settings s user texts queries full_context st item =
      retrieve b settings s user texts' queries full_context st item :=
    funext fun found => retrieve_sees hadmin hunscoped h
  show nextItem b settings s user texts queries fuel full_context st item = _
  rw [nextItem, hfound, hretrieve]
  rfl

/-- **Sources come from what the user may read**: each from its item or from such texts, and all of
them stay the same when other texts change. -/
theorem get_sources_from_items_confined (b : Backend γ) (settings : Settings) (s : Tables)
    (user : User) (queries : List Json) (fuel : ℕ) (full_context : Bool) (items : List Json)
    (hadmin : user.role ≠ "admin")
    (hunscoped : settings.ENABLE_RETRIEVAL_UNSCOPED_COLLECTIONS = false) :
    (∀ texts sources,
      get_sources_from_items b settings s user texts queries fuel full_context items =
          some (.ok sources) →
        ∀ source ∈ sources, ∃ item ∈ items, ∃ q,
          Origin b settings s user texts queries fuel full_context item q ∧
            sourceOf q (withoutData item) = some source) ∧
      DependsOn (fun texts : Texts γ =>
        get_sources_from_items b settings s user texts queries fuel full_context items)
          {o | Readable s user o} := by
  constructor
  · intro texts sources h source hsource
    obtain ⟨r, hr, hok⟩ := Option.map_eq_some_iff.mp h
    obtain ⟨st, rfl, hst⟩ := map_eq_ok.mp hok
    rw [← hst] at hsource
    obtain ⟨e, he, hsome⟩ := List.mem_filterMap.mp hsource
    rcases loop_traced hadmin hunscoped hr e he with hnone | ⟨item, hitem, horigin, hfile⟩
    · exact absurd hnone List.not_mem_nil
    · rw [hfile] at hsome
      exact ⟨item, hitem, e.1, horigin, hsome⟩
  · rw [dependsOn_iff_factorsThrough]
    have hloop : (fun texts : Texts γ => items.foldlM
        (nextItem b settings s user texts queries fuel full_context) ⟨[], []⟩).FactorsThrough
          (readableTexts γ s user) :=
      .foldlM (fun st item => nextItem_sees hadmin hunscoped) _ items
    exact hloop.map fun run => run.run.map fun r => r.map fun st =>
      st.query_results.filterMap fun e => sourceOf e.1 e.2

/-! ## A note and a file of another user -/

/-- Two notes and two files, each time one of the user and one of somebody else. -/
def twoTables : Tables where
  files := [⟨"f", "u", none⟩, ⟨"g", "o", none⟩]
  notes := [⟨"n", "u"⟩, ⟨"m", "o"⟩]
  chats := []
  chat_files := []
  knowledge := []
  knowledge_files := []
  models := []
  channels :=
    { channels := [], members := [], messages := [], files := []
      access := ⟨[], [], [], [⟨"u", "user"⟩, ⟨"o", "user"⟩], group_exists_nil⟩
      channel_ids := by simp }

/-- A vector store whose collections are lists of documents. -/
def listBackend : Backend (List String) where
  store :=
    { get := fun docs => .ok (some ⟨[docs.map Json.str], [docs.map fun _ => .dict []], none⟩)
      search := fun docs _ => .ok (some ⟨[docs.map Json.str], [docs.map fun _ => .dict []], none⟩)
      embedding_function := .ok
      query_doc_with_native_hybrid_search := fun _ _ => none
      query_doc_with_hybrid_search := fun _ r _ => .ok r
      merge_and_sort_query_results := fun rs =>
        ⟨[rs.flatMap fun r => r.documents.flatten], [rs.flatMap fun r => r.metadatas.flatten],
          none⟩ }
  conversions := plainConversions
  driver := fun _ => none
  capitalize := id
  get_content_from_url := fun _ => .error .upstream
  retrieve_external_knowledge := fun _ _ _ => .error .runtimeError

/-- A note with some text. -/
def markdownNote (md : String) : NoteText :=
  ⟨"Note", .dict [("content", .dict [("md", .str md)])]⟩

/-- The texts, with a secret in those of the other user. -/
def twoTexts (secret : String) : Texts (List String)
  | .note id => markdownNote (if id = "m" then secret else "mine")
  | .chat _ => (⟨"", ⟨⟨[], List.nodup_nil⟩, .null⟩⟩ : ChatText)
  | .file id => (⟨id, .dict []⟩ : FileText)
  | .knowledge _ => Json.null
  | .collection name => if name = "file-g" then [secret] else ["chunk"]

/-- Items that ask for both notes and both files. -/
def twoItems : List Json :=
  [.dict [("type", .str "note"), ("id", .str "n")],
    .dict [("type", .str "note"), ("id", .str "m")],
    .dict [("type", .str "file"), ("id", .str "f")],
    .dict [("type", .str "file"), ("id", .str "g")]]

/-- The sources of these items. -/
def twoSources (secret : String) : Option (Except PyErr (List Source)) :=
  get_sources_from_items listBackend ⟨false, false, false, false, false⟩ twoTables ⟨"u", "user"⟩
    (twoTexts secret) [] 0 true twoItems

/-- The user gets the own note and the own file, whatever the secret is. -/
theorem two_sources_confined :
    (∀ secret, twoSources secret = twoSources "") ∧
      (twoSources "").map (Except.map (List.map Source.document)) =
        some (.ok [[.str "mine"], [.str "chunk"]]) := by
  refine ⟨fun secret => ?_, rfl⟩
  refine (get_sources_from_items_confined listBackend ⟨false, false, false, false, false⟩ twoTables
    ⟨"u", "user"⟩ [] 0 true twoItems (by decide) rfl).2 fun o ho => ?_
  cases o with
  | note id =>
    by_cases hid : id = "m"
    · subst hid
      obtain ⟨n, hn, howner⟩ := ho
      have hn' : n = ⟨"m", "o"⟩ := (Option.some.inj hn).symm
      rw [hn'] at howner
      exact absurd howner (by decide)
    · show markdownNote (if id = "m" then secret else "mine") =
        markdownNote (if id = "m" then "" else "mine")
      rw [if_neg hid, if_neg hid]
  | collection name =>
    by_cases hname : name = "file-g"
    · subst hname
      obtain ⟨f, hf, howner⟩ := (show ReadableFile twoTables ⟨"u", "user"⟩ "g" from ho)
      have hf' : f = ⟨"g", "o", none⟩ := (Option.some.inj hf).symm
      rw [hf'] at howner
      exact absurd howner (by decide)
    · show (if name = "file-g" then [secret] else ["chunk"]) =
        if name = "file-g" then [""] else ["chunk"]
      rw [if_neg hname, if_neg hname]
  | chat => rfl
  | file => rfl
  | knowledge => rfl

end OpenLaunch.Retrieval
