import OpenLaunch.Memories.Vectors
import OpenLaunch.Memories.OneByOne

/-! # Vectors that agree with their memories

The collection of a user has one item for each memory, with the text, the type and the path that the
memory has now. Every request keeps it so if the paths it stores can be cleaned once more and, where
it gives nothing but a type, that is the type already. -/

namespace OpenLaunch.Memories

open Python Transition

variable {V : Type}

/-! ## Agreement -/

/-- The item has the text, the type and the path of the memory. -/
structure Item.Describes (item : Item V) (m : Memory) : Prop where
  text : memory_vector_text m.content m.path = .ok item.text
  type : item.metadata.type = m.type
  path : item.metadata.path = m.path

/-- **The collection of the user agrees with the table**: an item for each memory, and no other. -/
structure Agrees (user_id : String) (table : Table) (items : Collection V) : Prop where
  each : ∀ m ∈ table.rows, m.user_id = user_id →
    ∃ item, items.get? m.id = some item ∧ item.Describes m
  only : ∀ id item, items.get? id = some item → ∃ m ∈ table.rows, m.user_id = user_id ∧ m.id = id

section

variable {user_id : String} {t t' : Table} {items items' : Collection V} {m r : Memory}
  {item : Item V}

/-- What is found under each id decides. -/
theorem Agrees.congr (h : Agrees user_id t items) (hsame : ∀ id, items'.get? id = items.get? id) :
    Agrees user_id t items' where
  each m hm huser := by
    obtain ⟨item, hitem, hdescribes⟩ := h.each m hm huser
    exact ⟨item, (hsame m.id).trans hitem, hdescribes⟩
  only id item hitem := h.only id item ((hsame id).symm.trans hitem)

theorem Collection.get?_delete (ids : List String) (id : String) :
    (items.delete ids).get? id = if id ∈ ids then none else items.get? id := by
  induction ids generalizing items with
  | nil => simp [Collection.delete]
  | cons x ids ih =>
    show (Collection.delete (items.erase x) ids).get? id = _
    rw [ih, Dict.get?_erase]
    by_cases hx : id = x
    · simp [hx]
    · by_cases hids : id ∈ ids
      · simp [hids]
      · simp [hids, hx]

theorem Agrees.insert (h : Agrees user_id t items) (hinsert : t.insert m = some t')
    (huser : m.user_id = user_id) (hitem : item.Describes m) :
    Agrees user_id t' (items.set m.id item) := by
  obtain ⟨hnew, hrows⟩ := Table.insert_eq_some.mp hinsert
  refine ⟨fun x hx hxuser => ?_, fun id x hx => ?_⟩
  · rw [hrows, List.mem_append, List.mem_singleton] at hx
    rcases hx with hx | rfl
    · obtain ⟨item', hget, hdescribes⟩ := h.each x hx hxuser
      have hne : x.id ≠ m.id := by
        intro heq
        exact hnew (heq ▸ List.mem_map_of_mem hx)
      exact ⟨item', (Dict.get?_set_ne _ hne _).trans hget, hdescribes⟩
    · exact ⟨item, Dict.get?_set_self .., hitem⟩
  · rw [hrows]
    rw [Dict.get?_set] at hx
    split_ifs at hx with heq
    · exact ⟨m, List.mem_append_right _ (List.mem_singleton.mpr rfl), huser, heq.symm⟩
    · obtain ⟨x', hx', hxuser, hid⟩ := h.only id x hx
      exact ⟨x', List.mem_append_left _ hx', hxuser, hid⟩

/-- The row of a memory changes, and its item with it or not. -/
theorem Agrees.update (h : Agrees user_id t items) (hr : r ∈ t.rows) (hid : m.id = r.id)
    (huser : m.user_id = user_id)
    (hsame : ∀ id ≠ m.id, items'.get? id = items.get? id)
    (hitem : items'.get? m.id = some item) (hdescribes : item.Describes m) :
    Agrees user_id (t.update m) items' := by
  have hmem : m.id ∈ t.rows.map Memory.id := hid ▸ List.mem_map_of_mem hr
  refine ⟨fun x hx hxuser => ?_, fun id x hx => ?_⟩
  · rcases (Table.mem_update hmem).mp hx with rfl | ⟨hx, hne⟩
    · exact ⟨item, hitem, hdescribes⟩
    · obtain ⟨item', hget, hx'⟩ := h.each x hx hxuser
      exact ⟨item', (hsame x.id hne).trans hget, hx'⟩
  · by_cases heq : id = m.id
    · exact ⟨m, (Table.mem_update hmem).mpr (.inl rfl), huser, heq.symm⟩
    · rw [hsame id heq] at hx
      obtain ⟨x', hx', hxuser, rfl⟩ := h.only id x hx
      exact ⟨x', (Table.mem_update hmem).mpr (.inr ⟨hx', heq⟩), hxuser, rfl⟩

theorem Agrees.remove (h : Agrees user_id t items) (ids : List String) :
    Agrees user_id (t.remove ids) (items.delete ids) := by
  refine ⟨fun x hx hxuser => ?_, fun id x hx => ?_⟩
  · obtain ⟨hx, hids⟩ := List.mem_filter.mp hx
    obtain ⟨item, hget, hdescribes⟩ := h.each x hx hxuser
    exact ⟨item, by rw [Collection.get?_delete, if_neg (of_decide_eq_true hids), hget], hdescribes⟩
  · rw [Collection.get?_delete] at hx
    split_ifs at hx with hids
    obtain ⟨x', hx', hxuser, rfl⟩ := h.only id x hx
    exact ⟨x', List.mem_filter.mpr ⟨hx', decide_eq_true hids⟩, hxuser, rfl⟩

/-- The path of a memory that has an item can be cleaned. -/
def Cleans (path : Option (List Char)) : Prop := ∃ value, clean_memory_path path = .ok value

instance (path : Option (List Char)) : Decidable (Cleans path) :=
  match h : clean_memory_path path with
  | .ok value => isTrue ⟨value, h⟩
  | .error e => isFalse fun ⟨value, h'⟩ => by rw [h] at h'; cases h'

theorem Item.Describes.cleans (h : item.Describes m) : Cleans m.path := by
  obtain ⟨value, hvalue, -⟩ := bind_eq_ok.mp h.text
  exact ⟨value, hvalue⟩

/-- A memory whose path can be cleaned gets an item that describes it. -/
theorem exists_memoryItem (embed : List Char → V) (h : Cleans m.path) :
    ∃ item, memoryItem embed m = .ok (m.id, item) ∧ item.Describes m := by
  obtain ⟨value, hvalue⟩ := h
  obtain ⟨text, htext⟩ : ∃ text, memory_vector_text m.content m.path = .ok text :=
    ⟨_, bind_eq_ok.mpr ⟨value, hvalue, rfl⟩⟩
  exact ⟨⟨text, embed text, memory_metadata m⟩, bind_eq_ok.mpr ⟨text, htext, rfl⟩, htext, rfl, rfl⟩

end

/-! ## Batches -/

/-- **What a batch has gathered agrees with the session**: the items to upsert are in `items`, and
`ids` are to be deleted, which wait for their deletion or are gone. -/
structure Gathered (user_id : String) (s : Session) (items : Collection V) (ids : List String) :
    Prop where
  agrees : Agrees user_id s.flush.table (items.delete ids)
  waits : s.deleted ⊆ ids
  gone : ∀ id ∈ ids, id ∈ s.deleted ∨ id ∉ s.table.rows.map Memory.id

section

variable {user_id : String} {now : ℤ} {t : Table} {s s' : Session} {items : Collection V}
  {ids : List String} {m r : Memory} {item : Item V}

theorem Table.mem_ids_remove {id : String} :
    id ∈ (t.remove ids).rows.map Memory.id ↔ id ∈ t.rows.map Memory.id ∧ id ∉ ids := by
  simp only [remove, List.mem_map, List.mem_filter, decide_eq_true_eq]
  constructor
  · rintro ⟨m, ⟨hm, hids⟩, rfl⟩
    exact ⟨⟨m, hm, rfl⟩, hids⟩
  · rintro ⟨⟨m, hm, rfl⟩, hids⟩
    exact ⟨m, ⟨hm, hids⟩, rfl⟩

theorem Table.update_of_not_mem (h : m.id ∉ t.rows.map Memory.id) : t.update m = t := by
  have hsame : ∀ r ∈ t.rows, (if r.id = m.id then m else r) = r := by
    intro r hr
    refine if_neg fun heq => h ?_
    rw [← heq]
    exact List.mem_map_of_mem hr
  exact Table.ext ((List.map_congr_left hsame).trans (List.map_id'' (fun _ => rfl) _))

theorem Gathered.created (h : Gathered user_id s items ids)
    (hinsert : s.flush.table.insert m = some t) (huser : m.user_id = user_id)
    (hitem : item.Describes m) (hfresh : m.id ∉ ids) :
    Gathered user_id ⟨t, []⟩ (items.set m.id item) ids := by
  constructor
  · show Agrees user_id (t.remove []) _
    rw [Table.remove_nil]
    refine (h.agrees.insert hinsert huser hitem).congr fun id => ?_
    simp only [Collection.get?_delete, Dict.get?_set]
    by_cases hid : id = m.id
    · subst hid
      rw [if_neg hfresh, if_pos rfl, if_pos rfl]
    · simp only [if_neg hid]
  · exact List.nil_subset ids
  · intro id hid
    refine .inr fun hmem => ?_
    rw [(Table.insert_eq_some.mp hinsert).2, List.map_append, List.mem_append, List.map_singleton,
      List.mem_singleton] at hmem
    rcases hmem with hmem | rfl
    · obtain ⟨hmem, hdeleted⟩ := Table.mem_ids_remove.mp hmem
      exact (h.gone id hid).elim hdeleted fun hnot => hnot hmem
    · exact hfresh hid

theorem Gathered.updated (h : Gathered user_id s items ids) (hr : r ∈ s.table.rows)
    (hid : m.id = r.id) (huser : m.user_id = user_id) (hitem : item.Describes m) :
    Gathered user_id (Session.flush ⟨s.table.update m, s.deleted⟩) (items.set m.id item) ids := by
  constructor
  · show Agrees user_id (((s.table.update m).remove s.deleted).remove []) _
    rw [Table.remove_nil, Table.update_remove]
    by_cases hdeleted : r.id ∈ s.deleted
    · -- the flush deletes the row, and the item goes with it
      have hnot : m.id ∉ (s.table.remove s.deleted).rows.map Memory.id := fun hmem =>
        (Table.mem_ids_remove.mp hmem).2 (hid ▸ hdeleted)
      rw [Table.update_of_not_mem hnot]
      refine h.agrees.congr fun id => ?_
      simp only [Collection.get?_delete, Dict.get?_set]
      by_cases heq : id = m.id
      · rw [if_pos (heq ▸ hid ▸ h.waits hdeleted), if_pos (heq ▸ hid ▸ h.waits hdeleted)]
      · rw [if_neg heq]
    · have hids : m.id ∉ ids := by
        intro hmem
        rcases h.gone m.id hmem with hd | hnot
        · exact hdeleted (hid ▸ hd)
        · exact hnot (hid ▸ List.mem_map_of_mem hr)
      refine h.agrees.update (List.mem_filter.mpr ⟨hr, decide_eq_true hdeleted⟩) hid huser ?_ ?_
        hitem
      · intro id hne
        rw [Collection.get?_delete, Collection.get?_delete, Dict.get?_set_ne _ hne]
      · rw [Collection.get?_delete, if_neg hids, Dict.get?_set_self]
  · exact List.nil_subset ids
  · intro id hmem
    refine .inr fun hmem' => ?_
    obtain ⟨hmem', hdeleted⟩ := Table.mem_ids_remove.mp hmem'
    rw [Table.update, Table.map_id_update] at hmem'
    exact (h.gone id hmem).elim hdeleted fun hnot => hnot hmem'

theorem Gathered.deleted (h : Gathered user_id s items ids) (id : String) :
    Gathered user_id ⟨s.table, id :: s.deleted⟩ items (id :: ids) := by
  constructor
  · show Agrees user_id (s.table.remove (id :: s.deleted)) _
    rw [← Table.remove_remove]
    refine (h.agrees.remove [id]).congr fun x => ?_
    simp only [Collection.get?_delete, List.mem_cons, List.not_mem_nil, or_false]
    split_ifs <;> tauto
  · exact List.cons_subset_cons id h.waits
  · intro x hx
    rcases List.mem_cons.mp hx with rfl | hx
    · exact .inl (List.mem_cons_self ..)
    · exact (h.gone x hx).imp_left (List.mem_cons_of_mem _)

/-- A path that an operation stores can be cleaned once more. -/
def Operation.StoresCleanPath (op : Operation) : Prop :=
  op.action ≠ .remove → Cleans op.path.join

theorem Operation.StoresCleanPath.stamp {op : Operation} (h : op.StoresCleanPath)
    (metadata : Dict String Json) : (op.stamp metadata).StoresCleanPath := by
  obtain ⟨action, id, content, type, path, previous⟩ := op
  cases action <;> exact h

/-- One operation: what its result adds agrees again. -/
theorem Gathered.step (embed : List Char → V) {op : Operation} {uuid4 : String} {result : Result}
    (h : Gathered user_id s items ids) (hop : op.Validated) (hclean : op.StoresCleanPath)
    (hfresh : uuid4 ∉ ids)
    (happly : apply_memory_operation user_id now op uuid4 s = .ok (result, s')) :
    ∃ new old, (∀ results, indexResults embed (result :: results) =
        (fun r => (new ++ r.1, old ++ r.2)) <$> indexResults embed results) ∧
      Gathered user_id s' (Collection.upsert items new) (old ++ ids) ∧
      ∀ id ∈ old, op.id = some id := by
  rcases apply_memory_operation_cases happly with ⟨m, rfl, rfl⟩ |
    ⟨m, t, haction, rfl, rfl, huser, hpath, hinsert, rfl⟩ |
    ⟨action, r, m, haction, rfl, hown, hid, huser, hpath, rfl⟩ | ⟨r, haction, rfl, hown, rfl⟩
  · exact ⟨[], [], fun results => (id_map _).symm, h, fun id hid => by cases hid⟩
  · obtain ⟨item, hitem, hdescribes⟩ :=
      exists_memoryItem embed (hpath ▸ hclean haction : Cleans m.path)
    refine ⟨[(m.id, item)], [], fun results => ?_, h.created hinsert huser hdescribes hfresh,
      fun id hid => by cases hid⟩
    rw [indexResults, hitem]
    rfl
  · obtain ⟨item, hitem, hdescribes⟩ :=
      exists_memoryItem embed (hpath hop.path ▸ hclean haction : Cleans m.path)
    obtain ⟨hr, -, hruser⟩ := Table.own_eq_some.mp hown
    refine ⟨[(m.id, item)], [], fun results => ?_,
      h.updated hr hid (huser.trans hruser) hdescribes, fun id hid => by cases hid⟩
    rw [indexResults, hitem]
    rfl
  · obtain ⟨-, hid, -⟩ := Table.own_eq_some.mp hown
    obtain ⟨name, hname, hne⟩ := hop.id (by rw [haction]; nofun)
    have heq : r.id = name := Option.some.inj (hid.symm.trans hname)
    refine ⟨[], [r.id], fun results => ?_, h.deleted r.id, ?_⟩
    · have hlacks : lacksId op.id = false := by
        rw [hid, lacksId]
        simp [heq, hne]
      rw [indexResults, hlacks, hid]
      rfl
    · intro id hid'
      rw [List.mem_singleton.mp hid', hid]

/-- The order in which ids are deleted makes no difference. -/
theorem Gathered.congr {ids' : List String} (h : Gathered user_id s items ids)
    (hids : ∀ id, id ∈ ids' ↔ id ∈ ids) : Gathered user_id s items ids' where
  agrees := h.agrees.congr fun id => by simp only [Collection.get?_delete, hids]
  waits id hid := (hids id).mpr (h.waits hid)
  gone id hid := h.gone id ((hids id).mp hid)

/-- **The loop gathers what agrees with the session.** -/
theorem Gathered.applyAll (embed : List Char → V) {batch : List (Operation × String)}
    {results : List Result} (h : Gathered user_id s items ids)
    (hop : ∀ e ∈ batch, e.1.Validated ∧ e.1.StoresCleanPath) (hfresh : ∀ e ∈ batch, e.2 ∉ ids)
    (hnames : ∀ e ∈ batch, ∀ e' ∈ batch, e.1.id ≠ some e'.2)
    (happly : applyAll user_id now batch s = .ok (results, s')) :
    ∃ new old, indexResults embed results = .ok (new, old) ∧
      Gathered user_id s' (Collection.upsert items new) (old ++ ids) := by
  induction batch generalizing s items ids results with
  | nil =>
    cases happly
    exact ⟨[], [], rfl, h⟩
  | cons e batch ih =>
    obtain ⟨op, uuid4⟩ := e
    rw [List.forall_mem_cons] at hop hfresh
    rw [Memories.applyAll] at happly
    obtain ⟨⟨result, s₁⟩, hfirst, happly⟩ := bind_eq_ok.mp happly
    obtain ⟨⟨rest, s₂⟩, hrest, happly⟩ := bind_eq_ok.mp happly
    cases happly
    obtain ⟨new, old, hresult, hs₁, hold⟩ := h.step embed hop.1.1 hop.1.2 hfresh.1 hfirst
    have hfresh₁ : ∀ e ∈ batch, e.2 ∉ old ++ ids := by
      intro e he hmem
      rcases List.mem_append.mp hmem with hmem | hmem
      · exact hnames (op, uuid4) (List.mem_cons_self ..) e (List.mem_cons_of_mem _ he)
          (hold e.2 hmem)
      · exact hfresh.2 e he hmem
    obtain ⟨new', old', hresults, hs'⟩ := ih hs₁ hop.2 hfresh₁
      (fun e he e' he' => hnames e (List.mem_cons_of_mem _ he) e' (List.mem_cons_of_mem _ he')) hrest
    refine ⟨new ++ new', old ++ old', by rw [hresult, hresults]; rfl, ?_⟩
    rw [Collection.upsert, List.foldl_append]
    refine hs'.congr fun id => ?_
    simp only [List.mem_append]
    tauto

end

/-! ## Requests -/

/-- A path that is stored after it has been cleaned can be cleaned once more. -/
def CleansTwice (path : Option (List Char)) : Prop :=
  match clean_memory_path path with
  | .ok value => Cleans value
  | .error _ => True

instance (path : Option (List Char)) : Decidable (CleansTwice path) := by
  unfold CleansTwice
  cases clean_memory_path path <;> dsimp only <;> infer_instance

instance (op : Operation) : Decidable op.StoresCleanPath :=
  inferInstanceAs (Decidable (_ → _))

/-- **The request keeps vectors and memories in agreement**: the paths it stores can be cleaned once
more, and a request that gives a type only gives the type that the memory has. -/
def Store.KeepsIndex (user_id : String) (s : Store V) (e : ℤ × Request) : Prop :=
  match e.2 with
  | .add_memory _ _ path _ => CleansTwice path
  | .update_memories batch =>
    match validate_memory_operations (batch.entries.map Prod.fst) with
    | .ok operations => ∀ op ∈ operations, op.StoresCleanPath
    | .error _ => True
  | .update_memory_by_id memory_id form_data =>
    ∀ m ∈ s.table.own user_id (some memory_id), CleansTwice form_data.path ∧
      (form_data.content = none → form_data.path = none →
        ∀ type ∈ form_data.type, normalize_memory_type (some type) = m.type)
  | .delete_memory_by_id _ | .delete_memory_by_user_id | .reset_memory_from_vector_db => True

instance (user_id : String) (s : Store V) (e : ℤ × Request) :
    Decidable (s.KeepsIndex user_id e) := by
  unfold Store.KeepsIndex
  obtain ⟨now, request⟩ := e
  cases request with
  | update_memories batch =>
    dsimp only
    cases validate_memory_operations (batch.entries.map Prod.fst) <;> dsimp only <;> infer_instance
  | _ => dsimp only; infer_instance

section

variable {embed : List Char → V} {user_id : String} {now : ℤ} {s : Store V}

theorem agrees_add_memory {content : List Char} {type : MemoryType} {path : Option (List Char)}
    {uuid4 : String} (h : Agrees user_id s.table s.items) (hclean : CleansTwice path) :
    Agrees user_id (add_memory embed user_id now content type path uuid4 s).2.table
      (add_memory embed user_id now content type path uuid4 s).2.items := by
  unfold add_memory
  split
  · exact h
  · exact h
  case h_3 value cleaned _ hpath =>
    dsimp only
    split
    · exact h
    case h_2 table hinsert =>
      rw [CleansTwice, hpath] at hclean
      obtain ⟨item, hitem, hdescribes⟩ := exists_memoryItem (m :=
        { id := uuid4, user_id := user_id, type := normalize_memory_type (some type),
          path := cleaned, content := value, metadata := some manual, updated_at := now,
          created_at := now })
        embed hclean
      rw [hitem]
      exact h.insert hinsert rfl hdescribes

theorem agrees_update_memories {batch : Batch} (h : Agrees user_id s.table s.items)
    (hclean : ∀ operations,
      validate_memory_operations (batch.entries.map Prod.fst) = .ok operations →
        ∀ op ∈ operations, op.StoresCleanPath) :
    Agrees user_id (update_memories embed user_id now batch s).2.table
      (update_memories embed user_id now batch s).2.items := by
  unfold update_memories
  split
  · exact h
  case h_2 operations hvalid =>
    dsimp only
    split
    case h_1 e table happly =>
      rw [rollback_apply_memory_operations happly]
      exact h
    case h_2 results table happly =>
      obtain ⟨s', hall, rfl⟩ := apply_memory_operations_eq_ok.mp happly
      have hbegin : Gathered user_id ⟨s.table, []⟩ s.items [] := by
        refine ⟨?_, List.nil_subset _, fun id hid => by cases hid⟩
        show Agrees user_id (s.table.remove []) s.items
        rw [Table.remove_nil]
        exact h
      have hop : ∀ e ∈ (operations.map (Operation.stamp batch.metadata)).zip
          (batch.entries.map Prod.snd), e.1.Validated ∧ e.1.StoresCleanPath := by
        intro e he
        obtain ⟨op, hop, heq⟩ := List.mem_map.mp (List.of_mem_zip he).1
        rw [← heq]
        exact ⟨(validated_of_validate_memory_operations hvalid op hop).1.stamp _,
          Operation.StoresCleanPath.stamp (hclean operations hvalid op hop) _⟩
      have hnames : ∀ e ∈ (operations.map (Operation.stamp batch.metadata)).zip
          (batch.entries.map Prod.snd), ∀ e' ∈ (operations.map (Operation.stamp batch.metadata)).zip
          (batch.entries.map Prod.snd), e.1.id ≠ some e'.2 := by
        intro e he e' he' heq
        obtain ⟨op, hop, hstamp⟩ := List.mem_map.mp (List.of_mem_zip he).1
        obtain ⟨-, operation, hoperation, hid⟩ :=
          validated_of_validate_memory_operations hvalid op hop
        obtain ⟨entry, hentry, rfl⟩ := List.mem_map.mp hoperation
        obtain ⟨entry', hentry', huuid⟩ := List.mem_map.mp (List.of_mem_zip he').2
        refine batch.fresh entry hentry entry' hentry' ?_
        rw [huuid, ← heq, ← hstamp, Operation.id_stamp, hid]
      obtain ⟨new, old, hindex, hgathered⟩ := hbegin.applyAll embed hop
        (fun e _ hmem => by cases hmem) hnames hall
      rw [hindex]
      rw [List.append_nil] at hgathered
      exact hgathered.agrees

theorem agrees_update_memory_by_id {memory_id : String} {form_data : MemoryUpdateModel}
    (h : Agrees user_id s.table s.items)
    (hkeeps : s.KeepsIndex user_id (now, .update_memory_by_id memory_id form_data)) :
    Agrees user_id (update_memory_by_id embed user_id now memory_id form_data s).2.table
      (update_memory_by_id embed user_id now memory_id form_data s).2.items := by
  unfold update_memory_by_id
  split
  · exact h
  · exact h
  case h_3 content path hcontent hpath =>
    split
    · exact h
    · split
      · exact h
      case h_2 m hown =>
        obtain ⟨hclean, htype⟩ := hkeeps m hown
        obtain ⟨hm, -, huser⟩ := Table.own_eq_some.mp hown
        obtain ⟨item, hitem, hdescribes⟩ := h.each m hm huser
        dsimp only
        split
        · have hcleans :
              Cleans (m.updated now content form_data.type path form_data.path.isSome).path := by
            rw [CleansTwice, hpath] at hclean
            show Cleans (if _ then _ else _)
            split_ifs
            · exact hclean
            · exact hdescribes.cleans
          obtain ⟨item', hitem', hdescribes'⟩ := exists_memoryItem embed hcleans
          rw [hitem']
          refine h.update hm rfl huser (fun id hne => Dict.get?_set_ne _ hne _)
            (Dict.get?_set_self ..) hdescribes'
        case isFalse hnone =>
          -- only the type is given, and it is the one that the item has
          rw [not_or, Option.not_isSome_iff_eq_none, Option.not_isSome_iff_eq_none] at hnone
          refine h.update hm rfl huser (fun id hne => rfl) hitem ?_
          obtain ⟨hcontentNone, hpathNone⟩ := hnone
          have hsame : (m.updated now content form_data.type path form_data.path.isSome).type =
              m.type := by
            cases hform : form_data.type with
            | none => rfl
            | some type => exact htype hcontentNone hpathNone type hform
          rw [hcontentNone] at hcontent
          cases hcontent
          rw [hpathNone]
          exact ⟨hdescribes.text, hdescribes.type.trans hsame.symm, hdescribes.path⟩

theorem agrees_delete_memory_by_id {memory_id : String} (h : Agrees user_id s.table s.items) :
    Agrees user_id (delete_memory_by_id user_id memory_id s).2.table
      (delete_memory_by_id user_id memory_id s).2.items := by
  unfold delete_memory_by_id
  split
  · exact h
  · exact h.remove [memory_id]

theorem agrees_delete_memory_by_user_id :
    Agrees user_id (delete_memory_by_user_id user_id s).2.table
      (delete_memory_by_user_id user_id s).2.items := by
  refine ⟨fun m hm huser => ?_, fun id item hitem => by cases hitem⟩
  obtain ⟨hm, hids⟩ := List.mem_filter.mp hm
  refine absurd (List.mem_map_of_mem ?_) (of_decide_eq_true hids)
  exact List.mem_filter.mpr ⟨hm, decide_eq_true huser⟩

/-- Items of rows with different ids are found under their ids. -/
theorem get?_upsert_of_mapM (items : Collection V) {rows : List Memory}
    {new : List (String × Item V)}
    (hids : (rows.map Memory.id).Nodup) (h : rows.mapM (memoryItem embed) = .ok new) :
    (∀ m ∈ rows, ∃ item, Dict.get? (items.upsert new) m.id = some item ∧ item.Describes m) ∧
      ∀ id ∉ rows.map Memory.id, Dict.get? (items.upsert new) id = items.get? id := by
  induction rows generalizing items new with
  | nil =>
    cases h
    exact ⟨List.forall_mem_nil _, fun _ _ => rfl⟩
  | cons m rows ih =>
    rw [List.mapM_cons] at h
    obtain ⟨⟨id, item⟩, hitem, h⟩ := bind_eq_ok.mp h
    obtain ⟨rest, hrest, h⟩ := bind_eq_ok.mp h
    cases h
    obtain ⟨text, htext, hitem⟩ := bind_eq_ok.mp hitem
    cases hitem
    rw [List.map_cons, List.nodup_cons] at hids
    obtain ⟨heach, hother⟩ := ih (items.set m.id ⟨text, embed text, memory_metadata m⟩)
      hids.2 hrest
    constructor
    · rw [List.forall_mem_cons]
      refine ⟨⟨_, (hother m.id hids.1).trans (Dict.get?_set_self ..), htext, rfl, rfl⟩, heach⟩
    · intro id hid
      rw [List.map_cons, List.mem_cons, not_or] at hid
      exact (hother id hid.2).trans (Dict.get?_set_ne _ hid.1 _)

theorem exists_mapM_memoryItem (embed : List Char → V) {rows : List Memory}
    (h : ∀ m ∈ rows, Cleans m.path) : ∃ new, rows.mapM (memoryItem embed) = .ok new := by
  induction rows with
  | nil => exact ⟨[], rfl⟩
  | cons m rows ih =>
    rw [List.forall_mem_cons] at h
    obtain ⟨item, hitem, -⟩ := exists_memoryItem embed h.1
    obtain ⟨new, hnew⟩ := ih h.2
    exact ⟨(m.id, item) :: new, by rw [List.mapM_cons, hitem, hnew]; rfl⟩

theorem agrees_reset_memory_from_vector_db (h : Agrees user_id s.table s.items) :
    Agrees user_id (reset_memory_from_vector_db embed user_id s).2.table
      (reset_memory_from_vector_db embed user_id s).2.items := by
  have hcleans : ∀ m ∈ s.table.memoriesOf user_id, Cleans m.path := by
    intro m hm
    obtain ⟨hm, huser⟩ := List.mem_filter.mp hm
    obtain ⟨item, -, hdescribes⟩ := h.each m hm (of_decide_eq_true huser)
    exact hdescribes.cleans
  obtain ⟨new, hnew⟩ := exists_mapM_memoryItem embed hcleans
  have hids : ((s.table.memoriesOf user_id).map Memory.id).Nodup :=
    s.table.ids.sublist (List.filter_sublist.map Memory.id)
  unfold reset_memory_from_vector_db
  rw [hnew]
  obtain ⟨heach, hother⟩ := get?_upsert_of_mapM Dict.empty hids hnew
  refine ⟨fun m hm huser => heach m (List.mem_filter.mpr ⟨hm, decide_eq_true huser⟩), ?_⟩
  intro id item hitem
  by_contra hnot
  have hid : id ∉ (s.table.memoriesOf user_id).map Memory.id := by
    intro hmem
    obtain ⟨m, hm, rfl⟩ := List.mem_map.mp hmem
    obtain ⟨hm, huser⟩ := List.mem_filter.mp hm
    exact hnot ⟨m, hm, of_decide_eq_true huser, rfl⟩
  have hget := (hother id hid).symm.trans hitem
  cases hget

/-- **Every request that keeps the index leaves vectors and memories in agreement.** -/
theorem agrees_step {e : ℤ × Request} {s' : Store V} (h : Agrees user_id s.table s.items)
    (hkeeps : s.KeepsIndex user_id e) (hstep : s.step embed user_id e = some s') :
    Agrees user_id s'.table s'.items := by
  obtain ⟨now, request⟩ := e
  cases hstep
  cases request with
  | add_memory content type path uuid4 => exact agrees_add_memory h hkeeps
  | update_memories batch =>
    refine agrees_update_memories h fun operations hvalid => ?_
    simp only [Store.KeepsIndex, hvalid] at hkeeps
    exact hkeeps
  | update_memory_by_id memory_id form_data => exact agrees_update_memory_by_id h hkeeps
  | delete_memory_by_id memory_id => exact agrees_delete_memory_by_id h
  | delete_memory_by_user_id => exact agrees_delete_memory_by_user_id
  | reset_memory_from_vector_db => exact agrees_reset_memory_from_vector_db h

/-- **Over every run of requests that keep the index, the collection agrees with the table.** -/
theorem stepsMeet_agrees {events : List (ℤ × Request)} {s' : Store V}
    (h : Agrees user_id s.table s.items)
    (hkeeps : StepsMeet (Store.step embed user_id) (Store.KeepsIndex user_id) s events)
    (hrun : exec (Store.step embed user_id) s events = some s') :
    Agrees user_id s'.table s'.items :=
  exec_invariant_of_stepsMeet (P := fun s => Agrees user_id s.table s.items)
    (fun _ _ _ h hkeeps hstep => agrees_step h hkeeps hstep) h hkeeps hrun

end

/-! ## Instances -/

/-- Nothing is stored. -/
def emptyStore : Store Unit := ⟨⟨[], List.nodup_nil⟩, Dict.empty⟩

theorem agrees_emptyStore (user_id : String) :
    Agrees user_id emptyStore.table emptyStore.items :=
  ⟨nofun, nofun⟩

/-- The memory is changed twice in a batch that adds another one, and removed by the next. -/
def indexedRequests : List (ℤ × Request) :=
  [(0, .add_memory "tea".toList .context (some "/x".toList) "a"),
    (1, .update_memories
      { entries :=
          [({ action := .replace, id := some "a", content := some "cat".toList,
              type := some .user, path := none }, "1"),
            ({ action := .add, id := none, content := some "tea".toList, type := none,
                path := none }, "b"),
            ({ action := .move, id := some "a", content := none, type := none,
                path := some "y".toList }, "2")],
        metadata := Dict.empty, fresh := by decide }),
    (2, .update_memory_by_id "b" ⟨some "dog".toList, some .user, none⟩),
    (3, .reset_memory_from_vector_db),
    (4, .delete_memory_by_id "a")]

theorem indexed_requests_agree :
    ∃ s', exec (Store.step (fun _ => ()) "u") emptyStore indexedRequests = some s' ∧
      s'.table.rows.length = 1 ∧ Agrees "u" s'.table s'.items :=
  have hkeeps : StepsMeet (Store.step (fun _ => ()) "u") (Store.KeepsIndex "u") emptyStore
      indexedRequests := by decide
  ⟨_, rfl, by decide, stepsMeet_agrees (agrees_emptyStore "u") hkeeps rfl⟩

theorem Agrees.type_eq {user_id : String} {t : Table} {items : Collection V}
    (h : Agrees user_id t items) :
    ∀ m ∈ t.rows, m.user_id = user_id →
      (items.get? m.id).map (fun item => item.metadata.type) = some m.type := by
  intro m hm huser
  obtain ⟨item, hitem, hdescribes⟩ := h.each m hm huser
  rw [hitem]
  exact congrArg some hdescribes.type

/-- A request that gives another type, and one that adds a memory under a path which cannot be
cleaned again. -/
theorem vectors_fall_behind :
    (∃ s', exec (Store.step (fun _ => ()) "u") emptyStore
        [(0, .add_memory "tea".toList .context none "a"),
          (1, .update_memory_by_id "a" ⟨none, some .user, none⟩)] = some s' ∧
      ¬ Agrees "u" s'.table s'.items) ∧
    ∃ s', exec (Store.step (fun _ => ()) "u") emptyStore
        [(0, .add_memory "tea".toList .context (some "/ ./x".toList) "a")] = some s' ∧
      ¬ Agrees "u" s'.table s'.items := by
  refine ⟨⟨_, rfl, fun h => ?_⟩, _, rfl, fun h => ?_⟩
  · exact absurd h.type_eq (by decide)
  · exact absurd h.type_eq (by decide)

end OpenLaunch.Memories
