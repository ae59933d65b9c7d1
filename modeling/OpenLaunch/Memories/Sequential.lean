import OpenLaunch.Memories.Batches
import OpenLaunch.Transition

/-! # Batches against their operations one by one

The operations of a batch, each applied to the table that the one before it leaves, and the batches
that a session carries out as if it did that. The two differ where an operation names a memory whose
deletion still waits, where the duplicate of a new memory is one of those, and where a `replace`
gives no path. -/

namespace OpenLaunch.Memories

open Python Transition

variable (user_id : String) (now : ℤ)

/-! ## One operation after the other -/

/-- What an operation does to the table by itself. A `replace` changes what it gives. -/
def applySequentially (t : Table) (e : Operation × String) : Option Table :=
  match e.1.action with
  | .add =>
    let content := e.1.content.getD []
    let memory_type := e.1.type.getD .context
    if ∃ m ∈ t.rows, m.Duplicates user_id content memory_type e.1.path.join then some t
    else t.insert
      { id := e.2, user_id := user_id, type := memory_type, path := e.1.path.join,
        content := content, metadata := e.1.metadata, updated_at := now, created_at := now }
  | .replace => (t.own user_id e.1.id).map fun m => t.update { m with
      content := e.1.content.getD m.content
      type := e.1.type.getD m.type
      path := e.1.path.join.or m.path
      metadata := merge_metadata m.metadata e.1.metadata
      updated_at := now }
  | .move => (t.own user_id e.1.id).map fun m => t.update { m with
      path := e.1.path.join
      metadata := merge_metadata m.metadata e.1.metadata
      updated_at := now }
  | .remove => (t.own user_id e.1.id).map fun m => t.remove [m.id]

/-- A round of the loop, as a step of the session. -/
def Session.step (s : Session) (e : Operation × String) : Option Session :=
  match apply_memory_operation user_id now e.1 e.2 s with
  | .ok (_, s') => some s'
  | .error _ => none

/-- The rows that a session leaves if it commits now. -/
def Session.visible (s : Session) : Table := s.flush.table

/-- **The operation means the same in the session as by itself.** A memory it names is not one that
waits for its deletion, nor are all the duplicates of the one it adds, and a `replace` gives a path
unless there is none. -/
def Session.InOrder (s : Session) (e : Operation × String) : Prop :=
  match e.1.action with
  | .add =>
    let content := strip (e.1.content.getD [])
    let memory_type := normalize_memory_type e.1.type
    (∃ m ∈ s.table.rows, m.Duplicates user_id content memory_type e.1.path.join) →
      ∃ m ∈ s.visible.rows, m.Duplicates user_id content memory_type e.1.path.join
  | .replace => ∀ m ∈ s.table.own user_id e.1.id,
      m.id ∉ s.deleted ∧ (e.1.path.join = none → m.path = none)
  | .move | .remove => ∀ m ∈ s.table.own user_id e.1.id, m.id ∉ s.deleted

instance (s : Session) (e : Operation × String) : Decidable (s.InOrder user_id e) := by
  unfold Session.InOrder
  cases e.1.action <;> dsimp only <;> infer_instance

/-! ## Rows that wait for their deletion -/

section

variable {user_id} {now} {t : Table} {s : Session} {m : Memory}

/-- Updates of the same row that agree are the same. -/
theorem Table.update_inj {m' : Memory} (hm : m.id ∈ t.rows.map Memory.id) (hid : m'.id = m.id) :
    t.update m = t.update m' ↔ m = m' := by
  constructor
  · intro h
    have hmem : m ∈ (t.update m').rows := h ▸ (mem_update hm).mpr (.inl rfl)
    rcases (mem_update (hid ▸ hm)).mp hmem with rfl | ⟨-, hne⟩
    · rfl
    · exact absurd hid.symm hne
  · rintro rfl
    rfl

theorem Session.visible_flush (t : Table) (deleted : List String) :
    (Session.flush ⟨t, deleted⟩).visible = t.remove deleted := Table.remove_nil

theorem normalize_memory_type_eq (type : Option MemoryType) :
    normalize_memory_type type = type.getD .context := by
  rcases type with _ | (_ | _) <;> rfl

/-! ## One round -/

/-- One operation of the loop is simulated where it means the same. -/
def Faithful (user_id : String) (now : ℤ) : Session → Operation × String → Prop :=
  Simulates (Session.step user_id now) (applySequentially user_id now) Session.visible

theorem faithful_iff_of_step {e : Operation × String} {s' : Session}
    (h : s.step user_id now e = some s') :
    Faithful user_id now s e ↔
      applySequentially user_id now s.visible e = some s'.visible := by
  constructor
  · intro hf
    exact hf s' h
  · intro hs s'' h'
    rw [h] at h'
    rw [hs, Option.some.inj h']

theorem faithful_of_step_eq_none {e : Operation × String} (h : s.step user_id now e = none) :
    Faithful user_id now s e := by
  intro s' h'
  rw [h] at h'
  cases h'

theorem faithful_add_iff {op : Operation} {uuid4 : String} (hop : op.Validated)
    (haction : op.action = .add) :
    Faithful user_id now s (op, uuid4) ↔ s.InOrder user_id (op, uuid4) := by
  obtain ⟨content, hcontent, hstrip, -⟩ := hop.content (.inl haction)
  simp only [Session.InOrder, haction, hcontent, Option.getD_some, hstrip]
  by_cases hdup : ∃ m ∈ s.table.rows,
      m.Duplicates user_id content (normalize_memory_type op.type) op.path.join
  · -- the query finds a duplicate, and the session stays as it is
    have hfind : ((s.table.rows.find? fun m =>
        m.Duplicates user_id content (normalize_memory_type op.type) op.path.join)).isSome := by
      rw [List.find?_isSome]
      obtain ⟨m, hm, hm'⟩ := hdup
      exact ⟨m, hm, decide_eq_true hm'⟩
    obtain ⟨existing, hexisting⟩ := Option.isSome_iff_exists.mp hfind
    have hstep : s.step user_id now (op, uuid4) = some s := by
      simp only [Session.step, apply_memory_operation, haction, Session.add, hcontent,
        Option.map_some, hstrip, hexisting]
    rw [faithful_iff_of_step hstep]
    simp only [applySequentially, haction, hcontent, Option.getD_some, ← normalize_memory_type_eq]
    constructor
    · intro h _
      by_contra hnot
      rw [if_neg hnot] at h
      have hlength := congrArg List.length (Table.insert_eq_some.mp h).2
      rw [List.length_append, List.length_singleton] at hlength
      omega
    · intro h
      rw [if_pos (h hdup)]
  · have hfind : (s.table.rows.find? fun m =>
        m.Duplicates user_id content (normalize_memory_type op.type) op.path.join) = none := by
      rw [List.find?_eq_none]
      intro m hm hm'
      exact hdup ⟨m, hm, of_decide_eq_true hm'⟩
    have hvisible : ¬ ∃ m ∈ s.visible.rows,
        m.Duplicates user_id content (normalize_memory_type op.type) op.path.join := by
      rintro ⟨m, hm, hm'⟩
      exact hdup ⟨m, List.mem_of_mem_filter hm, hm'⟩
    refine iff_of_true ?_ fun h => absurd h hdup
    intro s' hstep
    simp only [Session.step, apply_memory_operation, haction, Session.add, hcontent,
      Option.map_some, hstrip, hfind] at hstep
    simp only [applySequentially, haction, hcontent, Option.getD_some, ← normalize_memory_type_eq]
    rw [if_neg hvisible]
    show s.flush.table.insert _ = _
    cases hinsert : s.flush.table.insert
        { id := uuid4, user_id := user_id, type := normalize_memory_type op.type,
          path := op.path.join, content := content, metadata := op.metadata, updated_at := now,
          created_at := now } with
    | none =>
      rw [hinsert] at hstep
      cases hstep
    | some table =>
      rw [hinsert] at hstep
      cases hstep
      exact congrArg some Table.remove_nil.symm

theorem faithful_replace_iff {op : Operation} {uuid4 : String} (hop : op.Validated)
    (haction : op.action = .replace) :
    Faithful user_id now s (op, uuid4) ↔ s.InOrder user_id (op, uuid4) := by
  obtain ⟨content, hcontent, hstrip, -⟩ := hop.content (.inr haction)
  obtain ⟨path, hpath⟩ := Option.isSome_iff_exists.mp hop.path
  simp only [Session.InOrder, haction]
  cases hown : s.table.own user_id op.id with
  | none =>
    refine iff_of_true (faithful_of_step_eq_none ?_) fun m hm => by cases hm
    simp only [Session.step, apply_memory_operation, haction, Session.replace, hcontent,
      Option.map_some, hown]
  | some m =>
    have hstep : s.step user_id now (op, uuid4) = some (Session.flush ⟨s.table.update { m with
        content := content
        type := op.type.elim m.type fun type => normalize_memory_type (some type)
        path := path
        metadata := merge_metadata m.metadata op.metadata
        updated_at := now }, s.deleted⟩) := by
      simp only [Session.step, apply_memory_operation, haction, Session.replace, hcontent,
        Option.map_some, hown, hstrip, hpath, Option.getD_some]
    rw [faithful_iff_of_step hstep, Session.visible_flush, Table.update_remove]
    simp only [applySequentially, haction, hcontent, hpath, Option.getD_some, Option.join_some,
      Session.visible, Session.flush, Table.own_remove, hown]
    by_cases hdeleted : m.id ∈ s.deleted
    · -- the memory waits for its deletion: by itself, the operation does not find it
      rw [Option.filter_some_neg (by simpa using hdeleted)]
      refine iff_of_false nofun fun h => (h m rfl).1 hdeleted
    · rw [Option.filter_some_pos (by simpa using hdeleted), Option.map_some, Option.some.injEq]
      have hmem : m.id ∈ (s.table.remove s.deleted).rows.map Memory.id :=
        List.mem_map_of_mem
          (List.mem_filter.mpr ⟨(Table.own_eq_some.mp hown).1, decide_eq_true hdeleted⟩)
      have htype : (op.type.elim m.type fun type => normalize_memory_type (some type)) =
          op.type.getD m.type := by
        rcases op.type with _ | (_ | _) <;> rfl
      rw [htype]
      refine (Table.update_inj ?mem ?id).trans ?_
      case mem => exact hmem
      case id => rfl
      rw [Memory.mk.injEq]
      constructor
      · rintro ⟨-, -, -, hor, -⟩ m' hm'
        cases hm'
        refine ⟨hdeleted, ?_⟩
        rintro rfl
        exact hor
      · intro h
        refine ⟨rfl, rfl, rfl, ?_, rfl, rfl, rfl, rfl⟩
        cases path with
        | none => exact (h m rfl).2 rfl
        | some path => rfl

theorem faithful_move_iff {op : Operation} {uuid4 : String} (haction : op.action = .move) :
    Faithful user_id now s (op, uuid4) ↔ s.InOrder user_id (op, uuid4) := by
  simp only [Session.InOrder, haction]
  cases hown : s.table.own user_id op.id with
  | none =>
    refine iff_of_true (faithful_of_step_eq_none ?_) fun m hm => by cases hm
    simp only [Session.step, apply_memory_operation, haction, Session.move, hown]
  | some m =>
    have hstep : s.step user_id now (op, uuid4) = some (Session.flush ⟨s.table.update { m with
        path := op.path.join
        metadata := merge_metadata m.metadata op.metadata
        updated_at := now }, s.deleted⟩) := by
      simp only [Session.step, apply_memory_operation, haction, Session.move, hown]
    rw [faithful_iff_of_step hstep, Session.visible_flush, Table.update_remove]
    simp only [applySequentially, haction, Session.visible, Session.flush, Table.own_remove, hown]
    by_cases hdeleted : m.id ∈ s.deleted
    · rw [Option.filter_some_neg (by simpa using hdeleted)]
      exact iff_of_false nofun fun h => h m rfl hdeleted
    · rw [Option.filter_some_pos (by simpa using hdeleted)]
      refine iff_of_true rfl fun m' hm' => ?_
      cases hm'
      exact hdeleted

theorem faithful_remove_iff {op : Operation} {uuid4 : String} (haction : op.action = .remove) :
    Faithful user_id now s (op, uuid4) ↔ s.InOrder user_id (op, uuid4) := by
  simp only [Session.InOrder, haction]
  cases hown : s.table.own user_id op.id with
  | none =>
    refine iff_of_true (faithful_of_step_eq_none ?_) fun m hm => by cases hm
    simp only [Session.step, apply_memory_operation, haction, Session.remove, hown]
  | some m =>
    have hstep : s.step user_id now (op, uuid4) = some ⟨s.table, m.id :: s.deleted⟩ := by
      simp only [Session.step, apply_memory_operation, haction, Session.remove, hown]
    rw [faithful_iff_of_step hstep]
    simp only [applySequentially, haction, Session.visible, Session.flush, Table.own_remove, hown]
    by_cases hdeleted : m.id ∈ s.deleted
    · rw [Option.filter_some_neg (by simpa using hdeleted)]
      exact iff_of_false nofun fun h => h m rfl hdeleted
    · rw [Option.filter_some_pos (by simpa using hdeleted), Option.map_some, Table.remove_remove]
      refine iff_of_true rfl fun m' hm' => ?_
      cases hm'
      exact hdeleted

/-- **A validated operation means the same exactly where it is in order.** -/
theorem faithful_iff {e : Operation × String} (he : e.1.Validated) :
    Faithful user_id now s e ↔ s.InOrder user_id e := by
  obtain ⟨op, uuid4⟩ := e
  cases haction : op.action with
  | add => exact faithful_add_iff he haction
  | replace => exact faithful_replace_iff he haction
  | remove => exact faithful_remove_iff haction
  | move => exact faithful_move_iff haction

/-! ## The loop -/

/-- The loop is a run of the session. -/
theorem exec_step_eq_some {batch : List (Operation × String)} {s' : Session} :
    exec (Session.step user_id now) s batch = some s' ↔
      ∃ results, applyAll user_id now batch s = .ok (results, s') := by
  induction batch generalizing s with
  | nil =>
    constructor
    · intro h
      cases h
      exact ⟨[], rfl⟩
    · rintro ⟨results, h⟩
      cases h
      rfl
  | cons e batch ih =>
    obtain ⟨operation, uuid4⟩ := e
    rw [exec_cons_eq_some]
    constructor
    · rintro ⟨s₁, hstep, hrest⟩
      obtain ⟨results, hresults⟩ := ih.mp hrest
      rw [Session.step] at hstep
      split at hstep
      case h_1 result s₂ hop =>
        cases hstep
        exact ⟨result :: results, by rw [applyAll, bind_eq_ok]; exact
          ⟨_, hop, bind_eq_ok.mpr ⟨_, hresults, rfl⟩⟩⟩
      case h_2 => cases hstep
    · rintro ⟨results, h⟩
      rw [applyAll] at h
      obtain ⟨⟨result, s₁⟩, hop, h⟩ := bind_eq_ok.mp h
      obtain ⟨⟨rest, s₂⟩, hrest, h⟩ := bind_eq_ok.mp h
      cases h
      exact ⟨s₁, by rw [Session.step, hop], ih.mpr ⟨rest, hrest⟩⟩

end

end OpenLaunch.Memories
