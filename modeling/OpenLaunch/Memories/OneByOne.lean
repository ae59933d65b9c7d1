import OpenLaunch.Memories.Sequential

/-! # What a batch does to the memories

A batch that raises changes nothing, and none changes the memories of other users. The memories of
the user are those that the operations leave one by one if each of them is in order. -/

namespace OpenLaunch.Memories

open Python Transition

section

variable {user_id user_id' : String} {now : ℤ} {t : Table} {s s' : Session} {m : Memory}

/-! ## Memories of other users -/

theorem Table.memoriesOf_update (hm : m.user_id ≠ user_id') {r : Memory} (hr : r ∈ t.rows)
    (hid : r.id = m.id) (huser : r.user_id = m.user_id) :
    (t.update m).memoriesOf user_id' = t.memoriesOf user_id' := by
  show (t.rows.map _).filter _ = t.rows.filter _
  rw [List.filter_map]
  have hsame : ∀ x ∈ t.rows, x.user_id = user_id' → x.id ≠ m.id := by
    rintro x hx hx' heq
    rw [Keyed.eq_of_key t.ids hx hr (heq.trans hid.symm), huser] at hx'
    exact hm hx'
  have hfilter : (t.rows.filter ((fun x => decide (x.user_id = user_id')) ∘
      fun x => if x.id = m.id then m else x)) =
      t.rows.filter fun x => x.user_id = user_id' := by
    refine List.filter_congr fun x hx => ?_
    show decide ((if x.id = m.id then m else x).user_id = user_id') = _
    split_ifs with h
    · rw [Keyed.eq_of_key t.ids hx hr (h.trans hid.symm), huser]
    · rfl
  rw [hfilter]
  calc (t.rows.filter fun x => x.user_id = user_id').map (fun x => if x.id = m.id then m else x)
      = (t.rows.filter fun x => x.user_id = user_id').map (fun x => x) := by
        refine List.map_congr_left fun x hx => ?_
        obtain ⟨hx, hx'⟩ := List.mem_filter.mp hx
        exact if_neg (hsame x hx (of_decide_eq_true hx'))
    _ = _ := List.map_id'' (fun _ => rfl) _

theorem Table.memoriesOf_remove {ids : List String} :
    (t.remove ids).memoriesOf user_id' =
      (t.memoriesOf user_id').filter fun m => m.id ∉ ids := by
  show (t.rows.filter _).filter _ = (t.rows.filter _).filter _
  rw [List.filter_filter, List.filter_filter]
  exact List.filter_congr fun x _ => Bool.and_comm _ _

theorem Table.memoriesOf_insert {t' : Table} (h : t.insert m = some t') (hm : m.user_id ≠ user_id') :
    t'.memoriesOf user_id' = t.memoriesOf user_id' := by
  rw [memoriesOf, (insert_eq_some.mp h).2, List.filter_append,
    List.filter_singleton, decide_eq_false hm]
  exact List.append_nil _

theorem memoriesOf_step {e : Operation × String} (hne : user_id' ≠ user_id)
    (h : s.step user_id now e = some s') :
    s'.visible.memoriesOf user_id' = s.visible.memoriesOf user_id' := by
  rw [Session.step] at h
  split at h
  case h_2 => cases h
  case h_1 result s₁ hop =>
  cases h
  rcases apply_memory_operation_cases hop with ⟨m, -, rfl⟩ |
    ⟨m, t, -, -, -, huser, -, hinsert, rfl⟩ |
    ⟨action, r, m, -, -, hown, hid, huser, -, rfl⟩ | ⟨r, -, -, hown, rfl⟩
  · rfl
  · show (t.remove []).memoriesOf user_id' = _
    rw [Table.remove_nil]
    exact Table.memoriesOf_insert hinsert (huser ▸ hne.symm)
  · obtain ⟨hr, -, hruser⟩ := Table.own_eq_some.mp hown
    have hm : m.user_id ≠ user_id' := by
      rw [huser, hruser]
      exact hne.symm
    rw [Session.visible_flush, Table.memoriesOf_remove,
      Table.memoriesOf_update hm hr hid.symm huser.symm]
    exact Table.memoriesOf_remove.symm
  · obtain ⟨hr, -, hruser⟩ := Table.own_eq_some.mp hown
    show (s.table.remove (r.id :: s.deleted)).memoriesOf user_id' = _
    rw [← Table.remove_remove, Table.memoriesOf_remove]
    refine List.filter_eq_self.mpr fun x hx => ?_
    obtain ⟨hx, hxuser⟩ := List.mem_filter.mp hx
    rw [decide_eq_true_eq, List.mem_singleton]
    intro hxr
    have heq : x = r := Keyed.eq_of_key s.table.ids (List.mem_of_mem_filter hx) hr hxr
    exact hne ((of_decide_eq_true hxuser).symm.trans (heq ▸ hruser))

theorem memoriesOf_exec {batch : List (Operation × String)} (hne : user_id' ≠ user_id)
    (h : exec (Session.step user_id now) s batch = some s') :
    s'.visible.memoriesOf user_id' = s.visible.memoriesOf user_id' :=
  exec_invariant (P := fun s' => s'.visible.memoriesOf user_id' = s.visible.memoriesOf user_id')
    (fun _ _ _ hs hstep => (memoriesOf_step hne hstep).trans hs) rfl h

end

/-! ## Batches -/

/-- **The batch behaves like its operations one by one.** What it leaves if it succeeds is what they
leave in turn, it changes nothing if it raises, and never the memories of others. -/
structure OneByOne (user_id : String) (now : ℤ) (table : Table) (batch : List (Operation × String)) :
    Prop where
  sequential : ∀ results table',
    apply_memory_operations user_id now batch table = (.ok results, table') →
      exec (applySequentially user_id now) table batch = some table'
  rollback : ∀ e table', apply_memory_operations user_id now batch table = (.error e, table') →
    table' = table
  others : ∀ user_id' ≠ user_id,
    (apply_memory_operations user_id now batch table).2.memoriesOf user_id' =
      table.memoriesOf user_id'

section

variable {user_id : String} {now : ℤ} {table : Table} {batch : List (Operation × String)}

theorem visible_begin (table : Table) : Session.visible ⟨table, []⟩ = table := Table.remove_nil

/-- What a batch that succeeds leaves. -/
theorem apply_memory_operations_eq_ok {results : List Result} {table' : Table} :
    apply_memory_operations user_id now batch table = (.ok results, table') ↔
      ∃ s', applyAll user_id now batch ⟨table, []⟩ = .ok (results, s') ∧ s'.visible = table' := by
  rw [apply_memory_operations]
  cases h : applyAll user_id now batch ⟨table, []⟩ with
  | error e => simp
  | ok r =>
    obtain ⟨results', s'⟩ := r
    simp only [Except.ok.injEq, Prod.mk.injEq]
    constructor
    · rintro ⟨rfl, rfl⟩
      exact ⟨s', ⟨rfl, rfl⟩, rfl⟩
    · rintro ⟨s'', ⟨rfl, rfl⟩, rfl⟩
      exact ⟨rfl, rfl⟩

theorem rollback_apply_memory_operations {e : Error} {table' : Table}
    (h : apply_memory_operations user_id now batch table = (.error e, table')) : table' = table := by
  rw [apply_memory_operations] at h
  split at h
  · cases h
  · cases h
    rfl

theorem memoriesOf_apply_memory_operations {user_id' : String} (hne : user_id' ≠ user_id) :
    (apply_memory_operations user_id now batch table).2.memoriesOf user_id' =
      table.memoriesOf user_id' := by
  rw [apply_memory_operations]
  cases h : applyAll user_id now batch ⟨table, []⟩ with
  | error e => rfl
  | ok r =>
    have hexec := exec_step_eq_some.mpr ⟨r.1, h⟩
    have hsame := memoriesOf_exec hne hexec
    rwa [visible_begin] at hsame

/-- A batch behaves like its operations where its run, if it succeeds, is simulated. -/
theorem oneByOne_iff : OneByOne user_id now table batch ↔
    ∀ s', exec (Session.step user_id now) ⟨table, []⟩ batch = some s' →
      exec (applySequentially user_id now) table batch = some s'.visible := by
  constructor
  · intro h s' hexec
    obtain ⟨results, hall⟩ := exec_step_eq_some.mp hexec
    exact h.sequential results _ (apply_memory_operations_eq_ok.mpr ⟨s', hall, rfl⟩)
  · intro h
    refine ⟨fun results table' hok => ?_, fun e table' => rollback_apply_memory_operations,
      fun user_id' => memoriesOf_apply_memory_operations⟩
    obtain ⟨s', hall, rfl⟩ := apply_memory_operations_eq_ok.mp hok
    exact h s' (exec_step_eq_some.mpr ⟨results, hall⟩)

/-- **Batches and all they begin with behave like their operations one by one exactly where every
operation is in order.** -/
theorem oneByOne_take_iff {form : List MemoryOperationModel} {operations : List Operation}
    (hvalid : validate_memory_operations form = .ok operations) (metadata : Dict String Json)
    (hbatch : batch.map Prod.fst = operations.map (Operation.stamp metadata)) :
    (∀ n, OneByOne user_id now table (batch.take n)) ↔
      StepsMeet (Session.step user_id now) (Session.InOrder user_id) ⟨table, []⟩ batch := by
  have hevents : ∀ e ∈ batch, e.1.Validated := by
    intro e he
    have hmem : e.1 ∈ operations.map (Operation.stamp metadata) :=
      hbatch ▸ List.mem_map_of_mem he
    obtain ⟨op, hop, heq⟩ := List.mem_map.mp hmem
    exact heq ▸ (validated_of_validate_memory_operations hvalid op hop).1.stamp metadata
  calc (∀ n, OneByOne user_id now table (batch.take n))
      ↔ ∀ n s', exec (Session.step user_id now) ⟨table, []⟩ (batch.take n) = some s' →
          exec (applySequentially user_id now) (Session.visible ⟨table, []⟩) (batch.take n) =
            some s'.visible := by
        rw [visible_begin]
        exact forall_congr' fun n => oneByOne_iff
    _ ↔ StepsMeet (Session.step user_id now) (Faithful user_id now) ⟨table, []⟩ batch :=
        exec_take_iff_simulates
    _ ↔ StepsMeet (Session.step user_id now) (Session.InOrder user_id) ⟨table, []⟩ batch :=
        stepsMeet_congr_of_mem fun s e he => faithful_iff (hevents e he)

end

/-! ## Instances -/

/-- A memory about tea and one below a path. -/
def someMemories : Table where
  rows :=
    [{ id := "a", user_id := "u", type := .context, path := none, content := "tea".toList,
        metadata := none, updated_at := 0, created_at := 0 },
      { id := "b", user_id := "u", type := .user, path := some "home".toList,
        content := "cat".toList, metadata := none, updated_at := 0, created_at := 0 }]
  ids := by decide

/-- The first memory is removed and added again, the second gets another content. -/
def removedAndAdded : List MemoryOperationModel :=
  [{ action := .remove, id := some "a", content := none, type := none, path := none },
    { action := .add, id := none, content := some "tea".toList, type := none, path := none }]

/-- The second memory gets another content. -/
def replacedWithoutPath : List MemoryOperationModel :=
  [{ action := .replace, id := some "b", content := some "dog".toList, type := none, path := none }]

/-- The second memory gets another content and keeps its path, the first is moved and removed. -/
def replacedWithPath : List MemoryOperationModel :=
  [{ action := .replace, id := some "b", content := some " dog".toList, type := none,
      path := some "home/".toList },
    { action := .move, id := some "a", content := none, type := none, path := some "x".toList },
    { action := .add, id := none, content := some "tea".toList, type := none, path := none },
    { action := .remove, id := some "a", content := none, type := none, path := none }]

/-- The operations of a valid request. -/
def operationsOf (form : List MemoryOperationModel) : List Operation :=
  match validate_memory_operations form with
  | .ok operations => operations
  | .error _ => []

/-- The batch of a request, with ids for what it adds. -/
def batchOf (form : List MemoryOperationModel) : List (Operation × String) :=
  ((operationsOf form).map (Operation.stamp Dict.empty)).zip ["1", "2", "3", "4"]

theorem replaced_with_path_oneByOne :
    validate_memory_operations replacedWithPath = .ok (operationsOf replacedWithPath) ∧
      ∀ n, OneByOne "u" 1 someMemories ((batchOf replacedWithPath).take n) := by
  have hvalid : validate_memory_operations replacedWithPath =
      .ok (operationsOf replacedWithPath) := by decide
  have hbatch : (batchOf replacedWithPath).map Prod.fst =
      (operationsOf replacedWithPath).map (Operation.stamp Dict.empty) := by decide
  exact ⟨hvalid, (oneByOne_take_iff hvalid Dict.empty hbatch).mpr (by decide)⟩

/-- What is removed is not added again, and a path that is not given is lost. -/
theorem removed_and_added_is_lost :
    (validate_memory_operations removedAndAdded = .ok (operationsOf removedAndAdded) ∧
        ¬ OneByOne "u" 1 someMemories (batchOf removedAndAdded)) ∧
      validate_memory_operations replacedWithoutPath = .ok (operationsOf replacedWithoutPath) ∧
        ¬ OneByOne "u" 1 someMemories (batchOf replacedWithoutPath) := by
  refine ⟨⟨by decide, fun h => ?_⟩, by decide, fun h => ?_⟩
  · have hsame : ∀ s' ∈ exec (Session.step "u" 1) ⟨someMemories, []⟩ (batchOf removedAndAdded),
        exec (applySequentially "u" 1) someMemories (batchOf removedAndAdded) = some s'.visible :=
      oneByOne_iff.mp h
    revert hsame
    decide
  · have hsame : ∀ s' ∈ exec (Session.step "u" 1) ⟨someMemories, []⟩ (batchOf replacedWithoutPath),
        exec (applySequentially "u" 1) someMemories (batchOf replacedWithoutPath) =
          some s'.visible := oneByOne_iff.mp h
    revert hsame
    decide

end OpenLaunch.Memories
