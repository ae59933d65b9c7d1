import OpenLaunch.Transition
import OpenLaunch.Tasks.Registry
import Mathlib.Data.Finset.Card

/-! # The registration of tasks in Redis

With Redis a task is also registered in a hash of all tasks, and in a set of the tasks of its item.
To save a registration, to remove it, to count what is left of the set and to delete the set are
single commands, and those of other calls come anywhere between them. -/

namespace OpenLaunch.Tasks

open Python Transition

universe u v

variable {C : Type v} [DecidableEq C] {T : Type u} [DecidableEq T]

/-! ## Commands -/

/-- What a call executes next. `own` says that the call is the `cleanup_task` of the task, which
goes on with the maps of the process, and not `stop_task`. -/
inductive TaskCall (T : Type u)
  /-- The pipeline of `redis_save_task`. -/
  | save (task_id : T) (id : Option String)
  /-- `redis_send_command` of `stop_task`, which has looked up the item. -/
  | send (task_id : T) (item_id : Option String)
  /-- The pipeline of `redis_cleanup_task`. -/
  | remove (task_id : T) (item_id : Option String) (own : Bool)
  /-- `redis.scard` of the set of the item. -/
  | scard (task_id : T) (item_id : String) (own : Bool)
  /-- `redis.delete` of the set, which was empty. `late` are the tasks saved for the item since. -/
  | delete (task_id : T) (item_id : String) (late : Finset T) (own : Bool)
  /-- The maps of the process. -/
  | maps (task_id : T) (id : Option String)

/-- The process, Redis, and the calls in progress. -/
structure TasksState (C : Type v) (T : Type u) where
  registry : Registry T
  /-- The hash of all tasks. -/
  redis_tasks : T → Option String
  /-- The set of the tasks of an item. -/
  redis_items : String → Finset T
  /-- The stop commands that the listener has not handled. -/
  sent : List T
  calls : C → Option (TaskCall T)

/-- The events. -/
inductive TasksEvent (C : Type v) (T : Type u)
  | create_task (c : C) (task_id : T) (id : Option String)
  /-- A task ends. -/
  | finish (task_id : T) (outcome : Outcome)
  /-- The callback of a task that has ended starts `cleanup_task`. -/
  | cleanup_task (c : C) (task_id : T)
  | stop_task (c : C) (task_id : T)
  /-- `redis_task_command_listener` handles a stop command. -/
  | listen (task_id : T)
  /-- A call executes its next command. -/
  | command (c : C)

/-- What follows `redis_cleanup_task`. -/
def afterRemove (task_id : T) (id : Option String) (own : Bool) : Option (TaskCall T) :=
  if own then some (.maps task_id id) else none

/-- A call that is about to delete the set of an item, when a task of the item is saved. -/
def TaskCall.noteSaved (task_id : T) (item_id : String) : TaskCall T → TaskCall T
  | .delete task_id' item_id' late own =>
    .delete task_id' item_id' (if item_id' = item_id then insert task_id late else late) own
  | call => call

namespace TasksState

/-- The next call of `c` is written. -/
def put (s : TasksState C T) (c : C) (call : Option (TaskCall T)) : TasksState C T :=
  { s with calls := Function.update s.calls c call }

/-- The next command of a call. -/
def command (s : TasksState C T) (c : C) : TaskCall T → TasksState C T
  | .save task_id id =>
    { (s.put c none) with
      redis_tasks := Function.update s.redis_tasks task_id (some (id.getD ""))
      redis_items :=
        if provided id then
          Function.update s.redis_items (id.getD "") (insert task_id (s.redis_items (id.getD "")))
        else s.redis_items
      calls :=
        if provided id then fun c' =>
          ((s.put c none).calls c').map (TaskCall.noteSaved task_id (id.getD ""))
        else (s.put c none).calls }
  | .send task_id item_id =>
    { s.put c (some (.remove task_id item_id false)) with sent := task_id :: s.sent }
  | .remove task_id item_id own =>
    { s.put c (if provided item_id then some (.scard task_id (item_id.getD "") own)
        else afterRemove task_id item_id own) with
      redis_tasks := Function.update s.redis_tasks task_id none
      redis_items :=
        if provided item_id then
          Function.update s.redis_items (item_id.getD "")
            ((s.redis_items (item_id.getD "")).erase task_id)
        else s.redis_items }
  | .scard task_id item_id own =>
    s.put c (if (s.redis_items item_id).card = 0 then some (.delete task_id item_id ∅ own)
      else afterRemove task_id (some item_id) own)
  | .delete task_id item_id _ own =>
    { s.put c (afterRemove task_id (some item_id) own) with
      redis_items := Function.update s.redis_items item_id ∅ }
  | .maps task_id id => { s.put c none with registry := s.registry.cleanup_task task_id id }

/-- No task. -/
def start : TasksState C T := ⟨.start, fun _ => none, fun _ => ∅, [], fun _ => none⟩

end TasksState

/-- One event, with or without Redis. -/
def tasksStep (redis : Bool) (s : TasksState C T) : TasksEvent C T → Option (TasksState C T)
  | .create_task c task_id id =>
    if s.calls c = none ∧ s.registry.created task_id = none then
      some { s.put c (if redis then some (.save task_id id) else none) with
        registry := s.registry.create_task task_id id }
    else none
  | .finish task_id outcome =>
    if s.registry.created task_id ≠ none ∧ s.registry.finished task_id = none then
      some { s with registry := s.registry.finish task_id outcome }
    else none
  | .cleanup_task c task_id =>
    match s.registry.created task_id with
    | some id =>
      if s.calls c = none ∧ s.registry.finished task_id ≠ none then
        some (s.put c (some (if redis then .remove task_id id true else .maps task_id id)))
      else none
    | none => none
  | .stop_task c task_id =>
    if s.calls c = none then
      if redis then
        -- `item_id or None`
        some (s.put c (some (.send task_id ((s.redis_tasks task_id).filter (· ≠ "")))))
      else if task_id ∈ s.registry.tasks then
        some { s with registry := s.registry.stop task_id }
      else some s
    else none
  | .listen task_id =>
    if task_id ∈ s.sent then
      some { s with
        registry := if task_id ∈ s.registry.tasks then s.registry.cancel task_id else s.registry
        sent := s.sent.erase task_id }
    else none
  | .command c => (s.calls c).map fun call => s.command c call

/-! ## The maps and the registrations -/

/-- **Where the tasks are.** A task of an item with an id is in the list of that item, and in no
other list, until its cleanup has run; a task is in `tasks` until its cleanup has run or `stop_task`
has taken it out; and no item has an empty list. -/
structure Consistent (r : Registry T) : Prop where
  listed : ∀ id t, provided id = true →
    (t ∈ r.listed id ↔ r.created t = some id ∧ r.cleaned t = false)
  tasks : ∀ t, t ∈ r.tasks ↔ r.created t ≠ none ∧ r.cleaned t = false ∧ r.stopped t = false
  nonempty : ∀ id l, r.item_tasks.get? id = some l → l ≠ []

/-- **Who removes a registration**: the cleanup of the task itself; or a cleanup that deletes the
set of the item, if the task was saved after that cleanup had counted the set. -/
def RemovesOwn (redis : Bool) (s : TasksState C T) (e : TasksEvent C T) : Prop :=
  ∀ s', tasksStep redis s e = some s' →
    (∀ t, s.redis_tasks t ≠ none → s'.redis_tasks t = none →
      ∃ c item_id own, e = .command c ∧ s.calls c = some (.remove t item_id own)) ∧
    ∀ item_id t, t ∈ s.redis_items item_id → t ∉ s'.redis_items item_id →
      (∃ c own, e = .command c ∧ s.calls c = some (.remove t (some item_id) own)) ∨
      ∃ c task_id late own, e = .command c ∧
        s.calls c = some (.delete task_id item_id late own) ∧ t ∈ late

/-! ## The invariant -/

/-- The task whose `cleanup_task` the call is, with the id that it was given. -/
def TaskCall.owner : TaskCall T → Option (T × Option String)
  | .remove task_id id true | .maps task_id id => some (task_id, id)
  | .scard task_id item_id true | .delete task_id item_id _ true => some (task_id, some item_id)
  | _ => none

/-- What is in a set that is about to be deleted was saved since it was counted, and `cleanup_task`
runs for a task that has ended, with the id of its creation. -/
structure CallOk (s : TasksState C T) (call : TaskCall T) : Prop where
  late : ∀ task_id item_id late own, call = .delete task_id item_id late own →
    s.redis_items item_id ⊆ late
  owner : ∀ task_id id, call.owner = some (task_id, id) →
    s.registry.created task_id = some id ∧ s.registry.finished task_id ≠ none

structure TasksInv (s : TasksState C T) : Prop where
  registry : RegistryInv s.registry
  calls : ∀ c call, s.calls c = some call → CallOk s call

variable {redis : Bool} {s s' : TasksState C T} {e : TasksEvent C T}

omit [DecidableEq C] in
theorem tasksInv_start : TasksInv (TasksState.start : TasksState C T) where
  registry := RegistryInv.start
  calls c call h := by simp [TasksState.start] at h

omit [DecidableEq C] [DecidableEq T] in
/-- A call stays as it should be where sets shrink, and ended tasks stay what they are. -/
theorem CallOk.mono {call : TaskCall T} (h : CallOk s call)
    (hitems : ∀ item_id, s'.redis_items item_id ⊆ s.redis_items item_id)
    (hended : ∀ task_id id, s.registry.created task_id = some id →
      s.registry.finished task_id ≠ none →
      s'.registry.created task_id = some id ∧ s'.registry.finished task_id ≠ none) :
    CallOk s' call where
  late task_id item_id late own hcall :=
    (hitems item_id).trans (h.late task_id item_id late own hcall)
  owner task_id id howner := hended task_id id (h.owner task_id id howner).1
    (h.owner task_id id howner).2

omit [DecidableEq T] in
/-- The calls after one of them was written. -/
theorem TasksInv.calls_update (h : TasksInv s) {c : C} {next : Option (TaskCall T)}
    (hcalls : s'.calls = Function.update s.calls c next)
    (hitems : ∀ item_id, s'.redis_items item_id ⊆ s.redis_items item_id)
    (hended : ∀ task_id id, s.registry.created task_id = some id →
      s.registry.finished task_id ≠ none →
      s'.registry.created task_id = some id ∧ s'.registry.finished task_id ≠ none)
    (hnext : ∀ call, next = some call → CallOk s' call) (c' : C) (call : TaskCall T)
    (hcall : s'.calls c' = some call) : CallOk s' call := by
  rw [hcalls] at hcall
  rcases eq_or_ne c' c with rfl | hne
  · rw [Function.update_self] at hcall
    exact hnext call hcall
  · rw [Function.update_of_ne hne] at hcall
    exact (h.calls c' call hcall).mono hitems hended

/-- An id that is provided is a string. -/
theorem some_getD_of_provided {id : Option String} (h : provided id = true) :
    some (id.getD "") = id := by
  cases id with
  | none => simp [provided] at h
  | some id => rfl

omit [DecidableEq C] [DecidableEq T] in
/-- What follows `redis_cleanup_task` has the owner of the call. -/
theorem callOk_afterRemove {task_id : T} {id : Option String} {own : Bool}
    (howner : own = true →
      s.registry.created task_id = some id ∧ s.registry.finished task_id ≠ none)
    (call : TaskCall T) (hcall : afterRemove task_id id own = some call) : CallOk s call := by
  unfold afterRemove at hcall
  rw [Option.ite_none_right_eq_some] at hcall
  obtain ⟨hown, rfl⟩ := And.imp_right Option.some.inj hcall
  refine ⟨nofun, fun task_id' id' h => ?_⟩
  cases h
  exact howner hown

omit [DecidableEq C] in
theorem owner_noteSaved (task_id : T) (item_id : String) (call : TaskCall T) :
    (call.noteSaved task_id item_id).owner = call.owner := by
  cases call with
  | delete task_id' item_id' late own => cases own <;> rfl
  | _ => rfl

/-- Saving a registration keeps the invariant: the calls that are about to delete the set take note
of it. -/
theorem TasksInv.save (h : TasksInv s) (c : C) (task_id : T) (id : Option String) :
    TasksInv (s.command c (.save task_id id)) := by
  have hput : ∀ c' call, (s.put c none).calls c' = some call → CallOk (s.put c none) call := by
    have hnext : ∀ call, (none : Option (TaskCall T)) = some call → CallOk (s.put c none) call :=
      nofun
    exact h.calls_update rfl (fun _ => Finset.Subset.refl _)
      (fun _ _ hcreated hfinished => ⟨hcreated, hfinished⟩) hnext
  refine ⟨h.registry, fun c' call hcall => ?_⟩
  unfold TasksState.command at hcall ⊢
  by_cases hprovided : provided id = true
  · simp only [hprovided, if_true] at hcall ⊢
    obtain ⟨old, hold, rfl⟩ := Option.map_eq_some_iff.mp hcall
    have hok := hput c' old hold
    refine ⟨fun task_id' item_id late own hdelete => ?_, fun task_id' id' howner => ?_⟩
    · cases old with
      | delete task_id'' item_id' late' own' =>
        have hlate : s.redis_items item_id' ⊆ late' := hok.late _ _ _ _ rfl
        simp only [TaskCall.noteSaved, TaskCall.delete.injEq] at hdelete
        obtain ⟨-, rfl, rfl, -⟩ := hdelete
        by_cases hitem : item_id' = id.getD ""
        · subst hitem
          rw [if_pos rfl]
          simpa using Finset.insert_subset_insert task_id hlate
        · rw [if_neg hitem]
          simpa [Function.update_of_ne hitem] using hlate
      | _ => cases hdelete
    · rw [owner_noteSaved] at howner
      exact hok.owner task_id' id' howner
  · simp only [hprovided, if_false, Bool.false_eq_true] at hcall ⊢
    exact ⟨(hput c' call hcall).late, (hput c' call hcall).owner⟩

/-- **What a command does**: it keeps the invariant. -/
theorem TasksInv.command (h : TasksInv s) {c : C} {call : TaskCall T}
    (hcall : s.calls c = some call) : TasksInv (s.command c call) := by
  have hok := h.calls c call hcall
  have hkeep (r : Registry T) (hr : r.created = s.registry.created)
      (hf : r.finished = s.registry.finished) (task_id : T) (id : Option String)
      (hcreated : s.registry.created task_id = some id)
      (hfinished : s.registry.finished task_id ≠ none) :
      r.created task_id = some id ∧ r.finished task_id ≠ none := by
    rw [hr, hf]
    exact ⟨hcreated, hfinished⟩
  cases call with
  | save task_id id => exact h.save c task_id id
  | send task_id item_id =>
    refine ⟨h.registry, h.calls_update rfl (fun _ => Finset.Subset.refl _)
      (hkeep s.registry rfl rfl) fun call hnext => ?_⟩
    cases hnext
    exact ⟨nofun, nofun⟩
  | remove task_id item_id own =>
    refine ⟨h.registry, h.calls_update rfl (fun item_id' => ?_) (hkeep s.registry rfl rfl)
      fun call hnext => ?_⟩
    · unfold TasksState.command
      dsimp only
      split
      · rcases eq_or_ne item_id' (item_id.getD "") with rfl | hne
        · rw [Function.update_self]
          exact Finset.erase_subset _ _
        · rw [Function.update_of_ne hne]
      · exact Finset.Subset.refl _
    · have howner (hown : own = true) : s.registry.created task_id = some item_id ∧
          s.registry.finished task_id ≠ none := by
        subst hown
        exact hok.owner task_id item_id rfl
      split at hnext
      · next hprovided =>
        cases hnext
        refine ⟨nofun, fun task_id' id' h' => ?_⟩
        cases own with
        | true =>
          cases h'
          rw [some_getD_of_provided hprovided]
          exact howner rfl
        | false => cases h'
      · refine callOk_afterRemove ?_ call hnext
        exact howner
  | scard task_id item_id own =>
    have howner (hown : own = true) : s.registry.created task_id = some (some item_id) ∧
        s.registry.finished task_id ≠ none := by
      subst hown
      exact hok.owner task_id (some item_id) rfl
    refine ⟨h.registry, h.calls_update rfl (fun _ => Finset.Subset.refl _)
      (hkeep s.registry rfl rfl) fun call hnext => ?_⟩
    split at hnext
    · next hempty =>
      cases hnext
      refine ⟨fun _ _ _ _ hdelete => ?_, fun task_id' id' h' => ?_⟩
      · cases hdelete
        rw [Finset.card_eq_zero] at hempty
        show s.redis_items item_id ⊆ ∅
        rw [hempty]
      · cases own with
        | true =>
          cases h'
          exact howner rfl
        | false => cases h'
    · refine callOk_afterRemove ?_ call hnext
      exact howner
  | delete task_id item_id late own =>
    refine ⟨h.registry, h.calls_update rfl (fun item_id' => ?_) (hkeep s.registry rfl rfl)
      (callOk_afterRemove fun hown => ?_)⟩
    · show Function.update s.redis_items item_id ∅ item_id' ⊆ _
      rcases eq_or_ne item_id' item_id with rfl | hne
      · rw [Function.update_self]
        exact Finset.empty_subset _
      · rw [Function.update_of_ne hne]
    · subst hown
      exact hok.owner task_id (some item_id) rfl
  | maps task_id id =>
    obtain ⟨hcreated, hfinished⟩ := hok.owner task_id id rfl
    exact ⟨h.registry.cleanup_task hcreated hfinished,
      h.calls_update rfl (fun _ => Finset.Subset.refl _)
        (hkeep (s.registry.cleanup_task task_id id) rfl rfl) nofun⟩

/-- **Step lemma.** Every event keeps the invariant. -/
theorem TasksInv.step (h : TasksInv s) (hstep : tasksStep redis s e = some s') : TasksInv s' := by
  cases e with
  | create_task c task_id id =>
    unfold tasksStep at hstep
    rw [Option.ite_none_right_eq_some] at hstep
    obtain ⟨⟨-, hfresh⟩, rfl⟩ := And.imp_right Option.some.inj hstep
    refine ⟨h.registry.create_task hfresh, h.calls_update rfl (fun _ => Finset.Subset.refl _)
      (fun task_id' id' hcreated hfinished => ⟨?_, hfinished⟩) fun call hnext => ?_⟩
    · show Function.update s.registry.created task_id (some id) task_id' = some id'
      rcases eq_or_ne task_id' task_id with rfl | hne
      · rw [hfresh] at hcreated
        cases hcreated
      · rwa [Function.update_of_ne hne]
    · split at hnext
      · cases hnext
        exact ⟨nofun, nofun⟩
      · cases hnext
  | finish task_id outcome =>
    unfold tasksStep at hstep
    rw [Option.ite_none_right_eq_some] at hstep
    obtain ⟨⟨hcreated, -⟩, rfl⟩ := And.imp_right Option.some.inj hstep
    refine ⟨h.registry.finish hcreated outcome, fun c call hcall =>
      (h.calls c call hcall).mono (fun _ => Finset.Subset.refl _)
        fun task_id' id' hcreated' hfinished => ⟨hcreated', ?_⟩⟩
    show Function.update s.registry.finished task_id (some outcome) task_id' ≠ none
    rcases eq_or_ne task_id' task_id with rfl | hne
    · simp
    · rwa [Function.update_of_ne hne]
  | cleanup_task c task_id =>
    unfold tasksStep at hstep
    dsimp only at hstep
    split at hstep
    · next id hcreated =>
      rw [Option.ite_none_right_eq_some] at hstep
      obtain ⟨⟨-, hfinished⟩, rfl⟩ := And.imp_right Option.some.inj hstep
      refine ⟨h.registry, h.calls_update rfl (fun _ => Finset.Subset.refl _)
        (fun _ _ hcreated hfinished => ⟨hcreated, hfinished⟩) fun call hnext => ?_⟩
      cases hnext
      refine ⟨fun _ _ _ _ hdelete => ?_, fun task_id' id' howner => ?_⟩
      · split at hdelete <;> cases hdelete
      · split at howner
        · cases howner
          exact ⟨hcreated, hfinished⟩
        · cases howner
          exact ⟨hcreated, hfinished⟩
    · cases hstep
  | stop_task c task_id =>
    unfold tasksStep at hstep
    rw [Option.ite_none_right_eq_some] at hstep
    replace hstep := hstep.2
    split at hstep
    · cases hstep
      refine ⟨h.registry, h.calls_update rfl (fun _ => Finset.Subset.refl _)
        (fun _ _ hcreated hfinished => ⟨hcreated, hfinished⟩) fun call hnext => ?_⟩
      cases hnext
      exact ⟨nofun, nofun⟩
    · split at hstep
      · next htask =>
        cases hstep
        exact ⟨h.registry.stop htask, fun c call hcall => ⟨(h.calls c call hcall).late,
          (h.calls c call hcall).owner⟩⟩
      · cases hstep
        exact h
  | listen task_id =>
    unfold tasksStep at hstep
    rw [Option.ite_none_right_eq_some] at hstep
    obtain ⟨-, rfl⟩ := And.imp_right Option.some.inj hstep
    split
    · exact ⟨h.registry.cancel task_id, fun c call hcall => ⟨(h.calls c call hcall).late,
        (h.calls c call hcall).owner⟩⟩
    · exact ⟨h.registry, fun c call hcall => ⟨(h.calls c call hcall).late,
        (h.calls c call hcall).owner⟩⟩
  | command c =>
    obtain ⟨call, hcall, rfl⟩ := Option.map_eq_some_iff.mp hstep
    exact h.command hcall

/-! ## Runs -/

/-- Redis is written by the commands of calls only. -/
theorem redis_of_step (hstep : tasksStep redis s e = some s') :
    (s'.redis_tasks = s.redis_tasks ∧ s'.redis_items = s.redis_items) ∨
      ∃ c call, e = .command c ∧ s.calls c = some call ∧ s' = s.command c call := by
  cases e with
  | create_task c task_id id =>
    unfold tasksStep at hstep
    rw [Option.ite_none_right_eq_some] at hstep
    rw [← Option.some.inj hstep.2]
    exact Or.inl ⟨rfl, rfl⟩
  | finish task_id outcome =>
    unfold tasksStep at hstep
    rw [Option.ite_none_right_eq_some] at hstep
    rw [← Option.some.inj hstep.2]
    exact Or.inl ⟨rfl, rfl⟩
  | cleanup_task c task_id =>
    unfold tasksStep at hstep
    dsimp only at hstep
    split at hstep
    · rw [Option.ite_none_right_eq_some] at hstep
      rw [← Option.some.inj hstep.2]
      exact Or.inl ⟨rfl, rfl⟩
    · cases hstep
  | stop_task c task_id =>
    unfold tasksStep at hstep
    rw [Option.ite_none_right_eq_some] at hstep
    replace hstep := hstep.2
    split_ifs at hstep
    all_goals
      cases hstep
      exact Or.inl ⟨rfl, rfl⟩
  | listen task_id =>
    unfold tasksStep at hstep
    rw [Option.ite_none_right_eq_some] at hstep
    rw [← Option.some.inj hstep.2]
    exact Or.inl ⟨rfl, rfl⟩
  | command c =>
    obtain ⟨call, hcall, rfl⟩ := Option.map_eq_some_iff.mp hstep
    exact Or.inr ⟨c, call, rfl, hcall, rfl⟩

/-- A command removes from Redis what it is for. -/
theorem TasksInv.removesOwn (h : TasksInv s) (e : TasksEvent C T) : RemovesOwn redis s e := by
  intro s' hstep
  rcases redis_of_step hstep with ⟨htasks, hitems⟩ | ⟨c, call, rfl, hcall, rfl⟩
  · rw [htasks, hitems]
    exact ⟨fun t hold hnew => absurd hnew hold, fun item_id t hold hnew => absurd hold hnew⟩
  · cases call with
    | save task_id id =>
      refine ⟨fun t hold hnew => ?_, fun item_id t hold hnew => ?_⟩
      · replace hnew : Function.update s.redis_tasks task_id (some (id.getD "")) t = none := hnew
        rcases eq_or_ne t task_id with rfl | hne
        · simp at hnew
        · rw [Function.update_of_ne hne] at hnew
          exact absurd hnew hold
      · refine absurd ?_ hnew
        unfold TasksState.command
        dsimp only
        split
        · rcases eq_or_ne item_id (id.getD "") with rfl | hne
          · rw [Function.update_self]
            exact Finset.mem_insert_of_mem hold
          · rwa [Function.update_of_ne hne]
        · exact hold
    | remove task_id id own =>
      refine ⟨fun t hold hnew => ?_, fun item_id t hold hnew => Or.inl ?_⟩
      · replace hnew : Function.update s.redis_tasks task_id none t = none := hnew
        rcases eq_or_ne t task_id with rfl | hne
        · exact ⟨c, id, own, rfl, hcall⟩
        · rw [Function.update_of_ne hne] at hnew
          exact absurd hnew hold
      · unfold TasksState.command at hnew
        dsimp only at hnew
        split at hnew
        · next hprovided =>
          rcases eq_or_ne item_id (id.getD "") with rfl | hne
          · rw [Function.update_self, Finset.mem_erase, not_and_or, not_not] at hnew
            rw [some_getD_of_provided hprovided, hnew.resolve_right fun hnot => hnot hold]
            exact ⟨c, own, rfl, hcall⟩
          · rw [Function.update_of_ne hne] at hnew
            exact absurd hold hnew
        · exact absurd hold hnew
    | delete task_id item_id' late own =>
      refine ⟨fun t hold hnew => absurd hnew hold, fun item_id t hold hnew => Or.inr ?_⟩
      rcases eq_or_ne item_id item_id' with rfl | hne
      · exact ⟨c, task_id, late, own, rfl, hcall,
          (h.calls c _ hcall).late _ _ _ _ rfl hold⟩
      · replace hnew : t ∉ Function.update s.redis_items item_id' ∅ item_id := hnew
        rw [Function.update_of_ne hne] at hnew
        exact absurd hold hnew
    | send task_id id | scard task_id id own | maps task_id id =>
      exact ⟨fun t hold hnew => absurd hnew hold, fun item_id t hold hnew => absurd hold hnew⟩

omit [DecidableEq T] in
theorem RegistryInv.consistent {r : Registry T} (h : RegistryInv r) : Consistent r where
  listed id t hprovided := by
    rw [h.listed_iff]
    simp [hprovided]
  tasks := h.tasks_iff
  nonempty := h.nonempty

/-- **The registry over runs.** With or without Redis, in every state that a run of events reaches
the maps say where the tasks are; and at every step a registration in Redis is removed by the
cleanup of its task only, or by one that had counted the set of the item before the task was saved.
-/
theorem registry_consistent (redis : Bool) (es : List (TasksEvent C T)) :
    (∀ s, exec (tasksStep redis) .start es = some s → Consistent s.registry) ∧
      StepsMeet (tasksStep redis) (RemovesOwn redis) .start es := by
  constructor
  · intro s hrun
    exact (exec_invariant (fun s e s' h => TasksInv.step h) tasksInv_start hrun).registry.consistent
  · exact StepsMeet.of_invariant (C := fun _ _ => True) (fun s e h _ => h.removesOwn e)
      (fun s e s' h _ => h.step) tasksInv_start (stepsMeet_of_forall (fun _ _ => trivial) _ es)

/-- **What is not so**: a task that is stopped is still listed, although it is no longer in `tasks`;
one that is created without an id stays listed when it was cleaned up; and a task that is saved
while a cleanup has counted the set of its item, and has not deleted it, loses its registration. -/
theorem registry_inconsistent :
    (∃ s : TasksState Unit ℕ, exec (tasksStep false) .start
        [.create_task () 0 (some "chat"), .stop_task () 0] = some s ∧
      0 ∈ s.registry.listed (some "chat") ∧ 0 ∉ s.registry.tasks) ∧
    (∃ s : TasksState Unit ℕ, exec (tasksStep false) .start
        [.create_task () 0 none, .finish 0 .returned, .cleanup_task () 0, .command ()] = some s ∧
      s.registry.cleaned 0 = true ∧ 0 ∈ s.registry.listed none) ∧
    ∃ s s' : TasksState Bool ℕ, exec (tasksStep true) .start
        [.create_task true 0 (some "chat"), .command true, .finish 0 .returned,
          .cleanup_task true 0, .command true, .command true,
          .create_task false 1 (some "chat"), .command false] = some s ∧
      tasksStep true s (.command true) = some s' ∧
      1 ∈ s.redis_items "chat" ∧ 1 ∉ s'.redis_items "chat" ∧ s'.registry.finished 1 = none := by
  refine ⟨⟨_, rfl, by decide, by decide⟩, ⟨_, rfl, by decide, by decide⟩,
    ⟨_, _, rfl, rfl, by decide, by decide, by decide⟩⟩

end OpenLaunch.Tasks
