import OpenLaunch.Python.Dict
import Mathlib.Data.Finset.Basic

/-! # The registry of tasks

A process keeps its running tasks in `tasks`, and for each item (a chat, or a document) the list of
its tasks in `item_tasks`. A task is registered when it is created. When it has finished, a callback
runs `cleanup_task`, which removes it from both; without Redis, `stop_task` removes it from `tasks`
first and cancels it. -/

namespace OpenLaunch.Tasks

open Python

universe u

variable {T : Type u} [DecidableEq T]

/-- How a task ends. -/
inductive Outcome
  | returned
  | cancelled
  | raised
  deriving DecidableEq, Repr

/-- The two maps of a process, and the history of the tasks, which are named by their ids. -/
structure Registry (T : Type u) where
  tasks : Finset T
  item_tasks : Dict (Option String) (List T)
  /-- The `id` with which a task was created. -/
  created : T → Option (Option String)
  finished : T → Option Outcome
  /-- `stop_task` has taken the task from `tasks`. -/
  stopped : T → Bool
  /-- `task.cancel()` was called while the task was running. -/
  cancelled : T → Bool
  /-- `cleanup_task` has run to its end. -/
  cleaned : T → Bool

/-- `if id`: an id is provided. -/
def provided (id : Option String) : Bool := id.getD "" ≠ ""

namespace Registry

/-- `item_tasks.get(id, [])`. -/
def listed (r : Registry T) (id : Option String) : List T := (r.item_tasks.get? id).getD []

/-- `create_task`, for a fresh task. -/
def create_task (r : Registry T) (task_id : T) (id : Option String) : Registry T :=
  { r with
    tasks := insert task_id r.tasks
    item_tasks := r.item_tasks.set id
      (if r.listed id ≠ [] then r.listed id ++ [task_id] else [task_id])
    created := Function.update r.created task_id (some id) }

/-- The task ends. -/
def finish (r : Registry T) (task_id : T) (outcome : Outcome) : Registry T :=
  { r with finished := Function.update r.finished task_id (some outcome) }

/-- The maps after `cleanup_task`. -/
def cleanup_task (r : Registry T) (task_id : T) (id : Option String) : Registry T :=
  { r with
    tasks := r.tasks.erase task_id
    item_tasks :=
      if provided id ∧ task_id ∈ r.listed id then
        if (r.listed id).erase task_id = [] then r.item_tasks.erase id
        else r.item_tasks.set id ((r.listed id).erase task_id)
      else r.item_tasks
    cleaned := Function.update r.cleaned task_id true }

/-- `task.cancel()`, which does nothing to a task that has finished. -/
def cancel (r : Registry T) (task_id : T) : Registry T :=
  { r with
    cancelled := Function.update r.cancelled task_id
      (r.cancelled task_id || (r.finished task_id).isNone) }

/-- `stop_task` without Redis, for a task that is in `tasks`. -/
def stop (r : Registry T) (task_id : T) : Registry T :=
  { r.cancel task_id with
    tasks := r.tasks.erase task_id
    stopped := Function.update r.stopped task_id true }

/-- No task. -/
def start : Registry T :=
  ⟨∅, .empty, fun _ => none, fun _ => none, fun _ => false, fun _ => false, fun _ => false⟩

end Registry

/-! ## Reading the lists -/

section Listed

variable {r : Registry T} {t task_id : T} {id id' : Option String}

theorem mem_listed_create_task :
    t ∈ (r.create_task task_id id).listed id' ↔
      t ∈ r.listed id' ∨ t = task_id ∧ id' = id := by
  unfold Registry.create_task Registry.listed
  rw [Dict.get?_set]
  by_cases hid : id' = id
  · subst hid
    rw [if_pos rfl, Option.getD_some]
    split
    · simp
    · next hnil =>
      rw [not_not] at hnil
      simp [hnil]
  · simp [hid]

theorem listed_cleanup_task :
    (r.cleanup_task task_id id).listed id' =
      if id' = id ∧ provided id = true then (r.listed id').erase task_id else r.listed id' := by
  show (Dict.get? (if provided id = true ∧ task_id ∈ r.listed id then
      if (r.listed id).erase task_id = [] then r.item_tasks.erase id
      else r.item_tasks.set id ((r.listed id).erase task_id)
    else r.item_tasks) id').getD [] = _
  by_cases hid : id' = id
  · subst hid
    split
    · next hlisted =>
      rw [if_pos (show id' = id' ∧ provided id' = true from ⟨rfl, hlisted.1⟩)]
      split
      · next hnil =>
        rw [Dict.get?_erase, if_pos rfl, hnil]
        rfl
      · rw [Dict.get?_set_self]
        rfl
    · next hlisted =>
      split
      · next hprovided =>
        have hmem : task_id ∉ r.listed id' := fun hmem => hlisted ⟨hprovided.2, hmem⟩
        exact (List.erase_of_not_mem hmem).symm
      · rfl
  · rw [if_neg fun h : id' = id ∧ provided id = true => hid h.1]
    split
    · split
      · rw [Dict.get?_erase, if_neg hid]
        rfl
      · rw [Dict.get?_set_ne _ hid]
        rfl
    · rfl

end Listed

/-! ## The invariant -/

/-- Where every task is: in the list of its item, until its cleanup has run, if the item has an id;
and in `tasks`, until its cleanup has run or it is stopped. No item has an empty list. -/
structure RegistryInv (r : Registry T) : Prop where
  listed_iff : ∀ id t, t ∈ r.listed id ↔
    r.created t = some id ∧ (provided id = true → r.cleaned t = false)
  tasks_iff : ∀ t, t ∈ r.tasks ↔ r.created t ≠ none ∧ r.cleaned t = false ∧ r.stopped t = false
  nonempty : ∀ id l, r.item_tasks.get? id = some l → l ≠ []
  nodup : ∀ id, (r.listed id).Nodup
  cleaned : ∀ t, r.cleaned t = true → r.finished t ≠ none
  stopped : ∀ t, r.stopped t = true → r.created t ≠ none
  finished : ∀ t, r.finished t ≠ none → r.created t ≠ none

namespace RegistryInv

variable {r : Registry T} {task_id : T} {id : Option String}

omit [DecidableEq T] in
theorem start : RegistryInv (Registry.start : Registry T) where
  listed_iff id t := by simp [Registry.start, Registry.listed]
  tasks_iff t := by simp [Registry.start]
  nonempty id l h := by simp [Registry.start] at h
  nodup id := by simp [Registry.start, Registry.listed]
  cleaned t h := by simp [Registry.start] at h
  stopped t h := by simp [Registry.start] at h
  finished t h := by simp [Registry.start] at h

theorem create_task (h : RegistryInv r) (hfresh : r.created task_id = none) :
    RegistryInv (r.create_task task_id id) := by
  have hcleaned : r.cleaned task_id = false := by
    by_contra hcleaned
    exact h.finished task_id (h.cleaned task_id (by simpa using hcleaned)) hfresh
  have hstopped : r.stopped task_id = false := by
    by_contra hstopped
    exact h.stopped task_id (by simpa using hstopped) hfresh
  have hcreated (t : T) (ht : r.created t ≠ none) :
      (r.create_task task_id id).created t ≠ none := by
    show Function.update r.created task_id (some id) t ≠ none
    rcases eq_or_ne t task_id with rfl | hne
    · exact absurd hfresh ht
    · rwa [Function.update_of_ne hne]
  constructor
  · intro id' t
    rw [mem_listed_create_task, h.listed_iff]
    show _ ↔ Function.update r.created task_id (some id) t = some id' ∧ _
    rcases eq_or_ne t task_id with rfl | hne
    · show _ ↔ _ ∧ (provided id' = true → r.cleaned t = false)
      rw [Function.update_self, hfresh, hcleaned]
      simp [eq_comm (b := id)]
    · rw [Function.update_of_ne hne]
      simp [hne, Registry.create_task]
  · intro t
    show t ∈ insert task_id r.tasks ↔ Function.update r.created task_id (some id) t ≠ none ∧ _
    rw [Finset.mem_insert, h.tasks_iff]
    rcases eq_or_ne t task_id with rfl | hne
    · rw [Function.update_self]
      simp [Registry.create_task, hcleaned, hstopped]
    · rw [Function.update_of_ne hne]
      simp [hne, Registry.create_task]
  · intro id' l hl
    unfold Registry.create_task at hl
    rw [Dict.get?_set] at hl
    split at hl
    · split at hl
      · cases hl
        simp
      · cases hl
        simp
    · exact h.nonempty id' l hl
  · intro id'
    have hnew : task_id ∉ r.listed id := by
      rw [h.listed_iff, hfresh]
      simp
    unfold Registry.create_task Registry.listed
    rw [Dict.get?_set]
    split
    · rw [Option.getD_some]
      split
      · show (r.listed id ++ [task_id]).Nodup
        rw [List.nodup_append]
        exact ⟨h.nodup id, List.nodup_singleton _, by
          intro a ha b hb hab
          rw [List.mem_singleton.mp hb] at hab
          exact hnew (hab ▸ ha)⟩
      · exact List.nodup_singleton _
    · exact h.nodup id'
  · exact h.cleaned
  · exact fun t ht => hcreated t (h.stopped t ht)
  · exact fun t ht => hcreated t (h.finished t ht)

theorem finish (h : RegistryInv r) (hcreated : r.created task_id ≠ none) (outcome : Outcome) :
    RegistryInv (r.finish task_id outcome) := by
  have hfinished (t : T) : (r.finish task_id outcome).finished t ≠ none ↔
      t = task_id ∨ r.finished t ≠ none := by
    show Function.update r.finished task_id (some outcome) t ≠ none ↔ _
    rcases eq_or_ne t task_id with rfl | hne
    · simp
    · simp [hne]
  refine ⟨h.listed_iff, h.tasks_iff, h.nonempty, h.nodup, fun t ht => ?_, h.stopped, fun t ht => ?_⟩
  · exact (hfinished t).mpr (Or.inr (h.cleaned t ht))
  · rcases (hfinished t).mp ht with rfl | hold
    · exact hcreated
    · exact h.finished t hold

theorem cancel (h : RegistryInv r) (task_id : T) : RegistryInv (r.cancel task_id) :=
  ⟨h.listed_iff, h.tasks_iff, h.nonempty, h.nodup, h.cleaned, h.stopped, h.finished⟩

theorem stop (h : RegistryInv r) (htask : task_id ∈ r.tasks) : RegistryInv (r.stop task_id) := by
  refine ⟨h.listed_iff, fun t => ?_, h.nonempty, h.nodup, h.cleaned, fun t ht => ?_, h.finished⟩
  · show t ∈ r.tasks.erase task_id ↔
      r.created t ≠ none ∧ r.cleaned t = false ∧ Function.update r.stopped task_id true t = false
    rw [Finset.mem_erase, h.tasks_iff]
    rcases eq_or_ne t task_id with rfl | hne
    · simp
    · simp [hne]
  · replace ht : Function.update r.stopped task_id true t = true := ht
    rcases eq_or_ne t task_id with rfl | hne
    · exact ((h.tasks_iff t).mp htask).1
    · rw [Function.update_of_ne hne] at ht
      exact h.stopped t ht

theorem cleanup_task (h : RegistryInv r) (hcreated : r.created task_id = some id)
    (hfinished : r.finished task_id ≠ none) : RegistryInv (r.cleanup_task task_id id) := by
  constructor
  · intro id' t
    rw [listed_cleanup_task]
    show _ ↔ r.created t = some id' ∧
      (provided id' = true → Function.update r.cleaned task_id true t = false)
    rcases eq_or_ne t task_id with rfl | hne
    · rw [Function.update_self, hcreated]
      by_cases hid : id' = id
      · subst hid
        by_cases hprovided : provided id' = true
        · rw [if_pos ⟨rfl, hprovided⟩]
          simp [hprovided, (h.nodup id').not_mem_erase]
        · rw [if_neg fun hboth => hprovided hboth.2, h.listed_iff]
          simp [hprovided, hcreated]
      · rw [if_neg fun hboth => hid hboth.1, h.listed_iff, hcreated]
        simp [Ne.symm hid]
    · rw [Function.update_of_ne hne, ← h.listed_iff]
      split
      · exact List.mem_erase_of_ne hne
      · exact Iff.rfl
  · intro t
    show t ∈ r.tasks.erase task_id ↔
      r.created t ≠ none ∧ Function.update r.cleaned task_id true t = false ∧ r.stopped t = false
    rw [Finset.mem_erase, h.tasks_iff]
    rcases eq_or_ne t task_id with rfl | hne
    · simp
    · simp [hne]
  · intro id' l hl
    unfold Registry.cleanup_task at hl
    dsimp only at hl
    split at hl
    · split at hl
      · rw [Dict.get?_erase] at hl
        split at hl
        · cases hl
        · exact h.nonempty id' l hl
      · next hne =>
        rw [Dict.get?_set] at hl
        split at hl
        · cases hl
          exact hne
        · exact h.nonempty id' l hl
    · exact h.nonempty id' l hl
  · intro id'
    rw [listed_cleanup_task]
    split
    · exact (h.nodup id').erase task_id
    · exact h.nodup id'
  · intro t ht
    replace ht : Function.update r.cleaned task_id true t = true := ht
    rcases eq_or_ne t task_id with rfl | hne
    · exact hfinished
    · rw [Function.update_of_ne hne] at ht
      exact h.cleaned t ht
  · exact h.stopped
  · exact h.finished

end RegistryInv

end OpenLaunch.Tasks
