import OpenLaunch.Transition
import OpenLaunch.Tasks.Registry

/-! # Stopping the tasks of an item

`stop_item_tasks` stops the tasks of an item one after the other. Without Redis it loops over the
list of the item itself, and waits for each task that it cancels; meanwhile the cleanups of tasks
that have ended remove them from that list. With Redis it loops over a copy of the set of the item,
and sends a stop command for each task, which a listener handles later. -/

namespace OpenLaunch.Tasks

open Python Transition

universe u v

variable {C : Type v} [DecidableEq C] {T : Type u} [DecidableEq T]

/-- A call of `stop_item_tasks` in progress, with the tasks that were registered when it began. -/
inductive StopCall (T : Type u)
  /-- Without Redis: the call waits for a task, and the loop goes on at a position of the list of the
  item. A list that is no longer in `item_tasks` is empty. -/
  | waiting (id : Option String) (position : ℕ) (detached : Bool) (task_id : T) (initial : List T)
  /-- With Redis: the tasks that the loop has yet to visit. -/
  | sending (task_ids : List T) (initial : List T)

/-- The tasks that were registered when the call began. -/
def StopCall.initial : StopCall T → List T
  | .waiting _ _ _ _ initial | .sending _ initial => initial

/-- The implementation that a call belongs to. -/
def StopCall.redis : StopCall T → Bool
  | .waiting .. => false
  | .sending .. => true

/-- The process, the stop commands that the listener has not handled, and the calls in progress. -/
structure StopState (C : Type v) (T : Type u) where
  registry : Registry T
  sent : List T
  calls : C → Option (StopCall T)

/-- The events. -/
inductive StopEvent (C : Type v) (T : Type u)
  | create_task (task_id : T) (id : Option String)
  | finish (task_id : T) (outcome : Outcome)
  | cleanup_task (task_id : T)
  /-- Another caller stops a task, without Redis. -/
  | stop_task (task_id : T)
  /-- A call begins; with Redis, the set of the item has these members. -/
  | stop_item_tasks (c : C) (id : Option String) (members : List T)
  /-- A call goes on. -/
  | resume (c : C)
  /-- The listener handles a stop command. -/
  | listen (task_id : T)

namespace StopState

/-- The list that a loop iterates. -/
def task_ids (r : Registry T) (id : Option String) (detached : Bool) : List T :=
  if detached then [] else r.listed id

/-- The loop at a position: it ends, it stops the task and waits for it, or it does not find the
task, which ends the call. -/
def visit (s : StopState C T) (c : C) (id : Option String) (position : ℕ) (detached : Bool)
    (initial : List T) : StopState C T :=
  match (task_ids s.registry id detached)[position]? with
  | some task_id =>
    if task_id ∈ s.registry.tasks then
      { s with
        registry := s.registry.stop task_id
        calls := Function.update s.calls c
          (some (.waiting id (position + 1) detached task_id initial)) }
    else { s with calls := Function.update s.calls c none }
  | none => { s with calls := Function.update s.calls c none }

/-- A loop whose list is taken out of `item_tasks`. -/
def detach (id : Option String) : StopCall T → StopCall T
  | .waiting id' position detached task_id initial =>
    .waiting id' position (detached || id' = id) task_id initial
  | call => call

/-- No task. -/
def start : StopState C T := ⟨.start, [], fun _ => none⟩

end StopState

/-- One event, with or without Redis. -/
def stopStep (redis : Bool) (s : StopState C T) : StopEvent C T → Option (StopState C T)
  | .create_task task_id id =>
    if s.registry.created task_id = none then
      some { s with registry := s.registry.create_task task_id id }
    else none
  | .finish task_id outcome =>
    if s.registry.created task_id ≠ none ∧ s.registry.finished task_id = none then
      some { s with registry := s.registry.finish task_id outcome }
    else none
  | .cleanup_task task_id =>
    match s.registry.created task_id with
    | some id =>
      if s.registry.finished task_id ≠ none then
        some { s with
          registry := s.registry.cleanup_task task_id id
          calls :=
            if provided id ∧ task_id ∈ s.registry.listed id ∧
                (s.registry.listed id).erase task_id = [] then
              fun c => (s.calls c).map (StopState.detach id)
            else s.calls }
      else none
    | none => none
  | .stop_task task_id =>
    if redis = false ∧ task_id ∈ s.registry.tasks then
      some { s with registry := s.registry.stop task_id }
    else none
  | .stop_item_tasks c id members =>
    if s.calls c = none then
      if redis then
        if ∀ t ∈ members, s.registry.created t ≠ none then
          some { s with
            calls := Function.update s.calls c
              (if members = [] then none else some (.sending members members)) }
        else none
      else some (s.visit c id 0 false (s.registry.listed id))
    else none
  | .resume c =>
    match s.calls c with
    | some (.waiting id position detached task_id initial) =>
      match s.registry.finished task_id with
      | some .raised =>
        -- the exception of the task is raised by the call
        some { s with calls := Function.update s.calls c none }
      | some _ => some (s.visit c id position detached initial)
      | none => none
    | some (.sending (task_id :: task_ids) initial) =>
      some { s with
        sent := task_id :: s.sent
        calls := Function.update s.calls c (some (.sending task_ids initial)) }
    | some (.sending [] _) => some { s with calls := Function.update s.calls c none }
    | none => none
  | .listen task_id =>
    if task_id ∈ s.sent then
      some { s with
        registry := if task_id ∈ s.registry.tasks then s.registry.cancel task_id else s.registry
        sent := s.sent.erase task_id }
    else none

/-! ## All tasks are stopped -/

/-- The task has been cancelled, or has finished. -/
def Over (r : Registry T) (t : T) : Prop := r.cancelled t = true ∨ r.finished t ≠ none

/-- **Where a call ends**, all the tasks that were registered when it began are over. -/
def StopsAll (redis : Bool) (s : StopState C T) (e : StopEvent C T) : Prop :=
  ∀ s', stopStep redis s e = some s' →
    (∀ c call, s.calls c = some call → s'.calls c = none → ∀ t ∈ call.initial, Over s'.registry t) ∧
    ∀ c id members, e = .stop_item_tasks c id members → s'.calls c = none →
      ∀ t ∈ (if redis then members else s.registry.listed id), Over s'.registry t

/-- The loop finds the task at its position, if there is one. -/
def Finds (s : StopState C T) (id : Option String) (position : ℕ) (detached : Bool) : Prop :=
  ∀ t, (StopState.task_ids s.registry id detached)[position]? = some t → t ∈ s.registry.tasks

/-- **What must hold on the way.** A cleanup removes no task before the position of a loop that has
tasks to visit; a loop finds every task that it visits, and no task for which it waits raises; and
with Redis a call ends when the stop commands for its tasks were handled. -/
def Orderly (redis : Bool) (s : StopState C T) : StopEvent C T → Prop
  | .cleanup_task task_id => ∀ c id position waited initial,
      s.calls c = some (.waiting id position false waited initial) →
      s.registry.created task_id = some id → task_id ∈ s.registry.listed id →
      position ≤ (s.registry.listed id).idxOf task_id ∨ (s.registry.listed id).length ≤ position
  | .stop_item_tasks _ id _ => redis = false → Finds s id 0 false
  | .resume c => match s.calls c with
    | some (.waiting id position detached task_id _) =>
      Finds s id position detached ∧ s.registry.finished task_id ≠ some .raised
    | some (.sending task_ids initial) => task_ids = [] → ∀ t ∈ initial, t ∉ s.sent
    | none => True
  | _ => True

/-- Every registered task is over, or the call has yet to deal with it. -/
def CallInv (s : StopState C T) : StopCall T → Prop
  | .waiting id position detached _ initial => ∀ t ∈ initial,
      t ∈ (StopState.task_ids s.registry id detached).drop position ∨ Over s.registry t
  | .sending task_ids initial => ∀ t ∈ initial,
      s.registry.created t ≠ none ∧ (t ∈ task_ids ∨ t ∈ s.sent ∨ Over s.registry t)

structure StopInv (redis : Bool) (s : StopState C T) : Prop where
  registry : RegistryInv s.registry
  /-- With Redis no task is taken out of `tasks` before it has finished. -/
  stopped : redis = true → ∀ t, s.registry.stopped t = false
  mode : ∀ c call, s.calls c = some call → call.redis = redis
  calls : ∀ c call, s.calls c = some call → CallInv s call

/-- A removal behind a position leaves what comes after the position. -/
theorem mem_drop_erase {l : List T} {t x : T} {n : ℕ} (hn : n ≤ l.idxOf t) (hx : x ≠ t)
    (h : x ∈ l.drop n) : x ∈ (l.erase t).drop n := by
  induction l generalizing n with
  | nil => simp at h
  | cons a l ih =>
    cases n with
    | zero =>
      rw [List.drop_zero] at h ⊢
      exact (List.mem_erase_of_ne hx).mpr h
    | succ n =>
      have ha : a ≠ t := by
        rintro rfl
        simp at hn
      rw [List.idxOf_cons_ne _ ha] at hn
      rw [List.drop_succ_cons] at h
      rw [List.erase_cons_tail (by simpa using ha), List.drop_succ_cons]
      exact ih (by omega) h

/-! ## One step -/

variable {redis : Bool} {s s' : StopState C T} {e : StopEvent C T}

theorem over_finish {r : Registry T} {t task_id : T} {outcome : Outcome} (h : Over r t) :
    Over (r.finish task_id outcome) t := by
  refine h.imp_right fun hfinished => ?_
  show Function.update r.finished task_id (some outcome) t ≠ none
  rcases eq_or_ne t task_id with rfl | hne
  · simp
  · rwa [Function.update_of_ne hne]

theorem over_cancel {r : Registry T} {t task_id : T} (h : Over r t) :
    Over (r.cancel task_id) t := by
  refine h.imp_left fun hcancelled => ?_
  show Function.update r.cancelled task_id _ t = true
  rcases eq_or_ne t task_id with rfl | hne
  · rw [Function.update_self, hcancelled]
    rfl
  · rwa [Function.update_of_ne hne]

/-- A task that is cancelled is over. -/
theorem over_cancel_self (r : Registry T) (task_id : T) : Over (r.cancel task_id) task_id := by
  by_cases hfinished : r.finished task_id = none
  · refine Or.inl ?_
    show Function.update r.cancelled task_id _ task_id = true
    rw [Function.update_self, hfinished]
    simp
  · exact Or.inr hfinished

omit [DecidableEq C] in
/-- A call keeps its invariant where the tasks that it has yet to visit stay in its list, unless
they are over. -/
theorem CallInv.mono {call : StopCall T} (h : CallInv s call)
    (hlist : ∀ id position detached task_id initial,
      call = .waiting id position detached task_id initial →
      ∀ t ∈ (StopState.task_ids s.registry id detached).drop position,
        t ∈ (StopState.task_ids s'.registry id detached).drop position ∨ Over s'.registry t)
    (hcreated : ∀ t, s.registry.created t ≠ none → s'.registry.created t ≠ none)
    (hsent : ∀ t, s.registry.created t ≠ none → t ∈ s.sent → t ∈ s'.sent ∨ Over s'.registry t)
    (hover : ∀ t, Over s.registry t → Over s'.registry t) : CallInv s' call := by
  cases call with
  | waiting id position detached task_id initial =>
    intro t ht
    rcases h t ht with hvisit | hdone
    · exact hlist _ _ _ _ _ rfl t hvisit
    · exact Or.inr (hover t hdone)
  | sending task_ids initial =>
    intro t ht
    obtain ⟨hold, hmember | hsend | hdone⟩ := h t ht
    · exact ⟨hcreated t hold, Or.inl hmember⟩
    · exact ⟨hcreated t hold, Or.inr (hsent t hold hsend)⟩
    · exact ⟨hcreated t hold, Or.inr (Or.inr (hover t hdone))⟩

/-- The calls after one of them was written, where the lists and the commands stay. -/
theorem StopInv.calls_update (h : StopInv redis s) {c : C} {next : Option (StopCall T)}
    (hcalls : s'.calls = Function.update s.calls c next)
    (hitems : s'.registry.item_tasks = s.registry.item_tasks)
    (hcreated : s'.registry.created = s.registry.created)
    (hsent : ∀ t ∈ s.sent, t ∈ s'.sent)
    (hover : ∀ t, Over s.registry t → Over s'.registry t)
    (hnext : ∀ call, next = some call → CallInv s' call) (c' : C) (call : StopCall T)
    (hcall : s'.calls c' = some call) : CallInv s' call := by
  rw [hcalls] at hcall
  rcases eq_or_ne c' c with rfl | hne
  · rw [Function.update_self] at hcall
    exact hnext call hcall
  · rw [Function.update_of_ne hne] at hcall
    refine (h.calls c' call hcall).mono (fun id _ detached _ _ _ t ht => Or.inl ?_)
      (fun t ht => by rwa [hcreated]) (fun t _ ht => Or.inl (hsent t ht)) hover
    have hlist : StopState.task_ids s'.registry id detached =
        StopState.task_ids s.registry id detached := by
      unfold StopState.task_ids Registry.listed
      rw [hitems]
    rwa [hlist]

theorem StopInv.mode_update (h : StopInv redis s) {c : C} {next : Option (StopCall T)}
    (hnext : ∀ call, next = some call → call.redis = redis) (c' : C) (call : StopCall T)
    (hcall : Function.update s.calls c next c' = some call) : call.redis = redis := by
  rcases eq_or_ne c' c with rfl | hne
  · rw [Function.update_self] at hcall
    exact hnext call hcall
  · rw [Function.update_of_ne hne] at hcall
    exact h.mode c' call hcall

/-- The loop goes on at a position. -/
theorem StopInv.visit (h : StopInv redis s) (hredis : redis = false) {c : C} {id : Option String}
    {position : ℕ} {detached : Bool} {initial : List T}
    (hinitial : ∀ t ∈ initial,
      t ∈ (StopState.task_ids s.registry id detached).drop position ∨ Over s.registry t) :
    StopInv redis (s.visit c id position detached initial) := by
  have hends : StopInv redis { s with calls := Function.update s.calls c none } := by
    refine ⟨h.registry, h.stopped, h.mode_update nofun, ?_⟩
    exact h.calls_update rfl rfl rfl (fun _ ht => ht) (fun _ ht => ht) nofun
  unfold StopState.visit
  split
  · next task_id htask =>
    split
    · next hfound =>
      have hstop (t : T) (ht : Over s.registry t) : Over (s.registry.stop task_id) t :=
        over_cancel ht
      refine ⟨h.registry.stop hfound, fun hredis' => ?_, h.mode_update fun call hcall => ?_, ?_⟩
      · rw [hredis] at hredis'
        cases hredis'
      · cases hcall
        exact hredis.symm
      · refine h.calls_update rfl rfl rfl (fun _ ht => ht) hstop fun call hcall => ?_
        cases hcall
        intro t ht
        rcases hinitial t ht with hvisit | hdone
        · rw [List.drop_eq_getElem?_toList_append, htask] at hvisit
          rcases List.mem_append.mp hvisit with hhead | htail
          · rw [List.mem_singleton.mp hhead]
            exact Or.inr (over_cancel_self s.registry task_id)
          · exact Or.inl htail
        · exact Or.inr (hstop t hdone)
    · exact hends
  · exact hends

/-- A cleanup that removes no task before the position of a loop leaves what the loop has yet to
visit, except a task that has finished. -/
theorem StopInv.cleanup_task (h : StopInv redis s) {task_id : T} {id : Option String}
    (horderly : Orderly redis s (.cleanup_task task_id : StopEvent C T))
    (hcreated : s.registry.created task_id = some id)
    (hfinished : s.registry.finished task_id ≠ none)
    (hs' : s' = { s with
      registry := s.registry.cleanup_task task_id id
      calls :=
        if provided id ∧ task_id ∈ s.registry.listed id ∧
            (s.registry.listed id).erase task_id = [] then
          fun c => (s.calls c).map (StopState.detach id)
        else s.calls }) : StopInv redis s' := by
  subst hs'
  -- what a loop has yet to visit, in the list after the removal
  have hdrop {c : C} {id' : Option String} {position : ℕ} {waited : T} {initial : List T}
      (hcall : s.calls c = some (.waiting id' position false waited initial)) {t : T}
      (ht : t ∈ (s.registry.listed id').drop position) :
      t ∈ ((s.registry.cleanup_task task_id id).listed id').drop position ∨
        Over (s.registry.cleanup_task task_id id) t := by
    rw [listed_cleanup_task]
    split
    · next hid =>
      obtain ⟨rfl, -⟩ := hid
      rcases eq_or_ne t task_id with rfl | hne
      · exact Or.inr (Or.inr hfinished)
      · by_cases hmem : task_id ∈ s.registry.listed id'
        · rcases horderly c id' position waited initial hcall hcreated hmem with hbehind | hend
          · exact Or.inl (mem_drop_erase hbehind hne ht)
          · rw [List.drop_eq_nil_of_le hend] at ht
            cases ht
        · rw [List.erase_of_not_mem hmem]
          exact Or.inl ht
    · exact Or.inl ht
  have hinv (c : C) (call : StopCall T) (hcall : s.calls c = some call)
      (calls : C → Option (StopCall T)) :
      CallInv { s with registry := s.registry.cleanup_task task_id id, calls := calls } call := by
    refine (h.calls c call hcall).mono
      (fun id' position detached waited initial hwaiting t ht => ?_) (fun t ht => ht)
      (fun t _ ht => Or.inl ht) (fun t ht => ht)
    subst hwaiting
    cases detached with
    | true => exact Or.inl ht
    | false => exact hdrop hcall ht
  refine ⟨h.registry.cleanup_task hcreated hfinished, h.stopped, fun c call hcall => ?_,
    fun c call hcall => ?_⟩
  · dsimp only at hcall
    split at hcall
    · obtain ⟨old, hold, rfl⟩ := Option.map_eq_some_iff.mp hcall
      have hmode := h.mode c old hold
      cases old with
      | waiting => exact hmode
      | sending => exact hmode
    · exact h.mode c call hcall
  · dsimp only at hcall
    split at hcall
    · next hempty =>
      obtain ⟨old, hold, rfl⟩ := Option.map_eq_some_iff.mp hcall
      rw [if_pos hempty]
      have hcallInv := hinv c old hold fun c => (s.calls c).map (StopState.detach id)
      cases old with
      | sending => exact hcallInv
      | waiting id' position detached waited initial =>
        by_cases hid : id' = id
        · -- the list has become empty
          subst hid
          have hnil : (s.registry.cleanup_task task_id id').listed id' = [] := by
            rw [listed_cleanup_task, if_pos ⟨rfl, hempty.1⟩]
            exact hempty.2.2
          intro t ht
          rcases hcallInv t ht with hvisit | hdone
          · refine absurd hvisit ?_
            unfold StopState.task_ids
            split
            · simp
            · dsimp only
              rw [hnil]
              simp
          · exact Or.inr hdone
        · simpa [StopState.detach, hid] using hcallInv
    · next hkeep =>
      rw [if_neg hkeep]
      exact hinv c call hcall s.calls

/-- **Step lemma.** An orderly event keeps the invariant. -/
theorem StopInv.step (h : StopInv redis s) (horderly : Orderly redis s e)
    (hstep : stopStep redis s e = some s') : StopInv redis s' := by
  cases e with
  | create_task task_id id =>
    unfold stopStep at hstep
    rw [Option.ite_none_right_eq_some] at hstep
    obtain ⟨hfresh, rfl⟩ := And.imp_right Option.some.inj hstep
    refine ⟨h.registry.create_task hfresh, h.stopped, h.mode, fun c call hcall => ?_⟩
    refine (h.calls c call hcall).mono (fun id' position detached waited initial _ t ht => ?_)
      (fun t ht => ?_) (fun t _ ht => Or.inl ht) fun t ht => ht
    · left
      cases detached with
      | true => exact ht
      | false =>
        -- the list has grown at its end
        show t ∈ ((s.registry.create_task task_id id).listed id').drop position
        replace ht : t ∈ (s.registry.listed id').drop position := ht
        by_cases hid : id' = id
        · subst hid
          have hlisted : (s.registry.create_task task_id id').listed id' =
              s.registry.listed id' ++ [task_id] := by
            unfold Registry.create_task Registry.listed
            rw [Dict.get?_set_self, Option.getD_some]
            split
            · rfl
            · next hnil =>
              rw [not_not] at hnil
              rw [hnil]
              rfl
          rw [hlisted, List.drop_append]
          exact List.mem_append_left _ ht
        · have hlisted : (s.registry.create_task task_id id).listed id' =
              s.registry.listed id' := by
            unfold Registry.create_task Registry.listed
            rw [Dict.get?_set_ne _ hid]
          rw [hlisted]
          exact ht
    · show Function.update s.registry.created task_id (some id) t ≠ none
      rcases eq_or_ne t task_id with rfl | hne
      · simp
      · rwa [Function.update_of_ne hne]
  | finish task_id outcome =>
    unfold stopStep at hstep
    rw [Option.ite_none_right_eq_some] at hstep
    obtain ⟨⟨hcreated, -⟩, rfl⟩ := And.imp_right Option.some.inj hstep
    exact ⟨h.registry.finish hcreated outcome, h.stopped, h.mode, fun c call hcall =>
      (h.calls c call hcall).mono (fun _ _ _ _ _ _ _ ht => Or.inl ht) (fun _ ht => ht)
        (fun _ _ ht => Or.inl ht) fun _ ht => over_finish ht⟩
  | cleanup_task task_id =>
    unfold stopStep at hstep
    dsimp only at hstep
    split at hstep
    · next id hcreated =>
      rw [Option.ite_none_right_eq_some] at hstep
      exact h.cleanup_task horderly hcreated hstep.1 (Option.some.inj hstep.2).symm
    · cases hstep
  | stop_task task_id =>
    unfold stopStep at hstep
    rw [Option.ite_none_right_eq_some] at hstep
    obtain ⟨⟨hredis, htask⟩, rfl⟩ := And.imp_right Option.some.inj hstep
    refine ⟨h.registry.stop htask, fun hredis' => ?_, h.mode, fun c call hcall =>
      (h.calls c call hcall).mono (fun _ _ _ _ _ _ _ ht => Or.inl ht) (fun _ ht => ht)
        (fun _ _ ht => Or.inl ht) fun _ ht => over_cancel ht⟩
    rw [hredis] at hredis'
    cases hredis'
  | stop_item_tasks c id members =>
    unfold stopStep at hstep
    rw [Option.ite_none_right_eq_some] at hstep
    obtain ⟨-, hstep⟩ := hstep
    cases redis with
    | false =>
      cases hstep
      exact h.visit rfl fun t ht => Or.inl ht
    | true =>
      rw [if_pos rfl, Option.ite_none_right_eq_some] at hstep
      obtain ⟨hmembers, rfl⟩ := And.imp_right Option.some.inj hstep
      refine ⟨h.registry, h.stopped, h.mode_update fun call hcall => ?_, ?_⟩
      · split at hcall
        · cases hcall
        · cases hcall
          rfl
      · refine h.calls_update rfl rfl rfl (fun _ ht => ht) (fun _ ht => ht) fun call hcall => ?_
        split at hcall
        · cases hcall
        · cases hcall
          exact fun t ht => ⟨hmembers t ht, Or.inl ht⟩
  | resume c =>
    unfold stopStep at hstep
    dsimp only at hstep
    split at hstep
    · next id position detached task_id initial hcall =>
      have hredis : redis = false := (h.mode c _ hcall).symm
      split at hstep
      · cases hstep
        refine ⟨h.registry, h.stopped, h.mode_update (by simp), ?_⟩
        exact h.calls_update rfl rfl rfl (fun _ ht => ht) (fun _ ht => ht) (by simp)
      · cases hstep
        exact h.visit hredis (h.calls c _ hcall)
      · cases hstep
    · next task_id task_ids initial hcall =>
      cases hstep
      refine ⟨h.registry, h.stopped, h.mode_update fun call hnext => ?_, ?_⟩
      · have hmode := h.mode c _ hcall
        cases hnext
        exact hmode
      · refine h.calls_update rfl rfl rfl (fun _ ht => List.mem_cons_of_mem _ ht)
          (fun _ ht => ht) fun call hnext => ?_
        cases hnext
        intro t ht
        obtain ⟨hcreated, hmember | hsend | hdone⟩ := h.calls c _ hcall t ht
        · rcases List.mem_cons.mp hmember with rfl | hrest
          · exact ⟨hcreated, Or.inr (Or.inl (List.mem_cons_self ..))⟩
          · exact ⟨hcreated, Or.inl hrest⟩
        · exact ⟨hcreated, Or.inr (Or.inl (List.mem_cons_of_mem _ hsend))⟩
        · exact ⟨hcreated, Or.inr (Or.inr hdone)⟩
    · next initial hcall =>
      cases hstep
      refine ⟨h.registry, h.stopped, h.mode_update (by simp), ?_⟩
      · exact h.calls_update rfl rfl rfl (fun _ ht => ht) (fun _ ht => ht) (by simp)
    · cases hstep
  | listen task_id =>
    unfold stopStep at hstep
    rw [Option.ite_none_right_eq_some] at hstep
    obtain ⟨hsent, rfl⟩ := And.imp_right Option.some.inj hstep
    split
    · refine ⟨h.registry.cancel task_id, h.stopped, h.mode, fun c call hcall =>
        (h.calls c call hcall).mono (fun _ _ _ _ _ _ _ ht => Or.inl ht) (fun _ ht => ht)
          (fun t _ ht => ?_) fun _ ht => over_cancel ht⟩
      rcases eq_or_ne t task_id with rfl | hne
      · exact Or.inr (over_cancel_self s.registry t)
      · exact Or.inl ((List.mem_erase_of_ne hne).mpr ht)
    · next htask =>
      refine ⟨h.registry, h.stopped, h.mode, fun c call hcall => ?_⟩
      have hcallInv := h.calls c call hcall
      cases call with
      | waiting id position detached waited initial => exact hcallInv
      | sending task_ids initial =>
        refine hcallInv.mono (by simp) (fun _ ht => ht) (fun t hcreated ht => ?_) fun _ ht => ht
        rcases eq_or_ne t task_id with rfl | hne
        · -- a task that is no longer in `tasks` has been cleaned up
          right
          right
          have hmode : redis = true := (h.mode c _ hcall).symm
          apply h.registry.cleaned
          rw [h.registry.tasks_iff, h.stopped hmode] at htask
          simpa [hcreated] using htask
        · exact Or.inl ((List.mem_erase_of_ne hne).mpr ht)

/-! ## Where a call ends -/

/-- A loop that finds its tasks ends after the last one. -/
theorem visit_ends {c : C} {id : Option String} {position : ℕ} {detached : Bool} {initial : List T}
    (hfinds : Finds s id position detached)
    (hinitial : ∀ t ∈ initial,
      t ∈ (StopState.task_ids s.registry id detached).drop position ∨ Over s.registry t)
    (hends : (s.visit c id position detached initial).calls c = none) :
    ∀ t ∈ initial, Over (s.visit c id position detached initial).registry t := by
  intro t ht
  unfold StopState.visit at hends ⊢
  split at hends
  · next task_id htask =>
    rw [if_pos (hfinds task_id htask)] at hends
    dsimp only at hends
    rw [Function.update_self] at hends
    cases hends
  · next hend =>
    rw [List.getElem?_eq_none_iff] at hend
    rcases hinitial t ht with hvisit | hdone
    · rw [List.drop_eq_nil_of_le hend] at hvisit
      cases hvisit
    · exact hdone

/-- A call other than `c` stays in progress. -/
theorem calls_visit {c c' : C} {id : Option String} {position : ℕ} {detached : Bool}
    {initial : List T} (hne : c' ≠ c) :
    (s.visit c id position detached initial).calls c' = s.calls c' := by
  unfold StopState.visit
  split
  · split
    · exact Function.update_of_ne hne _ _
    · exact Function.update_of_ne hne _ _
  · exact Function.update_of_ne hne _ _

/-- A call in progress ends only where it goes on. -/
theorem resume_of_ends {c : C} {call : StopCall T} (hstep : stopStep redis s e = some s')
    (hcall : s.calls c = some call) (hends : s'.calls c = none) : e = .resume c := by
  have hother {calls : C → Option (StopCall T)} (hcalls : calls c = s.calls c)
      (hnone : calls c = none) : False := by
    rw [hcalls, hcall] at hnone
    cases hnone
  cases e with
  | create_task task_id id =>
    unfold stopStep at hstep
    rw [Option.ite_none_right_eq_some] at hstep
    rw [← Option.some.inj hstep.2] at hends
    exact (hother rfl hends).elim
  | finish task_id outcome =>
    unfold stopStep at hstep
    rw [Option.ite_none_right_eq_some] at hstep
    rw [← Option.some.inj hstep.2] at hends
    exact (hother rfl hends).elim
  | cleanup_task task_id =>
    unfold stopStep at hstep
    dsimp only at hstep
    split at hstep
    · rw [Option.ite_none_right_eq_some] at hstep
      rw [← Option.some.inj hstep.2] at hends
      dsimp only at hends
      split at hends
      · rw [Option.map_eq_none_iff] at hends
        exact (hother rfl hends).elim
      · exact (hother rfl hends).elim
    · cases hstep
  | stop_task task_id =>
    unfold stopStep at hstep
    rw [Option.ite_none_right_eq_some] at hstep
    rw [← Option.some.inj hstep.2] at hends
    exact (hother rfl hends).elim
  | stop_item_tasks c' id members =>
    unfold stopStep at hstep
    rw [Option.ite_none_right_eq_some] at hstep
    obtain ⟨hidle, hstep⟩ := hstep
    have hne : c ≠ c' := by
      rintro rfl
      rw [hcall] at hidle
      cases hidle
    split at hstep
    · rw [Option.ite_none_right_eq_some] at hstep
      rw [← Option.some.inj hstep.2] at hends
      exact (hother (Function.update_of_ne hne _ _) hends).elim
    · cases hstep
      exact (hother (calls_visit hne) hends).elim
  | resume c' =>
    by_cases hc : c = c'
    · rw [hc]
    · unfold stopStep at hstep
      dsimp only at hstep
      split at hstep
      · split at hstep
        · cases hstep
          exact (hother (Function.update_of_ne hc _ _) hends).elim
        · cases hstep
          exact (hother (calls_visit hc) hends).elim
        · cases hstep
      · cases hstep
        exact (hother (Function.update_of_ne hc _ _) hends).elim
      · cases hstep
        exact (hother (Function.update_of_ne hc _ _) hends).elim
      · cases hstep
  | listen task_id =>
    unfold stopStep at hstep
    rw [Option.ite_none_right_eq_some] at hstep
    rw [← Option.some.inj hstep.2] at hends
    exact (hother rfl hends).elim

/-- **An orderly step stops everything**: a call that ends at the step has dealt with all its tasks.
-/
theorem StopInv.stopsAll (h : StopInv redis s) (horderly : Orderly redis s e) :
    StopsAll redis s e := by
  intro s' hstep
  constructor
  · intro c call hcall hends
    obtain rfl := resume_of_ends hstep hcall hends
    have hcallInv := h.calls c call hcall
    unfold stopStep at hstep
    unfold Orderly at horderly
    dsimp only at hstep horderly
    rw [hcall] at hstep horderly
    cases call with
    | waiting id position detached task_id initial =>
      dsimp only at hstep horderly
      split at hstep
      · next hraised => exact absurd hraised horderly.2
      · cases hstep
        exact visit_ends horderly.1 hcallInv hends
      · cases hstep
    | sending task_ids initial =>
      cases task_ids with
      | cons task_id task_ids =>
        cases hstep
        dsimp only at hends
        rw [Function.update_self] at hends
        cases hends
      | nil =>
        cases hstep
        intro t ht
        obtain ⟨-, hmember | hsend | hdone⟩ := hcallInv t ht
        · cases hmember
        · exact absurd hsend (horderly rfl t ht)
        · exact hdone
  · rintro c id members rfl hends
    unfold stopStep at hstep
    rw [Option.ite_none_right_eq_some] at hstep
    replace hstep := hstep.2
    cases redis with
    | false =>
      cases hstep
      exact visit_ends (horderly rfl) (fun t ht => Or.inl ht) hends
    | true =>
      rw [if_pos rfl, Option.ite_none_right_eq_some] at hstep
      obtain ⟨-, rfl⟩ := And.imp_right Option.some.inj hstep
      dsimp only at hends
      rw [Function.update_self] at hends
      intro t ht
      split at hends
      · next hnil =>
        rw [if_pos rfl, hnil] at ht
        cases ht
      · cases hends

/-- **Stopping over runs.** In a run of events, with or without Redis, in which the events are
orderly, every call of `stop_item_tasks` that ends has stopped all tasks that were registered for
the item when it began. -/
theorem stops_all_of_orderly (redis : Bool) (es : List (StopEvent C T))
    (hes : StepsMeet (stopStep redis) (Orderly redis) .start es) :
    StepsMeet (stopStep redis) (StopsAll redis) .start es :=
  StepsMeet.of_invariant (P := StopInv redis) (fun _ _ h horderly => h.stopsAll horderly)
    (fun _ _ _ h horderly hstep => h.step horderly hstep)
    ⟨RegistryInv.start, fun _ _ => rfl, nofun, nofun⟩ hes

/-- Two tasks of an item, with the cleanup of the first one when both have been cancelled. -/
theorem stops_all_of_two_tasks :
    StepsMeet (stopStep false) (StopsAll false) (.start : StopState Unit Bool)
      [.create_task false (some "chat"), .create_task true (some "chat"),
        .stop_item_tasks () (some "chat") [], .finish false .cancelled, .resume (),
        .finish true .cancelled, .cleanup_task false, .resume ()] := by
  apply stops_all_of_orderly
  refine ⟨trivial, fun s hs => ?_⟩
  cases hs
  refine ⟨trivial, fun s hs => ?_⟩
  cases hs
  refine ⟨fun _ t ht => ?_, fun s hs => ?_⟩
  · cases ht
    decide
  cases hs
  refine ⟨trivial, fun s hs => ?_⟩
  cases hs
  refine ⟨⟨fun t ht => ?_, by decide⟩, fun s hs => ?_⟩
  · cases ht
    decide
  cases hs
  refine ⟨trivial, fun s hs => ?_⟩
  cases hs
  -- the loop has passed the end of the list
  refine ⟨fun _ _ _ _ _ hcall _ _ => ?_, fun s hs => ?_⟩
  · cases hcall
    exact Or.inr (by decide)
  cases hs
  refine ⟨⟨fun t ht => ?_, by decide⟩, fun s hs => trivial⟩
  cases ht

/-- **Three tasks**: the cleanup of the first one moves the third one to a position that the loop
has passed. **Two tasks**: the first one is being stopped by another caller, or raises, and the call
ends there. -/
theorem tasks_left_running :
    (∃ s : StopState Unit ℕ, exec (stopStep false) .start
        [.create_task 0 (some "chat"), .create_task 1 (some "chat"), .create_task 2 (some "chat"),
          .stop_item_tasks () (some "chat") [], .finish 0 .cancelled, .resume (), .cleanup_task 0,
          .finish 1 .cancelled, .resume ()] = some s ∧
      s.calls () = none ∧ ¬ Over s.registry 2) ∧
    (∃ s : StopState Unit ℕ, exec (stopStep false) .start
        [.create_task 0 (some "chat"), .create_task 1 (some "chat"), .stop_task 0,
          .stop_item_tasks () (some "chat") []] = some s ∧
      s.calls () = none ∧ ¬ Over s.registry 1) ∧
    ∃ s : StopState Unit ℕ, exec (stopStep false) .start
        [.create_task 0 (some "chat"), .create_task 1 (some "chat"),
          .stop_item_tasks () (some "chat") [], .finish 0 .raised, .resume ()] = some s ∧
      s.calls () = none ∧ ¬ Over s.registry 1 := by
  refine ⟨⟨_, rfl, rfl, ?_⟩, ⟨_, rfl, rfl, ?_⟩, ⟨_, rfl, rfl, ?_⟩⟩
  all_goals
    rintro (h | h)
    · cases h
    · exact h rfl

end OpenLaunch.Tasks
