import OpenLaunch.Tools.ExecutorResults
import Mathlib.Data.Set.Finite.Lemmas

/-! # The executor goes on

The calls of all batches wait for one another: for the semaphore of their class, for that of their
batch, and for that of the process. No semaphore is ever exceeded. The calls take the three in this
order, so that some call can always go on, and each goes on a bounded number of times. -/

namespace OpenLaunch.Tools

open Python Transition

variable {x : ToolExecutor} {w w' : World} {e : Event}

/-! ## Steps of tasks -/

/-- The task that an event moves on. -/
def Event.task? : Event → Option ℕ
  | .begin k | .acquire k | .attempt k | .call k | .outcome k _ | .cancelTask k => some k
  | _ => none

/-- The call has ended. -/
def Phase.ended : Phase → Bool
  | .finished _ | .raised _ | .cancelled => true
  | _ => false

/-- What a step of a task does to the class semaphores: they stay, apart from the one of a call that
is admitted, which is there afterwards and has a permit. -/
structure ClassEffect (x : ToolExecutor) (w w₁ : World) (t t' : Task) : Prop where
  kept : ∀ c n, w.class_semaphores.get? c = some n → w₁.class_semaphores.get? c = some n
  capacity : ∀ c n, w₁.class_semaphores.get? c = some n →
    w.class_semaphores.get? c = some n ∨ (0 < x.request_concurrency → 0 < n)
  registered : ∀ a, t'.phase.admitted? = some a → t.phase.admitted? = some a ∨
    a.annotations.concurrency_class ∈ w₁.class_semaphores

theorem ClassEffect.of_eq {w₁ : World} {t t' : Task}
    (h : w₁.class_semaphores = w.class_semaphores)
    (ht : ∀ a, t'.phase.admitted? = some a → t.phase.admitted? = some a) :
    ClassEffect x w w₁ t t' :=
  ⟨fun _ _ hn => h ▸ hn, fun _ _ hn => .inl (h ▸ hn), fun a ha => .inl (ht a ha)⟩

theorem ClassEffect.grows {w₁ : World} {t t' : Task} (h : ClassEffect x w w₁ t t') {c : String}
    (hc : c ∈ w.class_semaphores) : c ∈ w₁.class_semaphores := by
  obtain ⟨n, hn⟩ := Dict.mem_iff_exists.mp hc
  exact Dict.mem_iff_exists.mpr ⟨n, h.kept c n hn⟩

theorem registerClass_spec (x : ToolExecutor) (w : World) (ann : Annotations) :
    (w.registerClass x ann).busy = w.busy ∧
      (∀ c n, w.class_semaphores.get? c = some n →
        (w.registerClass x ann).class_semaphores.get? c = some n) ∧
      (∀ c n, (w.registerClass x ann).class_semaphores.get? c = some n →
        w.class_semaphores.get? c = some n ∨ (0 < x.request_concurrency → 0 < n)) ∧
      ann.concurrency_class ∈ (w.registerClass x ann).class_semaphores := by
  unfold World.registerClass
  dsimp only
  split_ifs with hmem
  · exact ⟨rfl, fun c n hn => hn, fun c n hn => .inl hn, hmem⟩
  all_goals
    refine ⟨rfl, fun c n hn => ?_, fun c n hn => ?_, Dict.mem_set.mpr (.inl rfl)⟩
    · -- the class is new
      have hne : c ≠ ann.concurrency_class := by
        rintro rfl
        exact hmem (Dict.mem_iff_exists.mpr ⟨n, hn⟩)
      rw [Dict.get?_set_ne _ hne, hn]
    dsimp only at hn
    rw [Dict.get?_set] at hn
    split_ifs at hn
    · right
      rw [Option.some.injEq] at hn
      omega
    · exact .inl hn

theorem classEffect_execute_one (x : ToolExecutor) (w : World) (t : Task) :
    (execute_one x w t.call).2.busy = w.busy ∧
      ClassEffect x w (execute_one x w t.call).2 t (t.to (execute_one x w t.call).1) := by
  have hsame : ∀ phase : Phase, phase.admitted? = none → w.busy = w.busy ∧
      ClassEffect x w w t (t.to phase) := fun phase hphase =>
    ⟨rfl, .of_eq rfl fun a ha => by rw [Task.to, hphase] at ha; cases ha⟩
  unfold execute_one
  cases x.tools.get? t.call.name with
  | none => exact hsame _ rfl
  | some tool =>
    dsimp only
    cases x.annotations tool with
    | error e => exact hsame _ rfl
    | ok ann =>
      obtain ⟨hbusy, hkept, hcapacity, hmem⟩ := registerClass_spec x w ann
      have hmore : ∀ (w₁ : World) (phase : Phase),
          w₁.class_semaphores = (w.registerClass x ann).class_semaphores →
          (∀ a, phase.admitted? = some a → a.annotations = ann) →
          ClassEffect x w w₁ t (t.to phase) := by
        intro w₁ phase hw₁ hphase
        refine ⟨fun c n hn => hw₁ ▸ hkept c n hn, fun c n hn => hcapacity c n (hw₁ ▸ hn),
          fun a ha => .inr ?_⟩
        rw [hphase a ha, hw₁]
        exact hmem
      dsimp only
      split
      · exact ⟨hbusy, hmore _ _ rfl fun a ha => by cases ha⟩
      · cases parse_arguments t.call.arguments with
        | none => exact ⟨hbusy, hmore _ _ rfl fun a ha => by cases ha⟩
        | some params =>
          dsimp only
          cases tool.properties with
          | error e => exact ⟨hbusy, hmore _ _ rfl fun a ha => by cases ha⟩
          | ok properties =>
            have hadmitted : ∀ (held : ℕ) (a' a : Admitted), a'.annotations = ann →
                (Phase.waiting a' held).admitted? = some a → a.annotations = ann := by
              intro held a' a ha' ha
              rw [Phase.admitted?, Option.some.injEq] at ha
              rw [← ha, ha']
            unfold consultBreaker
            dsimp only
            split_ifs
            · exact ⟨hbusy, hmore _ _ rfl fun a => hadmitted _ _ a rfl⟩
            · exact ⟨hbusy, hmore _ _ rfl fun a ha => by cases ha⟩
            · exact ⟨hbusy, hmore _ _ rfl fun a => hadmitted _ _ a rfl⟩

/-- **A step of a task**, and what it leaves alone. -/
theorem task_step {k : ℕ} (h : step x w e = some w') (he : e.task? = some k) :
    ∃ t t' w₁, w.tasks[k]? = some t ∧ t.phase.ended = false ∧ TaskStep x w k t e t' ∧
      Frame w w₁ ∧ w₁.busy = w.busy ∧ ClassEffect x w w₁ t t' ∧ w' = w₁.setTask k t' := by
  have hrecord : ∀ name a o, Frame w (recordOutcome w name a o) ∧
      (recordOutcome w name a o).busy = w.busy ∧
      (recordOutcome w name a o).class_semaphores = w.class_semaphores := by
    intro name a o
    unfold recordOutcome
    split
    · cases o <;> exact ⟨⟨rfl, rfl, rfl, rfl, rfl, rfl⟩, rfl, rfl⟩
    · exact ⟨.refl w, rfl, rfl⟩
  have hlast : ∀ (t : Task) a n o b, (afterAttempt w.now t.call a n o).admitted? = some b →
      b = a := by
    intro t a n o b hb
    cases o with
    | success => cases hb
    | timeout | exception =>
      rw [afterAttempt, afterFailure] at hb
      split_ifs at hb
      · exact (Option.some.inj hb).symm
      · cases hb
  cases e with
  | begin k =>
    cases he
    obtain ⟨t, hk, h⟩ := Option.bind_eq_some_iff.mp h
    cases hphase : t.phase with
    | created =>
      simp only [hphase] at h
      split at h
      · cases h
      · cases h
        have hspec := admit_spec x w k t hphase
        obtain ⟨hbusy, heffect⟩ := classEffect_execute_one x w t
        exact ⟨t, _, _, hk, by rw [hphase]; rfl, hspec.task, hspec.frame, hbusy, heffect,
          rfl⟩
    | _ => simp [hphase] at h
  | acquire k =>
    cases he
    obtain ⟨t, hk, h⟩ := Option.bind_eq_some_iff.mp h
    cases hphase : t.phase with
    | waiting a held =>
      simp only [hphase] at h
      split at h
      · cases h
        by_cases hlt : held < 2
        · rw [if_pos hlt]
          exact ⟨t, _, w, hk, by rw [hphase]; rfl, .acquire hphase hlt, .refl w, rfl,
            .of_eq rfl (by simp [hphase, Task.to, Phase.admitted?]), rfl⟩
        · rw [if_neg hlt]
          exact ⟨t, _, w, hk, by rw [hphase]; rfl, .enter hphase, .refl w, rfl,
            .of_eq rfl (by simp [hphase, Task.to, Phase.admitted?]), rfl⟩
      · cases h
    | _ => simp [hphase] at h
  | attempt k =>
    cases he
    obtain ⟨t, hk, h⟩ := Option.bind_eq_some_iff.mp h
    cases hphase : t.phase with
    | ready a n =>
      simp only [hphase] at h
      cases h
      exact ⟨t, _, w, hk, by rw [hphase]; rfl, .attempt hphase, .refl w, rfl,
        .of_eq rfl (by simp [hphase, Task.to, Phase.admitted?]), rfl⟩
    | _ => simp [hphase] at h
  | call k =>
    cases he
    obtain ⟨t, hk, h⟩ := Option.bind_eq_some_iff.mp h
    cases hphase : t.phase with
    | invoking a n =>
      simp only [hphase] at h
      split at h
      · cases h
        exact ⟨t, _, w, hk, by rw [hphase]; rfl, .call hphase, .refl w, rfl,
          .of_eq rfl (by simp [hphase, Phase.admitted?]), rfl⟩
      · cases h
    | _ => simp [hphase] at h
  | outcome k o =>
    cases he
    obtain ⟨t, hk, h⟩ := Option.bind_eq_some_iff.mp h
    have hmoved : ∃ a n, t.phase.attempting a n ∧ w' = (recordOutcome w t.call.name a o).setTask k
        (t.to (afterAttempt w.now t.call a n o)) := by
      cases hphase : t.phase with
      | running a n =>
        simp only [hphase] at h
        cases h
        exact ⟨a, n, .inr rfl, rfl⟩
      | invoking a n =>
        simp only [hphase] at h
        -- a success needs a callable that was called
        cases o <;> cases h <;> exact ⟨a, n, .inl rfl, rfl⟩
      | _ => simp [hphase] at h
    obtain ⟨a, n, hphase, rfl⟩ := hmoved
    obtain ⟨hframe, hbusy, hclasses⟩ := hrecord t.call.name a o
    have hadmitted : t.phase.admitted? = some a := by rcases hphase with h | h <;> rw [h] <;> rfl
    refine ⟨t, _, _, hk, ?_, taskStep_afterAttempt hphase w.now o, hframe, hbusy,
      .of_eq hclasses fun b hb => ?_, rfl⟩
    · rcases hphase with h | h <;> rw [h] <;> rfl
    · rw [hadmitted, hlast t a n o b hb]
  | cancelTask k =>
    cases he
    obtain ⟨t, hk, h⟩ := Option.bind_eq_some_iff.mp h
    have hmoved : t.phase.ended = false ∧ w' = w.setTask k (t.to .cancelled) := by
      split at h
      all_goals
        next hphase =>
        first
        | split_ifs at h
          cases h
          exact ⟨by rw [hphase]; rfl, rfl⟩
        | cases h
          exact ⟨by rw [hphase]; rfl, rfl⟩
        | cases h
    obtain ⟨hopen, rfl⟩ := hmoved
    exact ⟨t, _, w, hk, hopen, .cancel, .refl w, rfl, .of_eq rfl (fun a ha => by cases ha), rfl⟩
  | _ => cases he

/-! ## Bounded progress -/

/-- How many steps a call may still take, at most. -/
def Phase.rank : Phase → ℕ
  | .created => 13
  | .waiting _ held => 12 - held
  | .ready _ n => 9 - 3 * n
  | .invoking _ n => 8 - 3 * n
  | .running _ n => 7 - 3 * n
  | .finished _ | .raised _ | .cancelled => 0

/-- A call waits for one of three semaphores, and makes three attempts at most. -/
def Phase.Bounded : Phase → Prop
  | .waiting _ held => held < 3
  | .ready _ n | .invoking _ n | .running _ n => n < 3
  | .created | .finished _ | .raised _ | .cancelled => True

/-- How many steps a batch may still take, at most. -/
def Batch.rank (batch : Batch) : ℕ :=
  match batch.phase with
  | .gathering _ => batch.calls.length + 2
  | .accounting _ _ _ todo => todo.length + 1
  | .returned _ | .abandoned _ | .aborted _ => 0

/-- How many steps all calls and batches may still take, at most. -/
def World.rank (w : World) : ℕ :=
  (w.tasks.map fun t => t.phase.rank).sum + (w.batches.map Batch.rank).sum

/-- How many steps all calls and batches may take from their start, at most. -/
def World.allowance (w : World) : ℕ :=
  13 * w.tasks.length + (w.batches.map fun batch => batch.calls.length + 2).sum

/-- The steps of the executor itself. -/
def Event.own : Event → Bool
  | .gathered _ | .gatherFailed _ _ | .account _ => true
  | e => e.task?.isSome

theorem TaskStep.bounded {k : ℕ} {t t' : Task} (h : TaskStep x w k t e t')
    (ht : t.phase.Bounded) : t'.phase.Bounded := by
  cases h with
  | acquire hphase hlt => exact Nat.succ_lt_succ hlt
  | attempt hphase | call hphase => rwa [hphase] at ht
  | @retry a n o hphase hn => exact lt_of_lt_of_le hn a.attempts_le
  | reject | raise | finish | cancel => trivial
  | admitted | enter => exact Nat.zero_lt_succ 2

/-- Every step of an open call lowers its rank. -/
theorem TaskStep.rank_lt {k : ℕ} {t t' : Task} (h : TaskStep x w k t e t')
    (ht : t.phase.Bounded) (hopen : t.phase.ended = false) : t'.phase.rank < t.phase.rank := by
  have hpos : 0 < t.phase.rank := by
    generalize t.phase = phase at ht hopen
    cases phase <;> simp_all [Phase.rank, Phase.Bounded, Phase.ended] <;> omega
  cases h with
  | reject | raise | finish | cancel => exact hpos
  | admitted hphase => simp [hphase, Task.to, Phase.rank]
  | acquire hphase hlt =>
    simp only [hphase, Task.to, Phase.rank]
    omega
  | enter hphase | attempt hphase | call hphase =>
    rw [hphase] at ht
    simp only [hphase, Task.to, Phase.rank, Phase.Bounded] at ht ⊢
    omega
  | @retry a n o hphase hn =>
    have hle := a.attempts_le
    rcases hphase with hphase | hphase
    all_goals
      simp only [hphase, Task.to, Phase.rank]
      omega

/-- What the counting of steps rests on. -/
structure ProgressInv (w : World) : Prop where
  labels : LabelInv w
  placed : PlacedInv w
  bounded : ∀ t ∈ w.tasks, t.phase.Bounded

theorem ProgressInv.step (hw : ProgressInv w) (h : step x w e = some w') : ProgressInv w' :=
  ⟨hw.labels.step hw.placed h, hw.placed.effect (step_effect h),
    (step_effect h).forall_tasks (fun _ _ => trivial) (fun _ _ _ ht => ht.bounded) hw.bounded⟩

theorem ProgressInv.init (breaker : CircuitBreaker) : ProgressInv (.init breaker) :=
  ⟨⟨by simp [World.init], by simp [World.init]⟩, ⟨by simp [World.placed, World.init],
    by simp [World.init]⟩, by simp [World.init]⟩

theorem rank_setBatch {w₁ : World} {b : ℕ} {batch : Batch} {phase : BatchPhase} {m : ℕ}
    (htasks : w₁.tasks = w.tasks) (hbatches : w₁.batches = w.batches)
    (hb : w.batches[b]? = some batch)
    (h : m + ({ batch with phase := phase } : Batch).rank ≤ batch.rank) :
    m + (w₁.setBatch b { batch with phase := phase }).rank + w.allowance ≤
      w.rank + (w₁.setBatch b { batch with phase := phase }).allowance := by
  have hrank := sum_map_set Batch.rank hb { batch with phase := phase }
  have hallowance := sum_map_set (fun batch => batch.calls.length + 2) hb
    { batch with phase := phase }
  dsimp only at hallowance
  simp only [World.rank, World.allowance, World.setBatch, htasks, hbatches]
  omega

/-- **Every step of the executor itself uses up rank**, and nothing but a new batch adds to it. -/
theorem rank_step (hw : ProgressInv w) (h : step x w e = some w') :
    e.own.toNat + w'.rank + w.allowance ≤ w.rank + w'.allowance := by
  -- other executors and the clock change no call and no batch
  have hsame : w'.tasks = w.tasks → w'.batches = w.batches → e.own = false →
      e.own.toNat + w'.rank + w.allowance ≤ w.rank + w'.allowance := by
    intro htasks hbatches hown
    simp only [World.rank, World.allowance, htasks, hbatches, hown, Bool.toNat_false]
    omega
  -- a step of a call lowers the rank of that call only
  have htask : ∀ k, e.task? = some k →
      e.own.toNat + w'.rank + w.allowance ≤ w.rank + w'.allowance := by
    intro k he
    obtain ⟨t, t', w₁, hk, hopen, ht, hframe, -, -, rfl⟩ := task_step h he
    have hlt := ht.rank_lt (hw.bounded t (List.mem_of_getElem? hk)) hopen
    have hsum := sum_map_set (fun t : Task => t.phase.rank) hk t'
    have hle := e.own.toNat_le
    simp only [World.rank, World.allowance, World.setTask, hframe.tasks, hframe.batches,
      List.length_set]
    omega
  cases e with
  | begin k | acquire k | attempt k | call k | outcome k o | cancelTask k => exact htask k rfl
  | tick d | others busy =>
    simp only [step] at h
    split_ifs at h
    cases h
    exact hsame rfl rfl rfl
  | othersAllow name | othersSuccess name | othersFailure name =>
    cases h
    exact hsame rfl rfl rfl
  | execute_batch calls =>
    cases h
    show 0 + _ + _ ≤ _
    unfold World.executeBatch
    split
    · simp [World.rank, World.allowance, Batch.rank, Nat.add_assoc]
    · simp [World.rank, World.allowance, Batch.rank, Phase.rank, Function.comp_def]
      omega
  | cancelBatch b | hookFailed b =>
    obtain ⟨batch, hb, h⟩ := Option.bind_eq_some_iff.mp h
    cases hphase : batch.phase with
    | gathering | accounting =>
      simp only [hphase] at h
      first
      | cases h
      | split_ifs at h
        cases h
      all_goals
        refine rank_setBatch rfl rfl hb ?_
        simp [Batch.rank, hphase, Event.own, Event.task?]
    | _ => simp [hphase] at h
  | gathered b =>
    obtain ⟨batch, hb, h⟩ := Option.bind_eq_some_iff.mp h
    obtain ⟨results, hresults, h⟩ := Option.bind_eq_some_iff.mp h
    cases hphase : batch.phase with
    | gathering c =>
      simp only [hphase] at h
      cases c with
      | true =>
        cases h
        refine rank_setBatch rfl rfl hb ?_
        simp [Batch.rank, hphase, Event.own]
      | false =>
        cases h
        refine rank_setBatch rfl rfl hb ?_
        -- one result for each call
        have hlen := congrArg List.length (label_results hw.labels.tasks hresults)
        rw [hw.placed.calls _ _ hb] at hlen
        simp only [List.length_map, List.length_take] at hlen
        simp [Batch.rank, hphase, Event.own, Batch.unaccepted]
        omega
    | _ => simp [hphase] at h
  | gatherFailed b k =>
    obtain ⟨batch, hb, h⟩ := Option.bind_eq_some_iff.mp h
    obtain ⟨t, hk, h⟩ := Option.bind_eq_some_iff.mp h
    have hset : ∃ c, batch.phase = .gathering c ∧
        w' = w.setBatch b { batch with phase := .abandoned c } := by
      split at h
      · next hphase _ =>
        split_ifs at h
        cases h
        exact ⟨_, hphase, rfl⟩
      · next hphase _ =>
        split_ifs at h
        cases h
        exact ⟨_, hphase, rfl⟩
      · cases h
    obtain ⟨c, hphase, rfl⟩ := hset
    refine rank_setBatch rfl rfl hb ?_
    simp [Batch.rank, hphase, Event.own]
  | account b =>
    obtain ⟨batch, hb, h⟩ := Option.bind_eq_some_iff.mp h
    unfold World.account at h
    split at h
    · next hphase =>
      cases h
      refine rank_setBatch rfl rfl hb ?_
      simp [Batch.rank, hphase, Event.own]
    · next hphase =>
      cases h
      refine rank_setBatch rfl rfl hb ?_
      unfold afterResult
      split <;> simp [Batch.rank, hphase, Event.own]
      omega
    · cases h

/-- **Runs end.** In every run, in whatever order the calls of all batches go on, the executor
itself takes at most thirteen steps for each call it has accepted, and for each batch two more than
it has calls. -/
theorem own_steps_le {breaker : CircuitBreaker} {es : List Event}
    (hrun : exec (step x) (.init breaker) es = some w) :
    es.countP Event.own ≤ 13 * w.tasks.length +
      (w.batches.map fun batch => batch.calls.length + 2).sum := by
  -- from any state, since the induction is on the run from its start
  have hcount : ∀ (w₀ : World), ProgressInv w₀ → exec (step x) w₀ es = some w →
      es.countP Event.own + w.rank + w₀.allowance ≤ w₀.rank + w.allowance := by
    clear hrun
    induction es with
    | nil =>
      intro w₀ _ hrun
      cases hrun
      simp
    | cons e es ih =>
      intro w₀ hw₀ hrun
      obtain ⟨w₁, hstep, hrun⟩ := exec_cons_eq_some.mp hrun
      have hrest := ih w₁ (hw₀.step hstep) hrun
      have hfirst := rank_step hw₀ hstep
      rw [List.countP_cons]
      cases hown : e.own <;> simp only [hown, Bool.toNat_true, Bool.toNat_false] at hfirst ⊢ <;>
        simp <;> omega
  have hle := hcount _ (.init breaker) hrun
  simp only [World.init, World.rank, World.allowance, List.map_nil, List.sum_nil,
    List.length_nil] at hle
  omega

theorem exists_oneCall : ∃ w, exec (step oneTool) (.init (.init 5 30)) oneCall = some w :=
  Option.isSome_iff_exists.mp (by decide +kernel)

theorem own_steps_le_one_call :
    ∃ w, exec (step oneTool) (.init (.init 5 30)) oneCall = some w ∧
      oneCall.countP Event.own ≤ 13 * w.tasks.length +
        (w.batches.map fun batch => batch.calls.length + 2).sum := by
  obtain ⟨w, hw⟩ := exists_oneCall
  exact ⟨w, hw, own_steps_le hw⟩

/-! ## No deadlock -/

/-- The class of every admitted call has a semaphore, and every semaphore has a permit. -/
structure ClassInv (x : ToolExecutor) (w : World) : Prop where
  registered : ∀ t ∈ w.tasks, ∀ a, t.phase.admitted? = some a →
    a.annotations.concurrency_class ∈ w.class_semaphores
  capacity : ∀ c n, w.class_semaphores.get? c = some n → 0 < x.request_concurrency → 0 < n

/-- What is no step of a call leaves the calls, the classes and the permits alone, apart from new
calls and from what other executors take and give back. -/
theorem other_step (h : step x w e = some w') (he : e.task? = none) :
    w'.class_semaphores = w.class_semaphores ∧
      (w'.busy = w.busy ∨ w'.busy + w.globalHolders ≤ x.env.global_concurrency) ∧
      ∃ new, w'.tasks = w.tasks ++ new ∧ ∀ t ∈ new, t.phase = .created := by
  have hsame : ∀ {w₁ : World}, w₁.tasks = w.tasks →
      ∃ new, w₁.tasks = w.tasks ++ new ∧ ∀ t ∈ new, t.phase = .created := fun htasks =>
    ⟨[], by rw [htasks, List.append_nil], List.forall_mem_nil _⟩
  cases e with
  | begin | acquire | attempt | call | outcome | cancelTask => cases he
  | tick =>
    simp only [step] at h
    split_ifs at h
    cases h
    exact ⟨rfl, .inl rfl, hsame rfl⟩
  | others =>
    simp only [step] at h
    split_ifs at h with hbusy
    cases h
    exact ⟨rfl, .inr hbusy, hsame rfl⟩
  | othersAllow | othersSuccess | othersFailure =>
    cases h
    exact ⟨rfl, .inl rfl, hsame rfl⟩
  | execute_batch calls =>
    cases h
    unfold World.executeBatch
    split
    · exact ⟨rfl, .inl rfl, hsame rfl⟩
    · refine ⟨rfl, .inl rfl, _, rfl, fun t ht => ?_⟩
      obtain ⟨call, -, rfl⟩ := List.mem_map.mp ht
      rfl
  | cancelBatch b | hookFailed b | account b =>
    obtain ⟨batch, -, h⟩ := Option.bind_eq_some_iff.mp h
    first | unfold World.account at h | skip
    split at h <;> first | split_ifs at h | skip
    all_goals
      cases h
      try exact ⟨rfl, .inl rfl, hsame rfl⟩
  | gathered b | gatherFailed b k =>
    obtain ⟨batch, -, h⟩ := Option.bind_eq_some_iff.mp h
    obtain ⟨r, -, h⟩ := Option.bind_eq_some_iff.mp h
    split at h <;> first | split_ifs at h | skip
    all_goals
      cases h
      try exact ⟨rfl, .inl rfl, hsame rfl⟩

theorem ClassInv.step (hw : ClassInv x w) (h : step x w e = some w') : ClassInv x w' := by
  cases he : e.task? with
  | none =>
    obtain ⟨hclasses, -, new, htasks, hnew⟩ := other_step h he
    refine ⟨fun t ht a ha => ?_, hclasses ▸ hw.capacity⟩
    rw [htasks] at ht
    rw [hclasses]
    rcases List.mem_append.mp ht with hmem | hmem
    · exact hw.registered t hmem a ha
    · rw [hnew t hmem] at ha
      cases ha
  | some k =>
    obtain ⟨t, t', w₁, hk, -, -, hframe, -, heffect, rfl⟩ := task_step h he
    refine ⟨fun t₁ ht₁ a ha => ?_, fun c n hn hpos => ?_⟩
    · rw [World.setTask, hframe.tasks] at ht₁
      rcases List.mem_or_eq_of_mem_set ht₁ with hmem | rfl
      · exact heffect.grows (hw.registered t₁ hmem a ha)
      · rcases heffect.registered a ha with hbefore | hnew
        · exact heffect.grows (hw.registered t (List.mem_of_getElem? hk) a hbefore)
        · exact hnew
    · rcases heffect.capacity c n hn with hbefore | hnew
      · exact hw.capacity c n hbefore hpos
      · exact hnew hpos

/-- A call that waits, and than which none holds more semaphores, gets the next. -/
theorem canAcquire_of_max (hw : ClassInv x w) (hrequest : 0 < x.request_concurrency)
    (hbusy : w.busy < x.env.global_concurrency) {t : Task} (ht : t ∈ w.tasks) {a : Admitted}
    {held : ℕ} (hphase : t.phase = .waiting a held) (hheld : held < 3)
    (hmax : ∀ t' ∈ w.tasks, t'.phase.held ≤ held) : canAcquire x w t.batch a held = true := by
  -- nobody holds the semaphore it waits for
  have hnone : ∀ p : Task → Bool, (∀ t', p t' = true → held + 1 ≤ t'.phase.held) →
      w.tasks.countP p = 0 := by
    intro p hp
    apply List.countP_eq_zero.mpr
    intro t' ht' hholds
    have hle := hmax t' ht'
    have hlt := hp t' hholds
    omega
  unfold canAcquire World.classHolders World.batchHolders World.globalHolders
  split
  · obtain ⟨n, hn⟩ := Dict.mem_iff_exists.mp (hw.registered t ht a (by rw [hphase]; rfl))
    rw [hnone _ (by simp_all), hn]
    simpa using hw.capacity _ n hn hrequest
  · rw [hnone _ (by simp_all)]
    simpa using hrequest
  · next hzero hone =>
    have htwo : held = 2 := by
      have hne₀ : held ≠ 0 := hzero
      have hne₁ : held ≠ 1 := hone
      omega
    rw [hnone _ (by simp [htwo])]
    simpa using hbusy

/-- **An open call can go on, or another can.** -/
theorem exists_task_event (hw : ClassInv x w) (hbounded : ∀ t ∈ w.tasks, t.phase.Bounded)
    (hrequest : 0 < x.request_concurrency) (hbusy : w.busy < x.env.global_concurrency)
    (hopen : ∃ t ∈ w.tasks, t.phase.ended = false) :
    ∃ k e, e.task? = some k ∧ (e = .cancelTask k → ∃ t, w.tasks[k]? = some t ∧
      w.cancelling t.batch = true) ∧ (step x w e).isSome = true := by
  -- the open call that holds the most
  obtain ⟨t, ⟨ht, htopen⟩, hmax⟩ := Set.exists_max_image
    {t : Task | t ∈ w.tasks ∧ t.phase.ended = false} (fun t => t.phase.held)
    ((List.finite_toSet w.tasks).subset fun _ h => h.1) hopen
  obtain ⟨k, hk⟩ := List.mem_iff_getElem?.mp ht
  have hle : ∀ t' ∈ w.tasks, t'.phase.held ≤ t.phase.held := by
    intro t' ht'
    cases hended : t'.phase.ended with
    | false => exact hmax t' ⟨ht', hended⟩
    | true =>
      generalize t'.phase = phase at hended
      cases phase <;> first | exact Nat.zero_le _ | cases hended
  have hb := hbounded t ht
  cases hphase : t.phase with
  | created =>
    cases hcancel : w.cancelling t.batch with
    | true =>
      refine ⟨k, .cancelTask k, rfl, fun _ => ⟨t, hk, hcancel⟩, ?_⟩
      simp [step, hk, hphase, hcancel]
    | false =>
      refine ⟨k, .begin k, rfl, by simp, ?_⟩
      simp [step, hk, hphase, hcancel]
  | waiting a held =>
    rw [hphase] at hle hb
    have hcan := canAcquire_of_max hw hrequest hbusy ht hphase hb hle
    refine ⟨k, .acquire k, rfl, by simp, ?_⟩
    simp [step, hk, hphase, hcan]
  | ready a n =>
    refine ⟨k, .attempt k, rfl, by simp, ?_⟩
    simp [step, hk, hphase]
  | invoking a n | running a n =>
    -- an attempt times out at the latest
    refine ⟨k, .outcome k .timeout, rfl, by simp, ?_⟩
    simp [step, hk, hphase]
  | finished | raised | cancelled => simp [hphase, Phase.ended] at htopen

theorem isSome_mapM {α β : Type} {f : α → Option β} {l : List α}
    (h : ∀ a ∈ l, (f a).isSome = true) : (l.mapM f).isSome = true := by
  induction l with
  | nil => rfl
  | cons a l ih =>
    obtain ⟨ha, hl⟩ := List.forall_mem_cons.mp h
    obtain ⟨b, hb⟩ := Option.isSome_iff_exists.mp ha
    obtain ⟨bs, hbs⟩ := Option.isSome_iff_exists.mp (ih hl)
    simp [List.mapM_cons, hb, hbs]

/-- Once its calls have ended, a batch has its results or an exception. -/
theorem exists_gather_event {b : ℕ} {batch : Batch} {c : Bool} (hb : w.batches[b]? = some batch)
    (hphase : batch.phase = .gathering c) (hended : ∀ t ∈ w.tasks, t.phase.ended = true) :
    (step x w (.gathered b)).isSome = true ∨
      ∃ k, (step x w (.gatherFailed b k)).isSome = true := by
  cases hresults : w.results b with
  | some results =>
    left
    cases c <;> simp [step, hb, hresults, hphase]
  | none =>
    right
    obtain ⟨t, ht, hfailed⟩ : ∃ t ∈ w.tasks.filter fun t => t.batch = b,
        ∀ r, t.phase ≠ .finished r := by
      by_contra! hall
      have hsome : (w.results b).isSome = true := by
        refine isSome_mapM fun t ht => ?_
        obtain ⟨r, hr⟩ := hall t ht
        rw [hr]
        rfl
      rw [hresults] at hsome
      cases hsome
    obtain ⟨hmem, hbatch⟩ := List.mem_filter.mp ht
    obtain ⟨k, hk⟩ := List.mem_iff_getElem?.mp hmem
    have htended := hended t hmem
    refine ⟨k, ?_⟩
    cases htphase : t.phase with
    | raised | cancelled => simp_all [step]
    | finished r => exact absurd htphase (hfailed r)
    | _ => simp [htphase, Phase.ended] at htended

/-- A batch has not come to its end. -/
def BatchPhase.isOpen : BatchPhase → Bool
  | .gathering _ | .accounting _ _ _ _ => true
  | .returned _ | .abandoned _ | .aborted _ => false

/-- **No deadlock.** In every state that a run reaches, while a batch is open, and unless other
executors hold the global semaphore altogether, the executor can go on by itself; it need not wait
for a cancellation that has not been asked for. -/
theorem not_deadlocked {breaker : CircuitBreaker} {es : List Event}
    (hrequest : 0 < x.request_concurrency)
    (hrun : exec (step x) (.init breaker) es = some w)
    (hbusy : w.busy < x.env.global_concurrency)
    (hopen : ∃ batch ∈ w.batches, batch.phase.isOpen = true) :
    ∃ e, e.own = true ∧ (step x w e).isSome = true ∧ ∀ k, e = .cancelTask k →
      ∃ t, w.tasks[k]? = some t ∧ w.cancelling t.batch = true := by
  have hinv : ProgressInv w ∧ ClassInv x w := by
    refine exec_invariant (P := fun w => ProgressInv w ∧ ClassInv x w)
      (fun _ _ _ hw h => ⟨hw.1.step h, hw.2.step h⟩) ⟨.init breaker, ?_⟩ hrun
    exact ⟨by simp [World.init], fun c n hn => by cases hn⟩
  by_cases htasks : ∃ t ∈ w.tasks, t.phase.ended = false
  · obtain ⟨k, e, he, hcancel, hstep⟩ :=
      exists_task_event hinv.2 hinv.1.bounded hrequest hbusy htasks
    refine ⟨e, ?_, hstep, ?_⟩
    · cases e <;> first | rfl | cases he
    · rintro k' rfl
      cases he
      exact hcancel rfl
  · -- all calls have ended, so the batch can go on
    simp only [not_exists, not_and, Bool.not_eq_false] at htasks
    obtain ⟨batch, hmem, hopen⟩ := hopen
    obtain ⟨b, hb⟩ := List.mem_iff_getElem?.mp hmem
    cases hphase : batch.phase with
    | gathering c =>
      rcases exists_gather_event (x := x) hb hphase htasks with hstep | ⟨k, hstep⟩
      · exact ⟨.gathered b, rfl, hstep, by simp⟩
      · exact ⟨.gatherFailed b k, rfl, hstep, by simp⟩
    | accounting _ _ done todo =>
      refine ⟨.account b, rfl, ?_, by simp⟩
      cases todo <;> simp [step, hb, World.account, hphase]
    | _ => simp [hphase, BatchPhase.isOpen] at hopen

/-- A batch whose call has not begun. -/
theorem not_deadlocked_one_call :
    ∃ w, exec (step oneTool) (.init (.init 5 30)) [.execute_batch [smallCall]] = some w ∧
      ∃ e, e.own = true ∧ (step oneTool w e).isSome = true ∧
        ∀ k, e = .cancelTask k → ∃ t, w.tasks[k]? = some t ∧ w.cancelling t.batch = true := by
  have hstate : (exec (step oneTool) (.init (.init 5 30)) [.execute_batch [smallCall]]).map
        (fun w => (w.busy, w.batches.any fun batch => batch.phase.isOpen)) = some (0, true) := by
    decide +kernel
  obtain ⟨w, hw, hstate⟩ := Option.map_eq_some_iff.mp hstate
  obtain ⟨hbusy, hopen⟩ := Prod.mk.inj hstate
  exact ⟨w, hw, not_deadlocked (by decide +kernel) hw (by rw [hbusy]; decide +kernel)
    (List.any_eq_true.mp hopen)⟩

/-! ## The semaphores -/

/-- **Nobody holds a permit that is not there**: of a class, of a batch, and of the process, among
the calls of all batches and the other executors. -/
structure SemaphoreInv (x : ToolExecutor) (w : World) : Prop where
  classes : ∀ c, w.classHolders c ≤ (w.class_semaphores.get? c).getD 0
  batches : ∀ b, w.batchHolders b ≤ x.request_concurrency
  process : w.busy + w.globalHolders ≤ x.env.global_concurrency

/-- A step of a call other than `acquire` takes no permit. -/
theorem TaskStep.takes_none {k : ℕ} {t t' : Task} (h : TaskStep x w k t e t')
    (he : e ≠ .acquire k) : t'.phase.held ≤ t.phase.held ∧
      (1 ≤ t'.phase.held → t'.phase.admitted? = t.phase.admitted?) := by
  cases h with
  | acquire | enter => exact absurd rfl he
  | attempt hphase | call hphase => simp [hphase, Task.to, Phase.held, Phase.admitted?]
  | retry hphase => rcases hphase with h | h <;> simp [h, Task.to, Phase.held, Phase.admitted?]
  | reject | raise | admitted | finish | cancel => simp [Task.to, Phase.held]

theorem SemaphoreInv.taken {w₁ : World} {k : ℕ} {t t' : Task} (hw : SemaphoreInv x w)
    (hk : w.tasks[k]? = some t) (htasks : w₁.tasks = w.tasks) (hbusy : w₁.busy = w.busy)
    (heffect : ClassEffect x w w₁ t t') (hbatch : t'.batch = t.batch)
    (hheld : t'.phase.held ≤ t.phase.held)
    (hclass : 1 ≤ t'.phase.held → t'.phase.admitted? = t.phase.admitted?) :
    SemaphoreInv x (w₁.setTask k t') := by
  have hle : ∀ p : Task → Bool, (p t' = true → p t = true) →
      (w₁.setTask k t').tasks.countP p ≤ w.tasks.countP p := by
    intro p hp
    rw [World.setTask, htasks]
    exact countP_set_le p hk hp
  refine ⟨fun c => ?_, fun b => ?_, ?_⟩
  · refine (hle _ ?_).trans ((hw.classes c).trans ?_)
    · simp only [decide_eq_true_eq]
      rintro ⟨hone, hc⟩
      exact ⟨by omega, hclass hone ▸ hc⟩
    · -- capacities stay
      show _ ≤ (w₁.class_semaphores.get? c).getD 0
      cases hc : w.class_semaphores.get? c with
      | none => exact Nat.zero_le _
      | some n => rw [heffect.kept c n hc]
  · refine (hle _ ?_).trans (hw.batches b)
    simp only [decide_eq_true_eq, hbatch]
    exact fun h => ⟨by omega, h.2⟩
  · show w₁.busy + _ ≤ _
    rw [hbusy]
    have hprocess := hle (fun t => 3 ≤ t.phase.held) (by simp only [decide_eq_true_eq]; omega)
    exact (Nat.add_le_add_left hprocess _).trans hw.process

/-- The next semaphore has a free permit, which the call takes. -/
theorem SemaphoreInv.acquire {k : ℕ} (hw : SemaphoreInv x w)
    (h : step x w (.acquire k) = some w') : SemaphoreInv x w' := by
  obtain ⟨t, hk, h⟩ := Option.bind_eq_some_iff.mp h
  cases hphase : t.phase with
  | waiting a held =>
    simp only [hphase] at h
    split at h
    · next hcan =>
      cases h
      have hbefore : t.phase.held = held ∧ t.phase.admitted? = some a := by
        simp [hphase, Phase.held, Phase.admitted?]
      have hafter : ∀ t', t' = t.to (if held < 2 then .waiting a (held + 1) else .ready a 0) →
          t'.batch = t.batch ∧ t'.phase.held ≤ held + 1 ∧ t'.phase.held ≤ 3 ∧
            t'.phase.admitted? = some a := by
        rintro t' rfl
        split <;> simp [Task.to, Phase.held, Phase.admitted?] <;> omega
      generalize t.to _ = t' at hafter
      obtain ⟨hbatch, hheld, hthree, hclass⟩ := hafter t' rfl
      clear hafter hphase
      refine ⟨fun c => ?_, fun b => ?_, ?_⟩
      · by_cases hnew : held = 0 ∧ a.annotations.concurrency_class = c
        · obtain ⟨rfl, rfl⟩ := hnew
          rw [canAcquire, decide_eq_true_eq] at hcan
          exact (countP_set_le_succ _ hk t').trans hcan
        · refine (countP_set_le _ hk ?_).trans (hw.classes c)
          simp only [decide_eq_true_eq, hbefore, hclass]
          rintro ⟨-, hc⟩
          exact ⟨Nat.pos_of_ne_zero fun hzero => hnew ⟨hzero, Option.some.inj hc⟩, hc⟩
      · by_cases hnew : held = 1 ∧ t.batch = b
        · obtain ⟨rfl, rfl⟩ := hnew
          rw [canAcquire, decide_eq_true_eq] at hcan
          exact (countP_set_le_succ _ hk t').trans hcan
        · refine (countP_set_le _ hk ?_).trans (hw.batches b)
          simp only [decide_eq_true_eq, hbatch, hbefore.1]
          rintro ⟨htwo, rfl⟩
          exact ⟨by omega, rfl⟩
      · by_cases hnew : 2 ≤ held
        · obtain ⟨m, rfl⟩ := Nat.exists_eq_add_of_le' hnew
          replace hcan : w.busy + w.globalHolders < x.env.global_concurrency := by
            simpa [canAcquire] using hcan
          exact (Nat.add_le_add_left (countP_set_le_succ _ hk t') _).trans hcan
        · refine (Nat.add_le_add_left (countP_set_le _ hk ?_) _).trans hw.process
          simp [hbefore]
          omega
    · cases h
  | _ => simp [hphase] at h

end OpenLaunch.Tools
