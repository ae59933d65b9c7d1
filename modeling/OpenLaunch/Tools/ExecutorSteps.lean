import OpenLaunch.Tools.Executor
import OpenLaunch.Transition

/-! # What a step of the executor can do

Every event leaves the executor alone, starts a batch, moves one task along the transitions of
`TaskStep`, or moves one batch along those of `BatchStep`. `step_effect` says so once, with all that
the invariants of the later modules need, so that none of them unfolds `step` again. -/

namespace OpenLaunch.Tools

open Python

variable {x : ToolExecutor} {w w₁ w' : World}

/-! ## Tasks -/

/-- What `_execute_one` has established about a call it admits. -/
structure Admissible (x : ToolExecutor) (call : ToolCall) (a : Admitted) : Prop where
  tool : x.tools.get? call.name = some a.tool
  annotations : x.annotations a.tool = .ok a.annotations
  params : ∃ properties params, a.tool.properties = .ok properties ∧
    a.params = filterParams properties params

/-- The breaker lets the call through, where it is asked. -/
def LetThrough (w : World) (call : ToolCall) (a : Admitted) : Prop :=
  a.annotations.external_network = true → (w.breaker.allow w.now call.name).1 = true

/-- A call is inside its attempt `n`. -/
def Phase.attempting (p : Phase) (a : Admitted) (n : ℕ) : Prop :=
  p = .invoking a n ∨ p = .running a n

/-- **The transitions of one task**, with the event of each. -/
inductive TaskStep (x : ToolExecutor) (w : World) (k : ℕ) (t : Task) : Event → Task → Prop
  | reject {r : ToolResult} (h : t.phase = .created) (hr : r.status.rejected = true) :
      TaskStep x w k t (.begin k) (t.to (.finished r))
  | raise {e : PyErr} (h : t.phase = .created) : TaskStep x w k t (.begin k) (t.to (.raised e))
  | admitted {a : Admitted} (h : t.phase = .created) (ha : Admissible x t.call a)
      (hopen : LetThrough w t.call a) : TaskStep x w k t (.begin k) (t.to (.waiting a 0))
  | acquire {a : Admitted} {held : ℕ} (h : t.phase = .waiting a held) (hlt : held < 2) :
      TaskStep x w k t (.acquire k) (t.to (.waiting a (held + 1)))
  | enter {a : Admitted} {held : ℕ} (h : t.phase = .waiting a held) :
      TaskStep x w k t (.acquire k) (t.to (.ready a 0))
  | attempt {a : Admitted} {n : ℕ} (h : t.phase = .ready a n) :
      TaskStep x w k t (.attempt k) (t.to (.invoking a n))
  | call {a : Admitted} {n : ℕ} (h : t.phase = .invoking a n) : TaskStep x w k t (.call k)
      { t with phase := .running a n, invoked := a.params :: t.invoked }
  | retry {a : Admitted} {n : ℕ} {o : Outcome} (h : t.phase.attempting a n)
      (hn : n + 1 < a.attempts) : TaskStep x w k t (.outcome k o) (t.to (.ready a (n + 1)))
  | finish {a : Admitted} {n : ℕ} {o : Outcome} {r : ToolResult} (h : t.phase.attempting a n)
      (hr : r.status.rejected = false) : TaskStep x w k t (.outcome k o) (t.to (.finished r))
  | cancel : TaskStep x w k t (.cancelTask k) (t.to .cancelled)

/-- A task stays in its batch and keeps its call. -/
theorem TaskStep.call_batch {k : ℕ} {t t' : Task} {e : Event} (h : TaskStep x w k t e t') :
    t'.call = t.call ∧ t'.batch = t.batch := by
  cases h <;> exact ⟨rfl, rfl⟩

theorem finish_status {now : ℚ} {call : ToolCall} {a : Admitted} {content : Content}
    {status : Status} (h : status.rejected = false) :
    (finish now call a content status).status.rejected = false := by
  unfold finish
  dsimp only
  split
  · rfl
  · exact h

/-- An attempt ends in a retry or with a result. -/
theorem taskStep_afterAttempt {k : ℕ} {t : Task} {a : Admitted} {n : ℕ}
    (h : t.phase.attempting a n) (now : ℚ) (o : Outcome) :
    TaskStep x w k t (.outcome k o) (t.to (afterAttempt now t.call a n o)) := by
  have hfail : ∀ status : Status, status.rejected = false →
      TaskStep x w k t (.outcome k o) (t.to (afterFailure now t.call a n status)) := by
    intro status hstatus
    unfold afterFailure
    split
    · exact .retry h ‹_›
    · exact .finish h (finish_status hstatus)
  cases o with
  | success content => exact .finish h (finish_status rfl)
  | timeout => exact hfail .timeout rfl
  | exception => exact hfail .internal_error rfl

/-! ## The shared state -/

/-- Counting a call against the quota of its tool. -/
inductive Charge (x : ToolExecutor) (w : World) (name : String) (w₁ : World) : Prop
  | none (h : w₁.tool_counts = w.tool_counts)
  | one {tool : Tool} {ann : Annotations}
      (h : w₁.tool_counts = w.tool_counts.set name (w.toolCount name + 1))
      (htool : x.tools.get? name = some tool) (hann : x.annotations tool = .ok ann)
      (hquota : w.toolCount name < ann.quota_per_request)

/-- What a step does to the breaker. -/
inductive BreakerStep (w w₁ : World) : Prop
  | none (hb : w₁.breaker = w.breaker) (hh : w₁.history = w.history)
  | allow (name : String) (hb : w₁.breaker = (w.breaker.allow w.now name).2)
      (hh : w₁.history = w.breaker.afterAllow w.now name w.history)
  | success (name : String) (hb : w₁.breaker = w.breaker.success name)
      (hh : w₁.history = .success name :: w.history)
  | failure (name : String) (hb : w₁.breaker = w.breaker.failure w.now name)
      (hh : w₁.history = .failure name w.now :: w.history)

/-- What the steps of single tasks leave alone, apart from the task. -/
structure Frame (w w₁ : World) : Prop where
  now : w₁.now = w.now
  calls_used : w₁.calls_used = w.calls_used
  bytes_used : w₁.bytes_used = w.bytes_used
  tokens_used : w₁.tokens_used = w.tokens_used
  batches : w₁.batches = w.batches
  tasks : w₁.tasks = w.tasks

theorem Frame.refl (w : World) : Frame w w := ⟨rfl, rfl, rfl, rfl, rfl, rfl⟩

/-! ## Admission -/

/-- What the admission of a call does: the effect on the shared state, on the task, and that an
admitted call is counted. -/
structure AdmitSpec (x : ToolExecutor) (w : World) (k : ℕ) (t : Task) (phase : Phase) (w₁ : World) :
    Prop where
  frame : Frame w w₁
  charge : Charge x w t.call.name w₁
  breaker : BreakerStep w w₁
  task : TaskStep x w k t (.begin k) (t.to phase)
  counted : phase.admitted?.isSome = true →
    w₁.toolCount t.call.name = w.toolCount t.call.name + 1

theorem registerClass_frame (w : World) (x : ToolExecutor) (ann : Annotations) :
    Frame w (w.registerClass x ann) ∧ (w.registerClass x ann).tool_counts = w.tool_counts ∧
      (w.registerClass x ann).breaker = w.breaker ∧
      (w.registerClass x ann).history = w.history := by
  unfold World.registerClass
  dsimp only
  split <;> exact ⟨⟨rfl, rfl, rfl, rfl, rfl, rfl⟩, rfl, rfl, rfl⟩

theorem Frame.trans {w₂ : World} (h : Frame w w₁) (h' : Frame w₁ w₂) : Frame w w₂ :=
  ⟨h'.now.trans h.now, h'.calls_used.trans h.calls_used, h'.bytes_used.trans h.bytes_used,
    h'.tokens_used.trans h.tokens_used, h'.batches.trans h.batches, h'.tasks.trans h.tasks⟩

/-- The breaker is asked about the calls of external tools, and turns some of them away. -/
theorem consultBreaker_spec (k : ℕ) {t : Task} {a : Admitted} (h : t.phase = .created)
    (ha : Admissible x t.call a) (hnow : w₁.now = w.now) (hb : w₁.breaker = w.breaker)
    (hh : w₁.history = w.history) :
    Frame w₁ (consultBreaker w₁ t.call a).2 ∧
      (consultBreaker w₁ t.call a).2.tool_counts = w₁.tool_counts ∧
      BreakerStep w (consultBreaker w₁ t.call a).2 ∧
      TaskStep x w k t (.begin k) (t.to (consultBreaker w₁ t.call a).1) := by
  have hstep : BreakerStep w (w₁.breakerAllow t.call.name) :=
    .allow t.call.name (by simp [World.breakerAllow, hb, hnow])
      (by simp [World.breakerAllow, hb, hh, hnow])
  unfold consultBreaker
  split
  · split
    · rename_i hallow
      rw [hb, hnow] at hallow
      exact ⟨⟨rfl, rfl, rfl, rfl, rfl, rfl⟩, rfl, hstep, .admitted h ha fun _ => hallow⟩
    · exact ⟨⟨rfl, rfl, rfl, rfl, rfl, rfl⟩, rfl, hstep, .reject h rfl⟩
  · rename_i hext
    exact ⟨.refl w₁, rfl, .none hb hh, .admitted h ha fun hext' => absurd hext' hext⟩

/-- **The admission of a call.** -/
theorem admit_spec (x : ToolExecutor) (w : World) (k : ℕ) (t : Task) (h : t.phase = .created) :
    AdmitSpec x w k t (execute_one x w t.call).1 (execute_one x w t.call).2 := by
  unfold execute_one
  cases htool : x.tools.get? t.call.name with
  | none => exact ⟨.refl w, .none rfl, .none rfl rfl, .reject h rfl, by simp [Phase.admitted?]⟩
  | some tool =>
    dsimp only
    cases hann : x.annotations tool with
    | error e => exact ⟨.refl w, .none rfl, .none rfl rfl, .raise h, by simp [Phase.admitted?]⟩
    | ok ann =>
      obtain ⟨hframe, hcounts, hbreaker, hhistory⟩ := registerClass_frame w x ann
      have hcount : (w.registerClass x ann).toolCount t.call.name = w.toolCount t.call.name := by
        rw [World.toolCount, hcounts, World.toolCount]
      dsimp only
      split
      · exact ⟨hframe, .none hcounts, .none hbreaker hhistory, .reject h rfl,
          by simp [Phase.admitted?]⟩
      · rename_i hquota
        rw [hcount, ge_iff_le, not_le] at hquota
        have hset : ((w.registerClass x ann).countCall t.call.name).tool_counts =
            w.tool_counts.set t.call.name (w.toolCount t.call.name + 1) := by
          rw [World.countCall, hcounts, hcount]
        have hframe' : Frame w ((w.registerClass x ann).countCall t.call.name) :=
          hframe.trans ⟨rfl, rfl, rfl, rfl, rfl, rfl⟩
        have hb : ((w.registerClass x ann).countCall t.call.name).breaker = w.breaker := hbreaker
        have hh : ((w.registerClass x ann).countCall t.call.name).history = w.history := hhistory
        generalize (w.registerClass x ann).countCall t.call.name = wc at hset hframe' hb hh
        cases parse_arguments t.call.arguments with
        | none =>
          exact ⟨hframe', .one hset htool hann hquota, .none hb hh, .reject h rfl,
            by simp [Phase.admitted?]⟩
        | some params =>
          dsimp only
          cases hprops : tool.properties with
          | error e =>
            exact ⟨hframe', .one hset htool hann hquota, .none hb hh, .raise h,
              by simp [Phase.admitted?]⟩
          | ok properties =>
            have hadm : Admissible x t.call ⟨tool, ann, filterParams properties params, wc.now⟩ :=
              ⟨htool, hann, properties, params, hprops, rfl⟩
            obtain ⟨hf, hc, hstep, ht⟩ := consultBreaker_spec k h hadm hframe'.now hb hh
            refine ⟨hframe'.trans hf, .one (hc.trans hset) htool hann hquota, hstep, ht, fun _ => ?_⟩
            rw [World.toolCount, hc, hset, Dict.get?_set_self, Option.getD_some]

/-! ## Batches -/

/-- **The transitions of one batch** that touch no counter. -/
inductive BatchStep (x : ToolExecutor) : BatchPhase → BatchPhase → Prop
  | cancel {c : Bool} : BatchStep x (.gathering c) (.gathering true)
  | abandon {c : Bool} : BatchStep x (.gathering c) (.abandoned c)
  | abort {turn_used turn_tokens : ℕ} {done todo : List ToolResult} :
      BatchStep x (.accounting turn_used turn_tokens done todo) (.aborted done)
  | finish {turn_used turn_tokens : ℕ} {done : List ToolResult} :
      BatchStep x (.accounting turn_used turn_tokens done []) (.returned done)

/-- **The effect of an event.** -/
inductive Effect (x : ToolExecutor) (w : World) : Event → World → Prop
  /-- The environment acts. -/
  | environment {e : Event} {w₁ : World} (hcalls : w₁.calls_used = w.calls_used)
      (hbytes : w₁.bytes_used = w.bytes_used) (htokens : w₁.tokens_used = w.tokens_used)
      (hcounts : w₁.tool_counts = w.tool_counts) (hbatches : w₁.batches = w.batches)
      (htasks : w₁.tasks = w.tasks) (hnow : w.now ≤ w₁.now) (hbreaker : BreakerStep w w₁)
      (he : ∀ calls, e ≠ .execute_batch calls) : Effect x w e w₁
  /-- A batch starts. -/
  | start (calls : List ToolCall) : Effect x w (.execute_batch calls) (w.executeBatch x calls)
  /-- A task moves on. -/
  | task {k : ℕ} {t t' : Task} {e : Event} {w₁ : World} (hk : w.tasks[k]? = some t)
      (ht : TaskStep x w k t e t') (hframe : Frame w w₁) (hcharge : Charge x w t.call.name w₁)
      (hbreaker : BreakerStep w w₁)
      (hcounted : t.phase.admitted?.isSome = false → t'.phase.admitted?.isSome = true →
        w₁.toolCount t.call.name = w.toolCount t.call.name + 1) :
      Effect x w e (w₁.setTask k t')
  /-- A batch moves on. -/
  | batch {b : ℕ} {batch : Batch} {phase : BatchPhase} {e : Event} (hb : w.batches[b]? = some batch)
      (hstep : BatchStep x batch.phase phase) (he : ∀ calls, e ≠ .execute_batch calls) :
      Effect x w e (w.setBatch b { batch with phase := phase })
  /-- A batch has its results and counts its calls. -/
  | gathered {b : ℕ} {batch : Batch} {results : List ToolResult}
      (hb : w.batches[b]? = some batch) (hphase : batch.phase = .gathering false)
      (hresults : w.results b = some results) :
      Effect x w (.gathered b) ((w.countCalls batch.accepted).setBatch b
        { batch with phase := .accounting 0 0 [] (results ++ batch.unaccepted) })
  /-- A batch accounts for a result. -/
  | account {b : ℕ} {batch : Batch} {turn_used turn_tokens : ℕ} {done todo : List ToolResult}
      {r : ToolResult} (hb : w.batches[b]? = some batch)
      (hphase : batch.phase = .accounting turn_used turn_tokens done (r :: todo)) :
      Effect x w (.account b) ((w.charge (admitResult x w turn_used turn_tokens r)).setBatch b
        { batch with
          phase := afterResult x turn_used turn_tokens done todo
            (admitResult x w turn_used turn_tokens r) })

/-- A transition of a task that touches nothing shared. -/
theorem effect_task {k : ℕ} {t t' : Task} {e : Event} (hk : w.tasks[k]? = some t)
    (ht : TaskStep x w k t e t') (hadm : t.phase.admitted?.isSome = false →
      t'.phase.admitted?.isSome = false) : Effect x w e (w.setTask k t') :=
  .task hk ht (.refl w) (.none rfl) (.none rfl rfl) fun h h' => by
    rw [hadm h] at h'
    cases h'

/-- The end of an attempt. -/
theorem effect_outcome {k : ℕ} {t : Task} {a : Admitted} {n : ℕ} (o : Outcome)
    (hk : w.tasks[k]? = some t) (h : t.phase.attempting a n) :
    Effect x w (.outcome k o) ((recordOutcome w t.call.name a o).setTask k
      (t.to (afterAttempt w.now t.call a n o))) := by
  have hadm : t.phase.admitted?.isSome = true := by rcases h with h | h <;> rw [h] <;> rfl
  have hrecord : Frame w (recordOutcome w t.call.name a o) ∧
      (recordOutcome w t.call.name a o).tool_counts = w.tool_counts ∧
      BreakerStep w (recordOutcome w t.call.name a o) := by
    unfold recordOutcome
    split
    · cases o with
      | success => exact ⟨⟨rfl, rfl, rfl, rfl, rfl, rfl⟩, rfl, .success t.call.name rfl rfl⟩
      | timeout | exception =>
        exact ⟨⟨rfl, rfl, rfl, rfl, rfl, rfl⟩, rfl, .failure t.call.name rfl rfl⟩
    · exact ⟨.refl w, rfl, .none rfl rfl⟩
  refine .task hk (taskStep_afterAttempt h w.now o) hrecord.1 (.none hrecord.2.1) hrecord.2.2 ?_
  intro hnot
  rw [hadm] at hnot
  cases hnot

/-- **Every step has one of these effects.** -/
theorem step_effect {e : Event} (h : step x w e = some w') : Effect x w e w' := by
  cases e with
  | tick d =>
    simp only [step] at h
    split at h
    · cases h
      exact .environment rfl rfl rfl rfl rfl rfl (by simpa) (.none rfl rfl) (by simp)
    · cases h
  | others busy =>
    simp only [step] at h
    split at h
    · cases h
      exact .environment rfl rfl rfl rfl rfl rfl le_rfl (.none rfl rfl) (by simp)
    · cases h
  | othersAllow name =>
    cases h
    exact .environment rfl rfl rfl rfl rfl rfl le_rfl (.allow name rfl rfl) (by simp)
  | othersSuccess name =>
    cases h
    exact .environment rfl rfl rfl rfl rfl rfl le_rfl (.success name rfl rfl) (by simp)
  | othersFailure name =>
    cases h
    exact .environment rfl rfl rfl rfl rfl rfl le_rfl (.failure name rfl rfl) (by simp)
  | execute_batch calls =>
    cases h
    exact .start calls
  | begin k =>
    obtain ⟨t, hk, h⟩ := Option.bind_eq_some_iff.mp h
    cases hphase : t.phase with
    | created =>
      simp only [hphase] at h
      split at h
      · cases h
      · cases h
        have hspec := admit_spec x w k t hphase
        exact .task hk hspec.task hspec.frame hspec.charge hspec.breaker fun _ => hspec.counted
    | _ => simp [hphase] at h
  | acquire k =>
    obtain ⟨t, hk, h⟩ := Option.bind_eq_some_iff.mp h
    cases hphase : t.phase with
    | waiting a held =>
      simp only [hphase] at h
      split at h
      · cases h
        have hadm : t.phase.admitted?.isSome = true := by rw [hphase]; rfl
        by_cases hlt : held < 2
        · rw [if_pos hlt]
          exact effect_task hk (.acquire hphase hlt) (by simp [hadm])
        · rw [if_neg hlt]
          exact effect_task hk (.enter hphase) (by simp [hadm])
      · cases h
    | _ => simp [hphase] at h
  | attempt k =>
    obtain ⟨t, hk, h⟩ := Option.bind_eq_some_iff.mp h
    cases hphase : t.phase with
    | ready a n =>
      simp only [hphase] at h
      cases h
      exact effect_task hk (.attempt hphase) (by simp [hphase, Phase.admitted?])
    | _ => simp [hphase] at h
  | call k =>
    obtain ⟨t, hk, h⟩ := Option.bind_eq_some_iff.mp h
    cases hphase : t.phase with
    | invoking a n =>
      simp only [hphase] at h
      split at h
      · cases h
        exact effect_task hk (.call hphase) (by simp [hphase, Phase.admitted?])
      · cases h
    | _ => simp [hphase] at h
  | outcome k o =>
    obtain ⟨t, hk, h⟩ := Option.bind_eq_some_iff.mp h
    cases hphase : t.phase with
    | running a n =>
      simp only [hphase] at h
      cases h
      exact effect_outcome o hk (.inr hphase)
    | invoking a n =>
      cases o with
      | success => simp [hphase] at h
      | timeout | exception =>
        simp only [hphase] at h
        cases h
        exact effect_outcome _ hk (.inl hphase)
    | _ => simp [hphase] at h
  | cancelTask k =>
    obtain ⟨t, hk, h⟩ := Option.bind_eq_some_iff.mp h
    have heffect : Effect x w (.cancelTask k) (w.setTask k (t.to .cancelled)) :=
      effect_task hk .cancel (by simp [Task.to, Phase.admitted?])
    cases hphase : t.phase with
    | created | waiting | ready =>
      simp only [hphase] at h
      split at h
      · cases h
        exact heffect
      · cases h
    | invoking | running =>
      simp only [hphase] at h
      cases h
      exact heffect
    | _ => simp [hphase] at h
  | cancelBatch b =>
    obtain ⟨batch, hb, h⟩ := Option.bind_eq_some_iff.mp h
    cases hphase : batch.phase with
    | gathering c =>
      simp only [hphase] at h
      cases h
      exact .batch hb (hphase ▸ .cancel) (by simp)
    | accounting =>
      simp only [hphase] at h
      split at h
      · cases h
        exact .batch hb (hphase ▸ .abort) (by simp)
      · cases h
    | _ => simp [hphase] at h
  | gathered b =>
    obtain ⟨batch, hb, h⟩ := Option.bind_eq_some_iff.mp h
    obtain ⟨results, hresults, h⟩ := Option.bind_eq_some_iff.mp h
    cases hphase : batch.phase with
    | gathering c =>
      cases c with
      | true =>
        simp only [hphase] at h
        cases h
        exact .batch hb (hphase ▸ .abandon) (by simp)
      | false =>
        simp only [hphase] at h
        cases h
        exact .gathered hb hphase hresults
    | _ => simp [hphase] at h
  | gatherFailed b k =>
    obtain ⟨batch, hb, h⟩ := Option.bind_eq_some_iff.mp h
    obtain ⟨t, hk, h⟩ := Option.bind_eq_some_iff.mp h
    cases hphase : batch.phase with
    | gathering c =>
      cases htask : t.phase with
      | raised | cancelled =>
        simp only [hphase, htask] at h
        split at h
        · cases h
          exact .batch hb (hphase ▸ .abandon) (by simp)
        · cases h
      | _ => simp [hphase, htask] at h
    | _ => simp [hphase] at h
  | account b =>
    obtain ⟨batch, hb, h⟩ := Option.bind_eq_some_iff.mp h
    cases hphase : batch.phase with
    | accounting turn_used turn_tokens done todo =>
      cases todo with
      | nil =>
        simp only [World.account, hphase] at h
        cases h
        exact .batch hb (hphase ▸ .finish) (by simp)
      | cons r todo =>
        simp only [World.account, hphase] at h
        cases h
        exact .account hb hphase
    | _ => simp [World.account, hphase] at h
  | hookFailed b =>
    obtain ⟨batch, hb, h⟩ := Option.bind_eq_some_iff.mp h
    cases hphase : batch.phase with
    | accounting =>
      simp only [hphase] at h
      split at h
      · cases h
        exact .batch hb (hphase ▸ .abort) (by simp)
      · cases h
    | _ => simp [hphase] at h

end OpenLaunch.Tools
