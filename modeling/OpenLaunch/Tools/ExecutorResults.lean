import OpenLaunch.Tools.ExecutorCalls

/-! # Every call gets its result

The calls of all batches run side by side, in any order. What a batch returns in the end is one
result for each of its calls, in their order. -/

namespace OpenLaunch.Tools

open Python Transition

variable {x : ToolExecutor} {w w' : World} {e : Event}

/-! ## Labels -/

/-- What a call and its result have in common. -/
def ToolCall.label (call : ToolCall) : String × String := (call.call_id, call.name)

def ToolResult.label (r : ToolResult) : String × String := (r.call_id, r.name)

/-- A task that has finished has a result of its call. -/
def Task.Labelled (t : Task) : Prop := ∀ r, t.phase = .finished r → r.label = t.call.label

theorem label_execute_one {call : ToolCall} {r : ToolResult}
    (h : (execute_one x w call).1 = .finished r) : r.label = call.label := by
  unfold execute_one consultBreaker at h
  dsimp only at h
  split at h
  · cases h
    rfl
  · split at h
    · cases h
    · split at h
      · cases h
        rfl
      · split at h
        · cases h
          rfl
        · split at h
          · cases h
          · split_ifs at h
            cases h
            rfl

theorem label_finish (now : ℚ) (call : ToolCall) (a : Admitted) (content : Content)
    (status : Status) : (finish now call a content status).label = call.label := by
  unfold finish
  split_ifs <;> rfl

theorem label_afterAttempt {now : ℚ} {call : ToolCall} {a : Admitted} {n : ℕ} {o : Outcome}
    {r : ToolResult} (h : afterAttempt now call a n o = .finished r) : r.label = call.label := by
  cases o with
  | success content =>
    rw [afterAttempt, Phase.finished.injEq] at h
    rw [← h, label_finish]
  | timeout | exception =>
    rw [afterAttempt, afterFailure] at h
    split_ifs at h
    rw [Phase.finished.injEq] at h
    rw [← h, label_finish]

/-- A step moves one task on; it has a result only of its call. -/
theorem labelled_step (h : step x w e = some w') (hw : ∀ t ∈ w.tasks, t.Labelled) :
    ∀ t ∈ w'.tasks, t.Labelled := by
  cases e with
  | begin k =>
    simp only [step] at h
    obtain ⟨t, hk, h⟩ := Option.bind_eq_some_iff.mp h
    split at h
    · next hphase =>
      split_ifs at h
      cases h
      intro t' ht'
      rw [World.setTask, (admit_spec x w k t hphase).frame.tasks] at ht'
      rcases List.mem_or_eq_of_mem_set ht' with hmem | rfl
      · exact hw t' hmem
      · exact fun r hr => label_execute_one hr
    · cases h
  | outcome k o =>
    simp only [step] at h
    obtain ⟨t, hk, h⟩ := Option.bind_eq_some_iff.mp h
    have hset : ∃ a n, w' = (recordOutcome w t.call.name a o).setTask k
        (t.to (afterAttempt w.now t.call a n o)) := by
      split at h
      · cases h
        exact ⟨_, _, rfl⟩
      · cases h
      · cases h
        exact ⟨_, _, rfl⟩
      · cases h
    obtain ⟨a, n, rfl⟩ := hset
    intro t' ht'
    have htasks : (recordOutcome w t.call.name a o).tasks = w.tasks := by
      unfold recordOutcome
      split
      · cases o <;> rfl
      · rfl
    rw [World.setTask, htasks] at ht'
    rcases List.mem_or_eq_of_mem_set ht' with hmem | rfl
    · exact hw t' hmem
    · exact fun r hr => label_afterAttempt hr
  | _ =>
    refine (step_effect h).forall_tasks (fun _ _ r hr => by cases hr) (fun k t t' ht hP => ?_) hw
    cases ht <;> (intro r hr; cases hr)

/-! ## Results of batches -/

/-- What a batch accounts for or has returned is labelled as its calls are. -/
def BatchPhase.Labelled (calls : List ToolCall) : BatchPhase → Prop
  | .accounting _ _ done todo => (done ++ todo).map ToolResult.label = calls.map ToolCall.label
  | .returned results => results.map ToolResult.label = calls.map ToolCall.label
  | .gathering _ | .abandoned _ | .aborted _ => True

/-- **The invariant of the results.** -/
structure LabelInv (w : World) : Prop where
  tasks : ∀ t ∈ w.tasks, t.Labelled
  batches : ∀ (b : ℕ) (batch : Batch), w.batches[b]? = some batch →
    batch.phase.Labelled batch.calls

theorem LabelInv.setBatch {b : ℕ} {batch : Batch} {phase : BatchPhase}
    (hw : ∀ (b : ℕ) (batch : Batch), w.batches[b]? = some batch →
      batch.phase.Labelled batch.calls)
    (h : phase.Labelled batch.calls) {b' : ℕ} {batch' : Batch}
    (hb' : (w.batches.set b { batch with phase := phase })[b']? = some batch') :
    batch'.phase.Labelled batch'.calls := by
  rw [List.getElem?_set] at hb'
  split_ifs at hb'
  · cases hb'
    exact h
  · exact hw b' batch' hb'

/-- The results that `gather` has are those of the calls with a task. -/
theorem label_results (hw : ∀ t ∈ w.tasks, t.Labelled) {b : ℕ} {results : List ToolResult}
    (h : w.results b = some results) :
    results.map ToolResult.label = (w.callsOf b).map ToolCall.label := by
  have hcalls : w.callsOf b = (w.tasks.filter fun t => t.batch = b).map Task.call := by
    rw [World.callsOf, World.placed, List.filter_map, List.map_map]
    rfl
  rw [hcalls]
  unfold World.results at h
  have hmem : ∀ t ∈ w.tasks.filter fun t => t.batch = b, t.Labelled :=
    fun t ht => hw t (List.mem_of_mem_filter ht)
  -- a task counts as a result only once it has finished
  generalize (w.tasks.filter fun t => t.batch = b) = tasks at h hmem
  induction tasks generalizing results with
  | nil =>
    cases h
    rfl
  | cons t tasks ih =>
    obtain ⟨ht, htasks⟩ := List.forall_mem_cons.mp hmem
    rw [List.mapM_cons] at h
    obtain ⟨r, hr, h⟩ := Option.bind_eq_some_iff.mp h
    obtain ⟨rs, hrs, h⟩ := Option.bind_eq_some_iff.mp h
    cases h
    rw [List.map_cons, List.map_cons, List.map_cons, ih hrs htasks]
    refine congrArg (· :: _) (ht r ?_)
    split at hr
    · cases hr
      assumption
    · cases hr

theorem label_unaccepted (batch : Batch) :
    batch.unaccepted.map ToolResult.label =
      (batch.calls.drop batch.accepted).map ToolCall.label := by
  rw [Batch.unaccepted, List.map_map]
  rfl

theorem label_admitResult (turn_used turn_tokens : ℕ) (r : ToolResult) :
    (admitResult x w turn_used turn_tokens r).label = r.label := by
  unfold admitResult
  split_ifs <;> rfl

/-- **Every step keeps results with their calls.** -/
theorem LabelInv.step (hw : LabelInv w) (hplaced : PlacedInv w) (h : step x w e = some w') :
    LabelInv w' := by
  refine ⟨labelled_step h hw.tasks, ?_⟩
  cases step_effect h with
  | environment _ _ _ _ hbatches =>
    rw [hbatches]
    exact hw.batches
  | start calls =>
    intro b batch hb
    unfold World.executeBatch at hb
    split at hb
    all_goals
      rcases List.mem_append.mp (List.mem_of_getElem? hb) with hmem | hmem
      · obtain ⟨b', hb'⟩ := List.mem_iff_getElem?.mp hmem
        exact hw.batches b' batch hb'
      · rw [List.mem_singleton.mp hmem]
        trivial
  | task _ _ hframe =>
    rw [World.setTask, hframe.batches]
    exact hw.batches
  | @batch b batch phase e hb hstep =>
    intro b' batch' hb'
    refine LabelInv.setBatch hw.batches ?_ hb'
    have hbatch := hw.batches _ _ hb
    generalize batch.phase = before at hbatch hstep
    cases hstep with
    | finish => simpa [BatchPhase.Labelled] using hbatch
    | _ => trivial
  | gathered hb hphase hresults =>
    intro b' batch' hb'
    refine LabelInv.setBatch hw.batches ?_ hb'
    show List.map ToolResult.label ([] ++ (_ ++ _)) = _
    rw [List.nil_append, List.map_append, label_results hw.tasks hresults, label_unaccepted,
      hplaced.calls _ _ hb, ← List.map_append, List.take_append_drop]
  | @account b batch turn_used turn_tokens done todo r hb hphase =>
    intro b' batch' hb'
    refine LabelInv.setBatch hw.batches ?_ hb'
    have hbatch := hw.batches _ _ hb
    rw [hphase] at hbatch
    unfold afterResult
    split
    · show List.map ToolResult.label ((done ++ [_]) ++ todo) = _
      rw [List.append_assoc, List.map_append, List.singleton_append, List.map_cons,
        label_admitResult, ← List.map_cons, ← List.map_append]
      exact hbatch
    · trivial

/-- **One result for each call, in order.** In every run, whatever the calls of all batches do in
whatever order, a batch that returns has a result for each of its calls, in the order of the calls
and with their identifiers and names. -/
theorem results_label_calls {breaker : CircuitBreaker} {es : List Event}
    (hrun : exec (step x) (.init breaker) es = some w) (b : ℕ) (batch : Batch)
    (results : List ToolResult) (hb : w.batches[b]? = some batch)
    (hreturned : batch.phase = .returned results) :
    results.map ToolResult.label = batch.calls.map ToolCall.label := by
  have hinv : LabelInv w ∧ PlacedInv w := by
    refine exec_invariant (P := fun w => LabelInv w ∧ PlacedInv w) ?_ ?_ hrun
    · exact fun _ _ _ hw h => ⟨hw.1.step hw.2 h, hw.2.effect (step_effect h)⟩
    · exact ⟨⟨by simp [World.init], by simp [World.init]⟩, by simp [World.placed, World.init],
        by simp [World.init]⟩
  have hbatch := hinv.1.batches b batch hb
  rwa [hreturned] at hbatch

/-- An executor with one tool. -/
def oneTool : ToolExecutor := smallExecutor .null (.dict []) .none

/-- A batch of one call, from its start to its return. -/
def oneCall : List Event :=
  .execute_batch [smallCall] :: reachCallable 0 ++
    [.outcome 0 (.success (.json .null)), .gathered 0, .account 0, .account 0]

theorem results_label_calls_one_call :
    ∃ w batch results, exec (step oneTool) (.init (.init 5 30)) oneCall = some w ∧
      w.batches[0]? = some batch ∧ batch.phase = .returned results ∧
      results.map ToolResult.label = batch.calls.map ToolCall.label := by
  have hstate : ((exec (step oneTool) (.init (.init 5 30)) oneCall).bind fun w =>
      w.batches[0]?).map (fun batch => batch.phase.isReturned) = some true := by
    decide +kernel
  obtain ⟨batch, hbatch, hreturned⟩ := Option.map_eq_some_iff.mp hstate
  obtain ⟨w, hw, hb⟩ := Option.bind_eq_some_iff.mp hbatch
  cases hphase : batch.phase with
  | returned results =>
    exact ⟨w, batch, results, hw, hb, hphase, results_label_calls hw 0 batch results hb hphase⟩
  | _ => simp [hphase, BatchPhase.isReturned] at hreturned

end OpenLaunch.Tools
