import OpenLaunch.Tasks.Automations
import Mathlib.Data.List.Nodup

/-! # Claims without row locks

Two workers that read the same row both claim it. Where no worker reads a row that another one has in
hand, every occurrence is claimed once: a claim moves the next run of its row past the time of the
claim. The condition says so of the reads, and of the commits that the recurrences can be evaluated
and run next after the claim. -/

namespace OpenLaunch.Tasks

open Python Transition

universe u

variable {Rule Zone Local : Type} {cal : Calendar Rule Zone Local}
  {timezone : String → Option String} {W : Type u} [DecidableEq W]

/-! ## What is claimed, and when it is as it should be -/

/-- The recurrence of a row can be evaluated. -/
def Evaluates (cal : Calendar Rule Zone Local) (timezone : String → Option String)
    (row : Automation) (clock : ℤ) : Prop :=
  ∃ next, row.nextRun cal timezone clock = .ok next

/-- Every occurrence is claimed once, and every claim runs next after its time, if ever. -/
structure ClaimedOnce (claims : List (Claim W)) : Prop where
  unique : (claims.map fun c => (c.id, c.occurrence)).Nodup
  later : ∀ c ∈ claims, ∀ next, c.next = some next → c.now_ns < next

/-- **What is claimed of a step**: no occurrence is claimed twice; and a commit claims every row of the
batch whose recurrence can be evaluated, and leaves it without a next run or with one after the
claim. -/
def ClaimsWell (cal : Calendar Rule Zone Local) (timezone : String → Option String)
    (s : Scheduler W) (e : ClaimEvent W) : Prop :=
  ∀ s', claimStep cal timezone s e = some s' → ClaimedOnce s'.claims ∧
    ∀ w clock b, e = .commit w clock → s.reading w = some b → ∀ row ∈ b.rows,
      Evaluates cal timezone row (clock row.id) →
        (∃ c ∈ s'.claims, c.worker = w ∧ c.id = row.id ∧ c.occurrence = row.next_run_at ∧
          c.now_ns = b.now_ns) ∧
        ∃ row' ∈ s'.table.rows, row'.id = row.id ∧
          ∀ next, row'.next_run_at = some next → b.now_ns < next

/-- **When a step does so**: a worker reads no row that another one has in hand; and of the rows that
a worker commits all can be evaluated or none, and those that can run next after the claim. -/
def Undisturbed (cal : Calendar Rule Zone Local) (timezone : String → Option String)
    (s : Scheduler W) : ClaimEvent W → Prop
  | .read _ now_ns limit => ∀ row ∈ s.table.due now_ns limit, ∀ w b, s.reading w = some b →
    ∀ row' ∈ b.rows, row'.id ≠ row.id
  | .commit w clock => ∀ b, s.reading w = some b →
    ((∀ row ∈ b.rows, Evaluates cal timezone row (clock row.id)) ∨
      ∀ row ∈ b.rows, ¬ Evaluates cal timezone row (clock row.id)) ∧
    ∀ row ∈ b.rows, ∀ next, row.nextRun cal timezone (clock row.id) = .ok (some next) →
      b.now_ns < next

/-! ## Batches -/

/-- A batch is evaluated row by row. -/
theorem evaluate_eq_ok {b : Batch} {clock : String → ℤ} {evaluated : List (Automation × Option ℤ)}
    (h : b.evaluate cal timezone clock = .ok evaluated) :
    evaluated.map Prod.fst = b.rows ∧
      ∀ e ∈ evaluated, e.1.nextRun cal timezone (clock e.1.id) = .ok e.2 := by
  obtain ⟨now_ns, rows⟩ := b
  dsimp only [Batch.evaluate] at h ⊢
  induction rows generalizing evaluated with
  | nil =>
    cases h
    exact ⟨rfl, by simp⟩
  | cons row rows ih =>
    rw [List.mapM_cons] at h
    obtain ⟨e, he, h⟩ := bind_eq_ok.mp h
    obtain ⟨rest, hrest, h⟩ := bind_eq_ok.mp h
    cases h
    obtain ⟨hmap, hnext⟩ := ih hrest
    cases hrow : row.nextRun cal timezone (clock row.id) with
    | error err =>
      rw [hrow] at he
      cases he
    | ok next =>
      rw [hrow] at he
      cases he
      exact ⟨by rw [List.map_cons, hmap], List.forall_mem_cons.mpr ⟨hrow, hnext⟩⟩

theorem exists_evaluate_eq_ok {b : Batch} {clock : String → ℤ}
    (h : ∀ row ∈ b.rows, Evaluates cal timezone row (clock row.id)) :
    ∃ evaluated, b.evaluate cal timezone clock = .ok evaluated := by
  obtain ⟨now_ns, rows⟩ := b
  dsimp only [Batch.evaluate] at h ⊢
  induction rows with
  | nil => exact ⟨[], rfl⟩
  | cons row rows ih =>
    obtain ⟨⟨next, hnext⟩, hrows⟩ := List.forall_mem_cons.mp h
    obtain ⟨evaluated, hevaluated⟩ := ih hrows
    refine ⟨(row, next) :: evaluated, ?_⟩
    rw [List.mapM_cons, hnext, hevaluated]
    rfl

/-! ## The table -/

/-- Rows with one id are one row. -/
theorem AutomationTable.eq_of_id (table : AutomationTable) {row row' : Automation}
    (h : row ∈ table.rows) (h' : row' ∈ table.rows) (hid : row.id = row'.id) : row = row' :=
  List.inj_on_of_nodup_map table.nodup h h' hid

theorem mem_due {table : AutomationTable} {now_ns : ℤ} {limit : ℕ} {row : Automation}
    (h : row ∈ table.due now_ns limit) : row ∈ table.rows ∧ row.isDue now_ns = true := by
  have hmem := List.mem_of_mem_take h
  rw [List.mem_insertionSort, List.mem_filter] at hmem
  exact hmem

theorem due_ids_nodup (table : AutomationTable) (now_ns : ℤ) (limit : ℕ) :
    ((table.due now_ns limit).map Automation.id).Nodup := by
  have hsorted : (((table.rows.filter (Automation.isDue now_ns)).insertionSort fun a b =>
      a.next_run_at.getD 0 ≤ b.next_run_at.getD 0).map Automation.id).Nodup := by
    rw [((List.perm_insertionSort _ _).map Automation.id).nodup_iff]
    exact table.nodup.sublist (List.filter_sublist.map Automation.id)
  exact hsorted.sublist ((List.take_sublist _ _).map Automation.id)

/-- What is due was to run at some time, that of the claim at the latest. -/
theorem Automation.exists_of_isDue {row : Automation} {now_ns : ℤ} (h : row.isDue now_ns = true) :
    ∃ occurrence, row.next_run_at = some occurrence ∧ occurrence ≤ now_ns := by
  rw [Automation.isDue, Bool.and_eq_true] at h
  cases hnext : row.next_run_at with
  | none => simp [hnext] at h
  | some next => exact ⟨next, rfl, by simpa [hnext] using h.2⟩

/-- A row after an update: one that was read has its next run, the others are as before. -/
theorem mem_update {table : AutomationTable} {now_ns : ℤ}
    {evaluated : List (Automation × Option ℤ)} (hread : ∀ e ∈ evaluated, e.1 ∈ table.rows)
    {row : Automation} (h : row ∈ (table.update now_ns evaluated).rows) :
    (∃ e ∈ evaluated, e.1.id = row.id ∧ row.next_run_at = e.2) ∨
      row ∈ table.rows ∧ ∀ e ∈ evaluated, e.1.id ≠ row.id := by
  obtain ⟨stored, hstored, rfl⟩ := List.mem_map.mp h
  cases hfind : evaluated.find? fun e => e.1.id = stored.id with
  | none =>
    refine Or.inr ⟨hstored, fun e he => ?_⟩
    simpa using List.find?_eq_none.mp hfind e he
  | some e =>
    have he := List.mem_of_find?_eq_some hfind
    have hid : e.1.id = stored.id := by simpa using List.find?_some hfind
    obtain rfl := table.eq_of_id (hread e he) hstored hid
    refine Or.inl ⟨e, he, rfl, ?_⟩
    show (if e.1.next_run_at = e.2 then e.1.next_run_at else e.2) = e.2
    split_ifs with hsame
    · exact hsame
    · rfl

/-- A row that was not read is not written. -/
theorem mem_update_of_ne {table : AutomationTable} {now_ns : ℤ}
    {evaluated : List (Automation × Option ℤ)} {row : Automation} (h : row ∈ table.rows)
    (hne : ∀ e ∈ evaluated, e.1.id ≠ row.id) : row ∈ (table.update now_ns evaluated).rows := by
  have hfind : (evaluated.find? fun e => e.1.id = row.id) = none :=
    List.find?_eq_none.mpr fun e he => by simpa using hne e he
  exact List.mem_map.mpr ⟨row, h, by rw [hfind]⟩

/-- Every row that was read is in the table after the update. -/
theorem exists_mem_update {table : AutomationTable} (now_ns : ℤ)
    (evaluated : List (Automation × Option ℤ)) {row : Automation} (h : row ∈ table.rows) :
    ∃ row' ∈ (table.update now_ns evaluated).rows, row'.id = row.id := by
  refine ⟨_, List.mem_map_of_mem h, ?_⟩
  split <;> rfl

/-! ## The invariant -/

/-- What a worker has in hand is as it is in the table and due, no other worker has it in hand, and
what was claimed has passed. -/
structure ClaimInv (s : Scheduler W) : Prop where
  current : ∀ w b, s.reading w = some b → ∀ row ∈ b.rows,
    row ∈ s.table.rows ∧ row.isDue b.now_ns = true
  nodup : ∀ w b, s.reading w = some b → (b.rows.map Automation.id).Nodup
  apart : ∀ w w' b b', s.reading w = some b → s.reading w' = some b' → w ≠ w' →
    ∀ row ∈ b.rows, ∀ row' ∈ b'.rows, row.id ≠ row'.id
  passed : ∀ c ∈ s.claims, ∃ occurrence, c.occurrence = some occurrence ∧
    ∀ row ∈ s.table.rows, row.id = c.id →
      ∀ next, row.next_run_at = some next → occurrence < next
  claimed : ClaimedOnce s.claims

omit [DecidableEq W] in
theorem claimInv_start (table : AutomationTable) :
    ClaimInv (Scheduler.start table : Scheduler W) where
  current _ _ h := by cases h
  nodup _ _ h := by cases h
  apart _ _ _ _ h := by cases h
  passed _ h := by cases h
  claimed := ⟨List.nodup_nil, fun _ h => by cases h⟩

variable {s s' : Scheduler W} {w : W} {b : Batch}

/-- What a worker lets go of is in no one's hand. -/
theorem ClaimInv.release (h : ClaimInv s) (w : W) :
    ClaimInv { s with reading := Function.update s.reading w none } := by
  have hof {w' : W} {b : Batch} (hb : Function.update s.reading w none w' = some b) :
      s.reading w' = some b := by
    by_cases hw : w' = w
    · rw [hw, Function.update_self] at hb
      cases hb
    · rwa [Function.update_of_ne hw] at hb
  exact
    { current := fun w' b hb => h.current w' b (hof hb)
      nodup := fun w' b hb => h.nodup w' b (hof hb)
      apart := fun w₁ w₂ b₁ b₂ h₁ h₂ => h.apart w₁ w₂ b₁ b₂ (hof h₁) (hof h₂)
      passed := h.passed
      claimed := h.claimed }

theorem ClaimInv.read (h : ClaimInv s) {now_ns : ℤ} {limit : ℕ}
    (hC : Undisturbed cal timezone s (.read w now_ns limit)) :
    ClaimInv { s with
      reading := Function.update s.reading w (some ⟨now_ns, s.table.due now_ns limit⟩) } := by
  have hof {w' : W} {b : Batch}
      (hb : Function.update s.reading w (some ⟨now_ns, s.table.due now_ns limit⟩) w' = some b) :
      w' = w ∧ b = ⟨now_ns, s.table.due now_ns limit⟩ ∨ w' ≠ w ∧ s.reading w' = some b := by
    by_cases hw : w' = w
    · rw [hw, Function.update_self] at hb
      exact Or.inl ⟨hw, (Option.some.inj hb).symm⟩
    · rw [Function.update_of_ne hw] at hb
      exact Or.inr ⟨hw, hb⟩
  constructor
  · intro w' b hb row hrow
    rcases hof hb with ⟨-, rfl⟩ | ⟨-, hb⟩
    · exact mem_due hrow
    · exact h.current w' b hb row hrow
  · intro w' b hb
    rcases hof hb with ⟨-, rfl⟩ | ⟨-, hb⟩
    · exact due_ids_nodup _ _ _
    · exact h.nodup w' b hb
  · intro w₁ w₂ b₁ b₂ h₁ h₂ hne row hrow row' hrow'
    rcases hof h₁ with ⟨rfl, rfl⟩ | ⟨-, hr₁⟩ <;> rcases hof h₂ with ⟨rfl, rfl⟩ | ⟨-, hr₂⟩
    · exact absurd rfl hne
    · exact (hC row hrow w₂ b₂ hr₂ row' hrow').symm
    · exact hC row' hrow' w₁ b₁ hr₁ row hrow
    · exact h.apart w₁ w₂ b₁ b₂ hr₁ hr₂ hne row hrow row' hrow'
  · exact h.passed
  · exact h.claimed

/-- A commit that succeeds. -/
theorem ClaimInv.commit (h : ClaimInv s) (hb : s.reading w = some b) {clock : String → ℤ}
    {evaluated : List (Automation × Option ℤ)}
    (hevaluated : b.evaluate cal timezone clock = .ok evaluated)
    (hlater : ∀ row ∈ b.rows, ∀ next, row.nextRun cal timezone (clock row.id) = .ok (some next) →
      b.now_ns < next) :
    ClaimInv { table := s.table.update b.now_ns evaluated
               reading := Function.update s.reading w none
               claims := s.claims ++ b.claims w evaluated } := by
  obtain ⟨hrows, hnext⟩ := evaluate_eq_ok hevaluated
  have hmem : ∀ e ∈ evaluated, e.1 ∈ b.rows := fun e he => hrows ▸ List.mem_map_of_mem he
  have hread : ∀ e ∈ evaluated, e.1 ∈ s.table.rows := fun e he =>
    (h.current w b hb e.1 (hmem e he)).1
  have hpast : ∀ e ∈ evaluated, ∀ next, e.2 = some next → b.now_ns < next := fun e he next hn =>
    hlater e.1 (hmem e he) next (hn ▸ hnext e he)
  have hdue : ∀ e ∈ evaluated, ∃ occurrence, e.1.next_run_at = some occurrence ∧
      occurrence ≤ b.now_ns := fun e he =>
    Automation.exists_of_isDue (h.current w b hb e.1 (hmem e he)).2
  have hof {w' : W} {b' : Batch} (hb' : Function.update s.reading w none w' = some b') :
      w' ≠ w ∧ s.reading w' = some b' := by
    by_cases hw : w' = w
    · rw [hw, Function.update_self] at hb'
      cases hb'
    · exact ⟨hw, by rwa [Function.update_of_ne hw] at hb'⟩
  constructor
  · intro w' b' hb' row hrow
    obtain ⟨hne, hb'⟩ := hof hb'
    obtain ⟨htable, hisDue⟩ := h.current w' b' hb' row hrow
    -- the rows of other workers are not written
    exact ⟨mem_update_of_ne htable fun e he =>
      h.apart w w' b b' hb hb' hne.symm e.1 (hmem e he) row hrow, hisDue⟩
  · exact fun w' b' hb' => h.nodup w' b' (hof hb').2
  · exact fun w₁ w₂ b₁ b₂ h₁ h₂ => h.apart w₁ w₂ b₁ b₂ (hof h₁).2 (hof h₂).2
  · intro c hc
    rcases List.mem_append.mp hc with hc | hc
    · obtain ⟨occurrence, hoccurrence, hpassed⟩ := h.passed c hc
      refine ⟨occurrence, hoccurrence, fun row hrow hid next hrowNext => ?_⟩
      rcases mem_update hread hrow with ⟨e, he, heid, heq⟩ | ⟨hrow, -⟩
      · obtain ⟨occurrence', hoccurrence', hle⟩ := hdue e he
        have hbefore := hpassed e.1 (hread e he) (heid.trans hid) occurrence' hoccurrence'
        have hafter := hpast e he next (heq.symm.trans hrowNext)
        omega
      · exact hpassed row hrow hid next hrowNext
    · obtain ⟨e, he, rfl⟩ := List.mem_map.mp hc
      obtain ⟨occurrence, hoccurrence, hle⟩ := hdue e he
      refine ⟨occurrence, hoccurrence, fun row hrow hid next hrowNext => ?_⟩
      rcases mem_update hread hrow with ⟨e', he', heid, heq⟩ | ⟨-, hnone⟩
      · have hafter := hpast e' he' next (heq.symm.trans hrowNext)
        omega
      · exact absurd hid.symm (hnone e he)
  · constructor
    · rw [List.map_append, List.nodup_append]
      refine ⟨h.claimed.unique, ?_, ?_⟩
      · apply List.Nodup.of_map Prod.fst
        have hids := h.nodup w b hb
        rw [← hrows] at hids
        simpa [Batch.claims, Function.comp_def] using hids
      · -- what was claimed before has passed, and what is claimed now was next
        intro p hp p' hp' heq
        obtain ⟨c, hc, rfl⟩ := List.mem_map.mp hp
        rw [Batch.claims, List.map_map] at hp'
        obtain ⟨e, he, rfl⟩ := List.mem_map.mp hp'
        obtain ⟨hid, hsame⟩ := Prod.mk.inj heq
        obtain ⟨occurrence, hoccurrence, hpassed⟩ := h.passed c hc
        have hlt := hpassed e.1 (hread e he) hid.symm occurrence (hsame.symm.trans hoccurrence)
        omega
    · intro c hc next hcnext
      rcases List.mem_append.mp hc with hc | hc
      · exact h.claimed.later c hc next hcnext
      · obtain ⟨e, he, rfl⟩ := List.mem_map.mp hc
        exact hpast e he next hcnext

/-! ## Runs -/

/-- A step that is undisturbed keeps the invariant. -/
theorem ClaimInv.step (h : ClaimInv s) {e : ClaimEvent W} (hC : Undisturbed cal timezone s e)
    (hstep : claimStep cal timezone s e = some s') : ClaimInv s' := by
  cases e with
  | read w now_ns limit =>
    rw [claimStep, Option.ite_none_right_eq_some] at hstep
    obtain ⟨-, heq⟩ := hstep
    cases heq
    exact h.read hC
  | commit w clock =>
    obtain ⟨b, hb, rfl⟩ := Option.map_eq_some_iff.mp hstep
    cases hevaluated : b.evaluate cal timezone clock with
    | ok evaluated => exact h.commit hb hevaluated (hC b hb).2
    | error err => exact h.release w

/-- A step that is undisturbed claims well. -/
theorem ClaimInv.claimsWell (h : ClaimInv s) {e : ClaimEvent W}
    (hC : Undisturbed cal timezone s e) : ClaimsWell cal timezone s e := by
  intro s' hstep
  refine ⟨(h.step hC hstep).claimed, ?_⟩
  rintro w clock b rfl hb row hrow hevaluates
  obtain ⟨hall, hlater⟩ := hC b hb
  have hall' := hall.resolve_right fun hnone => hnone row hrow hevaluates
  obtain ⟨evaluated, hevaluated⟩ := exists_evaluate_eq_ok hall'
  obtain ⟨hrows, hnext⟩ := evaluate_eq_ok hevaluated
  have hread : ∀ e ∈ evaluated, e.1 ∈ s.table.rows := fun e he =>
    (h.current w b hb e.1 (hrows ▸ List.mem_map_of_mem he)).1
  rw [claimStep, hb, Option.map_some, hevaluated] at hstep
  cases hstep
  rw [← hrows] at hrow
  obtain ⟨e, he, rfl⟩ := List.mem_map.mp hrow
  refine ⟨⟨_, List.mem_append_right _ (List.mem_map_of_mem he), rfl, rfl, rfl, rfl⟩, ?_⟩
  obtain ⟨row', hrow', hid⟩ := exists_mem_update b.now_ns evaluated (hread e he)
  refine ⟨row', hrow', hid, fun next hrowNext => ?_⟩
  rcases mem_update hread hrow' with ⟨e', he', -, heq⟩ | ⟨-, hnone⟩
  · have hmem : e'.1 ∈ b.rows := hrows ▸ List.mem_map_of_mem he'
    exact hlater e'.1 hmem next ((heq.symm.trans hrowNext) ▸ hnext e' he')
  · exact absurd hid.symm (hnone e he)

/-- A server in UTC, for rules that run every minute. Local times are counted in nanoseconds. -/
def everyMinute : Calendar Unit Unit ℤ where
  zoneInfo _ := none
  rrulestr _ s := if s = "FREQ=MINUTELY".toList then .ok () else .error .valueError
  after _ dt := .ok (some ((dt / 60000000000 + 1) * 60000000000))
  now _ clock := clock
  timestamp _ dt := .ok dt

/-- An automation that runs every minute, and next at 60 seconds. -/
def minutely : Automation :=
  ⟨"m", "u", .dict [("rrule", .str "FREQ=MINUTELY")], true, none, some 60000000000⟩

/-- An automation whose rule is malformed, and which was to run earlier. -/
def malformed : Automation :=
  ⟨"x", "u", .dict [("rrule", .str "FREQ=")], true, none, some 30000000000⟩

end OpenLaunch.Tasks
