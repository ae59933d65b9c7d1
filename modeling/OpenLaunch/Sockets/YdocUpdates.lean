import OpenLaunch.Transition
import OpenLaunch.SnapshotLog
import Mathlib.Data.Fintype.Order
import Mathlib.Logic.Function.Basic
import Mathlib.Order.CompletePartialOrder

/-! # The updates of a document

`append_to_updates` pushes an update to the list of a document, and compacts the list where it has
become long: the older half is replaced by one snapshot. With Redis a call is a sequence of
commands, and the commands of other calls come anywhere between them. Without Redis a call is one
step. -/

namespace OpenLaunch.Sockets

open Transition SnapshotLog

universe u v

/-- `COMPACTION_THRESHOLD`. -/
def compaction_threshold : ℕ := 500

variable {C : Type u} [DecidableEq C] {D : Type v} [SemilatticeSup D] [OrderBot D]

/-! ## With Redis -/

/-- The next command of a call of `append_to_updates` that has pushed its update. -/
inductive AppendPhase (D : Type v)
  | llen
  /-- `_compact_updates_redis` reads the list. -/
  | lrange
  /-- `_compact_updates_redis` executes its transaction, which deletes the list and pushes the
  snapshot and the newer half of what was read. -/
  | execute (all_updates : List D)

/-- The next command of a call: the list after it, and what remains of the call. -/
def appendCommand (updates : List D) : AppendPhase D → List D × Option (AppendPhase D)
  | .llen => (updates, if compaction_threshold ≤ updates.length then some .lrange else none)
  | .lrange => (updates, if updates.length ≤ 1 then none else some (.execute updates))
  | .execute all_updates => (squash (all_updates.length / 2) all_updates, none)

/-- The list of a document, what remains of every call, and all the updates that were pushed. -/
structure UpdatesState (C : Type u) (D : Type v) where
  updates : List D
  calls : C → Option (AppendPhase D)
  appended : List D

/-- A call begins and pushes its update, or a call executes its next command. -/
inductive UpdatesEvent (C : Type u) (D : Type v)
  | rpush (c : C) (update : D)
  | command (c : C)

def updatesStep (s : UpdatesState C D) : UpdatesEvent C D → Option (UpdatesState C D)
  | .rpush c update =>
    if s.calls c = none then
      some ⟨s.updates ++ [update], Function.update s.calls c (some .llen), s.appended ++ [update]⟩
    else none
  | .command c => (s.calls c).map fun phase =>
    { s with
      updates := (appendCommand s.updates phase).1
      calls := Function.update s.calls c (appendCommand s.updates phase).2 }

/-- A document without updates, and no call. -/
def UpdatesState.start : UpdatesState C D := ⟨[], fun _ => none, []⟩

/-! ## Without Redis -/

/-- `_compact_updates_memory`. -/
def compact_updates_memory (updates : List D) : List D :=
  if updates.length ≤ 1 then updates else squash (updates.length / 2) updates

/-- `append_to_updates` without Redis. -/
def append_to_updates (updates : List D) (update : D) : List D :=
  let updates := updates ++ [update]
  if compaction_threshold ≤ updates.length then compact_updates_memory updates else updates

@[simp] theorem merge_compact_updates_memory (updates : List D) :
    merge (compact_updates_memory updates) = merge updates := by
  unfold compact_updates_memory
  split
  · rfl
  · exact merge_squash _ _

/-! ## Nothing is lost -/

/-- Every update that was pushed is in the document. -/
def NothingLost (s : UpdatesState C D) : Prop := ∀ u ∈ s.appended, u ≤ merge s.updates

/-- Nothing is lost after the step. -/
def KeepsUpdates (s : UpdatesState C D) (e : UpdatesEvent C D) : Prop :=
  ∀ s', updatesStep s e = some s' → NothingLost s'

/-- A transaction that replaces the list has read everything that is in the list. -/
def ReadCovers (s : UpdatesState C D) : UpdatesEvent C D → Prop
  | .rpush .. => True
  | .command c => ∀ all_updates, s.calls c = some (.execute all_updates) →
      ∀ u ∈ s.updates, u ≤ merge all_updates

/-- Nothing is lost, and the list and what was read of it have no more than what was pushed. -/
structure UpdatesInv (s : UpdatesState C D) : Prop where
  kept : NothingLost s
  stored : merge s.updates ≤ merge s.appended
  read : ∀ c all_updates, s.calls c = some (.execute all_updates) →
    merge all_updates ≤ merge s.appended

variable {s s' : UpdatesState C D} {e : UpdatesEvent C D}

omit [DecidableEq C] in
theorem updatesInv_start : UpdatesInv (UpdatesState.start : UpdatesState C D) where
  kept := by simp [NothingLost, UpdatesState.start]
  stored := le_refl _
  read c all_updates h := by simp [UpdatesState.start] at h

/-- A step of a run: an update is pushed, a command leaves the list as it is, or a transaction
replaces the list. -/
theorem updatesStep_cases (h : updatesStep s e = some s') :
    (∃ c update, e = .rpush c update ∧ s.calls c = none ∧
      s' = ⟨s.updates ++ [update], Function.update s.calls c (some .llen),
        s.appended ++ [update]⟩) ∨
    (∃ c phase, e = .command c ∧ s.calls c = some phase ∧
      s' = { s with
        updates := (appendCommand s.updates phase).1
        calls := Function.update s.calls c (appendCommand s.updates phase).2 }) := by
  cases e with
  | rpush c update =>
    unfold updatesStep at h
    rw [Option.ite_none_right_eq_some] at h
    exact Or.inl ⟨c, update, rfl, h.1, (Option.some.inj h.2).symm⟩
  | command c =>
    obtain ⟨phase, hphase, rfl⟩ := Option.map_eq_some_iff.mp h
    exact Or.inr ⟨c, phase, rfl, hphase, rfl⟩

/-- What a command leaves to execute was read from the list. -/
theorem appendCommand_execute {updates all_updates : List D} {phase : AppendPhase D}
    (h : (appendCommand updates phase).2 = some (.execute all_updates)) :
    all_updates = updates := by
  cases phase with
  | lrange =>
    have hread : 1 < updates.length ∧ updates = all_updates := by simpa [appendCommand] using h
    exact hread.2.symm
  | _ => simp [appendCommand] at h

/-- The document after a command: the one that was read, if a transaction replaces the list. -/
theorem merge_appendCommand (updates : List D) (phase : AppendPhase D) :
    (appendCommand updates phase).1 = updates ∨
      ∃ all_updates, phase = .execute all_updates ∧
        merge (appendCommand updates phase).1 = merge all_updates := by
  cases phase with
  | execute all_updates => exact Or.inr ⟨all_updates, rfl, merge_squash _ _⟩
  | _ => exact Or.inl rfl

/-- **Step lemma.** A step whose transaction has read everything keeps the invariant. -/
theorem UpdatesInv.step (h : UpdatesInv s) (hcovers : ReadCovers s e)
    (hstep : updatesStep s e = some s') : UpdatesInv s' := by
  obtain ⟨c, update, rfl, hidle, rfl⟩ | ⟨c, phase, rfl, hphase, rfl⟩ := updatesStep_cases hstep
  · have hgrow : merge s.appended ≤ merge (s.appended ++ [update]) :=
      merge_mono fun u hu => List.mem_append_left _ hu
    refine ⟨fun u hu => ?_, ?_, fun c' all_updates hc' => ?_⟩
    · rcases List.mem_append.mp hu with hold | hnew
      · calc u ≤ merge s.updates := h.kept u hold
          _ ≤ merge (s.updates ++ [update]) := merge_mono fun v hv => List.mem_append_left _ hv
      · exact le_merge (List.mem_append_right _ hnew)
    · rw [merge_le_iff]
      intro u hu
      rcases List.mem_append.mp hu with hold | hnew
      · calc u ≤ merge s.updates := le_merge hold
          _ ≤ merge s.appended := h.stored
          _ ≤ merge (s.appended ++ [update]) := hgrow
      · exact le_merge (List.mem_append_right _ hnew)
    · by_cases hcc : c' = c
      · subst hcc
        simp at hc'
      · dsimp only at hc'
        rw [Function.update_of_ne hcc] at hc'
        exact (h.read c' all_updates hc').trans hgrow
  · have hread (c' : C) (all_updates : List D)
        (hc' : Function.update s.calls c (appendCommand s.updates phase).2 c' =
          some (.execute all_updates)) : merge all_updates ≤ merge s.appended := by
      by_cases hcc : c' = c
      · subst hcc
        rw [Function.update_self] at hc'
        rw [appendCommand_execute hc']
        exact h.stored
      · rw [Function.update_of_ne hcc] at hc'
        exact h.read c' all_updates hc'
    rcases merge_appendCommand s.updates phase with hsame | ⟨all_updates, rfl, hmerge⟩
    · refine ⟨fun u hu => ?_, ?_, hread⟩
      · dsimp only at hu ⊢
        rw [hsame]
        exact h.kept u hu
      · dsimp only
        rw [hsame]
        exact h.stored
    · -- the list is replaced by what was read, which covers it
      refine ⟨fun u hu => ?_, ?_, hread⟩
      · dsimp only
        rw [hmerge]
        calc u ≤ merge s.updates := h.kept u hu
          _ ≤ merge all_updates := merge_le_iff.mpr (hcovers all_updates hphase)
      · dsimp only
        rw [hmerge]
        exact h.read c all_updates hphase

/-- A step loses nothing exactly if its transaction has read everything. -/
theorem UpdatesInv.keepsUpdates_iff (h : UpdatesInv s) (e : UpdatesEvent C D) :
    KeepsUpdates s e ↔ ReadCovers s e := by
  refine ⟨fun hkeeps => ?_, fun hcovers s' hstep => (h.step hcovers hstep).kept⟩
  cases e with
  | rpush c update => trivial
  | command c =>
    intro all_updates hphase u hu
    have hafter := hkeeps _ (Option.map_eq_some_iff.mpr ⟨_, hphase, rfl⟩)
    calc u ≤ merge s.updates := le_merge hu
      _ ≤ merge s.appended := h.stored
      _ ≤ merge (squash (all_updates.length / 2) all_updates) := merge_le_iff.mpr hafter
      _ = merge all_updates := merge_squash _ _

/-! ## The two implementations -/

/-- A call begins only where every call has ended. -/
def InSequence (s : UpdatesState C D) : UpdatesEvent C D → Prop
  | .rpush .. => ∀ c, s.calls c = none
  | .command _ => True

/-- The list after the rest of a call, if nothing comes between its commands. -/
def restOfCall (updates : List D) : Option (AppendPhase D) → List D
  | none => updates
  | some .llen =>
    if compaction_threshold ≤ updates.length then compact_updates_memory updates else updates
  | some .lrange => compact_updates_memory updates
  | some (.execute all_updates) => squash (all_updates.length / 2) all_updates

theorem restOfCall_appendCommand (updates : List D) (phase : AppendPhase D) :
    restOfCall (appendCommand updates phase).1 (appendCommand updates phase).2 =
      restOfCall updates (some phase) := by
  cases phase with
  | llen =>
    by_cases hlong : compaction_threshold ≤ updates.length
    · simp [restOfCall, appendCommand, hlong]
    · simp [restOfCall, appendCommand, hlong]
  | lrange =>
    unfold appendCommand
    by_cases hshort : updates.length ≤ 1
    · simp [restOfCall, compact_updates_memory, hshort]
    · simp [restOfCall, compact_updates_memory, hshort]
  | execute all_updates => rfl

/-- At most one call has not ended, and the rest of it leads to the list without Redis. -/
def SequenceInv (s : UpdatesState C D) : Prop :=
  ((∀ c, s.calls c = none) ∧ s.updates = s.appended.foldl append_to_updates []) ∨
  ∃ c, (∀ c', c' ≠ c → s.calls c' = none) ∧
    restOfCall s.updates (s.calls c) = s.appended.foldl append_to_updates []

theorem SequenceInv.step (h : SequenceInv s) (hseq : InSequence s e)
    (hstep : updatesStep s e = some s') : SequenceInv s' := by
  obtain ⟨c, update, rfl, -, rfl⟩ | ⟨c, phase, rfl, hphase, rfl⟩ := updatesStep_cases hstep
  · refine Or.inr ⟨c, fun c' hcc => ?_, ?_⟩
    · dsimp only
      rw [Function.update_of_ne hcc]
      exact hseq c'
    · have hupdates : s.updates = s.appended.foldl append_to_updates [] := by
        rcases h with ⟨-, h⟩ | ⟨c₀, -, h⟩
        · exact h
        · rw [hseq c₀] at h
          exact h
      dsimp only
      rw [Function.update_self, List.foldl_append, ← hupdates]
      rfl
  · rcases h with ⟨hidle, -⟩ | ⟨c₀, hothers, hrest⟩
    · rw [hidle c] at hphase
      cases hphase
    · have hc : c = c₀ := by
        by_contra hne
        rw [hothers c hne] at hphase
        cases hphase
      subst hc
      refine Or.inr ⟨c, fun c' hcc => ?_, ?_⟩
      · dsimp only
        rw [Function.update_of_ne hcc]
        exact hothers c' hcc
      · dsimp only
        rw [Function.update_self, restOfCall_appendCommand, ← hphase]
        exact hrest

omit [DecidableEq C] in
theorem SequenceInv.updates_eq (h : SequenceInv s) (hidle : ∀ c, s.calls c = none) :
    s.updates = s.appended.foldl append_to_updates [] := by
  rcases h with ⟨-, h⟩ | ⟨c, -, h⟩
  · exact h
  · rw [hidle c] at h
    exact h

/-! ## Runs -/

/-- **Compaction over runs.** In a run of any calls nothing is lost at any step if and only if every
transaction that replaces the list has read everything that is in the list. Where the calls come one
after the other, the list is the one of the implementation without Redis. -/
theorem updates_kept_iff_read_covers (es : List (UpdatesEvent C D)) :
    (StepsMeet updatesStep KeepsUpdates .start es ↔
      StepsMeet updatesStep ReadCovers .start es) ∧
    ∀ s, StepsMeet updatesStep InSequence .start es → exec updatesStep .start es = some s →
      (∀ c, s.calls c = none) → s.updates = s.appended.foldl append_to_updates [] := by
  constructor
  · exact stepsMeet_congr (fun s e h => h.keepsUpdates_iff e)
      (fun s e s' h hkeeps hstep => h.step ((h.keepsUpdates_iff e).mp hkeeps) hstep)
      updatesInv_start
  · intro s hseq hrun hidle
    have hinv : SequenceInv s := exec_invariant_of_stepsMeet
      (fun s e s' h hseq hstep => h.step hseq hstep) (Or.inl ⟨fun _ => rfl, rfl⟩) hseq hrun
    exact hinv.updates_eq hidle

/-- Updates that one call after the other pushes without a compaction. -/
theorem exec_short_appends (n m : ℕ) (h : m + n < compaction_threshold) :
    exec updatesStep
        (⟨.replicate m false, fun _ => none, .replicate m false⟩ : UpdatesState Bool Bool)
        (List.replicate n [.rpush true false, .command true]).flatten =
      some ⟨.replicate (m + n) false, fun _ => none, .replicate (m + n) false⟩ := by
  induction n generalizing m with
  | zero => rfl
  | succ n ih =>
    have hshort : ¬ compaction_threshold ≤ m + 1 := by omega
    have hmore : m + 1 + n = m + (n + 1) := by omega
    rw [List.replicate_succ, List.flatten_cons, exec_append]
    simp only [exec, updatesStep, Option.bind_some, if_true, Function.update_self, Option.map_some,
      appendCommand, List.length_replicate, hshort, if_false, Function.update_idem,
      ← List.replicate_succ']
    have hidle : Function.update (fun _ : Bool => (none : Option (AppendPhase Bool))) true none =
        fun _ => none := by
      funext c
      cases c <;> rfl
    rw [hidle, ih (m + 1) (by omega), hmore]

/-- An update that is pushed after a compaction has read the list is not in the new list. -/
theorem exec_overlapping_append (updates appended : List D) (update update' : D)
    (hlong : compaction_threshold ≤ updates.length + 1)
    (hshort : updates.length + 1 - (updates.length + 1) / 2 + 1 < compaction_threshold) :
    exec updatesStep ⟨updates, fun _ => none, appended⟩
        [.rpush true update, .command true, .command true, .rpush false update', .command true,
          .command false] =
      some ⟨squash ((updates.length + 1) / 2) (updates ++ [update]), fun _ => none,
        appended ++ [update] ++ [update']⟩ := by
  have htwo : ¬ updates.length + 1 ≤ 1 := by
    unfold compaction_threshold at hlong
    omega
  have hsnapshot : (squash ((updates.length + 1) / 2) (updates ++ [update])).length =
      updates.length + 1 - (updates.length + 1) / 2 + 1 := by simp [squash]
  have hfits : ¬ compaction_threshold ≤
      (squash ((updates.length + 1) / 2) (updates ++ [update])).length := by omega
  simp only [exec, updatesStep, Option.bind_some, if_true, Function.update_self, Option.map_some,
    appendCommand, List.length_append, List.length_singleton, hlong, htwo, if_false, ne_eq,
    Bool.false_eq_true, not_false_eq_true, Function.update_of_ne, Bool.true_eq_false, hfits]
  congr 2
  funext c
  cases c <;> rfl

/-- The 500th update starts a compaction, and an update that is pushed after the list was read is
lost when the calls have ended. -/
theorem update_lost_by_compaction :
    ∃ s : UpdatesState Bool Bool,
      exec updatesStep .start
        ((List.replicate 499 [.rpush true false, .command true]).flatten ++
          [.rpush true false, .command true, .command true, .rpush false true, .command true,
            .command false]) = some s ∧
      (∀ c, s.calls c = none) ∧ true ∈ s.appended ∧ ¬ true ≤ merge s.updates := by
  have hshort : exec updatesStep .start
        (List.replicate 499 [UpdatesEvent.rpush true false, .command true]).flatten =
      some ⟨.replicate 499 false, fun _ => none, .replicate 499 false⟩ :=
    exec_short_appends 499 0 (by decide)
  rw [exec_append, hshort, Option.bind_some, exec_overlapping_append _ _ _ _
    (by rw [List.length_replicate]; decide) (by rw [List.length_replicate]; decide)]
  refine ⟨_, rfl, fun _ => rfl, List.mem_append_right _ (List.mem_singleton.mpr rfl), fun hle => ?_⟩
  have hall : merge (List.replicate 499 false ++ [false]) ≤ false := by
    rw [merge_le_iff]
    intro u hu
    rcases List.mem_append.mp hu with hu | hu
    · rw [List.eq_of_mem_replicate hu]
    · rw [List.mem_singleton.mp hu]
  rw [merge_squash] at hle
  exact absurd (hle.trans hall) (by decide)

end OpenLaunch.Sockets
