import OpenLaunch.Transition
import Mathlib.Data.PNat.Notation
import Mathlib.Data.PNat.Defs

/-! # The Redis lock

A `RedisLock` is a key of Redis with an expiry. To acquire the lock, a process sets the key to its
`lock_id` if the key is missing; to renew it, the process sets the key again if the key is there; to
release it, the process reads the key and deletes it if the value read is its own `lock_id`. Each of
these is one command, and a release is two, so the commands of other processes and the expiry of the
key come anywhere between them.

A process is named by its `lock_id`, which is a fresh UUID. -/

namespace OpenLaunch.Sockets

open Transition

universe u

/-! ## Commands -/

/-- A key with its value, and the time at which it expires. -/
structure StoredLock (P : Type u) where
  lock_id : P
  deadline : ℕ
  deriving DecidableEq

/-- Redis, and what the processes know of the lock. -/
structure LockState (P : Type u) where
  now : ℕ
  /-- The key, unless it has expired or was deleted. -/
  stored : Option (StoredLock P)
  /-- The expiry of what a process last acquired or renewed. -/
  granted : P → Option ℕ
  /-- A release has read its own `lock_id`, and has not deleted the key yet. -/
  releasing : P → Bool

/-- The steps: commands of a process, and the passing of time. -/
inductive LockEvent (P : Type u)
  | aquire_lock (lock_id : P)
  | renew_lock (lock_id : P)
  /-- `release_lock` reads the key. -/
  | release_get (lock_id : P)
  /-- `release_lock` deletes the key. -/
  | release_delete (lock_id : P)
  | elapse (time : ℕ)
  deriving DecidableEq

variable {P : Type u} [DecidableEq P]

/-- `redis.set(lock_name, lock_id, ex=timeout_secs)`. -/
def LockState.set (s : LockState P) (lock_id : P) (timeout_secs : ℕ) : LockState P where
  now := s.now
  stored := some ⟨lock_id, s.now + timeout_secs⟩
  granted p := if p = lock_id then some (s.now + timeout_secs) else s.granted p
  releasing := s.releasing

/-- `redis.delete(lock_name)` of a release. -/
def LockState.delete (s : LockState P) (lock_id : P) : LockState P where
  now := s.now
  stored := none
  granted p := if p = lock_id then none else s.granted p
  releasing p := if p = lock_id then false else s.releasing p

/-- One step, for the timeouts of the processes, which Redis wants to be positive. Only a release
that read its own `lock_id` deletes the key; the others end with the read. -/
def lockStep (timeout_secs : P → ℕ+) (s : LockState P) : LockEvent P → Option (LockState P)
  | .aquire_lock p => some (if s.stored = none then s.set p (timeout_secs p) else s)
  | .renew_lock p => some (if s.stored = none then s else s.set p (timeout_secs p))
  | .release_get p =>
    if (s.stored.map StoredLock.lock_id) = some p then
      some { s with releasing := fun q => if q = p then true else s.releasing q }
    else some { s with granted := fun q => if q = p then none else s.granted q }
  | .release_delete p => if s.releasing p then some (s.delete p) else none
  | .elapse time =>
    some { s with
      now := s.now + time
      stored := s.stored.filter fun key => s.now + time < key.deadline }

/-- Before any command. -/
def LockState.start : LockState P := ⟨0, none, fun _ => none, fun _ => false⟩

/-! ## Mutual exclusion -/

/-- The process acquired or renewed the lock, and that has not expired. -/
def Holds (s : LockState P) (p : P) : Prop :=
  ∃ deadline, s.granted p = some deadline ∧ s.now < deadline

/-- The key is the one of the process, or missing. -/
def OwnOrMissing (s : LockState P) (p : P) : Prop := ∀ key, s.stored = some key → key.lock_id = p

/-- **What a step must not do**: a renewal succeeds only for the process whose value is stored, a
release deletes no key of another process, and no two processes hold the lock afterwards. -/
def LockSafe (timeout_secs : P → ℕ+) (s : LockState P) (e : LockEvent P) : Prop :=
  (∀ p, e = .renew_lock p → OwnOrMissing s p) ∧
  (∀ p, e = .release_delete p → OwnOrMissing s p) ∧
  ∀ s', lockStep timeout_secs s e = some s' → ∀ p q, Holds s' p → Holds s' q → p = q

/-- **What the processes have to do**: a process renews the lock, and a release deletes the key,
only before what the process acquired or renewed last expires; or the key is missing. -/
def Timely (s : LockState P) : LockEvent P → Prop
  | .renew_lock p | .release_delete p => Holds s p ∨ s.stored = none
  | _ => True

/-! ## The invariant -/

/-- What a process holds is the key that is stored, and the key that is stored is held unless its
process released the lock. -/
structure LockInv (s : LockState P) : Prop where
  live : ∀ key, s.stored = some key → s.now < key.deadline
  held : ∀ p deadline, s.granted p = some deadline → s.now < deadline →
    s.stored = some ⟨p, deadline⟩
  owned : ∀ key, s.stored = some key → s.granted key.lock_id = some key.deadline

variable {timeout_secs : P → ℕ+} {s s' : LockState P} {e : LockEvent P} {p q : P}

theorem LockInv.exclusive (h : LockInv s) (hp : Holds s p) (hq : Holds s q) : p = q := by
  obtain ⟨deadline, hgranted, hlt⟩ := hp
  obtain ⟨deadline', hgranted', hlt'⟩ := hq
  have heq := (h.held p deadline hgranted hlt).symm.trans (h.held q deadline' hgranted' hlt')
  rw [Option.some.injEq, StoredLock.mk.injEq] at heq
  exact heq.1

/-- The key is the one of the process, or missing, exactly where the process is in time. -/
theorem LockInv.ownOrMissing_iff (h : LockInv s) :
    OwnOrMissing s p ↔ Holds s p ∨ s.stored = none := by
  constructor
  · intro hown
    cases hstored : s.stored with
    | none => exact Or.inr rfl
    | some key =>
      have hid := hown key hstored
      subst hid
      exact Or.inl ⟨key.deadline, h.owned key hstored, h.live key hstored⟩
  · rintro (⟨deadline, hgranted, hlt⟩ | hnone) key hstored
    · rw [h.held p deadline hgranted hlt, Option.some.injEq] at hstored
      rw [← hstored]
    · rw [hnone] at hstored
      cases hstored

theorem lockInv_start : LockInv (LockState.start : LockState P) where
  live key h := by cases h
  held p deadline h := by cases h
  owned key h := by cases h

/-- Setting the key makes the process the one that holds the lock, if no other process does. -/
theorem LockInv.set (h : LockInv s) (hown : OwnOrMissing s p) (timeout : ℕ+) :
    LockInv (s.set p timeout) := by
  have hpos := timeout.pos
  constructor
  · rintro key hkey
    cases hkey
    show s.now < s.now + timeout
    omega
  · intro q deadline hq hlt
    unfold LockState.set at hq hlt ⊢
    dsimp only at hq hlt ⊢
    split at hq
    · next hqp =>
      cases hq
      rw [hqp]
    · next hqp =>
      -- another process that holds the lock would have its key stored
      exact absurd (hown _ (h.held q deadline hq hlt)) hqp
  · rintro key hkey
    cases hkey
    exact if_pos rfl

theorem LockInv.delete (h : LockInv s) (hown : OwnOrMissing s p) : LockInv (s.delete p) := by
  constructor
  · rintro key hkey
    cases hkey
  · intro q deadline hq hlt
    unfold LockState.delete at hq hlt
    dsimp only at hq hlt
    split at hq
    · cases hq
    · next hqp => exact absurd (hown _ (h.held q deadline hq hlt)) hqp
  · rintro key hkey
    cases hkey

/-- **Step lemma.** A step in time keeps the invariant. -/
theorem LockInv.step (h : LockInv s) (htimely : Timely s e)
    (hstep : lockStep timeout_secs s e = some s') : LockInv s' := by
  cases e with
  | aquire_lock p =>
    cases hstep
    split
    · next hnone =>
      refine h.set (fun key hkey => ?_) _
      rw [hnone] at hkey
      cases hkey
    · exact h
  | renew_lock p =>
    cases hstep
    split
    · exact h
    · exact h.set (h.ownOrMissing_iff.mpr htimely) _
  | release_get p =>
    unfold lockStep at hstep
    dsimp only at hstep
    split at hstep
    · cases hstep
      exact ⟨h.live, h.held, h.owned⟩
    · next hother =>
      cases hstep
      refine ⟨h.live, fun q deadline hq hlt => ?_, fun key hkey => ?_⟩
      · dsimp only at hq hlt
        split at hq
        · cases hq
        · exact h.held q deadline hq hlt
      · dsimp only at hkey ⊢
        rw [if_neg, h.owned key hkey]
        rintro rfl
        rw [hkey] at hother
        exact hother rfl
  | release_delete p =>
    unfold lockStep at hstep
    dsimp only at hstep
    split at hstep
    · cases hstep
      exact h.delete (h.ownOrMissing_iff.mpr htimely)
    · cases hstep
  | elapse time =>
    cases hstep
    constructor
    · intro key hkey
      simpa using (Option.filter_eq_some_iff.mp hkey).2
    · intro q deadline hq hlt
      dsimp only at hq hlt ⊢
      have hstored := h.held q deadline hq (by omega)
      rw [hstored, Option.filter_eq_some_iff]
      simpa using hlt
    · intro key hkey
      exact h.owned key (Option.filter_eq_some_iff.mp hkey).1

/-- A step is safe exactly where it is in time. -/
theorem LockInv.safe_iff (h : LockInv s) (e : LockEvent P) :
    LockSafe timeout_secs s e ↔ Timely s e := by
  have hexclusive (htimely : Timely s e) : ∀ s', lockStep timeout_secs s e = some s' →
      ∀ p q, Holds s' p → Holds s' q → p = q :=
    fun s' hstep p q hp hq => (h.step htimely hstep).exclusive hp hq
  unfold LockSafe
  constructor
  · rintro ⟨hrenew, hdelete, -⟩
    cases e with
    | renew_lock p => exact h.ownOrMissing_iff.mp (hrenew p rfl)
    | release_delete p => exact h.ownOrMissing_iff.mp (hdelete p rfl)
    | _ => trivial
  · intro htimely
    refine ⟨?_, ?_, hexclusive htimely⟩
    · rintro p rfl
      exact h.ownOrMissing_iff.mpr htimely
    · rintro p rfl
      exact h.ownOrMissing_iff.mpr htimely

/-- **Mutual exclusion.** In a run of commands of any processes and of passing time, every step is
safe exactly if every renewal and every deletion of a release is in time. -/
theorem lock_safe_iff_timely (timeout_secs : P → ℕ+) (es : List (LockEvent P)) :
    StepsMeet (lockStep timeout_secs) (LockSafe timeout_secs) .start es ↔
      StepsMeet (lockStep timeout_secs) Timely .start es :=
  stepsMeet_congr (fun _ e h => h.safe_iff e)
    (fun _ e _ h hsafe hstep => h.step ((h.safe_iff e).mp hsafe) hstep) lockInv_start

/-- A process whose lock has expired renews the lock of another one, and both hold it; and a release
deletes the key of another process if its own expires after the read. -/
theorem expired_lock_renewed_and_deleted :
    (∃ s, exec (lockStep fun _ : Bool => 60) .start
        [.aquire_lock true, .elapse 60, .aquire_lock false, .renew_lock true] = some s ∧
      Holds s true ∧ Holds s false) ∧
    ∃ s, exec (lockStep fun _ : Bool => 60) .start
        [.aquire_lock true, .release_get true, .elapse 60, .aquire_lock false] = some s ∧
      s.stored.map StoredLock.lock_id = some false ∧
      (lockStep (fun _ => 60) s (.release_delete true)).map LockState.stored = some none := by
  refine ⟨⟨_, rfl, ⟨120, rfl, by decide⟩, ⟨120, rfl, by decide⟩⟩, ⟨_, rfl, rfl, rfl⟩⟩

end OpenLaunch.Sockets
