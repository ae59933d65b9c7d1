import Mathlib.Data.List.TakeWhile
import Mathlib.Data.List.Count
import Mathlib.Data.Nat.Notation

/-! # Retried generators of the Sentinel proxy

`utils/redis.py` wraps every command of a Sentinel client so that a failover is retried against
the newly resolved master. For a command that is an async generator (`scan_iter` and its kin) the
retry loop of `_wrap_async_gen` starts the generator afresh, while what the earlier attempt yielded
has already reached the consumer. The links to the master are given as the list of what each pull
of the consumer meets; over a fixed keyspace the command has one list of values. -/

namespace OpenLaunch.Redis

/-! ## The client's errors and replies -/

/-- The exceptions of the Redis client, as far as the retry loop tells them apart. -/
inductive RedisError where
  | connectionError
  | readOnlyError
  | other (name : String)
deriving Repr, DecidableEq

/-- The exception is one of `_SENTINEL_RETRYABLE`. -/
def RedisError.retryable : RedisError → Bool
  | .connectionError => true
  | .readOnlyError => true
  | .other _ => false

/-- What one pull from the command's generator meets: the master answers, or the pull raises. -/
inductive Reply where
  | answered
  | failed (error : RedisError)
deriving Repr, DecidableEq

/-- The reply is a failure that the proxy retries. -/
def Reply.isRetryable : Reply → Bool
  | .answered => false
  | .failed error => error.retryable

/-- How a generator ends. -/
inductive Ending where
  | returned
  | raised (error : RedisError)
deriving Repr, DecidableEq

/-- A finished iteration: what the consumer was given, in order, and how the generator ended. -/
structure Iteration (V : Type*) where
  yielded : List V
  ending : Ending
deriving Repr, DecidableEq

/-- The iteration of a generator that yields `vs` first and then goes on as `it`. -/
def Iteration.after {V : Type*} (vs : List V) (it : Iteration V) : Iteration V :=
  { it with yielded := vs ++ it.yielded }

variable {V : Type*}

@[simp] theorem Iteration.after_yielded (vs : List V) (it : Iteration V) :
    (it.after vs).yielded = vs ++ it.yielded := rfl

@[simp] theorem Iteration.after_ending (vs : List V) (it : Iteration V) :
    (it.after vs).ending = it.ending := rfl

/-! ## The command on one master -/

/-- One iteration of the command's generator on a master, over the replies its pulls meet: the
iteration, and the replies that are left for later pulls. A pull beyond the listed replies is
answered. The first pull of an attempt covers `_resolve_master` as well. -/
def method : List V → List Reply → Iteration V × List Reply
  | values, [] => (⟨values, .returned⟩, [])
  | _, .failed error :: rest => (⟨[], .raised error⟩, rest)
  | [], .answered :: rest => (⟨[], .returned⟩, rest)
  | value :: values, .answered :: rest =>
    let (it, left) := method values rest
    (it.after [value], left)

/-- The command on a single healthy master. -/
def healthy (values : List V) : Iteration V := ⟨values, .returned⟩

/-! ## The retry loop -/

/-- `_should_retry`. -/
def should_retry (maxRetryCount attempt : ℕ) : Bool := decide (attempt < maxRetryCount - 1)

/-- The loop of `_inner` over the attempts that are left: each attempt iterates the command again
and passes its values on; a retryable failure goes to the next attempt unless there is none. -/
def inner (maxRetryCount : ℕ) (values : List V) : List ℕ → List Reply → Iteration V
  | [], _ => ⟨[], .returned⟩
  | attempt :: attempts, replies =>
    match method values replies with
    | (⟨yielded, .returned⟩, _) => ⟨yielded, .returned⟩
    | (⟨yielded, .raised error⟩, rest) =>
      if error.retryable then
        if should_retry maxRetryCount attempt then
          (inner maxRetryCount values attempts rest).after yielded
        else ⟨yielded, .raised error⟩
      else ⟨yielded, .raised error⟩

/-- `_wrap_async_gen`: what a consumer of the proxied command is given. -/
def wrap_async_gen (maxRetryCount : ℕ) (values : List V) (replies : List Reply) : Iteration V :=
  inner maxRetryCount values (List.range maxRetryCount) replies

/-! ## One attempt -/

/-- The pull fails. -/
def Reply.isFailed : Reply → Bool
  | .answered => false
  | .failed _ => true

/-- **What one attempt does**: either the master answers every pull, and all the values are
yielded, or it answers `k` of them and then fails, and the first `k` values are yielded. -/
theorem method_cases (values : List V) (replies : List Reply) :
    (∃ rest, (∀ r ∈ replies.take (values.length + 1), r = .answered) ∧
      method values replies = (⟨values, .returned⟩, rest)) ∨
    ∃ k error rest, k ≤ values.length ∧
      replies = List.replicate k .answered ++ .failed error :: rest ∧
      method values replies = (⟨values.take k, .raised error⟩, rest) := by
  induction values generalizing replies with
  | nil =>
    rcases replies with _ | ⟨r, rest⟩
    · exact .inl ⟨_, by simp, rfl⟩
    · cases r with
      | answered => exact .inl ⟨_, by simp, rfl⟩
      | failed error => exact .inr ⟨0, error, rest, le_rfl, rfl, rfl⟩
  | cons v values ih =>
    rcases replies with _ | ⟨r, rest⟩
    · exact .inl ⟨_, by simp, rfl⟩
    · cases r with
      | failed error => exact .inr ⟨0, error, rest, Nat.zero_le _, rfl, rfl⟩
      | answered =>
        rcases ih rest with ⟨left, hall, hrun⟩ | ⟨k, error, left, hk, rfl, hrun⟩
        · refine .inl ⟨left, ?_, ?_⟩
          · simpa using hall
          · show ((method values rest).1.after [v], (method values rest).2) = _
            rw [hrun]
            rfl
        · refine .inr ⟨k + 1, error, left, by simpa using hk, rfl, ?_⟩
          show ((method values _).1.after [v], (method values _).2) = _
          rw [hrun]
          rfl

/-! ## The whole loop -/

/-- Once the master has answered, it answers every pull of that attempt: the failures of the
iteration all strike before a value has been passed on. -/
def FailsOnlyFirst (values : List V) (replies : List Reply) : Prop :=
  ∀ r ∈ (replies.dropWhile Reply.isFailed).take (values.length + 1), r = .answered

instance (values : List V) (replies : List Reply) : Decidable (FailsOnlyFirst values replies) :=
  inferInstanceAs (Decidable (∀ r ∈ _, r = _))

/-- A failure before the first value does not count. -/
theorem failsOnlyFirst_failed (values : List V) (error : RedisError) (rest : List Reply) :
    FailsOnlyFirst values (.failed error :: rest) ↔ FailsOnlyFirst values rest := by
  rw [FailsOnlyFirst, FailsOnlyFirst, List.dropWhile_cons_of_pos rfl]

/-- A master that answers all pulls of the first attempt has no failure after a value. -/
theorem failsOnlyFirst_of_take {values : List V} {replies : List Reply}
    (h : ∀ r ∈ replies.take (values.length + 1), r = .answered) :
    FailsOnlyFirst values replies := by
  rcases replies with _ | ⟨r, rest⟩
  · intro r hr
    simp at hr
  · have hr : r = .answered := h r (by simp)
    subst hr
    rw [FailsOnlyFirst, List.dropWhile_cons_of_neg (by decide)]
    exact h

/-- A failure after a value does count. -/
theorem not_failsOnlyFirst {values : List V} {k : ℕ} (hk : k < values.length) (error : RedisError)
    (rest : List Reply) :
    ¬ FailsOnlyFirst values (List.replicate (k + 1) .answered ++ .failed error :: rest) := by
  intro h
  rw [FailsOnlyFirst, List.replicate_succ, List.cons_append,
    List.dropWhile_cons_of_neg (by decide)] at h
  have hmem : Reply.failed error ∈
      (Reply.answered :: (List.replicate k .answered ++ .failed error :: rest)).take
        (values.length + 1) := by
    rw [List.take_succ_cons, List.take_append]
    refine List.mem_cons_of_mem _ (List.mem_append_right _ ?_)
    obtain ⟨d, hd⟩ : ∃ d, values.length - (List.replicate k Reply.answered).length = d + 1 :=
      ⟨values.length - k - 1, by rw [List.length_replicate]; omega⟩
    rw [hd, List.take_succ_cons]
    exact List.mem_cons_self
  exact nomatch h _ hmem

/-- **What the retry loop passes on**, while attempts are left for every failure: all the values,
after those that failed attempts had yielded; and these are none exactly if no failure comes after
a value. -/
theorem inner_spec {maxRetryCount : ℕ} (values : List V) (n start : ℕ) (replies : List Reply)
    (hn : start + n = maxRetryCount)
    (hretry : ∀ r ∈ replies, r.isFailed → r.isRetryable)
    (hcount : replies.countP Reply.isFailed < n) :
    ∃ again, inner maxRetryCount values (List.range' start n) replies =
        ⟨again ++ values, .returned⟩ ∧ (again = [] ↔ FailsOnlyFirst values replies) := by
  induction n generalizing start replies with
  | zero => exact absurd hcount (Nat.not_lt_zero _)
  | succ n ih =>
    rw [List.range'_succ, inner]
    rcases method_cases values replies with ⟨left, hall, hrun⟩ | ⟨k, error, rest, hk, rfl, hrun⟩
    · refine ⟨[], ?_, iff_of_true rfl (failsOnlyFirst_of_take hall)⟩
      rw [hrun]
      rfl
    · -- the attempt fails, and there is another one
      have herror : error.retryable = true := hretry (.failed error) (by simp) rfl
      rw [List.countP_append, List.countP_cons_of_pos rfl] at hcount
      have hagain : should_retry maxRetryCount start = true := by
        rw [should_retry, decide_eq_true_eq]
        omega
      obtain ⟨again, hinner, hiff⟩ := ih (start + 1) rest (by omega)
        (fun r hr => hretry r (by simp [hr])) (by omega)
      refine ⟨values.take k ++ again, ?_, ?_⟩
      · rw [hrun]
        simp only [herror, hagain, if_true]
        rw [hinner, Iteration.after, List.append_assoc]
      · rw [List.append_eq_nil_iff, hiff]
        cases k with
        | zero => simpa using (failsOnlyFirst_failed values error rest).symm
        | succ k =>
          have hlong : values.take (k + 1) ≠ [] := by
            rw [Ne, List.take_eq_nil_iff]
            rintro (h | rfl)
            · exact absurd h (Nat.succ_ne_zero k)
            · exact absurd hk (by simp)
          exact iff_of_false (fun h => hlong h.1) (not_failsOnlyFirst hk error rest)

/-- **A retried iteration is the plain one** exactly when every failure strikes before the first
value has been passed on. -/
theorem wrap_async_gen_eq_healthy_iff (maxRetryCount : ℕ) (values : List V) (replies : List Reply)
    (hretry : ∀ r ∈ replies, r.isFailed → r.isRetryable)
    (hcount : replies.countP Reply.isFailed < maxRetryCount) :
    wrap_async_gen maxRetryCount values replies = healthy values ↔
      FailsOnlyFirst values replies := by
  rw [wrap_async_gen, List.range_eq_range']
  obtain ⟨again, hinner, hiff⟩ :=
    inner_spec values maxRetryCount 0 replies (Nat.zero_add _) hretry hcount
  rw [hinner, ← hiff, healthy, Iteration.mk.injEq, and_iff_left rfl]
  exact List.append_left_eq_self

/-- A failover before the first key goes unnoticed. -/
theorem failover_before_first :
    wrap_async_gen 2 ["a", "b"] [.failed .connectionError, .answered, .answered] =
      healthy ["a", "b"] :=
  (wrap_async_gen_eq_healthy_iff 2 ["a", "b"] [.failed .connectionError, .answered, .answered]
    (by decide) (by decide)).2 (by decide)

/-- A failover after the first of two keys: the consumer is given the first key twice. -/
theorem failover_after_first :
    ([Reply.answered, .failed .connectionError].countP Reply.isFailed ≤ 2 - 1) ∧
      wrap_async_gen 2 ["a", "b"] [.answered, .failed .connectionError] =
        ⟨["a", "a", "b"], .returned⟩ ∧
      wrap_async_gen 2 ["a", "b"] [.answered, .failed .connectionError] ≠ healthy ["a", "b"] := by
  decide

end OpenLaunch.Redis
