import OpenLaunch.Python.Dict
import OpenLaunch.Python.JsonRoundTrip
import OpenLaunch.Python.JsonText
import Mathlib.Data.NNRat.Floor
import Mathlib.Algebra.Order.Floor.Semiring
import Mathlib.Tactic.Linarith
import Mathlib.Algebra.Order.Ring.Rat

/-! # The rate limiter

A `RateLimiter` counts the calls for a key in buckets of time, and limits a call when the buckets of
the window hold more calls than its limit. The counters are in Redis, under keys that expire, or in
the memory of the process. Both are modelled for an enabled limiter that starts with no counters.

The two are compared through a third limiter, which remembers every call: it limits a call when more
calls than the limit, the call among them, are in a bucket that is not too old. -/

namespace OpenLaunch.Access

open Python

universe u

/-! ## The limiter -/

/-- `RateLimiter`. The constructor divides by `bucket_size`. -/
structure RateLimiter where
  limit : ℤ
  window : ℤ
  bucket_size : ℤ
  bucket_size_ne : bucket_size ≠ 0

/-- A call of `is_limited`, with the value of `time.time()`. -/
structure RateCall where
  time : ℚ≥0
  key : String
  deriving DecidableEq

namespace RateLimiter

variable (r : RateLimiter)

/-- `self.num_buckets`. -/
def num_buckets : ℤ := r.window.fdiv r.bucket_size

/-- `_current_bucket`, at a time. -/
def current_bucket (time : ℚ≥0) : ℤ := (⌊time⌋₊ : ℤ).fdiv r.bucket_size

/-- The answers of a limiter that keeps a state, to one call after the other. -/
def answers {σ : Type u} (step : σ → RateCall → Bool × σ) : σ → List RateCall → List Bool
  | _, [] => []
  | s, c :: calls => (step s c).1 :: answers step (step s c).2 calls

/-! ## In memory -/

/-- `_memory_store`: the counts of the buckets, for each key. -/
abbrev MemoryStore := String → List (ℤ × ℕ)

/-- `_is_limited_memory`. -/
def is_limited_memory (store : MemoryStore) (c : RateCall) : Bool × MemoryStore :=
  let now_bucket := r.current_bucket c.time
  let counts := Assoc.set (store c.key) now_bucket
    ((Assoc.get? (store c.key) now_bucket).getD 0 + 1)
  let min_bucket := now_bucket - r.num_buckets
  let kept := counts.filter fun e => ¬ e.1 < min_bucket
  (decide (r.limit < (kept.map Prod.snd).sum),
    fun key => if key = c.key then kept else store key)

/-- The answers of the limiter without Redis. -/
def memoryAnswers (calls : List RateCall) : List Bool :=
  answers r.is_limited_memory (fun _ => []) calls

/-! ## In Redis -/

/-- A counter of Redis, with the time at which its key expires. -/
structure Counter where
  count : ℕ
  deadline : Option ℚ≥0

/-- The counters under the keys. -/
abbrev Counters := List Char → Option Counter

/-- A counter that has not expired. -/
def Counters.live (counters : Counters) (now : ℚ≥0) (name : List Char) : Option Counter :=
  (counters name).filter fun counter => counter.deadline.all fun deadline => now ≤ deadline

/-- The number that a counter has, 0 if it is missing. -/
def Counters.value (counters : Counters) (now : ℚ≥0) (name : List Char) : ℕ :=
  ((counters.live now name).map Counter.count).getD 0

/-- `incr(name)`, which keeps the expiry. -/
def Counters.incr (counters : Counters) (now : ℚ≥0) (name : List Char) : Counters := fun name' =>
  if name' = name then
    some ⟨counters.value now name + 1, (counters.live now name).bind Counter.deadline⟩
  else counters name'

/-- `expire(name, seconds)`, which deletes the key if the time is not positive. -/
def Counters.expire (counters : Counters) (now : ℚ≥0) (name : List Char) (seconds : ℤ) :
    Counters := fun name' =>
  if name' = name then
    if seconds ≤ 0 then none
    else (counters name).map fun counter => { counter with deadline := some (now + seconds.toNat) }
  else counters name'

variable (keyPrefix : List Char) (lower : String → String)

/-- `_bucket_key`. -/
def bucket_key (key : String) (bucket_index : ℤ) : List Char :=
  keyPrefix ++ ":ratelimit:".toList ++ (lower key).toList ++ ':' :: intText bucket_index

/-- `_is_limited_redis`, with the names of the counters as a parameter. -/
def isLimitedWith (bucketKey : String → ℤ → List Char) (counters : Counters) (c : RateCall) :
    Bool × Counters :=
  let now_bucket := r.current_bucket c.time
  let name := bucketKey c.key now_bucket
  let attempts := counters.value c.time name + 1
  let counted := counters.incr c.time name
  let counters' :=
    if attempts = 1 then counted.expire c.time name (r.window + r.bucket_size) else counted
  let buckets := (List.range (r.num_buckets + 1).toNat).map fun i : ℕ =>
    bucketKey c.key (now_bucket - i)
  (decide (r.limit < (buckets.map fun name => counters'.value c.time name).sum), counters')

/-- `_is_limited_redis`. -/
def is_limited_redis (counters : Counters) (c : RateCall) : Bool × Counters :=
  r.isLimitedWith (bucket_key keyPrefix lower) counters c

/-- The answers of the limiter with Redis. -/
def redisAnswers (calls : List RateCall) : List Bool :=
  answers (r.is_limited_redis keyPrefix lower) (fun _ => none) calls

end RateLimiter

end OpenLaunch.Access

/-! ## Both limiters count the calls of the window

The specification is a limiter that remembers every call: `rolling`. The store of the process and
the counters of Redis both determine the numbers of calls that it looks at, the former as long as the
buckets of the calls do not decrease, the latter as long as time does not and buckets have a positive
size. -/

namespace OpenLaunch.Access

open Python

universe u

namespace RateLimiter

/-! ## Verdicts on a history -/

/-- What a limiter that remembers the calls `past` answers to one call after the other. -/
def verdicts (verdict : List RateCall → RateCall → Bool) :
    List RateCall → List RateCall → List Bool
  | _, [] => []
  | past, c :: calls => verdict past c :: verdicts verdict (past ++ [c]) calls

/-- **Simulation.** If the state of a limiter stays related to the calls made, and its answer is the
verdict on them, then it answers what the limiter that remembers the calls answers. -/
theorem answers_eq_verdicts {σ : Type u} {step : σ → RateCall → Bool × σ}
    {verdict : List RateCall → RateCall → Bool} (Inv : List RateCall → σ → Prop)
    {Q : RateCall → RateCall → Prop}
    (hstep : ∀ past s c, (∀ c' ∈ past, Q c' c) → Inv past s →
      (step s c).1 = verdict past c ∧ Inv (past ++ [c]) (step s c).2)
    {past : List RateCall} {s : σ} (hs : Inv past s) {calls : List RateCall}
    (hQ : (past ++ calls).Pairwise Q) : answers step s calls = verdicts verdict past calls := by
  induction calls generalizing past s with
  | nil => rfl
  | cons c calls ih =>
    obtain ⟨hverdict, hnext⟩ := hstep past s c
      (fun c' hc' => (List.pairwise_append.mp hQ).2.2 c' hc' c List.mem_cons_self) hs
    rw [answers, verdicts, hverdict, ih hnext (by rwa [List.append_assoc])]

theorem verdicts_append (verdict : List RateCall → RateCall → Bool) (past calls : List RateCall)
    (c : RateCall) :
    verdicts verdict past (calls ++ [c]) =
      verdicts verdict past calls ++ [verdict (past ++ calls) c] := by
  induction calls generalizing past with
  | nil =>
    rw [List.append_nil]
    rfl
  | cons c' calls ih =>
    rw [List.cons_append, verdicts, verdicts, ih, List.append_assoc]
    rfl

@[simp] theorem length_verdicts (verdict : List RateCall → RateCall → Bool)
    (past calls : List RateCall) : (verdicts verdict past calls).length = calls.length := by
  induction calls generalizing past with
  | nil => rfl
  | cons c calls ih => rw [verdicts, List.length_cons, List.length_cons, ih]

/-- Verdicts that agree at each of the calls give the same answers. -/
theorem verdicts_congr {verdict verdict' : List RateCall → RateCall → Bool}
    {past calls : List RateCall}
    (h : ∀ pre c post, past ++ calls = pre ++ c :: post → verdict pre c = verdict' pre c) :
    verdicts verdict past calls = verdicts verdict' past calls := by
  induction calls generalizing past with
  | nil => rfl
  | cons c calls ih =>
    rw [verdicts, verdicts, h past c calls rfl, ih (by rwa [List.append_assoc])]

theorem verdicts_const (b : Bool) (past calls : List RateCall) :
    verdicts (fun _ _ => b) past calls = List.replicate calls.length b := by
  induction calls generalizing past with
  | nil => rfl
  | cons c calls ih => rw [verdicts, ih, List.length_cons, List.replicate_succ]

variable (r : RateLimiter)

/-- A call counts for a later call of a key that is the same, in a bucket that is not too old. -/
def Counts (same : String → String → Bool) (c c' : RateCall) : Bool :=
  same c'.key c.key && decide (r.current_bucket c.time - r.num_buckets ≤ r.current_bucket c'.time)

/-- **The rolling limiter**: a call is limited when more calls than the limit count, itself among
them. -/
def rolling (same : String → String → Bool) (past : List RateCall) (c : RateCall) : Bool :=
  decide (r.limit < (past ++ [c]).countP (r.Counts same c))

/-! ## The store of the process -/

/-- The sum of the counts of some of the buckets. -/
def tally (p : ℤ → Bool) (counts : List (ℤ × ℕ)) : ℕ :=
  ((counts.filter fun e => p e.1).map Prod.snd).sum

theorem tally_cons (p : ℤ → Bool) (e : ℤ × ℕ) (counts : List (ℤ × ℕ)) :
    tally p (e :: counts) = (if p e.1 then e.2 else 0) + tally p counts := by
  rw [tally, tally, List.filter_cons]
  split_ifs <;> simp

/-- Counting a call adds it to its bucket. -/
theorem tally_set (p : ℤ → Bool) (counts : List (ℤ × ℕ)) (b : ℤ) :
    tally p (Assoc.set counts b ((Assoc.get? counts b).getD 0 + 1)) =
      tally p counts + if p b then 1 else 0 := by
  induction counts with
  | nil => rw [Assoc.set, Assoc.get?_nil, tally_cons, Nat.add_comm]; rfl
  | cons e counts ih =>
    obtain ⟨b', n⟩ := e
    by_cases hb : b' = b
    · subst hb
      rw [Assoc.get?_cons_self, Assoc.set, if_pos rfl, tally_cons, tally_cons, Option.getD_some]
      dsimp only
      split_ifs <;> omega
    · rw [Assoc.get?_cons_ne hb, Assoc.set, if_neg hb, tally_cons, tally_cons, ih, Nat.add_assoc]

theorem tally_filter (p q : ℤ → Bool) (counts : List (ℤ × ℕ)) :
    tally p (counts.filter fun e => q e.1) = tally (fun b => p b && q b) counts := by
  rw [tally, tally, List.filter_filter]

/-- The store has the calls of a key in the buckets from `oldest` on, as long as no call was made
that drops such a bucket. -/
def StoreInv (past : List RateCall) (store : MemoryStore) : Prop :=
  ∀ key oldest, (∀ c ∈ past, r.current_bucket c.time - r.num_buckets ≤ oldest) →
    tally (fun b => oldest ≤ b) (store key) =
      past.countP fun c => decide (c.key = key) && decide (oldest ≤ r.current_bucket c.time)

/-- The buckets of the calls do not decrease. -/
def BucketsMonotone (calls : List RateCall) : Prop :=
  calls.Pairwise fun c c' => r.current_bucket c.time ≤ r.current_bucket c'.time

theorem is_limited_memory_step {past : List RateCall} {store : MemoryStore} {c : RateCall}
    (hc : ∀ c' ∈ past, r.current_bucket c'.time ≤ r.current_bucket c.time)
    (hstore : r.StoreInv past store) :
    (r.is_limited_memory store c).1 = r.rolling (fun k k' => k = k') past c ∧
      r.StoreInv (past ++ [c]) (r.is_limited_memory store c).2 := by
  constructor
  · have hsum := hstore c.key (r.current_bucket c.time - r.num_buckets) fun c' hc' => by
      have := hc c' hc'
      omega
    have hset := tally_set (fun b => decide (r.current_bucket c.time - r.num_buckets ≤ b))
      (store c.key) (r.current_bucket c.time)
    rw [hsum] at hset
    rw [is_limited_memory, rolling, List.countP_append, List.countP_singleton]
    simp only [not_lt, Counts, decide_true, Bool.true_and]
    rw [tally] at hset
    rw [hset]
    rfl
  · intro key oldest holdest
    have hnow := holdest c (by simp)
    rw [List.countP_append, List.countP_singleton]
    rw [← hstore key oldest fun c' hc' => holdest c' (by simp [hc'])]
    simp only [is_limited_memory, not_lt]
    by_cases hkey : key = c.key
    · subst hkey
      rw [if_pos rfl, tally_filter _ (fun b => decide (r.current_bucket c.time - r.num_buckets ≤ b))]
      have hdrop : (fun b => decide (oldest ≤ b) &&
          decide (r.current_bucket c.time - r.num_buckets ≤ b)) = fun b => decide (oldest ≤ b) := by
        funext b
        simp only [← Bool.decide_and]
        exact decide_eq_decide.mpr ⟨And.left, fun h => ⟨h, by omega⟩⟩
      rw [hdrop, tally_set]
      simp
    · rw [if_neg hkey, if_neg (by simp [Ne.symm hkey])]
      rfl

/-- **Without Redis, the limiter is the rolling limiter.** -/
theorem memoryAnswers_eq {calls : List RateCall} (h : r.BucketsMonotone calls) :
    r.memoryAnswers calls = verdicts (r.rolling fun k k' => k = k') [] calls := by
  apply answers_eq_verdicts r.StoreInv
    (Q := fun c c' => r.current_bucket c.time ≤ r.current_bucket c'.time)
  · intro past store c hc hstore
    exact r.is_limited_memory_step hc hstore
  · intro key oldest _
    rfl
  · exact h

/-! ## Buckets -/

theorem num_buckets_eq (hpos : 0 < r.bucket_size) : r.num_buckets = r.window / r.bucket_size := by
  rw [num_buckets, Int.fdiv_eq_ediv_of_nonneg _ hpos.le]

theorem current_bucket_eq (hpos : 0 < r.bucket_size) (t : ℚ≥0) :
    r.current_bucket t = (⌊t⌋₊ : ℤ) / r.bucket_size := by
  rw [current_bucket, Int.fdiv_eq_ediv_of_nonneg _ hpos.le]

/-- Later times are in later buckets. -/
theorem current_bucket_mono (hpos : 0 < r.bucket_size) {t t' : ℚ≥0} (h : t ≤ t') :
    r.current_bucket t ≤ r.current_bucket t' := by
  rw [r.current_bucket_eq hpos, r.current_bucket_eq hpos]
  apply Int.ediv_le_ediv hpos
  exact_mod_cast Nat.floor_mono h

/-- **A counter lives long enough**: as long as its bucket is looked at, the time after which its key
expires has not passed. -/
theorem le_deadline (hpos : 0 < r.bucket_size) {t t' : ℚ≥0} (htt : t ≤ t')
    (h : r.current_bucket t' ≤ r.current_bucket t + r.num_buckets) :
    0 < r.window + r.bucket_size ∧ t' ≤ t + (r.window + r.bucket_size).toNat := by
  have hmono := r.current_bucket_mono hpos htt
  rw [r.num_buckets_eq hpos] at h
  have hwindow : 0 ≤ r.window := by
    rw [← Int.ediv_nonneg_iff_of_pos hpos]
    omega
  refine ⟨by omega, ?_⟩
  rw [r.current_bucket_eq hpos, r.current_bucket_eq hpos] at h
  -- the end of the bucket of `t'` comes before the deadline
  have hend : ((⌊t'⌋₊ : ℤ) + 1) ≤ ⌊t⌋₊ + (r.window + r.bucket_size) := by
    have h₁ := Int.lt_ediv_add_one_mul_self (⌊t'⌋₊ : ℤ) hpos
    have h₂ := Int.ediv_mul_le (⌊t⌋₊ : ℤ) hpos.ne'
    have h₃ := Int.ediv_mul_le r.window hpos.ne'
    have h₄ := mul_le_mul_of_nonneg_right h hpos.le
    rw [add_mul] at h₁ h₄
    linarith
  have hend' : ⌊t'⌋₊ + 1 ≤ ⌊t⌋₊ + (r.window + r.bucket_size).toNat := by omega
  calc t' ≤ (⌊t'⌋₊ + 1 : ℕ) := by exact_mod_cast (Nat.lt_floor_add_one t').le
    _ ≤ ((⌊t⌋₊ + (r.window + r.bucket_size).toNat : ℕ) : ℚ≥0) := by exact_mod_cast hend'
    _ ≤ t + (r.window + r.bucket_size).toNat := by
      rw [Nat.cast_add]
      exact add_le_add (Nat.floor_le zero_le) le_rfl

/-! ## The counters of Redis -/

section Redis

variable {bucketKey : String → ℤ → List Char} {same : String → String → Bool}

/-- The counters have the numbers of calls in the buckets that a later call looks at. -/
def CountersInv (bucketKey : String → ℤ → List Char) (same : String → String → Bool)
    (past : List RateCall) (counters : Counters) : Prop :=
  ∀ key b t, (∀ c ∈ past, c.time ≤ t) → r.current_bucket t ≤ b + r.num_buckets →
    counters.value t (bucketKey key b) =
      past.countP fun c => same c.key key && decide (r.current_bucket c.time = b)

/-- A counter that does not read 0 is there, and has not expired. -/
theorem live_of_value_ne {counters : Counters} {t : ℚ≥0} {name : List Char}
    (h : counters.value t name ≠ 0) :
    ∃ counter, counters name = some counter ∧
      (counter.deadline.all fun deadline => t ≤ deadline) = true := by
  rw [Counters.value, Counters.live] at h
  cases hname : counters name with
  | none => simp [hname] at h
  | some counter =>
    refine ⟨counter, rfl, ?_⟩
    by_contra hnot
    rw [hname, Option.filter_some, if_neg hnot] at h
    exact h rfl

theorem value_of_live {counters : Counters} {t : ℚ≥0} {name : List Char} {counter : Counter}
    (hname : counters name = some counter)
    (hlive : (counter.deadline.all fun deadline => t ≤ deadline) = true) :
    counters.value t name = counter.count := by
  rw [Counters.value, Counters.live, hname, Option.filter_some, if_pos hlive]
  rfl

/-- A call changes one counter only. -/
theorem isLimitedWith_value_of_ne (counters : Counters) (c : RateCall) {name : List Char}
    (h : name ≠ bucketKey c.key (r.current_bucket c.time)) (t : ℚ≥0) :
    (r.isLimitedWith bucketKey counters c).2.value t name = counters.value t name := by
  have hname : (r.isLimitedWith bucketKey counters c).2 name = counters name := by
    rw [isLimitedWith]
    split_ifs <;> simp [Counters.expire, Counters.incr, h]
  rw [Counters.value, Counters.live, hname]
  rfl

/-- The counter of a call is one higher afterwards, until it expires. -/
theorem isLimitedWith_value_self (counters : Counters) (c : RateCall) {t : ℚ≥0}
    (hseconds : 0 < r.window + r.bucket_size)
    (ht : t ≤ c.time + (r.window + r.bucket_size).toNat)
    (hkept : counters.value t (bucketKey c.key (r.current_bucket c.time)) =
      counters.value c.time (bucketKey c.key (r.current_bucket c.time))) :
    (r.isLimitedWith bucketKey counters c).2.value t
        (bucketKey c.key (r.current_bucket c.time)) =
      counters.value c.time (bucketKey c.key (r.current_bucket c.time)) + 1 := by
  rw [isLimitedWith]
  generalize bucketKey c.key (r.current_bucket c.time) = name at *
  dsimp only
  split_ifs with hfirst
  · -- the first call sets the expiry
    have hname : (counters.incr c.time name).expire c.time name (r.window + r.bucket_size) name =
        some ⟨counters.value c.time name + 1,
          some (c.time + (r.window + r.bucket_size).toNat)⟩ := by
      simp [Counters.expire, Counters.incr, not_le.mpr hseconds]
    rw [value_of_live hname (by simpa using ht)]
  · -- a later call keeps the expiry, and the counter lives until then
    have hne : counters.value c.time name ≠ 0 := by omega
    obtain ⟨counter, hname, hlive⟩ := live_of_value_ne hne
    obtain ⟨counter', hname', hlive'⟩ := live_of_value_ne (hkept.trans_ne hne)
    obtain rfl : counter = counter' := Option.some.inj (hname.symm.trans hname')
    have hcounted : counters.incr c.time name name =
        some ⟨counters.value c.time name + 1, counter.deadline⟩ := by
      rw [Counters.incr, if_pos rfl, Counters.live, hname, Option.filter_some, if_pos hlive]
      rfl
    rw [value_of_live hcounted hlive']

/-- The calls of a key in the last buckets are counted bucket by bucket. -/
theorem sum_countP_buckets (p : RateCall → Bool) {calls : List RateCall} {now : ℤ}
    (hnow : ∀ c ∈ calls, r.current_bucket c.time ≤ now) (n : ℕ) :
    ((List.range n).map fun i : ℕ =>
        calls.countP fun c => p c && decide (r.current_bucket c.time = now - i)).sum =
      calls.countP fun c => p c && decide (now - n < r.current_bucket c.time) := by
  induction calls with
  | nil => simp
  | cons c calls ih =>
    have hc := hnow c List.mem_cons_self
    have hone : ((List.range n).map fun i : ℕ =>
        if (p c && decide (r.current_bucket c.time = now - i)) = true then 1 else 0).sum =
        if (p c && decide (now - n < r.current_bucket c.time)) = true then 1 else 0 := by
      clear ih hnow
      induction n with
      | zero => simp; omega
      | succ n ih =>
        rw [List.range_succ, List.map_append, List.sum_append, ih]
        cases p c with
        | false => simp
        | true =>
          simp only [Bool.true_and, decide_eq_true_eq, List.map_cons, List.map_nil, List.sum_cons,
            List.sum_nil, Nat.cast_add, Nat.cast_one]
          split_ifs <;> omega
    simp only [List.countP_cons, List.sum_map_add, hone,
      ih fun c' hc' => hnow c' (List.mem_cons_of_mem _ hc')]

theorem isLimitedWith_step (hpos : 0 < r.bucket_size)
    (hname : ∀ k k' b b', bucketKey k b = bucketKey k' b' ↔ same k k' = true ∧ b = b')
    {past : List RateCall} {counters : Counters} {c : RateCall}
    (hc : ∀ c' ∈ past, c'.time ≤ c.time) (hinv : r.CountersInv bucketKey same past counters) :
    (r.isLimitedWith bucketKey counters c).1 = r.rolling same past c ∧
      r.CountersInv bucketKey same (past ++ [c]) (r.isLimitedWith bucketKey counters c).2 := by
  have hnext : r.CountersInv bucketKey same (past ++ [c])
      (r.isLimitedWith bucketKey counters c).2 := by
    intro key b t ht hb
    have htime := ht c (by simp)
    have hpast := hinv key b t (fun c' hc' => ht c' (by simp [hc'])) hb
    rw [List.countP_append, List.countP_singleton, ← hpast]
    by_cases heq : bucketKey key b = bucketKey c.key (r.current_bucket c.time)
    · obtain ⟨hsame, rfl⟩ := (hname _ _ _ _).mp heq.symm
      obtain ⟨hseconds, hdeadline⟩ := r.le_deadline hpos htime hb
      rw [if_pos (by simp [hsame])]
      have hmono := r.current_bucket_mono hpos htime
      have hnow := hinv key (r.current_bucket c.time) c.time hc (by omega)
      rw [heq] at hpast hnow ⊢
      rw [r.isLimitedWith_value_self counters c hseconds hdeadline (hpast.trans hnow.symm),
        hnow, hpast]
    · rw [if_neg, r.isLimitedWith_value_of_ne counters c heq, Nat.add_zero]
      intro h
      rw [Bool.and_eq_true, decide_eq_true_eq] at h
      exact heq ((hname _ _ _ _).mpr ⟨h.1, h.2⟩).symm
  refine ⟨?_, hnext⟩
  have hbuckets : ∀ c' ∈ past ++ [c], r.current_bucket c'.time ≤ r.current_bucket c.time := by
    intro c' hc'
    rcases List.mem_append.mp hc' with hc' | hc'
    · exact r.current_bucket_mono hpos (hc c' hc')
    · rw [List.mem_singleton.mp hc']
  have hvalues : ∀ i ∈ List.range (r.num_buckets + 1).toNat,
      (r.isLimitedWith bucketKey counters c).2.value c.time
        (bucketKey c.key (r.current_bucket c.time - i)) =
      (past ++ [c]).countP fun c' => same c'.key c.key &&
        decide (r.current_bucket c'.time = r.current_bucket c.time - i) := by
    intro i hi
    rw [List.mem_range] at hi
    apply hnext
    · intro c' hc'
      rcases List.mem_append.mp hc' with hc' | hc'
      · exact hc c' hc'
      · rw [List.mem_singleton.mp hc']
    · omega
  have hsum := r.sum_countP_buckets (fun c' => same c'.key c.key) hbuckets (r.num_buckets + 1).toNat
  rw [← List.map_congr_left hvalues] at hsum
  have hcounts : (past ++ [c]).countP (fun c' => same c'.key c.key &&
      decide (r.current_bucket c.time - (r.num_buckets + 1).toNat < r.current_bucket c'.time)) =
      (past ++ [c]).countP (r.Counts same c) := by
    apply List.countP_congr
    intro c' hc'
    have hle := hbuckets c' hc'
    simp only [Counts, Bool.and_eq_true, decide_eq_true_eq]
    constructor
    · rintro ⟨h₁, h₂⟩
      exact ⟨h₁, by omega⟩
    · rintro ⟨h₁, h₂⟩
      exact ⟨h₁, by omega⟩
  rw [rolling, ← hcounts, ← hsum, isLimitedWith]
  dsimp only
  rw [List.map_map]
  rfl

/-- A text ends after its last colon in one way only. -/
theorem append_colon_inj {xs ys is js : List Char} (hi : ':' ∉ is) (hj : ':' ∉ js)
    (h : xs ++ ':' :: is = ys ++ ':' :: js) : xs = ys ∧ is = js := by
  rcases List.append_eq_append_iff.mp h with ⟨as, rfl, has⟩ | ⟨as, rfl, has⟩
  · cases as with
    | nil => exact ⟨(List.append_nil _).symm, (List.cons.inj has).2⟩
    | cons a as => exact absurd (by rw [(List.cons.inj has).2]; simp) hi
  · cases as with
    | nil => exact ⟨List.append_nil _, (List.cons.inj has).2.symm⟩
    | cons a as => exact absurd (by rw [(List.cons.inj has).2]; simp) hj

theorem colon_not_mem_intText (n : ℤ) : ':' ∉ intText n := by
  have hdigits : ':' ∉ Nat.toDigits 10 n.natAbs := fun h => by cases isDigit_of_mem_toDigits h
  rw [intText]
  split_ifs
  · simpa using hdigits
  · exact hdigits

/-- The decimal text of an integer determines it. -/
theorem intText_injective {m n : ℤ} (h : intText m = intText n) : m = n := by
  have hm := scanValue_int 0 m delimited_nil
  rw [h, scanValue_int 0 n delimited_nil] at hm
  cases hm
  rfl

/-- The names of the counters tell the keys in lower case and the buckets apart. -/
theorem bucket_key_eq_iff (keyPrefix : List Char) (lower : String → String) (k k' : String)
    (b b' : ℤ) :
    bucket_key keyPrefix lower k b = bucket_key keyPrefix lower k' b' ↔
      lower k = lower k' ∧ b = b' := by
  constructor
  · intro h
    obtain ⟨hkey, hindex⟩ := append_colon_inj (colon_not_mem_intText b) (colon_not_mem_intText b') h
    exact ⟨String.toList_injective (List.append_cancel_left hkey), intText_injective hindex⟩
  · rintro ⟨hkey, rfl⟩
    rw [bucket_key, bucket_key, hkey]

/-- **With Redis, the limiter is the rolling limiter of the keys in lower case.** -/
theorem redisAnswers_eq (hpos : 0 < r.bucket_size) (keyPrefix : List Char)
    (lower : String → String) {calls : List RateCall}
    (h : calls.Pairwise fun c c' => c.time ≤ c'.time) :
    r.redisAnswers keyPrefix lower calls =
      verdicts (r.rolling fun k k' => lower k = lower k') [] calls := by
  apply answers_eq_verdicts (r.CountersInv (bucket_key keyPrefix lower)
    fun k k' => lower k = lower k') (Q := fun c c' => c.time ≤ c'.time)
  · intro past counters c hc hinv
    apply r.isLimitedWith_step hpos _ hc hinv
    intro k k' b b'
    rw [bucket_key_eq_iff, decide_eq_true_eq]
  · intro key b t _ _
    rfl
  · exact h

end Redis

end RateLimiter

end OpenLaunch.Access
