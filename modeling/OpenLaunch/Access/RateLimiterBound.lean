import OpenLaunch.Access.RateLimiter
import Mathlib.Data.Set.Function
import Mathlib.Data.List.Induction

/-! # When the two limiters agree and keep the limit

The store of the process has its counts under the keys as they are, and Redis under the keys in
lower case; both round the window down to whole buckets. So they agree, and allow no more calls in a
window than the limit, exactly when the window is a multiple of a positive bucket size and no two of
the keys are the same in lower case, or when the limiter allows nothing or no window has a call. -/

namespace OpenLaunch.Access

open Python

namespace RateLimiter

variable (r : RateLimiter)

/-- **The bound**: of the calls for one key in an interval of the length of the window, no more than
the limit are allowed. -/
def WindowBound (calls : List RateCall) (limited : List Bool) : Prop :=
  ∀ (key : String) (start : ℚ),
    ((calls.zip limited).countP fun e => decide (e.1.key = key ∧ start ≤ e.1.time ∧
      (e.1.time : ℚ) ≤ start + r.window) && !e.2) ≤ r.limit.toNat

/-! ## The bound of the rolling limiter -/

theorem windowBound_of_limited (calls : List RateCall) (n : ℕ) :
    r.WindowBound calls (List.replicate n true) := by
  intro key start
  rw [List.countP_eq_zero.mpr]
  · exact Nat.zero_le _
  · intro e he
    rw [List.eq_of_mem_replicate (List.of_mem_zip he).2]
    simp

/-- **A rolling limiter keeps the limit** if two calls of one interval are never too many buckets
apart: all that it allowed in the interval counted when it allowed the last of it. -/
theorem windowBound_verdicts {same : String → String → Bool} (hsame : ∀ k, same k k = true)
    (hspan : ∀ (t t' : ℚ≥0) (start : ℚ), start ≤ t → (t : ℚ) ≤ start + r.window → start ≤ t' →
      (t' : ℚ) ≤ start + r.window → r.current_bucket t - r.num_buckets ≤ r.current_bucket t')
    (calls : List RateCall) : r.WindowBound calls (verdicts (r.rolling same) [] calls) := by
  intro key start
  induction calls using List.reverseRecOn with
  | nil => exact Nat.zero_le _
  | append_singleton calls c ih =>
    rw [verdicts_append, List.zip_append (length_verdicts _ _ _).symm, List.countP_append,
      List.nil_append, List.zip_cons_cons, List.zip_nil_left, List.countP_singleton]
    split_ifs with hlast
    · obtain ⟨hin, hallowed⟩ := Bool.and_eq_true_iff.mp hlast
      obtain ⟨hkey, hstart, hend⟩ := of_decide_eq_true hin
      have hlimit : ¬ r.limit < ((calls ++ [c]).countP (r.Counts same c) : ℕ) := by
        simpa [rolling] using hallowed
      have hself : r.Counts same c c = true := by
        simp [Counts, hsame, hspan c.time c.time start hstart hend hstart hend]
      rw [List.countP_append, List.countP_singleton, if_pos hself] at hlimit
      -- what was allowed before in the interval counts for the last call
      have hcounts : (calls.zip (verdicts (r.rolling same) [] calls)).countP (fun e =>
          decide (e.1.key = key ∧ start ≤ e.1.time ∧ (e.1.time : ℚ) ≤ start + r.window) && !e.2) ≤
          calls.countP (r.Counts same c) := by
        conv_rhs => rw [← List.map_fst_zip (length_verdicts (r.rolling same) [] calls).ge]
        rw [List.countP_map]
        apply List.countP_mono_left
        intro e _ he
        obtain ⟨hkey', hstart', hend'⟩ := of_decide_eq_true (Bool.and_eq_true_iff.mp he).1
        rw [Function.comp_apply, Counts, hkey', ← hkey, hsame, Bool.true_and, decide_eq_true_eq]
        exact hspan c.time e.1.time start hstart hend hstart' hend'
      omega
    · rw [Nat.add_zero]
      exact ih

/-- Where the window is a multiple of the bucket size, the calls of an interval are in the buckets of
the window of its last one. -/
theorem span_of_dvd (hpos : 0 < r.bucket_size) (hdvd : r.bucket_size ∣ r.window) (t t' : ℚ≥0)
    (start : ℚ) (_ : start ≤ t) (hend : (t : ℚ) ≤ start + r.window) (hstart' : start ≤ t')
    (hend' : (t' : ℚ) ≤ start + r.window) :
    r.current_bucket t - r.num_buckets ≤ r.current_bucket t' := by
  obtain ⟨n, hn⟩ := hdvd
  have hwindow : 0 ≤ r.window := by
    have h : (0 : ℚ) ≤ r.window := by linarith
    exact_mod_cast h
  have hle : t ≤ t' + r.window.toNat := by
    have hcast : ((r.window.toNat : ℚ≥0) : ℚ) = r.window := by
      rw [NNRat.cast_natCast, ← Int.cast_natCast, Int.toNat_of_nonneg hwindow]
    rw [← NNRat.coe_le_coe, NNRat.coe_add]
    linarith
  have hfloor : (⌊t⌋₊ : ℤ) ≤ ⌊t'⌋₊ + n * r.bucket_size := by
    have h := Nat.floor_mono hle
    rw [Nat.floor_add_natCast zero_le] at h
    rw [mul_comm, ← hn]
    omega
  rw [r.num_buckets_eq hpos, r.current_bucket_eq hpos, r.current_bucket_eq hpos, hn,
    Int.mul_ediv_cancel_left _ hpos.ne']
  have h := Int.ediv_le_ediv hpos hfloor
  rw [Int.add_mul_ediv_right _ _ hpos.ne'] at h
  omega

/-! ## Limiters that limit every call -/

theorem answers_of_limited {σ : Type} {step : σ → RateCall → Bool × σ}
    (h : ∀ s c, (step s c).1 = true) (s : σ) (calls : List RateCall) :
    answers step s calls = List.replicate calls.length true := by
  rw [← verdicts_const true [] calls]
  apply answers_eq_verdicts (fun _ _ => True) (Q := fun _ _ => True)
  · intro _ s c _ _
    exact ⟨h s c, trivial⟩
  · trivial
  · exact List.pairwise_of_forall fun _ _ => trivial

theorem memoryAnswers_of_neg (hlimit : r.limit < 0) (calls : List RateCall) :
    r.memoryAnswers calls = List.replicate calls.length true := by
  apply answers_of_limited
  intro store c
  exact decide_eq_true (by omega)

variable (keyPrefix : List Char) (lower : String → String)

theorem redisAnswers_of_neg (hlimit : r.limit < 0) (calls : List RateCall) :
    r.redisAnswers keyPrefix lower calls = List.replicate calls.length true := by
  apply answers_of_limited
  intro counters c
  exact decide_eq_true (by omega)

/-- A call counts for itself, unless the window is negative. -/
theorem rolling_of_zero (hpos : 0 < r.bucket_size) (hwindow : 0 ≤ r.window) (hlimit : r.limit = 0)
    {same : String → String → Bool} (hsame : ∀ k, same k k = true) (past : List RateCall)
    (c : RateCall) : r.rolling same past c = true := by
  have hnum : 0 ≤ r.num_buckets := by
    rw [r.num_buckets_eq hpos]
    exact Int.ediv_nonneg hwindow hpos.le
  have hself : r.Counts same c c = true := by
    simp [Counts, hsame, hnum]
  rw [rolling, List.countP_append, List.countP_singleton, if_pos hself]
  exact decide_eq_true (by omega)

/-- With a negative window nothing counts. -/
theorem rolling_of_window_neg (hpos : 0 < r.bucket_size) (hwindow : r.window < 0)
    (same : String → String → Bool) {past : List RateCall} {c : RateCall}
    (hpast : ∀ c' ∈ past, c'.time ≤ c.time) :
    r.rolling same past c = decide (r.limit < 0) := by
  have hnum : r.num_buckets < 0 := by
    rw [r.num_buckets_eq hpos]
    exact Int.ediv_neg_of_neg_of_pos hwindow hpos
  rw [rolling, List.countP_eq_zero.mpr]
  · rfl
  · intro c' hc'
    have hle : r.current_bucket c'.time ≤ r.current_bucket c.time := by
      rcases List.mem_append.mp hc' with hc' | hc'
      · exact r.current_bucket_mono hpos (hpast c' hc')
      · rw [List.mem_singleton.mp hc']
    simp only [Counts, Bool.and_eq_true, decide_eq_true_eq, not_and]
    intro _
    omega

/-! ## Agreement -/

/-- Calls in the order of time. -/
def Chronological (calls : List RateCall) : Prop := calls.Pairwise fun c c' => c.time ≤ c'.time

variable {calls : List RateCall}

theorem Chronological.bucketsMonotone (h : Chronological calls) (hpos : 0 < r.bucket_size) :
    r.BucketsMonotone calls :=
  h.imp fun hle => r.current_bucket_mono hpos hle

/-- Keys that are told apart in lower case are counted alike. -/
theorem rolling_lower {K : Set String} (hinj : Set.InjOn lower K) {past : List RateCall}
    {c : RateCall} (hK : ∀ c' ∈ past ++ [c], c'.key ∈ K) :
    r.rolling (fun k k' => lower k = lower k') past c = r.rolling (fun k k' => k = k') past c := by
  rw [rolling, rolling, List.countP_congr]
  intro c' hc'
  simp only [Counts, Bool.and_eq_true, decide_eq_true_eq,
    hinj.eq_iff (hK c' hc') (hK c (by simp))]

/-- **When the two agree and keep the limit**: the limiter limits every call; or the bucket size is
positive, and the window is negative, or the limit 0, or the window a multiple of the bucket size and
no two of the keys the same in lower case. -/
def Sound (K : Set String) : Prop :=
  r.limit < 0 ∨ 0 < r.bucket_size ∧
    (r.window < 0 ∨ r.limit = 0 ∨ r.bucket_size ∣ r.window ∧ Set.InjOn lower K)

/-- What is claimed of a limiter, for the calls of some keys: both paths give the same answers and
keep the bound. -/
def AgreesAndBounds (K : Set String) : Prop :=
  ∀ calls, Chronological calls → (∀ c ∈ calls, c.key ∈ K) →
    r.redisAnswers keyPrefix lower calls = r.memoryAnswers calls ∧
      r.WindowBound calls (r.memoryAnswers calls) ∧
      r.WindowBound calls (r.redisAnswers keyPrefix lower calls)

theorem Sound.agreesAndBounds {K : Set String} (h : r.Sound lower K) :
    r.AgreesAndBounds keyPrefix lower K := by
  intro calls hcalls hK
  -- it is enough to find the answers of both
  have hof {limited : List Bool} (hm : r.memoryAnswers calls = limited)
      (hr : r.redisAnswers keyPrefix lower calls = limited) (hb : r.WindowBound calls limited) :
      r.redisAnswers keyPrefix lower calls = r.memoryAnswers calls ∧
        r.WindowBound calls (r.memoryAnswers calls) ∧
        r.WindowBound calls (r.redisAnswers keyPrefix lower calls) := by
    rw [hm, hr]
    exact ⟨rfl, hb, hb⟩
  rcases h with hlimit | ⟨hpos, h⟩
  · exact hof (r.memoryAnswers_of_neg hlimit calls)
      (r.redisAnswers_of_neg keyPrefix lower hlimit calls) (r.windowBound_of_limited calls _)
  have hmemory := r.memoryAnswers_eq (hcalls.bucketsMonotone r hpos)
  have hredis := r.redisAnswers_eq hpos keyPrefix lower hcalls
  rcases lt_or_ge r.window 0 with hwindow | hwindow
  · have hverdicts (same : String → String → Bool) : verdicts (r.rolling same) [] calls =
        List.replicate calls.length (decide (r.limit < 0)) := by
      rw [← verdicts_const _ [] calls]
      apply verdicts_congr
      intro pre c post hsplit
      apply r.rolling_of_window_neg hpos hwindow
      intro c' hc'
      rw [List.nil_append] at hsplit
      rw [hsplit, Chronological, List.pairwise_append] at hcalls
      exact hcalls.2.2 c' hc' c List.mem_cons_self
    refine hof (hmemory.trans (hverdicts _)) (hredis.trans (hverdicts _)) ?_
    intro key start
    rw [List.countP_eq_zero.mpr]
    · exact Nat.zero_le _
    · rintro e _ he
      obtain ⟨-, hstart, hend⟩ := of_decide_eq_true (Bool.and_eq_true_iff.mp he).1
      have hneg : (r.window : ℚ) < 0 := by exact_mod_cast hwindow
      linarith
  rcases h with hneg | hlimit | ⟨hdvd, hinj⟩
  · omega
  · have hverdicts {same : String → String → Bool} (hsame : ∀ k, same k k = true) :
        verdicts (r.rolling same) [] calls = List.replicate calls.length true := by
      rw [← verdicts_const _ [] calls]
      apply verdicts_congr
      intro pre c post _
      exact r.rolling_of_zero hpos hwindow hlimit hsame pre c
    exact hof (hmemory.trans (hverdicts fun _ => by simp)) (hredis.trans (hverdicts fun _ => by simp))
      (r.windowBound_of_limited calls _)
  · have hlower : verdicts (r.rolling fun k k' => lower k = lower k') [] calls =
        verdicts (r.rolling fun k k' => k = k') [] calls := by
      apply verdicts_congr
      intro pre c post hsplit
      rw [List.nil_append] at hsplit
      apply r.rolling_lower lower hinj
      intro c' hc'
      apply hK
      rw [hsplit, ← List.singleton_append, ← List.append_assoc]
      exact List.mem_append_left _ hc'
    exact hof hmemory (hredis.trans hlower)
      (r.windowBound_verdicts (fun _ => by simp) (r.span_of_dvd hpos hdvd) calls)

/-! ## Where they do not agree, or allow too much -/

/-- As many calls as the limit are allowed, whatever they are. -/
theorem verdicts_of_length_le (same : String → String → Bool)
    (hlength : (calls.length : ℤ) ≤ r.limit) :
    verdicts (r.rolling same) [] calls = List.replicate calls.length false := by
  rw [← verdicts_const _ [] calls]
  apply verdicts_congr
  intro pre c post hsplit
  have hle : (pre ++ [c]).countP (r.Counts same c) ≤ (pre ++ [c]).length := List.countP_le_length
  have hcalls := congrArg List.length hsplit
  simp only [List.nil_append, List.length_append, List.length_cons, List.length_nil] at hcalls hle
  exact decide_eq_false (by omega)

/-- Calls of a key that are all allowed and in one interval are no more than the limit. -/
theorem length_le_of_windowBound {n : ℕ} (h : r.WindowBound calls (List.replicate n false))
    (hn : n = calls.length) (key : String) (start : ℚ)
    (hcalls : ∀ c ∈ calls, c.key = key ∧ start ≤ c.time ∧ (c.time : ℚ) ≤ start + r.window) :
    calls.length ≤ r.limit.toNat := by
  refine le_trans (Eq.ge ?_) (h key start)
  rw [List.countP_eq_length.mpr]
  · rw [List.length_zip, List.length_replicate, hn, min_self]
  · intro e he
    obtain ⟨hcall, hfalse⟩ := List.of_mem_zip he
    rw [List.eq_of_mem_replicate hfalse, decide_eq_true (hcalls e.1 hcall)]
    rfl

/-- With a negative bucket size Redis looks at no counter, or deletes each at once. -/
theorem redisAnswers_of_bucket_neg (hneg : r.bucket_size < 0) (hlimit : 0 ≤ r.limit)
    (calls : List RateCall) :
    r.redisAnswers keyPrefix lower calls = List.replicate calls.length false := by
  rw [← verdicts_const false [] calls]
  apply answers_eq_verdicts
    (fun _ counters => r.num_buckets < 0 ∨ ∀ name, (counters : Counters) name = none)
    (Q := fun _ _ => True)
  · intro past counters c _ hinv
    have hnext : r.num_buckets < 0 ∨
        ∀ name, (r.is_limited_redis keyPrefix lower counters c).2 name = none := by
      rcases lt_or_ge r.num_buckets 0 with hnum | hnum
      · exact Or.inl hnum
      · refine Or.inr fun name => ?_
        have hnone := hinv.resolve_left (not_lt.mpr hnum)
        have hwindow : r.window ≤ 0 := by
          by_contra hpos
          have := Int.fdiv_neg_of_neg_of_pos (a := -r.window) (b := -r.bucket_size) (by omega)
            (by omega)
          rw [Int.neg_fdiv_neg] at this
          exact absurd hnum (not_le.mpr this)
        rw [is_limited_redis, isLimitedWith]
        have hvalue (key : List Char) : counters.value c.time key = 0 := by
          rw [Counters.value, Counters.live, hnone]
          rfl
        simp only [hvalue, zero_add, if_true, Counters.expire]
        rw [if_pos (by omega : r.window + r.bucket_size ≤ 0)]
        split_ifs with hname
        · rfl
        · rw [Counters.incr, if_neg hname, hnone]
    refine ⟨?_, hnext⟩
    rcases hnext with hnum | hnone
    · rw [is_limited_redis, isLimitedWith, Int.toNat_of_nonpos (by omega)]
      exact decide_eq_false (by simpa using hlimit)
    · have hvalue (name : List Char) :
          (r.is_limited_redis keyPrefix lower counters c).2.value c.time name = 0 := by
        rw [Counters.value, Counters.live, hnone]
        rfl
      have hfst : (r.is_limited_redis keyPrefix lower counters c).1 = decide (r.limit <
          (((List.range (r.num_buckets + 1).toNat).map fun i : ℕ =>
            bucket_key keyPrefix lower c.key (r.current_bucket c.time - i)).map fun name =>
              (r.is_limited_redis keyPrefix lower counters c).2.value c.time name).sum) := rfl
      rw [hfst, List.sum_eq_zero fun n hn => ?_]
      · exact decide_eq_false (by simpa using hlimit)
      · obtain ⟨name, -, rfl⟩ := List.mem_map.mp hn
        exact hvalue name
  · exact Or.inr fun _ => rfl
  · exact List.pairwise_of_forall fun _ _ => trivial

/-- Calls at one time. -/
theorem chronological_replicate (n : ℕ) (c : RateCall) : Chronological (List.replicate n c) :=
  List.pairwise_replicate.mpr (Or.inr le_rfl)

theorem chronological_concat (n : ℕ) {c c' : RateCall} (h : c.time ≤ c'.time) :
    Chronological (List.replicate n c ++ [c']) := by
  refine List.pairwise_append.mpr ⟨chronological_replicate n c, List.pairwise_singleton _ _, ?_⟩
  intro c₁ h₁ c₂ h₂
  rw [List.eq_of_mem_replicate h₁, List.mem_singleton.mp h₂]
  exact h

variable {K : Set String}

theorem forall_mem_concat {P : RateCall → Prop} {n : ℕ} {c c' : RateCall} (h : P c) (h' : P c') :
    ∀ c₁ ∈ List.replicate n c ++ [c'], P c₁ := by
  intro c₁ h₁
  rcases List.mem_append.mp h₁ with h₁ | h₁
  · rwa [List.eq_of_mem_replicate h₁]
  · rwa [List.mem_singleton.mp h₁]

/-- As many calls as the limit, and one more: the last answer is all that matters. -/
theorem verdicts_concat (same : String → String → Bool) (hlimit : 0 ≤ r.limit) (c c' : RateCall) :
    verdicts (r.rolling same) [] (List.replicate r.limit.toNat c ++ [c']) =
      List.replicate r.limit.toNat false ++
        [r.rolling same (List.replicate r.limit.toNat c) c'] := by
  rw [verdicts_append, r.verdicts_of_length_le same (by simp [hlimit]), List.length_replicate,
    List.nil_append]

/-- If the others count, the last one is limited. -/
theorem rolling_of_counts {same : String → String → Bool} (hlimit : 0 ≤ r.limit) {c c' : RateCall}
    (h : r.Counts same c' c = true) (hself : r.Counts same c' c' = true) :
    r.rolling same (List.replicate r.limit.toNat c) c' = true := by
  rw [rolling, List.countP_append, List.countP_singleton, if_pos hself, List.countP_replicate,
    if_pos h]
  exact decide_eq_true (by omega)

/-- If the others do not count, the last one is allowed. -/
theorem rolling_of_not_counts {same : String → String → Bool} (hlimit : 0 < r.limit)
    {c c' : RateCall} (h : r.Counts same c' c = false) :
    r.rolling same (List.replicate r.limit.toNat c) c' = false := by
  have hlast : [c'].countP (r.Counts same c') ≤ 1 := List.countP_le_length
  rw [rolling, List.countP_append, List.countP_replicate, if_neg (by simp [h]), Nat.zero_add]
  exact decide_eq_false (by omega)

/-- With a negative bucket size, one more call than the limit at one time is allowed by Redis. In
memory it is limited, unless the window is not negative, and then the call is one too many. -/
theorem AgreesAndBounds.bucket_pos (h : r.AgreesAndBounds keyPrefix lower K) (hlimit : 0 ≤ r.limit)
    {key : String} (hkey : key ∈ K) : 0 < r.bucket_size := by
  by_contra hneg
  have hneg : r.bucket_size < 0 := lt_of_le_of_ne (not_lt.mp hneg) r.bucket_size_ne
  obtain ⟨heq, -, hbound⟩ := h (List.replicate r.limit.toNat ⟨0, key⟩ ++ [⟨0, key⟩])
    (chronological_concat _ le_rfl) (forall_mem_concat hkey hkey)
  rw [r.redisAnswers_of_bucket_neg keyPrefix lower hneg hlimit] at heq hbound
  rcases lt_or_ge r.window 0 with hwindow | hwindow
  · have hmono : r.BucketsMonotone (List.replicate r.limit.toNat ⟨0, key⟩ ++ [⟨0, key⟩]) := by
      rw [BucketsMonotone, ← List.replicate_succ']
      exact List.pairwise_replicate.mpr (Or.inr le_rfl)
    have hnum : 0 ≤ r.num_buckets := Int.fdiv_nonneg_of_nonpos_of_nonpos hwindow.le hneg.le
    have hself : r.Counts (fun k k' => k = k') ⟨0, key⟩ ⟨0, key⟩ = true := by simp [Counts, hnum]
    rw [r.memoryAnswers_eq hmono, r.verdicts_concat _ hlimit, r.rolling_of_counts hlimit hself hself,
      List.length_append, List.length_replicate, List.length_singleton, List.replicate_succ'] at heq
    cases (List.cons.inj (List.append_cancel_left heq)).1
  · have hlen := r.length_le_of_windowBound hbound rfl key 0
      (forall_mem_concat (by simpa using hwindow) (by simpa using hwindow))
    simp at hlen

/-- With a window that is no multiple of the bucket size, one more call than the limit is allowed
as soon as the bucket of the others is too old. -/
theorem AgreesAndBounds.dvd (h : r.AgreesAndBounds keyPrefix lower K) (hlimit : 0 < r.limit)
    (hpos : 0 < r.bucket_size) (hwindow : 0 ≤ r.window) {key : String} (hkey : key ∈ K) :
    r.bucket_size ∣ r.window := by
  by_contra hdvd
  have hnum := r.num_buckets_eq hpos
  have hnonneg : 0 ≤ r.num_buckets := by
    rw [hnum]
    exact Int.ediv_nonneg hwindow hpos.le
  -- the last instant of the first bucket, and the first one of the bucket after the window
  obtain ⟨first, hfirst⟩ := Int.eq_ofNat_of_zero_le (by omega : 0 ≤ r.bucket_size - 1)
  obtain ⟨last, hlast⟩ := Int.eq_ofNat_of_zero_le
    (by positivity : 0 ≤ (r.num_buckets + 1) * r.bucket_size)
  have hbucket : r.current_bucket (first : ℚ≥0) = 0 := by
    rw [r.current_bucket_eq hpos, Nat.floor_natCast]
    exact Int.ediv_eq_zero_of_lt (by omega) (by omega)
  have hbucket' : r.current_bucket (last : ℚ≥0) = r.num_buckets + 1 := by
    rw [r.current_bucket_eq hpos, Nat.floor_natCast, ← hlast, Int.mul_ediv_cancel _ hpos.ne']
  have hwhole : r.num_buckets * r.bucket_size < r.window := by
    have hmod := Int.emod_pos_of_not_dvd hdvd
    have hdiv := Int.mul_ediv_add_emod r.window r.bucket_size
    rw [hnum, mul_comm]
    rcases hmod with hzero | hmod <;> omega
  have hmul : (r.num_buckets + 1) * r.bucket_size = r.num_buckets * r.bucket_size + r.bucket_size := by
    ring
  have hle : first ≤ last := by nlinarith
  have hchron : Chronological (List.replicate r.limit.toNat ⟨first, key⟩ ++ [⟨last, key⟩]) :=
    chronological_concat _ (Nat.cast_le.mpr hle)
  obtain ⟨-, hbound, -⟩ := h _ hchron (forall_mem_concat hkey hkey)
  rw [r.memoryAnswers_eq (hchron.bucketsMonotone r hpos), r.verdicts_concat _ hlimit.le,
    r.rolling_of_not_counts hlimit (by simp [Counts, hbucket, hbucket']), ← List.replicate_succ']
    at hbound
  have hlen := r.length_le_of_windowBound hbound (by simp) key first (by
    have hend : (last : ℤ) ≤ first + r.window := by omega
    have hend' : (last : ℚ) ≤ first + r.window := by exact_mod_cast hend
    have hwindow' : (0 : ℚ) ≤ r.window := by exact_mod_cast hwindow
    refine forall_mem_concat ⟨rfl, ?_, ?_⟩ ⟨rfl, ?_, ?_⟩
    · simp
    · simpa using hwindow'
    · simpa using hle
    · simpa using hend')
  simp at hlen

/-- Calls under two keys that are the same in lower case are counted together in Redis only. -/
theorem AgreesAndBounds.injOn (h : r.AgreesAndBounds keyPrefix lower K) (hlimit : 0 < r.limit)
    (hpos : 0 < r.bucket_size) (hwindow : 0 ≤ r.window) : Set.InjOn lower K := by
  intro key hkey key' hkey' hlower
  by_contra hne
  have hnonneg : 0 ≤ r.num_buckets := by
    rw [r.num_buckets_eq hpos]
    exact Int.ediv_nonneg hwindow hpos.le
  have hchron : Chronological (List.replicate r.limit.toNat ⟨0, key⟩ ++ [⟨0, key'⟩]) :=
    chronological_concat _ le_rfl
  obtain ⟨heq, -, -⟩ := h _ hchron (forall_mem_concat hkey hkey')
  rw [r.redisAnswers_eq hpos keyPrefix lower hchron,
    r.memoryAnswers_eq (hchron.bucketsMonotone r hpos), r.verdicts_concat _ hlimit.le,
    r.verdicts_concat _ hlimit.le, r.rolling_of_counts hlimit.le (by simp [Counts, hlower, hnonneg])
    (by simp [Counts, hnonneg]), r.rolling_of_not_counts hlimit (by simp [Counts, hne])] at heq
  cases (List.cons.inj (List.append_cancel_left heq)).1

/-- **Both paths of the limiter give the same answers and keep the limit**, on all calls of some
keys, exactly when the limiter is `Sound` for the keys. -/
theorem agreesAndBounds_iff_sound (hK : K.Nonempty) :
    r.AgreesAndBounds keyPrefix lower K ↔ r.Sound lower K := by
  constructor
  · intro h
    obtain ⟨key, hkey⟩ := hK
    rcases lt_or_ge r.limit 0 with hlimit | hlimit
    · exact Or.inl hlimit
    · have hpos := h.bucket_pos r keyPrefix lower hlimit hkey
      refine Or.inr ⟨hpos, ?_⟩
      rcases lt_or_ge r.window 0 with hwindow | hwindow
      · exact Or.inl hwindow
      rcases hlimit.eq_or_lt with hzero | hlimit
      · exact Or.inr (Or.inl hzero.symm)
      · exact Or.inr (Or.inr ⟨h.dvd r keyPrefix lower hlimit hpos hwindow hkey,
          h.injOn r keyPrefix lower hlimit hpos hwindow⟩)
  · exact fun h => h.agreesAndBounds r keyPrefix lower

/-- The limiter of the sign-in, on one address. -/
theorem signin_agreesAndBounds_iff :
    (⟨15, 180, 60, by decide⟩ : RateLimiter).AgreesAndBounds "openlaunch".toList String.toLower
      {"a@b.c"} ↔ (⟨15, 180, 60, by decide⟩ : RateLimiter).Sound String.toLower {"a@b.c"} :=
  agreesAndBounds_iff_sound _ _ _ (Set.singleton_nonempty _)

/-- With a limit of 1 in 90 seconds and buckets of 60 seconds, a call at 0:59 and one at 2:00 are both
allowed; and of two calls at one time for keys that differ in case, Redis limits the second. -/
theorem allows_two_calls_in_a_window :
    (⟨1, 90, 60, by decide⟩ : RateLimiter).memoryAnswers [⟨59, "a"⟩, ⟨120, "a"⟩] = [false, false] ∧
      ¬ (⟨1, 90, 60, by decide⟩ : RateLimiter).WindowBound [⟨59, "a"⟩, ⟨120, "a"⟩]
        [false, false] ∧
      (⟨1, 60, 60, by decide⟩ : RateLimiter).memoryAnswers [⟨0, "a"⟩, ⟨0, "A"⟩] = [false, false] ∧
      (⟨1, 60, 60, by decide⟩ : RateLimiter).redisAnswers "openlaunch".toList String.toLower
        [⟨0, "a"⟩, ⟨0, "A"⟩] = [false, true] := by
  refine ⟨by decide +kernel, ?_, by decide +kernel, by decide +kernel⟩
  intro h
  have hcount := h "a" 59
  revert hcount
  decide +kernel

end RateLimiter

end OpenLaunch.Access
