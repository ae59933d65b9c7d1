import OpenLaunch.Python.Conversions
import OpenLaunch.Python.Dict
import OpenLaunch.Transition

/-! # Session tokens

`create_token` signs a JWT for a user, with a unique `jti` and, if it is given an expiry, the claim
`exp`. To revoke a token, `invalidate_token` sets a key of Redis named after its `jti`, which lives
until the token expires; `is_valid_token` looks the key up.

Times are in microseconds, the resolution of `datetime`; the claims and the times to live are in
seconds. Signing and checking the signature is the part of the library PyJWT, which also checks the
times that the claims give. -/

namespace OpenLaunch.Auth

open Python Transition

universe u

/-! ## Tokens -/

/-- The microseconds of a second. -/
def second : ℕ := 1000000

/-- The claims of a token that are read. -/
structure Claims where
  id : Option String
  jti : Option String
  exp : Option ℤ
  iat : Option ℤ
  deriving DecidableEq

/-- The times of the claims fit: the token is issued, and not expired. -/
def InTime (now : ℕ) (c : Claims) : Prop :=
  (∀ exp ∈ c.exp, (now : ℤ) < exp * second) ∧ ∀ iat ∈ c.iat, iat * second ≤ now

instance (now : ℕ) (c : Claims) : Decidable (InTime now c) := inferInstanceAs (Decidable (_ ∧ _))

/-- Signing with the server's secret. A token that was signed with it is decoded to its claims while
their times fit. -/
structure Jwt (T : Type u) where
  /-- `jwt.encode`. -/
  encode : Claims → T
  /-- `jwt.decode` at a time; `none` where it raises. -/
  decode : ℕ → T → Option Claims
  decode_encode : ∀ now c, decode now (encode c) = if InTime now c then some c else none

/-- `create_token`, given the new UUID and the two readings of the clock: the claims that are
signed. A `timedelta` of zero counts as none. -/
def create_token (id : Option String) (expires_delta : Option ℤ) (jti : String)
    (now issued : ℕ) : Claims where
  id := id
  jti := some jti
  exp := if expires_delta.getD 0 = 0 then none else some ((now + expires_delta.getD 0) / second)
  iat := some (issued / second)

/-! ## Redis -/

/-- A key of Redis: its value, and when it expires. -/
structure RedisKey where
  value : String
  deadline : Option ℕ
  deriving DecidableEq

/-- `redis.get(key)`; a key whose time is over is gone. -/
def redisGet (redis : Dict String RedisKey) (now : ℕ) (key : String) : Option String :=
  ((redis.get? key).filter fun k => k.deadline.all fun deadline => now < deadline).map
    RedisKey.value

/-- `redis.set(key, value, ex=ttl)`. -/
def redisSet (redis : Dict String RedisKey) (now : ℕ) (key value : String) (ttl : ℕ) :
    Dict String RedisKey :=
  redis.set key ⟨value, some (now + ttl * second)⟩

/-- The key of a revoked token; `root` is `REDIS_KEY_PREFIX`. -/
def revokedKey (root jti : String) : String := root ++ ":auth:token:" ++ jti ++ ":revoked"

/-- The key of a user whose tokens were revoked. -/
def userKey (root user_id : String) : String := root ++ ":auth:user:" ++ user_id ++ ":revoked_at"

/-! ## Validity -/

variable (conv : Conversions) (root : String)

/-- The token was issued at `revoked_at` or before; a text that is no number says nothing. -/
def issuedBefore (revoked_at : String) (token_iat : Option ℤ) : Bool :=
  match conv.intOfStr revoked_at with
  | .ok revoked_at_ts => token_iat.all fun iat => iat ≤ revoked_at_ts
  | .error _ => false

/-- `is_valid_token`, at a time. -/
def is_valid_token (redis : Dict String RedisKey) (now : ℕ) (decoded : Claims) : Bool :=
  let revoked := decoded.jti.any fun jti =>
    jti ≠ "" && (redisGet redis now (revokedKey root jti)).any (· ≠ "")
  let revokedUser := decoded.id.any fun user_id =>
    user_id ≠ "" && (redisGet redis now (userKey root user_id)).any fun revoked_at =>
      revoked_at ≠ "" && issuedBefore conv revoked_at decoded.iat
  !revoked && !revokedUser

/-- What `invalidate_token` sets in Redis: the key and its time to live. A token without an `exp`
gets none. -/
def revocation (decoded : Claims) (now : ℕ) : Option (String × ℕ) :=
  match decoded.jti, decoded.exp with
  | some jti, some exp =>
    let ttl := exp - now / second
    if jti ≠ "" ∧ exp ≠ 0 ∧ 0 < ttl then some (revokedKey root jti, ttl.toNat) else none
  | _, _ => none

/-! ## Runs -/

/-- A call of `invalidate_token` that waits for Redis. -/
structure Waiting where
  token : Claims
  key : String
  ttl : ℕ
  deriving DecidableEq

/-- The server's clock, Redis, and what was called so far. A token is named by its claims. -/
structure AuthState where
  clock : ℕ
  redis : Dict String RedisKey
  /-- The tokens that were created. -/
  issued : List Claims
  /-- The tokens that `invalidate_token` was called with. -/
  called : List Claims
  waiting : List Waiting
  /-- The tokens with which `invalidate_token` has returned. -/
  returned : List Claims
  deriving DecidableEq

/-- The steps: calls, Redis answering one, and the passing of time. -/
inductive AuthEvent
  /-- `create_token`; `elapsed` is the time between the two readings of the clock. -/
  | create (id : Option String) (expires_delta : Option ℤ) (jti : String) (elapsed : ℕ)
  /-- `invalidate_token` up to the `await`; `elapsed` is the time after decoding. -/
  | invalidate (token : Claims) (elapsed : ℕ)
  /-- Redis sets the key of a call, which returns. -/
  | stored (call : Waiting)
  | elapse (time : ℕ)

variable {T : Type u} (jwt : Jwt T)

/-- `invalidate_token` up to the point where it returns or waits for Redis. -/
def AuthState.invalidate (s : AuthState) (token : Claims) (elapsed : ℕ) : AuthState :=
  match jwt.decode s.clock (jwt.encode token) with
  | none => { s with called := token :: s.called, returned := token :: s.returned }
  | some decoded =>
    match revocation root decoded (s.clock + elapsed) with
    | none =>
      { s with
        clock := s.clock + elapsed
        called := token :: s.called
        returned := token :: s.returned }
    | some (key, ttl) =>
      { s with
        clock := s.clock + elapsed
        called := token :: s.called
        waiting := ⟨token, key, ttl⟩ :: s.waiting }

/-- One step. A UUID is new, and only tokens that were created are signed. -/
def authStep (s : AuthState) : AuthEvent → Option AuthState
  | .create id expires_delta jti elapsed =>
    if jti ≠ "" ∧ ∀ c ∈ s.issued, c.jti ≠ some jti then
      some { s with
        clock := s.clock + elapsed
        issued := create_token id expires_delta jti s.clock (s.clock + elapsed) :: s.issued }
    else none
  | .invalidate token elapsed =>
    if token ∈ s.issued then some (s.invalidate root jwt token elapsed) else none
  | .stored call =>
    if call ∈ s.waiting then
      some { s with
        redis := redisSet s.redis s.clock call.key "1" call.ttl
        waiting := s.waiting.erase call
        returned := call.token :: s.returned }
    else none
  | .elapse time => some { s with clock := s.clock + time }

/-- Before any call. -/
def AuthState.start (clock : ℕ) : AuthState := ⟨clock, .empty, [], [], [], []⟩

/-- `decode_token` returns the claims, and they are valid. -/
def AuthState.accepts (s : AuthState) (token : Claims) : Bool :=
  (jwt.decode s.clock (jwt.encode token)).any (is_valid_token conv root s.redis s.clock)

end OpenLaunch.Auth

/-! ## Revoked tokens stay revoked

The key of a revoked token lives as long as the token: its time to live is rounded up, and runs from
the moment Redis sets it. A token without an `exp` gets no key, so `invalidate_token` returns
without an effect and the token is accepted as before. -/

namespace OpenLaunch.Auth

open Python Transition

universe u

variable {root jti : String} {now now' : ℕ} {c d : Claims} {exp : ℤ}

/-! ## Keys -/

/-- Different tokens have different keys. -/
theorem revokedKey_injective {jti' : String} (h : revokedKey root jti = revokedKey root jti') :
    jti = jti' := by
  have hlist := congrArg String.toList h
  unfold revokedKey at hlist
  simp only [String.toList_append] at hlist
  exact String.toList_injective (List.append_cancel_left (List.append_cancel_right hlist))

/-- The key of a token is not that of a user. -/
theorem revokedKey_ne_userKey (user_id : String) : revokedKey root jti ≠ userKey root user_id := by
  intro h
  have hlist := congrArg String.toList h
  unfold revokedKey userKey at hlist
  simp only [String.toList_append, List.append_assoc] at hlist
  have htail := List.append_cancel_left hlist
  -- the strings differ at the `t` of `token` and the `u` of `user`
  simp at htail

/-! ## Single calls -/

theorem cast_second : (second : ℤ) = 1000000 := rfl

/-- **The key outlives the token**: it is set at `clock`, no earlier than the time that was read. -/
theorem revocation_outlives {key : String} {ttl clock : ℕ}
    (h : revocation root c now = some (key, ttl)) (hle : now ≤ clock) :
    ∃ exp jti, c.exp = some exp ∧ c.jti = some jti ∧ key = revokedKey root jti ∧
      exp * second ≤ clock + ttl * second := by
  unfold revocation at h
  split at h
  · rename_i jti exp hjti hexp
    dsimp only at h
    split at h
    · rename_i hpos
      cases h
      refine ⟨exp, jti, hexp, hjti, rfl, ?_⟩
      have httl : ((exp - now / second : ℤ).toNat : ℤ) = exp - now / second :=
        Int.toNat_of_nonneg (Int.le_of_lt hpos.2.2)
      rw [httl]
      simp only [cast_second]
      omega
    · cases h
  · cases h

/-- Where no key is set for a token with an `exp`, the token has expired. -/
theorem expired_of_revocation (h : revocation root c now = none) (hjti : c.jti = some jti)
    (hne : jti ≠ "") (hexp : c.exp = some exp) : exp * second ≤ now := by
  unfold revocation at h
  rw [hjti, hexp] at h
  dsimp only at h
  split at h
  · cases h
  · rename_i hpos
    by_cases hzero : exp = 0
    · subst hzero
      simp
    · have httl : ¬ 0 < exp - now / second := fun hlt => hpos ⟨hne, hzero, hlt⟩
      simp only [cast_second] at httl ⊢
      omega

/-! ## The invariant -/

/-- The token expired, or its key lives until it does. -/
def Revoked (root : String) (s : AuthState) (c : Claims) (exp : ℤ) : Prop :=
  exp * second ≤ s.clock ∨ ∃ jti deadline, c.jti = some jti ∧
    s.redis.get? (revokedKey root jti) = some ⟨"1", some deadline⟩ ∧ exp * second ≤ deadline

/-- A token that the server created: it has a UUID, and was issued by now. -/
def Created (s : AuthState) (c : Claims) : Prop :=
  (∃ jti, c.jti = some jti ∧ jti ≠ "") ∧ ∃ iat, c.iat = some iat ∧ iat * second ≤ s.clock

/-- What holds of Redis and of the calls, in every state of a run. -/
structure AuthInv (root : String) (s : AuthState) : Prop where
  created : ∀ c ∈ s.issued, Created s c
  unique : ∀ c ∈ s.issued, ∀ d ∈ s.issued, c.jti = d.jti → c = d
  called : s.called ⊆ s.issued
  /-- A call waits to set the key of its token, for long enough. -/
  waiting : ∀ call ∈ s.waiting, call.token ∈ s.called ∧ ∃ exp jti, call.token.exp = some exp ∧
    call.token.jti = some jti ∧ call.key = revokedKey root jti ∧
      exp * second ≤ s.clock + call.ttl * second
  returned : ∀ c ∈ s.returned, c ∈ s.called ∧ ∀ exp, c.exp = some exp → Revoked root s c exp
  /-- The keys of Redis are those of tokens that were invalidated and have an `exp`. -/
  keys : ∀ key k, s.redis.get? key = some k → ∃ c ∈ s.called, ∃ jti, c.jti = some jti ∧
    key = revokedKey root jti ∧ c.exp ≠ none

theorem authInv_start (root : String) (clock : ℕ) : AuthInv root (.start clock) where
  created c h := by cases h
  unique c h := by cases h
  called := List.Subset.refl []
  waiting call h := by cases h
  returned c h := by cases h
  keys key k h := by cases h

variable {s s' : AuthState}

theorem Revoked.of_clock_le (h : Revoked root s c exp) {clock : ℕ} (hle : s.clock ≤ clock) :
    Revoked root { s with clock := clock } c exp := by
  rcases h with hexpired | hkey
  · refine .inl (Int.le_trans hexpired ?_)
    exact_mod_cast hle
  · exact .inr hkey

theorem Created.of_clock_le (h : Created s c) {clock : ℕ} (hle : s.clock ≤ clock) :
    Created { s with clock := clock } c := by
  obtain ⟨hjti, iat, hiat, hissued⟩ := h
  exact ⟨hjti, iat, hiat, Int.le_trans hissued (by exact_mod_cast hle)⟩

/-- Time passes. -/
theorem AuthInv.of_clock_le (h : AuthInv root s) {clock : ℕ} (hle : s.clock ≤ clock) :
    AuthInv root { s with clock := clock } where
  created c hc := (h.created c hc).of_clock_le hle
  unique := h.unique
  called := h.called
  waiting call hcall := by
    obtain ⟨hcalled, exp, jti, hexp, hjti, hkey, hlong⟩ := h.waiting call hcall
    refine ⟨hcalled, exp, jti, hexp, hjti, hkey, Int.le_trans hlong ?_⟩
    have hcast : (s.clock : ℤ) ≤ clock := by exact_mod_cast hle
    dsimp only
    omega
  returned c hc := ⟨(h.returned c hc).1, fun exp hexp =>
    ((h.returned c hc).2 exp hexp).of_clock_le hle⟩
  keys := h.keys

/-- A new token has a new UUID. -/
theorem AuthInv.create (h : AuthInv root s) {new : Claims} (hnew : Created s new)
    (hfresh : ∀ c ∈ s.issued, c.jti ≠ new.jti) :
    AuthInv root { s with issued := new :: s.issued } where
  created := List.forall_mem_cons.mpr ⟨hnew, h.created⟩
  unique c hc d hd hjti := by
    rcases List.mem_cons.mp hc with hcnew | hcold
    · rcases List.mem_cons.mp hd with hdnew | hdold
      · rw [hcnew, hdnew]
      · exact absurd (hjti.symm.trans (congrArg Claims.jti hcnew)) (hfresh d hdold)
    · rcases List.mem_cons.mp hd with hdnew | hdold
      · exact absurd (hjti.trans (congrArg Claims.jti hdnew)) (hfresh c hcold)
      · exact h.unique c hcold d hdold hjti
  called := List.subset_cons_of_subset new h.called
  waiting := h.waiting
  returned := h.returned
  keys := h.keys

/-- A call of `invalidate_token` is noted. -/
theorem AuthInv.call (h : AuthInv root s) (hc : c ∈ s.issued) :
    AuthInv root { s with called := c :: s.called } where
  created := h.created
  unique := h.unique
  called := List.cons_subset.mpr ⟨hc, h.called⟩
  waiting call hcall := ⟨List.mem_cons_of_mem c (h.waiting call hcall).1, (h.waiting call hcall).2⟩
  returned d hd := ⟨List.mem_cons_of_mem c (h.returned d hd).1, (h.returned d hd).2⟩
  keys key k hk := by
    obtain ⟨d, hd, hkey⟩ := h.keys key k hk
    exact ⟨d, List.mem_cons_of_mem c hd, hkey⟩

/-- A call returns once its token is revoked. -/
theorem AuthInv.return (h : AuthInv root s) (hc : c ∈ s.called)
    (hrevoked : ∀ exp, c.exp = some exp → Revoked root s c exp) :
    AuthInv root { s with returned := c :: s.returned } where
  created := h.created
  unique := h.unique
  called := h.called
  waiting := h.waiting
  returned := List.forall_mem_cons.mpr ⟨⟨hc, hrevoked⟩, h.returned⟩
  keys := h.keys

/-- A call waits for Redis to set the key of its token. -/
theorem AuthInv.wait (h : AuthInv root s) (hc : c ∈ s.called) {key : String} {ttl : ℕ}
    (hrevocation : revocation root c s.clock = some (key, ttl)) :
    AuthInv root { s with waiting := ⟨c, key, ttl⟩ :: s.waiting } where
  created := h.created
  unique := h.unique
  called := h.called
  waiting := by
    refine List.forall_mem_cons.mpr ⟨⟨hc, ?_⟩, h.waiting⟩
    obtain ⟨exp, jti, hexp, hjti, hkey, hlong⟩ := revocation_outlives hrevocation (Nat.le_refl _)
    exact ⟨exp, jti, hexp, hjti, hkey, hlong⟩
  returned := h.returned
  keys := h.keys

/-- Redis sets the key of a call. Another key stays; the same one lives long enough again. -/
theorem AuthInv.set (h : AuthInv root s) {call : Waiting} (hcall : call ∈ s.waiting) :
    AuthInv root { s with
      redis := redisSet s.redis s.clock call.key "1" call.ttl
      waiting := s.waiting.erase call } := by
  obtain ⟨hcalled, exp, jti, hexp, hjti, hkey, hlong⟩ := h.waiting call hcall
  refine ⟨h.created, h.unique, h.called,
    fun other hother => h.waiting other (List.mem_of_mem_erase hother), ?_, ?_⟩
  · intro c hc
    obtain ⟨hc', hrevoked⟩ := h.returned c hc
    refine ⟨hc', fun exp' hexp' => ?_⟩
    rcases hrevoked exp' hexp' with hexpired | ⟨jti', deadline, hjti', hget, hlives⟩
    · exact .inl hexpired
    · by_cases hsame : revokedKey root jti' = call.key
      · -- the same key is that of the same token
        have hjtis : jti' = jti := revokedKey_injective (hsame.trans hkey)
        have heq : c = call.token := h.unique c (h.called hc') call.token (h.called hcalled)
          (by rw [hjti', hjti, hjtis])
        rw [heq, hexp] at hexp'
        cases hexp'
        refine .inr ⟨jti', _, hjti', ?_, hlong⟩
        show (Dict.set _ _ _).get? _ = _
        rw [hsame, Dict.get?_set_self]
      · refine .inr ⟨jti', deadline, hjti', ?_, hlives⟩
        show (Dict.set _ _ _).get? _ = _
        rw [Dict.get?_set_ne _ hsame]
        exact hget
  · intro key k hk
    change (Dict.set _ _ _).get? _ = _ at hk
    by_cases hsame : key = call.key
    · exact ⟨call.token, hcalled, jti, hjti, hsame.trans hkey, by rw [hexp]; simp⟩
    · rw [Dict.get?_set_ne _ hsame] at hk
      exact h.keys key k hk

variable {T : Type u} {jwt : Jwt T}

/-- A created token that is not decoded has expired. -/
theorem expired_of_decode (hc : Created s c) (h : jwt.decode s.clock (jwt.encode c) = none)
    (hexp : c.exp = some exp) : exp * second ≤ s.clock := by
  obtain ⟨-, iat, hiat, hissued⟩ := hc
  rw [jwt.decode_encode] at h
  by_contra hlt
  have hin : InTime s.clock c := by
    constructor
    · intro exp' hexp'
      rw [hexp] at hexp'
      cases hexp'
      exact Int.not_le.mp hlt
    · intro iat' hiat'
      rw [hiat] at hiat'
      cases hiat'
      exact hissued
  rw [if_pos hin] at h
  cases h

/-- **A call of `invalidate_token`** returns at once, with a token that has expired or never does,
or waits for Redis to set its key. -/
theorem AuthInv.invalidate (h : AuthInv root s) (hc : c ∈ s.issued) (elapsed : ℕ) :
    AuthInv root (s.invalidate root jwt c elapsed) := by
  have hcalled := h.call hc
  have hmem : c ∈ c :: s.called := List.mem_cons_self
  obtain ⟨⟨jti, hjti, hne⟩, -⟩ := h.created c hc
  unfold AuthState.invalidate
  cases hdecode : jwt.decode s.clock (jwt.encode c) with
  | none =>
    exact hcalled.return hmem fun exp hexp =>
      .inl (expired_of_decode (h.created c hc) hdecode hexp)
  | some decoded =>
    have hdecoded : decoded = c := by
      rw [jwt.decode_encode] at hdecode
      exact (Option.some.inj (Option.ite_none_right_eq_some.mp hdecode).2).symm
    subst hdecoded
    have hlater := hcalled.of_clock_le (Nat.le_add_right s.clock elapsed)
    dsimp only
    cases hrevocation : revocation root decoded (s.clock + elapsed) with
    | none =>
      exact hlater.return hmem fun exp hexp =>
        .inl (by exact_mod_cast expired_of_revocation hrevocation hjti hne hexp)
    | some entry => exact hlater.wait hmem hrevocation

/-- **Step lemma.** -/
theorem AuthInv.step (h : AuthInv root s) {e : AuthEvent}
    (hstep : authStep root jwt s e = some s') : AuthInv root s' := by
  cases e with
  | create id expires_delta jti elapsed =>
    obtain ⟨⟨hne, hfresh⟩, hs'⟩ := Option.ite_none_right_eq_some.mp hstep
    cases hs'
    refine (h.of_clock_le (Nat.le_add_right s.clock elapsed)).create ?_ hfresh
    refine ⟨⟨jti, rfl, hne⟩, _, rfl, ?_⟩
    dsimp only
    simp only [cast_second]
    omega
  | invalidate token elapsed =>
    obtain ⟨htoken, hs'⟩ := Option.ite_none_right_eq_some.mp hstep
    cases hs'
    exact h.invalidate htoken elapsed
  | stored call =>
    obtain ⟨hcall, hs'⟩ := Option.ite_none_right_eq_some.mp hstep
    cases hs'
    obtain ⟨hcalled, exp, jti, hexp, hjti, hkey, hlong⟩ := h.waiting call hcall
    refine (h.set hcall).return hcalled fun exp' hexp' => ?_
    rw [hexp] at hexp'
    cases hexp'
    refine .inr ⟨jti, _, hjti, ?_, hlong⟩
    show (Dict.set _ _ _).get? _ = _
    rw [← hkey, Dict.get?_set_self]
  | elapse time =>
    cases hstep
    exact h.of_clock_le (Nat.le_add_right s.clock time)

/-- What has returned stays so. -/
theorem returned_subset {events : List AuthEvent}
    (hrun : exec (authStep root jwt) s events = some s') : s.returned ⊆ s'.returned := by
  refine exec_invariant (P := fun t => s.returned ⊆ t.returned) (fun t e t' h hstep => ?_)
    (List.Subset.refl _) hrun
  cases e with
  | create id expires_delta jti elapsed =>
    obtain ⟨-, hs'⟩ := Option.ite_none_right_eq_some.mp hstep
    cases hs'
    exact h
  | invalidate token elapsed =>
    obtain ⟨-, hs'⟩ := Option.ite_none_right_eq_some.mp hstep
    cases hs'
    unfold AuthState.invalidate
    cases jwt.decode t.clock (jwt.encode token) with
    | none => exact List.subset_cons_of_subset token h
    | some decoded =>
      dsimp only
      cases revocation root decoded (t.clock + elapsed) with
      | none => exact List.subset_cons_of_subset token h
      | some entry => exact h
  | stored call =>
    obtain ⟨-, hs'⟩ := Option.ite_none_right_eq_some.mp hstep
    cases hs'
    exact List.subset_cons_of_subset call.token h
  | elapse time =>
    cases hstep
    exact h

/-! ## What is accepted -/

variable (conv : Conversions)

/-- Without keys of its user, a token is invalid only by its own key. -/
theorem AuthInv.is_valid_iff (h : AuthInv root s) (hjti : c.jti = some jti) (hne : jti ≠ "") :
    is_valid_token conv root s.redis s.clock c = true ↔
      (redisGet s.redis s.clock (revokedKey root jti)).any (· ≠ "") = false := by
  have huser : ∀ user_id, redisGet s.redis s.clock (userKey root user_id) = none := by
    intro user_id
    unfold redisGet
    cases hget : s.redis.get? (userKey root user_id) with
    | none => rfl
    | some k =>
      obtain ⟨d, -, jti', -, hkey, -⟩ := h.keys _ k hget
      exact absurd hkey.symm (revokedKey_ne_userKey user_id)
  unfold is_valid_token
  simp only [huser, hjti]
  cases c.id with
  | none => simp [hne]
  | some user_id => simp [hne]

/-- A token that was not invalidated, or never expires, has no key. -/
theorem AuthInv.redisGet_none (h : AuthInv root s) (hc : c ∈ s.issued) (hjti : c.jti = some jti)
    (hnone : c ∉ s.called ∨ c.exp = none) : s.redis.get? (revokedKey root jti) = none := by
  cases hget : s.redis.get? (revokedKey root jti) with
  | none => rfl
  | some k =>
    obtain ⟨d, hd, jti', hjti', hkey, hexp⟩ := h.keys _ k hget
    have heq : c = d := h.unique c hc d (h.called hd) (by
      rw [hjti, hjti', revokedKey_injective hkey])
    subst heq
    rcases hnone with hcalled | hforever
    · exact absurd hd hcalled
    · exact absurd hforever hexp

/-- Every other token stays valid. -/
theorem AuthInv.is_valid (h : AuthInv root s) (hc : c ∈ s.issued)
    (hnone : c ∉ s.called ∨ c.exp = none) :
    is_valid_token conv root s.redis s.clock c = true := by
  obtain ⟨⟨jti, hjti, hne⟩, -⟩ := h.created c hc
  rw [h.is_valid_iff conv hjti hne, redisGet, h.redisGet_none hc hjti hnone]
  rfl

/-- A revoked token is not accepted. -/
theorem AuthInv.not_accepts (h : AuthInv root s) (hc : c ∈ s.issued) (hexp : c.exp = some exp)
    (hrevoked : Revoked root s c exp) : s.accepts conv root jwt c = false := by
  unfold AuthState.accepts
  rw [jwt.decode_encode]
  split
  · rename_i hin
    have hlive := hin.1 exp hexp
    rcases hrevoked with hexpired | ⟨jti, deadline, hjti, hget, hlives⟩
    · exact absurd hlive (Int.not_lt.mpr hexpired)
    · obtain ⟨⟨jti', hjti', hne⟩, -⟩ := h.created c hc
      rw [hjti] at hjti'
      cases hjti'
      -- the token is alive, so its key is
      have hbefore : s.clock < deadline := by exact_mod_cast Int.lt_of_lt_of_le hlive hlives
      have hvalid := h.is_valid_iff conv hjti hne
      have hfound : redisGet s.redis s.clock (revokedKey root jti) = some "1" := by
        unfold redisGet
        rw [hget]
        simp [Option.filter, hbefore]
      rw [hfound] at hvalid
      simpa using hvalid
  · rfl

/-- A token that never expires is accepted. -/
theorem AuthInv.accepts (h : AuthInv root s) (hc : c ∈ s.issued) (hexp : c.exp = none) :
    s.accepts conv root jwt c = true := by
  obtain ⟨-, iat, hiat, hissued⟩ := h.created c hc
  have hin : InTime s.clock c := by
    constructor
    · intro exp' hexp'
      rw [hexp] at hexp'
      cases hexp'
    · intro iat' hiat'
      rw [hiat] at hiat'
      cases hiat'
      exact hissued
  unfold AuthState.accepts
  rw [jwt.decode_encode, if_pos hin]
  exact h.is_valid conv hc (.inr hexp)

/-- **Revoked tokens stay revoked exactly if they expire**, in every run: once `invalidate_token`
has returned, the token is not accepted at any later time exactly if it has an `exp`. And a token
that `invalidate_token` was not called with stays valid. -/
theorem revoked_iff_expires (conv : Conversions) (root : String) {T : Type u} (jwt : Jwt T)
    (clock : ℕ) {events : List AuthEvent} {s : AuthState}
    (hrun : exec (authStep root jwt) (.start clock) events = some s) :
    (∀ c ∈ s.returned, (∀ later s', exec (authStep root jwt) s later = some s' →
      s'.accepts conv root jwt c = false) ↔ c.exp ≠ none) ∧
    ∀ c ∈ s.issued, c ∉ s.called → is_valid_token conv root s.redis s.clock c = true := by
  have hinv : ∀ {start s' : AuthState} {run}, AuthInv root start →
      exec (authStep root jwt) start run = some s' → AuthInv root s' := fun hstart hexec =>
    exec_invariant (fun t e t' ht hstep => ht.step hstep) hstart hexec
  have hs := hinv (authInv_start root clock) hrun
  refine ⟨fun c hc => ⟨fun h hexp => ?_, fun hexp later s' hlater => ?_⟩, fun c hc hcalled => ?_⟩
  · have hissued := hs.called (hs.returned c hc).1
    have haccepts : s.accepts conv root jwt c = true := hs.accepts conv hissued hexp
    rw [h [] s rfl] at haccepts
    cases haccepts
  · have hs' := hinv hs hlater
    obtain ⟨hcalled, hrevoked⟩ := hs'.returned c (returned_subset hlater hc)
    obtain ⟨exp, hsome⟩ := Option.ne_none_iff_exists'.mp hexp
    exact hs'.not_accepts conv (hs'.called hcalled) hsome (hrevoked exp hsome)
  · exact hs.is_valid conv hc (.inl hcalled)

/-! ## Sign-out with and without an expiry -/

/-- Tokens that are their claims. -/
def plainJwt : Jwt Claims :=
  ⟨id, fun now c => if InTime now c then some c else none, fun _ _ => rfl⟩

/-- A user signs in for an hour, with another token beside it, and signs out after a while. -/
def signOut : List AuthEvent :=
  [.create (some "u") (some (3600 * second)) "j" 5, .create (some "u") none "k" 0,
    .elapse 1500000, .invalidate (create_token (some "u") (some (3600 * second)) "j" 0 5) 2,
    .stored ⟨create_token (some "u") (some (3600 * second)) "j" 0 5, revokedKey "r" "j", 3599⟩]

/-- The token of the hour is not accepted again, and the other one stays valid. -/
theorem revoked_signOut : ∃ s, exec (authStep "r" plainJwt) (.start 0) signOut = some s ∧
    create_token (some "u") (some (3600 * second)) "j" 0 5 ∈ s.returned ∧
    (∀ later s', exec (authStep "r" plainJwt) s later = some s' →
      s'.accepts plainConversions "r" plainJwt
        (create_token (some "u") (some (3600 * second)) "j" 0 5) = false) ∧
    is_valid_token plainConversions "r" s.redis s.clock (create_token (some "u") none "k" 5 5) =
      true := by
  have hrun : exec (authStep "r" plainJwt) (.start 0) signOut = some
      ⟨1500007, ⟨[(revokedKey "r" "j", ⟨"1", some 3600500007⟩)], by decide⟩,
        [create_token (some "u") none "k" 5 5,
          create_token (some "u") (some (3600 * second)) "j" 0 5],
        [create_token (some "u") (some (3600 * second)) "j" 0 5], [],
        [create_token (some "u") (some (3600 * second)) "j" 0 5]⟩ := by
    decide +kernel
  obtain ⟨hrevoked, hother⟩ := revoked_iff_expires plainConversions "r" plainJwt 0 hrun
  refine ⟨_, hrun, List.mem_singleton_self _, ?_, ?_⟩
  · exact (hrevoked _ (List.mem_singleton_self _)).mpr (by decide)
  · exact hother _ List.mem_cons_self (by decide)

/-- A token without an expiry is accepted after `invalidate_token` has returned. -/
theorem accepted_after_invalidate : ∃ s,
    exec (authStep "r" plainJwt) (.start 0)
      [.create (some "u") none "j" 0, .invalidate (create_token (some "u") none "j" 0 0) 0] =
      some s ∧
    create_token (some "u") none "j" 0 0 ∈ s.returned ∧
    s.accepts plainConversions "r" plainJwt (create_token (some "u") none "j" 0 0) = true :=
  ⟨_, rfl, by decide, by decide⟩

end OpenLaunch.Auth
