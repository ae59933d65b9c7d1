import OpenLaunch.Transition
import OpenLaunch.Python.Dict
import Mathlib.Data.Finset.Basic

/-! # Sessions, usage and the users of documents

A connected session has an entry in the session pool, which heartbeats refresh and a periodic
clean-up removes when they are missing; an entry in the usage pool for each model that it uses; and
it is in the user set of each document that it joined. A disconnection cleans all of these up, if
the session is still in the session pool. -/

namespace OpenLaunch.Sockets

open Python Transition

universe u

variable {Sid M Doc U : Type u} [DecidableEq Sid] [DecidableEq M] [DecidableEq Doc]

/-- `SESSION_POOL_TIMEOUT`. -/
def session_pool_timeout : ℤ := 120

/-- `TIMEOUT_DURATION`. -/
def timeout_duration : ℤ := 3

/-- An entry of `SESSION_POOL`: the data of the user, and the time of the last heartbeat. -/
structure Session (U : Type u) where
  user : U
  last_seen_at : ℤ

/-- The pools, and the users of the documents. An entry of `USAGE_POOL` has `updated_at` of every
session that uses the model. -/
structure Pools (Sid M Doc U : Type u) where
  session_pool : Dict Sid (Session U)
  usage_pool : Dict M (Dict Sid ℤ)
  users : Doc → Finset Sid
  /-- With Redis, the documents that a session joined. -/
  documents : Sid → Finset Doc

namespace Pools

/-! ## Handlers -/

/-- `connect` and `user_join`, with the user of a valid token. -/
def connect (s : Pools Sid M Doc U) (sid : Sid) (user : Option U) (now : ℤ) : Pools Sid M Doc U :=
  match user with
  | some user => { s with session_pool := s.session_pool.set sid ⟨user, now⟩ }
  | none => s

/-- `usage`. -/
def usage (s : Pools Sid M Doc U) (sid : Sid) (model_id : M) (now : ℤ) : Pools Sid M Doc U :=
  if sid ∈ s.session_pool then
    { s with
      usage_pool :=
        s.usage_pool.set model_id (((s.usage_pool.get? model_id).getD .empty).set sid now) }
  else s

/-- `heartbeat`. -/
def heartbeat (s : Pools Sid M Doc U) (sid : Sid) (now : ℤ) : Pools Sid M Doc U :=
  match s.session_pool.get? sid with
  | some session =>
    { s with session_pool := s.session_pool.set sid { session with last_seen_at := now } }
  | none => s

/-- `ydoc_document_join` calls `add_user`, if the check of the access allows it. -/
def join (redis : Bool) (s : Pools Sid M Doc U) (sid : Sid) (document_id : Doc) (allowed : Bool) :
    Pools Sid M Doc U :=
  if sid ∈ s.session_pool ∧ allowed then
    { s with
      users := Function.update s.users document_id (insert sid (s.users document_id))
      documents :=
        if redis then Function.update s.documents sid (insert document_id (s.documents sid))
        else s.documents }
  else s

/-- `yjs_document_leave` calls `remove_user`; a document is cleared if it has no users. -/
def leave (redis : Bool) (s : Pools Sid M Doc U) (sid : Sid) (document_id : Doc) :
    Pools Sid M Doc U :=
  if sid ∈ s.session_pool then
    { s with
      users := Function.update s.users document_id ((s.users document_id).erase sid)
      documents :=
        if redis then Function.update s.documents sid ((s.documents sid).erase document_id)
        else s.documents }
  else s

/-- One session in the loop of `periodic_session_pool_cleanup`. -/
def reapSession (now : ℤ) (pool : Dict Sid (Session U)) (sid : Sid) : Dict Sid (Session U) :=
  match pool.get? sid with
  | some entry =>
    if now - entry.last_seen_at > session_pool_timeout then pool.erase sid else pool
  | none => pool

/-- `periodic_session_pool_cleanup`, once. -/
def reap (s : Pools Sid M Doc U) (now : ℤ) : Pools Sid M Doc U :=
  { s with session_pool := s.session_pool.keys.foldl (reapSession now) s.session_pool }

/-- An entry of `USAGE_POOL` is written, or deleted if it is empty. -/
def putConnections (pool : Dict M (Dict Sid ℤ)) (model_id : M) (connections : Dict Sid ℤ) :
    Dict M (Dict Sid ℤ) :=
  if connections.entries = [] then pool.erase model_id else pool.set model_id connections

/-- One model in the loop of `periodic_usage_pool_cleanup`. -/
def expireModel (now : ℤ) (pool : Dict M (Dict Sid ℤ)) (model_id : M) : Dict M (Dict Sid ℤ) :=
  match pool.get? model_id with
  | some connections => putConnections pool model_id
      (connections.filter fun _ updated_at => ¬ now - updated_at > timeout_duration)
  | none => pool

/-- `periodic_usage_pool_cleanup`, once. -/
def expire (s : Pools Sid M Doc U) (now : ℤ) : Pools Sid M Doc U :=
  { s with usage_pool := s.usage_pool.keys.foldl (expireModel now) s.usage_pool }

/-- One model in the loop of `disconnect`. -/
def disconnectModel (sid : Sid) (pool : Dict M (Dict Sid ℤ)) (model_id : M) :
    Dict M (Dict Sid ℤ) :=
  match pool.get? model_id with
  | some connections =>
    if sid ∈ connections then putConnections pool model_id (connections.erase sid) else pool
  | none => pool

/-- `remove_user_from_all_documents`: with Redis, the documents of the reverse index. A document
that is left without users is cleared. -/
def remove_user_from_all_documents (redis : Bool) (s : Pools Sid M Doc U) (sid : Sid) :
    Pools Sid M Doc U :=
  if redis then
    { s with
      users := fun d => if d ∈ s.documents sid then (s.users d).erase sid else s.users d
      documents := Function.update s.documents sid ∅ }
  else { s with users := fun d => (s.users d).erase sid }

/-- `disconnect`. -/
def disconnect (redis : Bool) (s : Pools Sid M Doc U) (sid : Sid) : Pools Sid M Doc U :=
  if sid ∈ s.session_pool then
    remove_user_from_all_documents redis
      { s with
        session_pool := s.session_pool.erase sid
        usage_pool := s.usage_pool.keys.foldl (disconnectModel sid) s.usage_pool } sid
  else s

/-- No session. -/
def start : Pools Sid M Doc U := ⟨.empty, .empty, fun _ => ∅, fun _ => ∅⟩

end Pools

/-- The events, with the time and with what the handler finds in the database. -/
inductive PoolEvent (Sid M Doc U : Type u)
  | connect (sid : Sid) (user : Option U) (now : ℤ)
  | user_join (sid : Sid) (user : Option U) (now : ℤ)
  | usage (sid : Sid) (model_id : M) (now : ℤ)
  | heartbeat (sid : Sid) (now : ℤ)
  | join (sid : Sid) (document_id : Doc) (allowed : Bool)
  | leave (sid : Sid) (document_id : Doc)
  | reap (now : ℤ)
  | expire (now : ℤ)
  | disconnect (sid : Sid)

/-- One event, with or without Redis. -/
def poolStep (redis : Bool) (s : Pools Sid M Doc U) :
    PoolEvent Sid M Doc U → Option (Pools Sid M Doc U)
  | .connect sid user now | .user_join sid user now => some (s.connect sid user now)
  | .usage sid model_id now => some (s.usage sid model_id now)
  | .heartbeat sid now => some (s.heartbeat sid now)
  | .join sid document_id allowed => some (s.join redis sid document_id allowed)
  | .leave sid document_id => some (s.leave redis sid document_id)
  | .reap now => some (s.reap now)
  | .expire now => some (s.expire now)
  | .disconnect sid => some (s.disconnect redis sid)

/-! ## What a disconnection leaves -/

/-- The session is in no user set of a document and in no entry of `USAGE_POOL`. -/
def Absent (s : Pools Sid M Doc U) (sid : Sid) : Prop :=
  (∀ d, sid ∉ s.users d) ∧
    ∀ model_id connections, s.usage_pool.get? model_id = some connections → sid ∉ connections

/-- No entry of `USAGE_POOL` is empty. -/
def NoneEmpty (s : Pools Sid M Doc U) : Prop :=
  ∀ model_id connections, s.usage_pool.get? model_id = some connections → connections.entries ≠ []

/-- **The clean-up is complete**: after its disconnection a session is nowhere, and no entry of
`USAGE_POOL` is empty. -/
def CleanUpComplete (redis : Bool) (s : Pools Sid M Doc U) (e : PoolEvent Sid M Doc U) : Prop :=
  ∀ sid, e = .disconnect sid → ∀ s', poolStep redis s e = some s' →
    Absent s' sid ∧ sid ∉ s'.session_pool ∧ NoneEmpty s'

/-- **What it takes**: the session is in the session pool when it is disconnected, or there is
nothing to clean up. -/
def PooledOrAbsent (s : Pools Sid M Doc U) (e : PoolEvent Sid M Doc U) : Prop :=
  ∀ sid, e = .disconnect sid → sid ∈ s.session_pool ∨ Absent s sid

/-- No entry of `USAGE_POOL` is empty, and with Redis the documents of a session are in the reverse
index. -/
structure PoolsInv (redis : Bool) (s : Pools Sid M Doc U) : Prop where
  noneEmpty : NoneEmpty s
  indexed : redis = true → ∀ d sid, sid ∈ s.users d → d ∈ s.documents sid

/-! ## The loops -/

/-- An entry of `USAGE_POOL` that is not empty. -/
def someConnections (connections : Dict Sid ℤ) : Option (Dict Sid ℤ) :=
  if connections.entries = [] then none else some connections

theorem someConnections_eq_some {connections connections' : Dict Sid ℤ}
    (h : someConnections connections = some connections') :
    connections' = connections ∧ connections'.entries ≠ [] := by
  unfold someConnections at h
  rw [Option.ite_none_left_eq_some, Option.some.injEq] at h
  obtain ⟨hne, rfl⟩ := h
  exact ⟨rfl, hne⟩

theorem get?_putConnections (pool : Dict M (Dict Sid ℤ)) (model_id model_id' : M)
    (connections : Dict Sid ℤ) :
    (Pools.putConnections pool model_id connections).get? model_id' =
      if model_id' = model_id then someConnections connections else pool.get? model_id' := by
  unfold Pools.putConnections someConnections
  split
  · rw [Dict.get?_erase]
  · rw [Dict.get?_set]

/-- What `disconnect` leaves of an entry of `USAGE_POOL`. -/
def withoutSession (sid : Sid) (connections : Dict Sid ℤ) : Option (Dict Sid ℤ) :=
  if sid ∈ connections then someConnections (connections.erase sid) else some connections

theorem get?_disconnectModels (sid : Sid) (pool : Dict M (Dict Sid ℤ)) (model_id : M) :
    (pool.keys.foldl (Pools.disconnectModel sid) pool).get? model_id =
      (pool.get? model_id).bind (withoutSession sid) := by
  refine Dict.get?_foldl_all_keys (g := fun o => o.bind (withoutSession sid)) (fun pool k => ?_)
    (fun pool k k' hk => ?_) rfl pool model_id
  · unfold Pools.disconnectModel withoutSession
    cases hget : pool.get? k with
    | none => exact hget
    | some connections =>
      dsimp only
      rw [Option.bind_some]
      split
      · rw [get?_putConnections, if_pos rfl]
      · exact hget
  · unfold Pools.disconnectModel
    split
    · split
      · rw [get?_putConnections, if_neg hk]
      · rfl
    · rfl

theorem get?_expireModels (now : ℤ) (pool : Dict M (Dict Sid ℤ)) (model_id : M) :
    (pool.keys.foldl (Pools.expireModel now) pool).get? model_id =
      (pool.get? model_id).bind fun connections =>
        someConnections (connections.filter fun _ updated_at =>
          ¬ now - updated_at > timeout_duration) := by
  refine Dict.get?_foldl_all_keys (g := fun o => o.bind fun connections => someConnections
    (connections.filter fun _ updated_at => ¬ now - updated_at > timeout_duration))
    (fun pool k => ?_) (fun pool k k' hk => ?_) rfl pool model_id
  · unfold Pools.expireModel
    cases hget : pool.get? k with
    | none => exact hget
    | some connections =>
      dsimp only
      rw [get?_putConnections, if_pos rfl, Option.bind_some]
  · unfold Pools.expireModel
    split
    · rw [get?_putConnections, if_neg hk]
    · rfl

/-! ## The invariant -/

variable {redis : Bool} {s s' : Pools Sid M Doc U} {e : PoolEvent Sid M Doc U}

theorem poolsInv_start : PoolsInv redis (Pools.start : Pools Sid M Doc U) where
  noneEmpty model_id connections h := by cases h
  indexed _ d sid h := absurd h (Finset.notMem_empty sid)

theorem NoneEmpty.usage (h : NoneEmpty s) (sid : Sid) (model_id : M) (now : ℤ) :
    NoneEmpty (s.usage sid model_id now) := by
  unfold Pools.usage
  split
  · intro model_id' connections hget
    dsimp only at hget
    rw [Dict.get?_set] at hget
    split at hget
    · -- the entry has the session
      have hsid : sid ∈ connections := by
        rw [← Option.some.inj hget, Dict.mem_set]
        exact Or.inl rfl
      intro hnil
      unfold Membership.mem Dict.instMembership at hsid
      dsimp only [Dict.keys] at hsid
      rw [hnil] at hsid
      cases hsid
    · exact h model_id' connections hget
  · exact h

theorem PoolsInv.join (h : PoolsInv redis s) (sid : Sid) (document_id : Doc) (allowed : Bool) :
    PoolsInv redis (s.join redis sid document_id allowed) := by
  unfold Pools.join
  split
  · refine ⟨h.noneEmpty, fun hredis d sid' hsid' => ?_⟩
    have hindexed := h.indexed hredis
    simp only [hredis, if_true] at hsid' ⊢
    by_cases hd : d = document_id
    · subst hd
      rw [Function.update_self, Finset.mem_insert] at hsid'
      by_cases hs : sid' = sid
      · rw [hs, Function.update_self]
        exact Finset.mem_insert_self _ _
      · rw [Function.update_of_ne hs]
        exact hindexed d sid' (hsid'.resolve_left hs)
    · rw [Function.update_of_ne hd] at hsid'
      by_cases hs : sid' = sid
      · subst hs
        rw [Function.update_self]
        exact Finset.mem_insert_of_mem (hindexed d sid' hsid')
      · rw [Function.update_of_ne hs]
        exact hindexed d sid' hsid'
  · exact h

theorem PoolsInv.leave (h : PoolsInv redis s) (sid : Sid) (document_id : Doc) :
    PoolsInv redis (s.leave redis sid document_id) := by
  unfold Pools.leave
  split
  · refine ⟨h.noneEmpty, fun hredis d sid' hsid' => ?_⟩
    have hindexed := h.indexed hredis
    simp only [hredis, if_true] at hsid' ⊢
    by_cases hd : d = document_id
    · subst hd
      rw [Function.update_self, Finset.mem_erase] at hsid'
      rw [Function.update_of_ne hsid'.1]
      exact hindexed d sid' hsid'.2
    · rw [Function.update_of_ne hd] at hsid'
      by_cases hs : sid' = sid
      · subst hs
        rw [Function.update_self]
        exact Finset.mem_erase_of_ne_of_mem hd (hindexed d sid' hsid')
      · rw [Function.update_of_ne hs]
        exact hindexed d sid' hsid'
  · exact h

theorem noneEmpty_disconnect (h : NoneEmpty s) (sid : Sid) :
    NoneEmpty (s.disconnect redis sid) := by
  unfold Pools.disconnect Pools.remove_user_from_all_documents
  split
  · have hloop : NoneEmpty
        { s with usage_pool := s.usage_pool.keys.foldl (Pools.disconnectModel sid) s.usage_pool } := by
      intro model_id connections hget
      dsimp only at hget
      rw [get?_disconnectModels] at hget
      obtain ⟨old, hold, hnew⟩ := Option.bind_eq_some_iff.mp hget
      unfold withoutSession at hnew
      split at hnew
      · exact (someConnections_eq_some hnew).2
      · cases hnew
        exact h model_id _ hold
    split
    · exact hloop
    · exact hloop
  · exact h

/-- Where the session is in the pool, nothing is left of it. -/
theorem PoolsInv.absent_disconnect (h : PoolsInv redis s) {sid : Sid}
    (hsid : sid ∈ s.session_pool) :
    Absent (s.disconnect redis sid) sid ∧ sid ∉ (s.disconnect redis sid).session_pool := by
  have husage : ∀ model_id connections,
      (s.usage_pool.keys.foldl (Pools.disconnectModel sid) s.usage_pool).get? model_id =
        some connections → sid ∉ connections := by
    intro model_id connections hget
    rw [get?_disconnectModels] at hget
    obtain ⟨old, -, hnew⟩ := Option.bind_eq_some_iff.mp hget
    unfold withoutSession at hnew
    split at hnew
    · rw [(someConnections_eq_some hnew).1, ← Dict.get?_eq_none_iff, Dict.get?_erase, if_pos rfl]
    · next hnot =>
      cases hnew
      exact hnot
  have hpool : sid ∉ s.session_pool.erase sid := by
    rw [← Dict.get?_eq_none_iff, Dict.get?_erase, if_pos rfl]
  unfold Pools.disconnect Pools.remove_user_from_all_documents
  rw [if_pos hsid]
  cases redis with
  | true =>
    refine ⟨⟨fun d hd => ?_, husage⟩, hpool⟩
    simp only [if_true] at hd
    split at hd
    · exact Finset.notMem_erase sid _ hd
    · next hnot => exact hnot (h.indexed rfl d sid hd)
  | false => exact ⟨⟨fun d => Finset.notMem_erase sid _, husage⟩, hpool⟩

theorem PoolsInv.disconnect (h : PoolsInv redis s) (sid : Sid) :
    PoolsInv redis (s.disconnect redis sid) := by
  refine ⟨noneEmpty_disconnect h.noneEmpty sid, fun hredis d sid' hsid' => ?_⟩
  by_cases hpool : sid ∈ s.session_pool
  · by_cases hs : sid' = sid
    · subst hs
      exact absurd hsid' ((h.absent_disconnect hpool).1.1 d)
    · have hindexed := h.indexed hredis
      simp only [Pools.disconnect, Pools.remove_user_from_all_documents, hredis, if_true, hpool]
        at hsid' ⊢
      rw [Function.update_of_ne hs]
      split at hsid'
      · exact hindexed d sid' (Finset.mem_of_mem_erase hsid')
      · exact hindexed d sid' hsid'
  · unfold Pools.disconnect at hsid' ⊢
    rw [if_neg hpool] at hsid' ⊢
    exact h.indexed hredis d sid' hsid'

/-- **Step lemma.** Every event keeps the invariant. -/
theorem PoolsInv.step (h : PoolsInv redis s) (hstep : poolStep redis s e = some s') :
    PoolsInv redis s' := by
  cases e with
  | connect sid user now | user_join sid user now =>
    cases hstep
    cases user with
    | none => exact h
    | some user => exact ⟨h.noneEmpty, h.indexed⟩
  | usage sid model_id now =>
    cases hstep
    refine ⟨h.noneEmpty.usage sid model_id now, ?_⟩
    unfold Pools.usage
    split
    · exact h.indexed
    · exact h.indexed
  | heartbeat sid now =>
    cases hstep
    unfold Pools.heartbeat
    split
    · exact ⟨h.noneEmpty, h.indexed⟩
    · exact h
  | join sid document_id allowed =>
    cases hstep
    exact h.join sid document_id allowed
  | leave sid document_id =>
    cases hstep
    exact h.leave sid document_id
  | reap now =>
    cases hstep
    exact ⟨h.noneEmpty, h.indexed⟩
  | expire now =>
    cases hstep
    refine ⟨fun model_id connections hget => ?_, h.indexed⟩
    unfold Pools.expire at hget
    dsimp only at hget
    rw [get?_expireModels] at hget
    obtain ⟨old, -, hnew⟩ := Option.bind_eq_some_iff.mp hget
    exact (someConnections_eq_some hnew).2
  | disconnect sid =>
    cases hstep
    exact h.disconnect sid

/-- The clean-up is complete exactly where the session is in the pool, or there is nothing to clean
up. -/
theorem PoolsInv.cleanUpComplete_iff (h : PoolsInv redis s) (e : PoolEvent Sid M Doc U) :
    CleanUpComplete redis s e ↔ PooledOrAbsent s e := by
  constructor
  · rintro hcomplete sid rfl
    by_cases hsid : sid ∈ s.session_pool
    · exact Or.inl hsid
    · have hafter := hcomplete sid rfl _ rfl
      unfold Pools.disconnect at hafter
      rw [if_neg hsid] at hafter
      exact Or.inr hafter.1
  · rintro hpooled sid rfl s' hstep
    cases hstep
    have hnone : NoneEmpty (s.disconnect redis sid) := noneEmpty_disconnect h.noneEmpty sid
    by_cases hsid : sid ∈ s.session_pool
    · exact ⟨(h.absent_disconnect hsid).1, (h.absent_disconnect hsid).2, hnone⟩
    · have hsame : s.disconnect redis sid = s := if_neg hsid
      rw [hsame]
      exact ⟨(hpooled sid rfl).resolve_left hsid, hsid, h.noneEmpty⟩

/-- **Session clean-up over runs.** In a run of events, with or without Redis, every disconnection
leaves nothing of its session if and only if each time the session is in the session pool, or there
is nothing to clean up. In every state that is reached no entry of `USAGE_POOL` is empty. -/
theorem clean_up_complete_iff_pooled (redis : Bool) (es : List (PoolEvent Sid M Doc U)) :
    (StepsMeet (poolStep redis) (CleanUpComplete redis) .start es ↔
      StepsMeet (poolStep redis) PooledOrAbsent .start es) ∧
    ∀ s, exec (poolStep redis) .start es = some s → NoneEmpty s := by
  constructor
  · exact stepsMeet_congr (fun s e h => h.cleanUpComplete_iff e) (fun s e s' h _ => h.step)
      poolsInv_start
  · intro s hrun
    exact (exec_invariant (fun s e s' h => PoolsInv.step h) poolsInv_start hrun).noneEmpty

/-- A session that missed its heartbeats is reaped; when it is disconnected later, it stays in the
user set of a document and in `USAGE_POOL`. -/
theorem reaped_session_not_cleaned_up : ¬ ∃ redis,
    StepsMeet (poolStep redis) (CleanUpComplete redis) (.start : Pools Unit Unit Unit Unit)
      [.connect () (some ()) 0, .usage () () 1, .join () () true, .reap 121, .disconnect ()] := by
  rintro ⟨redis, hmeet⟩
  have hlast := ((((hmeet.2 _ rfl).2 _ rfl).2 _ rfl).2 _ rfl).1
  have habsent := (hlast () rfl _ rfl).1
  cases redis
  · exact absurd (habsent.1 ()) (by decide)
  · exact absurd (habsent.1 ()) (by decide)

end OpenLaunch.Sockets
