import OpenLaunch.Transition
import Mathlib.Data.Int.Notation
import Mathlib.Logic.Function.Basic

/-! # Refreshing OAuth tokens

A caller of `get_oauth_token` reads the session, sends its refresh token to the provider if the
access token is about to expire, and stores what it gets; if the refresh fails, it deletes the
session. Each of these is a step of its own, and those of other callers come in between.

The provider rotates refresh tokens: it takes the token that it issued last, and issues another one;
a refresh with an older token fails. The client and its endpoints are configured, and the provider
answers. -/

namespace OpenLaunch.Auth

open Transition

universe u

/-! ## Callers -/

/-- What the provider issues: an access token and a refresh token, under their serial number, and
the access token's `expires_at`. -/
structure IssuedToken where
  serial : ℕ
  expires_at : Option ℤ
  deriving DecidableEq

/-- The row of the session. -/
structure OAuthSession where
  provider : String
  token : IssuedToken
  expires_at : Option ℤ
  deriving DecidableEq

/-- The two classes with a `get_oauth_token`: `OAuthManager` leaves a session of an MCP server to
`OAuthClientManager`. -/
inductive Manager
  | oauth
  | oauthClient
  deriving DecidableEq

/-- Where a call of `get_oauth_token` is. -/
inductive Phase
  | idle
  /-- It has read the session, and is to send the refresh token. -/
  | refreshing (token : IssuedToken)
  /-- The provider issued a new token, which is to be stored. -/
  | accepted (token : IssuedToken)
  /-- The new token is stored, and the row is to be read again. -/
  | stored
  /-- The provider refused, and the session is to be deleted. -/
  | rejected
  /-- It returned `None` for a session that is not its manager's. -/
  | skipped
  | returned (token : Option IssuedToken)
  deriving DecidableEq

/-- The session, the serial number of the token that the provider issued last, the calls, and those
whose refresh succeeded. -/
structure RefreshState (I : Type u) where
  session : Option OAuthSession
  current : ℕ
  phase : I → Phase
  succeeded : List I

/-- The steps of a call. Times are in seconds. -/
inductive RefreshEvent (I : Type u)
  /-- It reads the session, at the time `now`. -/
  | read (call : I) (manager : Manager) (force_refresh : Bool) (now : ℤ)
  /-- The provider answers; a new token expires at `expires_at`. -/
  | respond (call : I) (expires_at : Option ℤ)
  /-- `update_session_by_id` writes the row, at the time `now`. -/
  | store (call : I) (now : ℤ)
  /-- `update_session_by_id` reads the row that it returns. -/
  | reread (call : I)
  /-- `delete_session_by_id`. -/
  | delete (call : I)

/-- The refresh is forced, or the access token expires within five minutes. -/
def needsRefresh (force_refresh : Bool) (now : ℤ) (session : OAuthSession) : Bool :=
  force_refresh || session.expires_at.all fun expires_at => expires_at ≤ now + 5 * 60

/-- The session belongs to the manager. -/
def Manager.handles (manager : Manager) (session : OAuthSession) : Bool :=
  match manager with
  | .oauth => !session.provider.startsWith "mcp:"
  | .oauthClient => true

/-- What a call does with the session that it reads. -/
def phaseAfterRead (manager : Manager) (force_refresh : Bool) (now : ℤ) :
    Option OAuthSession → Phase
  | none => .returned none
  | some session =>
    if manager.handles session then
      if needsRefresh force_refresh now session then .refreshing session.token
      else .returned (some session.token)
    else .skipped

/-- `token.get('expires_at') or int(time.time() + 3600)`. -/
def storedExpiry (now : ℤ) (token : IssuedToken) : ℤ :=
  if token.expires_at.getD 0 = 0 then now + 3600 else token.expires_at.getD 0

/-- The row with a new token. -/
def OAuthSession.withToken (session : OAuthSession) (now : ℤ) (token : IssuedToken) :
    OAuthSession :=
  { session with token := token, expires_at := some (storedExpiry now token) }

variable {I : Type u} [DecidableEq I]

/-- The state with a call in another phase. -/
def RefreshState.setPhase (s : RefreshState I) (i : I) (p : Phase) : RefreshState I :=
  { s with phase := Function.update s.phase i p }

/-- The provider takes the token that it issued last. -/
def RefreshState.respond (s : RefreshState I) (i : I) (token : IssuedToken)
    (expires_at : Option ℤ) : RefreshState I :=
  if token.serial = s.current then
    { s.setPhase i (.accepted ⟨s.current + 1, expires_at⟩) with
      current := s.current + 1
      succeeded := i :: s.succeeded }
  else s.setPhase i .rejected

/-- One step. An update of a deleted row writes nothing, and the call returns `None`. -/
def refreshStep (s : RefreshState I) : RefreshEvent I → Option (RefreshState I)
  | .read i manager force_refresh now =>
    match s.phase i with
    | .idle => some (s.setPhase i (phaseAfterRead manager force_refresh now s.session))
    | _ => none
  | .respond i expires_at =>
    match s.phase i with
    | .refreshing token => some (s.respond i token expires_at)
    | _ => none
  | .store i now =>
    match s.phase i with
    | .accepted token =>
      some { s.setPhase i .stored with session := s.session.map (·.withToken now token) }
    | _ => none
  | .reread i =>
    match s.phase i with
    | .stored => some (s.setPhase i (.returned (s.session.map OAuthSession.token)))
    | _ => none
  | .delete i =>
    match s.phase i with
    | .rejected => some { s.setPhase i (.returned none) with session := none }
    | _ => none

/-- Before any call, with a session that has the provider's last token. -/
def RefreshState.start (session : OAuthSession) : RefreshState I :=
  ⟨some session, session.token.serial, fun _ => .idle, []⟩

/-- Every call that began has returned. -/
def AllReturned (s : RefreshState I) : Prop :=
  ∀ i, s.phase i = .idle ∨ s.phase i = .skipped ∨ ∃ token, s.phase i = .returned token

/-- **The login is kept**: once a refresh has succeeded, the session is there with the newest token,
and no call returned without one. -/
def KeepsLogin (s : RefreshState I) : Prop :=
  s.succeeded ≠ [] →
    (∃ session, s.session = some session ∧ session.token.serial = s.current) ∧
      ∀ i, s.phase i ≠ .returned none

/-- **One refresh at a time**: a call reads a session that it is to refresh only when no other call
is between its read and its update. -/
def OneAtATime (s : RefreshState I) : RefreshEvent I → Prop
  | .read _ manager force_refresh now => ∀ session, s.session = some session →
      manager.handles session = true → needsRefresh force_refresh now session = true →
        ∀ j token, s.phase j ≠ .refreshing token ∧ s.phase j ≠ .accepted token
  | _ => True

end OpenLaunch.Auth

/-! ## Refreshes that overlap

Two calls that read the session before either refresh is stored send the same refresh token. The
provider takes it once; the other call is refused, and deletes the session, which the first call may
have stored its new token in. So the login is kept exactly if no call reads a session to refresh it
while another call is refreshing. -/

namespace OpenLaunch.Auth

open Transition

universe u

variable {I : Type u} [DecidableEq I] {s s' : RefreshState I} {i j : I} {p : Phase}
  {token : IssuedToken} {e : RefreshEvent I}

/-! ## Phases -/

theorem phase_setPhase_self (s : RefreshState I) (i : I) (p : Phase) :
    (s.setPhase i p).phase i = p := Function.update_self ..

theorem phase_setPhase_ne (s : RefreshState I) (p : Phase) (h : j ≠ i) :
    (s.setPhase i p).phase j = s.phase j := Function.update_of_ne h ..

/-- Another phase of a call than the one that is set is that of before, of another call. -/
theorem phase_of_setPhase {q : Phase} (h : (s.setPhase i p).phase j = q) (hne : p ≠ q) :
    j ≠ i ∧ s.phase j = q := by
  by_cases hji : j = i
  · subst hji
    rw [phase_setPhase_self] at h
    exact absurd h hne
  · exact ⟨hji, (phase_setPhase_ne s p hji).symm.trans h⟩

/-! ## The invariant -/

/-- The session does not have the newest token, and no call is to send it. -/
def Behind (s : RefreshState I) : Prop :=
  (∀ session, s.session = some session → session.token.serial < s.current) ∧
    ∀ i token, s.phase i = .refreshing token → token.serial < s.current

/-- What holds in every state: no token is newer than the provider's last one, a new token that is
to be stored is the only one, and it is newer than all others; and before the first success the
session and the calls have the provider's last token. -/
structure RefreshInv (s : RefreshState I) : Prop where
  session_le : ∀ session, s.session = some session → session.token.serial ≤ s.current
  refreshing_le : ∀ i token, s.phase i = .refreshing token → token.serial ≤ s.current
  accepted : ∀ i token, s.phase i = .accepted token → token.serial = s.current ∧ Behind s ∧
    ∀ j token', s.phase j = .accepted token' → j = i
  before : s.succeeded = [] →
    (∃ session, s.session = some session ∧ session.token.serial = s.current) ∧
      ∀ i, s.phase i ≠ .rejected ∧ ∀ token, s.phase i = .refreshing token →
        token.serial = s.current

theorem refreshInv_start (session : OAuthSession) :
    RefreshInv (RefreshState.start session : RefreshState I) where
  session_le session' h := by
    cases h
    exact Nat.le_refl _
  refreshing_le i token h := by cases h
  accepted i token h := by cases h
  before _ := ⟨⟨session, rfl, rfl⟩,
    fun i => ⟨by simp [RefreshState.start], fun token h => by cases h⟩⟩

/-- A call goes to a phase in which it sends nothing and has nothing to store. -/
theorem RefreshInv.setPhase (h : RefreshInv s) (hrefreshing : ∀ token, p ≠ .refreshing token)
    (haccepted : ∀ token, p ≠ .accepted token) (hrejected : p = .rejected → s.succeeded ≠ []) :
    RefreshInv (s.setPhase i p) where
  session_le := h.session_le
  refreshing_le j token hj :=
    h.refreshing_le j token (phase_of_setPhase hj (hrefreshing token)).2
  accepted j token hj := by
    obtain ⟨hserial, hbehind, honly⟩ :=
      h.accepted j token (phase_of_setPhase hj (haccepted token)).2
    refine ⟨hserial, ⟨hbehind.1, fun k token' hk => ?_⟩, fun k token' hk => ?_⟩
    · exact hbehind.2 k token' (phase_of_setPhase hk (hrefreshing token')).2
    · exact honly k token' (phase_of_setPhase hk (haccepted token')).2
  before hnone := by
    obtain ⟨hsession, hphases⟩ := h.before hnone
    refine ⟨hsession, fun j => ⟨fun hj => ?_, fun token hj => ?_⟩⟩
    · have hne : p ≠ .rejected := fun hp => hrejected hp hnone
      exact (hphases j).1 (phase_of_setPhase hj hne).2
    · exact (hphases j).2 token (phase_of_setPhase hj (hrefreshing token)).2

/-- A call reads a session that it is to refresh. -/
theorem RefreshInv.read (h : RefreshInv s) {session : OAuthSession}
    (hsession : s.session = some session) :
    RefreshInv (s.setPhase i (.refreshing session.token)) := by
  have hphase : ∀ {j token}, (s.setPhase i (.refreshing session.token)).phase j =
      .refreshing token → s.phase j = .refreshing token ∨ token = session.token := by
    intro j token hj
    by_cases hji : j = i
    · subst hji
      rw [phase_setPhase_self] at hj
      exact .inr (Phase.refreshing.inj hj).symm
    · exact .inl ((phase_setPhase_ne s _ hji).symm.trans hj)
  refine ⟨h.session_le, fun j token hj => ?_, fun j token hj => ?_, fun hnone => ?_⟩
  · rcases hphase hj with hbefore | rfl
    · exact h.refreshing_le j token hbefore
    · exact h.session_le session hsession
  · obtain ⟨hserial, hbehind, honly⟩ :=
      h.accepted j token (phase_of_setPhase hj (by simp)).2
    refine ⟨hserial, ⟨hbehind.1, fun k token' hk => ?_⟩, fun k token' hk => ?_⟩
    · rcases hphase hk with hbefore | rfl
      · exact hbehind.2 k token' hbefore
      · exact hbehind.1 session hsession
    · exact honly k token' (phase_of_setPhase hk (by simp)).2
  · obtain ⟨⟨session', hsession', hserial⟩, hphases⟩ := h.before hnone
    rw [hsession] at hsession'
    cases hsession'
    refine ⟨⟨session, hsession, hserial⟩, fun j => ⟨fun hj => ?_, fun token hj => ?_⟩⟩
    · exact (hphases j).1 (phase_of_setPhase hj (by simp)).2
    · rcases hphase hj with hbefore | rfl
      · exact (hphases j).2 token hbefore
      · exact hserial

/-- **The provider answers.** It takes the token only if no other new token is to be stored, for
then every call is behind. -/
theorem RefreshInv.respond (h : RefreshInv s) (ht : s.phase i = .refreshing token)
    (expires_at : Option ℤ) : RefreshInv (s.respond i token expires_at) := by
  unfold RefreshState.respond
  split
  · rename_i hcurrent
    have hnone : ∀ j token', s.phase j ≠ .accepted token' := by
      intro j token' hj
      have hlt := (h.accepted j token' hj).2.1.2 i token ht
      omega
    have hphase : ∀ {j q}, (s.setPhase i (.accepted ⟨s.current + 1, expires_at⟩)).phase j = q →
        q ≠ .accepted ⟨s.current + 1, expires_at⟩ → s.phase j = q :=
      fun hj hne => (phase_of_setPhase hj hne.symm).2
    refine ⟨fun session hsession => ?_, fun j token' hj => ?_, fun j token' hj => ?_,
      fun hnil => ?_⟩
    · exact Nat.le_succ_of_le (h.session_le session hsession)
    · exact Nat.le_succ_of_le (h.refreshing_le j token' (hphase hj (by simp)))
    · have hown : ∀ {k token''}, (s.setPhase i (.accepted ⟨s.current + 1, expires_at⟩)).phase k =
          .accepted token'' → k = i ∧ token'' = ⟨s.current + 1, expires_at⟩ := by
        intro k token'' hk
        by_cases hki : k = i
        · subst hki
          rw [phase_setPhase_self] at hk
          exact ⟨rfl, (Phase.accepted.inj hk).symm⟩
        · exact absurd ((phase_setPhase_ne s _ hki).symm.trans hk) (hnone k token'')
      obtain ⟨rfl, rfl⟩ := hown hj
      refine ⟨rfl, ⟨fun session hsession => ?_, fun k token'' hk => ?_⟩, fun k token'' hk =>
        (hown hk).1⟩
      · exact Nat.lt_succ_of_le (h.session_le session hsession)
      · exact Nat.lt_succ_of_le (h.refreshing_le k token'' (hphase hk (by simp)))
    · cases hnil
  · rename_i hstale
    refine h.setPhase (by simp) (by simp) fun _ hnone => ?_
    exact hstale (((h.before hnone).2 i).2 token ht)

/-- A new token that is to be stored has succeeded. -/
theorem RefreshInv.succeeded_of_accepted (h : RefreshInv s) (hi : s.phase i = .accepted token) :
    s.succeeded ≠ [] := by
  intro hnil
  obtain ⟨⟨session, hsession, hserial⟩, -⟩ := h.before hnil
  have hlt := (h.accepted i token hi).2.1.1 session hsession
  omega

/-- The new token is stored: no other one is to be. -/
theorem RefreshInv.store (h : RefreshInv s) (hi : s.phase i = .accepted token) (now : ℤ) :
    RefreshInv { s.setPhase i .stored with session := s.session.map (·.withToken now token) } := by
  obtain ⟨hserial, hbehind, honly⟩ := h.accepted i token hi
  refine ⟨fun session hsession => ?_, fun j token' hj => ?_, fun j token' hj => ?_,
    fun hnil => absurd hnil (h.succeeded_of_accepted hi)⟩
  · obtain ⟨old, -, rfl⟩ := Option.map_eq_some_iff.mp hsession
    exact Nat.le_of_eq hserial
  · exact h.refreshing_le j token' (phase_of_setPhase hj (by simp)).2
  · obtain ⟨hji, hbefore⟩ := phase_of_setPhase hj (by simp)
    exact absurd (honly j token' hbefore) hji

/-- The session is deleted after a refusal. -/
theorem RefreshInv.delete (h : RefreshInv s) (hi : s.phase i = .rejected) :
    RefreshInv { s.setPhase i (.returned none) with session := none } := by
  have hset : RefreshInv (s.setPhase i (.returned none)) :=
    h.setPhase (by simp) (by simp) fun hp => by cases hp
  refine ⟨?_, hset.refreshing_le, fun j token hj => ?_,
    fun hnil => absurd hi ((h.before hnil).2 i).1⟩
  · intro session hsession
    cases hsession
  · obtain ⟨hserial, hbehind, honly⟩ := hset.accepted j token hj
    refine ⟨hserial, ⟨?_, hbehind.2⟩, honly⟩
    intro session hsession
    cases hsession

/-- What a call does with the session is to return, or to refresh the session's token. -/
theorem phaseAfterRead_cases (manager : Manager) (force_refresh : Bool) (now : ℤ)
    (session : Option OAuthSession) :
    (phaseAfterRead manager force_refresh now session = .skipped) ∨
      (phaseAfterRead manager force_refresh now session =
        .returned (session.map OAuthSession.token)) ∨
      ∃ found, session = some found ∧ manager.handles found = true ∧
        needsRefresh force_refresh now found = true ∧
        phaseAfterRead manager force_refresh now session = .refreshing found.token := by
  cases session with
  | none => exact .inr (.inl rfl)
  | some found =>
    unfold phaseAfterRead
    dsimp only
    split
    · rename_i hhandles
      split
      · rename_i hneeds
        exact .inr (.inr ⟨found, rfl, hhandles, hneeds, rfl⟩)
      · exact .inr (.inl rfl)
    · exact .inl rfl

/-- **What a step does**, with the phase that its call was in. -/
theorem refreshStep_cases (h : refreshStep s e = some s') :
    (∃ i manager force_refresh now, e = .read i manager force_refresh now ∧ s.phase i = .idle ∧
        s' = s.setPhase i (phaseAfterRead manager force_refresh now s.session)) ∨
      (∃ i expires_at token, e = .respond i expires_at ∧ s.phase i = .refreshing token ∧
        s' = s.respond i token expires_at) ∨
      (∃ i now token, e = .store i now ∧ s.phase i = .accepted token ∧
        s' = { s.setPhase i .stored with session := s.session.map (·.withToken now token) }) ∨
      (∃ i, e = .reread i ∧ s.phase i = .stored ∧
        s' = s.setPhase i (.returned (s.session.map OAuthSession.token))) ∨
      ∃ i, e = .delete i ∧ s.phase i = .rejected ∧
        s' = { s.setPhase i (.returned none) with session := none } := by
  cases e with
  | read i manager force_refresh now =>
    unfold refreshStep at h
    dsimp only at h
    split at h
    · rename_i hi
      cases h
      exact .inl ⟨i, manager, force_refresh, now, rfl, hi, rfl⟩
    · cases h
  | respond i expires_at =>
    unfold refreshStep at h
    dsimp only at h
    split at h
    · rename_i token hi
      cases h
      exact .inr (.inl ⟨i, expires_at, token, rfl, hi, rfl⟩)
    · cases h
  | store i now =>
    unfold refreshStep at h
    dsimp only at h
    split at h
    · rename_i token hi
      cases h
      exact .inr (.inr (.inl ⟨i, now, token, rfl, hi, rfl⟩))
    · cases h
  | reread i =>
    unfold refreshStep at h
    dsimp only at h
    split at h
    · rename_i hi
      cases h
      exact .inr (.inr (.inr (.inl ⟨i, rfl, hi, rfl⟩)))
    · cases h
  | delete i =>
    unfold refreshStep at h
    dsimp only at h
    split at h
    · rename_i hi
      cases h
      exact .inr (.inr (.inr (.inr ⟨i, rfl, hi, rfl⟩)))
    · cases h

/-- **Step lemma.** -/
theorem RefreshInv.step (h : RefreshInv s) (hstep : refreshStep s e = some s') :
    RefreshInv s' := by
  obtain ⟨i, manager, force_refresh, now, -, -, rfl⟩ | ⟨i, expires_at, token, -, hi, rfl⟩ |
    ⟨i, now, token, -, hi, rfl⟩ | ⟨i, -, -, rfl⟩ | ⟨i, -, hi, rfl⟩ := refreshStep_cases hstep
  · rcases phaseAfterRead_cases manager force_refresh now s.session with hphase | hphase |
      ⟨session, hsession, -, -, hphase⟩
    · rw [hphase]
      exact h.setPhase (by simp) (by simp) fun hp => by cases hp
    · rw [hphase]
      exact h.setPhase (by simp) (by simp) fun hp => by cases hp
    · rw [hphase]
      exact h.read hsession
  · exact h.respond hi expires_at
  · exact h.store hi now
  · exact h.setPhase (by simp) (by simp) fun hp => by cases hp
  · exact h.delete hi

/-! ## Overlapping refreshes -/

/-- The login is lost, or is to be: the session is deleted, or a call was refused, or holds a token
that is no longer the last one, or two calls are to send a token. -/
def Lost (s : RefreshState I) : Prop :=
  s.session = none ∨ (∃ i, s.phase i = .rejected) ∨
    (∃ i token, s.phase i = .refreshing token ∧ token.serial < s.current) ∨
    ∃ i j token token', i ≠ j ∧ s.phase i = .refreshing token ∧ s.phase j = .refreshing token'

/-- A breach: the session is read for a refresh while another call is refreshing. -/
theorem RefreshInv.lost_of_breach (h : RefreshInv s) (hbreach : ¬ OneAtATime s e)
    (hstep : refreshStep s e = some s') : Lost s' := by
  obtain ⟨i, manager, force_refresh, now, rfl, hi, rfl⟩ | ⟨i, _, _, rfl, -⟩ | ⟨i, _, _, rfl, -⟩ |
    ⟨i, rfl, -⟩ | ⟨i, rfl, -⟩ := refreshStep_cases hstep
  · unfold OneAtATime at hbreach
    push Not at hbreach
    obtain ⟨session, hsession, hhandles, hneeds, j, token, hj⟩ := hbreach
    have hphase : phaseAfterRead manager force_refresh now s.session =
        .refreshing session.token := by
      unfold phaseAfterRead
      rw [hsession]
      dsimp only
      rw [if_pos hhandles, if_pos hneeds]
    rw [hphase]
    have hself := phase_setPhase_self s i (.refreshing session.token)
    by_cases hrefreshing : s.phase j = .refreshing token
    · have hji : j ≠ i := by
        rintro rfl
        rw [hi] at hrefreshing
        cases hrefreshing
      exact .inr (.inr (.inr ⟨i, j, _, token, hji.symm, hself,
        (phase_setPhase_ne s _ hji).trans hrefreshing⟩))
    · have hbehind := (h.accepted j token (hj hrefreshing)).2.1
      exact .inr (.inr (.inl ⟨i, _, hself, hbehind.1 session hsession⟩))
  all_goals exact absurd trivial hbreach

/-- The call of an event. -/
def RefreshEvent.call : RefreshEvent I → I
  | .read i _ _ _ | .respond i _ | .store i _ | .reread i | .delete i => i

/-- The other calls stay where they are. -/
theorem phase_of_step (hstep : refreshStep s e = some s') (hj : j ≠ e.call) :
    s'.phase j = s.phase j := by
  obtain ⟨i, _, _, _, rfl, -, rfl⟩ | ⟨i, _, token, rfl, -, rfl⟩ | ⟨i, _, _, rfl, -, rfl⟩ |
    ⟨i, rfl, -, rfl⟩ | ⟨i, rfl, -, rfl⟩ := refreshStep_cases hstep
  · exact phase_setPhase_ne s _ hj
  · unfold RefreshState.respond
    split <;> exact phase_setPhase_ne s _ hj
  · exact phase_setPhase_ne s _ hj
  · exact phase_setPhase_ne s _ hj
  · exact phase_setPhase_ne s _ hj

theorem current_le_of_step (hstep : refreshStep s e = some s') : s.current ≤ s'.current := by
  obtain ⟨i, _, _, _, rfl, -, rfl⟩ | ⟨i, _, token, rfl, -, rfl⟩ | ⟨i, _, _, rfl, -, rfl⟩ |
    ⟨i, rfl, -, rfl⟩ | ⟨i, rfl, -, rfl⟩ := refreshStep_cases hstep
  · exact Nat.le_refl _
  · unfold RefreshState.respond
    split
    · exact Nat.le_succ _
    · exact Nat.le_refl _
  · exact Nat.le_refl _
  · exact Nat.le_refl _
  · exact Nat.le_refl _

/-- A step of a call that is to send a token is the provider's answer. -/
theorem step_of_refreshing (hi : s.phase e.call = .refreshing token)
    (hstep : refreshStep s e = some s') : ∃ expires_at, s' = s.respond e.call token expires_at := by
  obtain ⟨i, _, _, _, rfl, hi', -⟩ | ⟨i, expires_at, token', rfl, hi', rfl⟩ |
    ⟨i, _, _, rfl, hi', -⟩ | ⟨i, rfl, hi', -⟩ | ⟨i, rfl, hi', -⟩ := refreshStep_cases hstep
  · cases hi'.symm.trans hi
  · cases hi'.symm.trans hi
    exact ⟨expires_at, rfl⟩
  · cases hi'.symm.trans hi
  · cases hi'.symm.trans hi
  · cases hi'.symm.trans hi

theorem session_none_of_step (hnone : s.session = none) (hstep : refreshStep s e = some s') :
    s'.session = none := by
  obtain ⟨i, _, _, _, rfl, -, rfl⟩ | ⟨i, _, token, rfl, -, rfl⟩ | ⟨i, _, _, rfl, -, rfl⟩ |
    ⟨i, rfl, -, rfl⟩ | ⟨i, rfl, -, rfl⟩ := refreshStep_cases hstep
  · exact hnone
  · unfold RefreshState.respond
    split <;> exact hnone
  · exact congrArg (Option.map _) hnone
  · exact hnone
  · rfl

/-- **A lost login stays lost.** -/
theorem RefreshInv.lost_step (h : RefreshInv s) (hlost : Lost s)
    (hstep : refreshStep s e = some s') : Lost s' := by
  have hle := current_le_of_step hstep
  -- a call that sends an old token is refused
  have hold : ∀ {i token}, s.phase i = .refreshing token → token.serial < s.current → Lost s' := by
    intro i token hi hlt
    by_cases hcall : i = e.call
    · rw [hcall] at hi
      obtain ⟨expires_at, rfl⟩ := step_of_refreshing hi hstep
      refine .inr (.inl ⟨e.call, ?_⟩)
      unfold RefreshState.respond
      rw [if_neg (Nat.ne_of_lt hlt)]
      exact phase_setPhase_self ..
    · exact .inr (.inr (.inl ⟨i, token, (phase_of_step hstep hcall).trans hi,
        Nat.lt_of_lt_of_le hlt hle⟩))
  -- one of two calls is answered: the other one is refused, or holds an old token then
  have hpair : ∀ {i j token token'}, i ≠ j → s.phase i = .refreshing token →
      s.phase j = .refreshing token' → i = e.call → Lost s' := by
    intro i j token token' hij hi hj hcall
    rw [hcall] at hi hij
    obtain ⟨expires_at, rfl⟩ := step_of_refreshing hi hstep
    have hj' := (phase_of_step hstep hij.symm).trans hj
    by_cases hcurrent : token.serial = s.current
    · refine .inr (.inr (.inl ⟨j, token', hj', ?_⟩))
      unfold RefreshState.respond
      rw [if_pos hcurrent]
      exact Nat.lt_succ_of_le (h.refreshing_le j token' hj)
    · refine .inr (.inl ⟨e.call, ?_⟩)
      unfold RefreshState.respond
      rw [if_neg hcurrent]
      exact phase_setPhase_self ..
  rcases hlost with hnone | ⟨i, hi⟩ | ⟨i, token, hi, hlt⟩ | ⟨i, j, token, token', hij, hi, hj⟩
  · exact .inl (session_none_of_step hnone hstep)
  · by_cases hcall : i = e.call
    · rw [hcall] at hi
      obtain ⟨k, _, _, _, rfl, hk, -⟩ | ⟨k, _, _, rfl, hk, -⟩ | ⟨k, _, _, rfl, hk, -⟩ |
        ⟨k, rfl, hk, -⟩ | ⟨k, rfl, -, rfl⟩ := refreshStep_cases hstep
      · cases hk.symm.trans hi
      · cases hk.symm.trans hi
      · cases hk.symm.trans hi
      · cases hk.symm.trans hi
      · exact .inl rfl
    · exact .inr (.inl ⟨i, (phase_of_step hstep hcall).trans hi⟩)
  · exact hold hi hlt
  · by_cases hicall : i = e.call
    · exact hpair hij hi hj hicall
    · by_cases hjcall : j = e.call
      · exact hpair hij.symm hj hi hjcall
      · exact .inr (.inr (.inr ⟨i, j, token, token', hij, (phase_of_step hstep hicall).trans hi,
          (phase_of_step hstep hjcall).trans hj⟩))

/-! ## One refresh at a time -/

/-- The session is there with the newest token, unless that is to be stored; the call that is to
send a token holds the newest one, and no other call is refreshing; and no call is without a token.
-/
structure Kept (s : RefreshState I) : Prop where
  session : ∃ session, s.session = some session ∧
    (session.token.serial = s.current ∨ ∃ i token, s.phase i = .accepted token)
  refreshing : ∀ i token, s.phase i = .refreshing token → token.serial = s.current ∧
    ∀ j token', (s.phase j = .refreshing token' → j = i) ∧ s.phase j ≠ .accepted token'
  clean : ∀ i, s.phase i ≠ .rejected ∧ s.phase i ≠ .returned none

theorem kept_start (session : OAuthSession) :
    Kept (RefreshState.start session : RefreshState I) where
  session := ⟨session, rfl, .inl rfl⟩
  refreshing i token h := by cases h
  clean i := ⟨by simp [RefreshState.start], by simp [RefreshState.start]⟩

/-- A call that was not refreshing, or has stored its token, goes on. -/
theorem Kept.setPhase (h : Kept s) (hold : ∀ token, s.phase i ≠ .accepted token)
    (hrefreshing : ∀ token, p ≠ .refreshing token) (haccepted : ∀ token, p ≠ .accepted token)
    (hclean : p ≠ .rejected ∧ p ≠ .returned none) : Kept (s.setPhase i p) where
  session := by
    obtain ⟨session, hsession, hnewest⟩ := h.session
    refine ⟨session, hsession, ?_⟩
    rcases hnewest with hserial | ⟨j, token, hj⟩
    · exact .inl hserial
    · refine .inr ⟨j, token, (phase_setPhase_ne s p ?_).trans hj⟩
      rintro rfl
      exact hold token hj
  refreshing j token hj := by
    obtain ⟨hserial, honly⟩ := h.refreshing j token (phase_of_setPhase hj (hrefreshing token)).2
    refine ⟨hserial, fun k token' => ⟨fun hk => ?_, fun hk => ?_⟩⟩
    · exact (honly k token').1 (phase_of_setPhase hk (hrefreshing token')).2
    · exact (honly k token').2 (phase_of_setPhase hk (haccepted token')).2
  clean j := by
    constructor
    · exact fun hj => (h.clean j).1 (phase_of_setPhase hj hclean.1).2
    · exact fun hj => (h.clean j).2 (phase_of_setPhase hj hclean.2).2

/-- **Step lemma**, one refresh at a time. -/
theorem Kept.step (h : Kept s) (hinv : RefreshInv s) (hone : OneAtATime s e)
    (hstep : refreshStep s e = some s') : Kept s' := by
  obtain ⟨i, manager, force_refresh, now, rfl, hi, rfl⟩ | ⟨i, expires_at, token, -, hi, rfl⟩ |
    ⟨i, now, token, -, hi, rfl⟩ | ⟨i, -, hi, rfl⟩ | ⟨i, -, hi, rfl⟩ := refreshStep_cases hstep
  · have hold : ∀ token, s.phase i ≠ .accepted token := by
      rw [hi]
      simp
    obtain ⟨session, hsession, hnewest⟩ := h.session
    rcases phaseAfterRead_cases manager force_refresh now s.session with hphase | hphase |
      ⟨found, hfound, hhandles, hneeds, hphase⟩
    · rw [hphase]
      exact h.setPhase hold (by simp) (by simp) (by simp)
    · rw [hphase, hsession]
      exact h.setPhase hold (by simp) (by simp) (by simp)
    · -- no other call is refreshing, so the session has the newest token
      have hfree := hone found hfound hhandles hneeds
      rw [hphase]
      rw [hsession] at hfound
      cases hfound
      have hserial : session.token.serial = s.current := by
        rcases hnewest with hserial | ⟨j, token, hj⟩
        · exact hserial
        · exact absurd hj (hfree j token).2
      have hself : ∀ {j token}, (s.setPhase i (.refreshing session.token)).phase j =
          .refreshing token → j = i ∧ token = session.token := by
        intro j token hj
        by_cases hji : j = i
        · subst hji
          rw [phase_setPhase_self] at hj
          exact ⟨rfl, (Phase.refreshing.inj hj).symm⟩
        · exact absurd ((phase_setPhase_ne s _ hji).symm.trans hj) (hfree j token).1
      refine ⟨⟨session, hsession, .inl hserial⟩, fun j token hj => ?_, fun j => ⟨?_, ?_⟩⟩
      · obtain ⟨rfl, rfl⟩ := hself hj
        refine ⟨hserial, fun k token' => ⟨fun hk => (hself hk).1, fun hk => ?_⟩⟩
        exact (hfree k token').2 (phase_of_setPhase hk (by simp)).2
      · exact fun hj => (h.clean j).1 (phase_of_setPhase hj (by simp)).2
      · exact fun hj => (h.clean j).2 (phase_of_setPhase hj (by simp)).2
  · obtain ⟨hserial, honly⟩ := h.refreshing i token hi
    obtain ⟨session, hsession, -⟩ := h.session
    unfold RefreshState.respond
    rw [if_pos hserial]
    refine ⟨⟨session, hsession, .inr ⟨i, _, phase_setPhase_self ..⟩⟩, fun j token' hj => ?_,
      fun j => ⟨?_, ?_⟩⟩
    · obtain ⟨hji, hbefore⟩ := phase_of_setPhase hj (by simp)
      exact absurd ((honly j token').1 hbefore) hji
    · exact fun hj => (h.clean j).1 (phase_of_setPhase hj (by simp)).2
    · exact fun hj => (h.clean j).2 (phase_of_setPhase hj (by simp)).2
  · obtain ⟨hserial, -, honly⟩ := hinv.accepted i token hi
    obtain ⟨session, hsession, -⟩ := h.session
    refine ⟨⟨session.withToken now token, ?_, .inl hserial⟩, fun j token' hj => ?_,
      fun j => ⟨?_, ?_⟩⟩
    · exact congrArg (Option.map _) hsession
    · -- a call that is to send a token excludes one that has one to store
      have hbefore := (phase_of_setPhase hj (by simp)).2
      exact absurd hi (((h.refreshing j token' hbefore).2 i token).2)
    · exact fun hj => (h.clean j).1 (phase_of_setPhase hj (by simp)).2
    · exact fun hj => (h.clean j).2 (phase_of_setPhase hj (by simp)).2
  · obtain ⟨session, hsession, -⟩ := h.session
    rw [hsession]
    refine h.setPhase ?_ (by simp) (by simp) (by simp)
    rw [hi]
    simp
  · exact absurd hi (h.clean i).1

/-! ## Complete runs -/

/-- **The login is kept exactly if the refreshes do not overlap**, in every run after which all
calls have returned: when a refresh has succeeded, the session is there with the newest token and no
call returned without one exactly if no call read the session for a refresh while another was
refreshing. -/
theorem keepsLogin_iff_oneAtATime {I : Type u} [DecidableEq I] (session : OAuthSession)
    {run : List (RefreshEvent I)} {s : RefreshState I}
    (hrun : exec refreshStep (.start session) run = some s) (hdone : AllReturned s) :
    KeepsLogin s ↔ StepsMeet refreshStep OneAtATime (.start session) run := by
  have hinv : RefreshInv s := exec_invariant (fun _ _ _ h hstep => h.step hstep)
    (refreshInv_start session) hrun
  constructor
  · intro hkeeps
    by_contra hoverlap
    have hlost : Lost s := exec_of_not_stepsMeet (fun _ _ _ h hstep => h.step hstep)
      (fun _ _ _ h hbreach hstep => h.lost_of_breach hbreach hstep)
      (fun _ _ _ h hlost hstep => h.lost_step hlost hstep) (refreshInv_start session) hoverlap hrun
    have hnone : s.session = none := by
      rcases hlost with hnone | ⟨i, hi⟩ | ⟨i, token, hi, -⟩ | ⟨i, -, token, -, -, hi, -⟩
      · exact hnone
      all_goals
        rcases hdone i with hphase | hphase | ⟨result, hphase⟩ <;> cases hphase.symm.trans hi
    have hsucceeded : s.succeeded ≠ [] := by
      intro hnil
      obtain ⟨⟨found, hfound, -⟩, -⟩ := hinv.before hnil
      rw [hnone] at hfound
      cases hfound
    obtain ⟨⟨found, hfound, -⟩, -⟩ := hkeeps hsucceeded
    rw [hnone] at hfound
    cases hfound
  · intro hone
    have hkept : RefreshInv s ∧ Kept s := exec_invariant_of_stepsMeet
      (P := fun t => RefreshInv t ∧ Kept t)
      (fun _ _ _ h hC hstep => ⟨h.1.step hstep, h.2.step h.1 hC hstep⟩)
      ⟨refreshInv_start session, kept_start session⟩ hone hrun
    obtain ⟨found, hfound, hnewest⟩ := hkept.2.session
    refine fun _ => ⟨⟨found, hfound, ?_⟩, fun i => (hkept.2.clean i).2⟩
    rcases hnewest with hserial | ⟨i, token, hi⟩
    · exact hserial
    · rcases hdone i with hphase | hphase | ⟨result, hphase⟩ <;> cases hphase.symm.trans hi

/-! ## Two callers -/

/-- A session that expired. -/
def expiredSession : OAuthSession := ⟨"idp", ⟨1, some 100⟩, some 100⟩

/-- One call after the other; the second one finds a fresh token. -/
def oneAfterTheOther : List (RefreshEvent Bool) :=
  [.read true .oauthClient false 200, .respond true (some 9000), .store true 201, .reread true,
    .read false .oauthClient false 202]

theorem oneAtATime_oneAfterTheOther :
    StepsMeet refreshStep OneAtATime (.start expiredSession) oneAfterTheOther := by
  refine .cons ?_ rfl (.cons trivial rfl (.cons trivial rfl (.cons trivial rfl (.cons ?_ rfl
    trivial))))
  · intro session _ _ _ j token
    exact ⟨by simp [RefreshState.start], by simp [RefreshState.start]⟩
  · intro session hsession _ hneeds
    cases hsession
    cases hneeds

/-- Both return with the new token. -/
theorem keepsLogin_oneAfterTheOther : ∃ s,
    exec refreshStep (.start expiredSession) oneAfterTheOther = some s ∧ s.succeeded = [true] ∧
      KeepsLogin s := by
  refine ⟨_, rfl, rfl, ?_⟩
  refine (keepsLogin_iff_oneAtATime expiredSession rfl ?_).mpr oneAtATime_oneAfterTheOther
  intro i
  cases i
  · exact .inr (.inr ⟨_, rfl⟩)
  · exact .inr (.inr ⟨_, rfl⟩)

/-- Two calls read the session; the provider takes the token of the first, and refuses the second,
which deletes the session. -/
theorem login_lost : ∃ s : RefreshState Bool,
    exec refreshStep (.start expiredSession)
      [.read true .oauthClient false 200, .read false .oauthClient false 200,
        .respond true (some 9000), .respond false none, .store true 201, .reread true,
        .delete false] = some s ∧
      s.succeeded = [true] ∧ s.phase true = .returned (some ⟨2, some 9000⟩) ∧
      s.phase false = .returned none ∧ s.session = none :=
  ⟨_, rfl, rfl, rfl, rfl, rfl⟩

end OpenLaunch.Auth
