import OpenLaunch.Calendar.Alerts

/-! # One alert for each start time

Whether an event was alerted is one flag in its `meta`, which a tick reads before the alert and
writes after it, and which does not say for which start time. Two ticks that overlap alert an event
twice, and an event that is moved after its alert is passed over. Where ticks do not overlap on an
event and an edit leaves the flag as it has to be for the new start time, every start time is
alerted once. -/

namespace OpenLaunch.Calendar

open Python Transition

universe u

variable {I : Type u} [DecidableEq I]

/-! ## The condition -/

/-- The tick is to alert the event, or has alerted it and is to mark it. -/
def Tick.Pending (t : Tick) (id : String) : Prop :=
  t.marking = some id ∨ ∃ event, (id, event) ∈ t.upcoming ∧ event.alerted = false

/-- The tick of the instance is. -/
def PendingBy (s : AlertState I) (i : I) (id : String) : Prop :=
  ∃ t, s.tick i = some t ∧ t.Pending id

/-- Some tick is. -/
def Pending (s : AlertState I) (id : String) : Prop := ∃ i, PendingBy s i id

/-- **What the steps have to be like.** A tick does not read an event without the flag while another
tick is to alert or mark it; a tick marks what it alerted; a created event has no flag; and an edit
leaves the flag set exactly if the start time that it leaves was alerted, and changes neither while
a tick is to alert or mark the event. -/
def Orderly (settings : AlertSettings) (s : AlertState I) : AlertEvent I → Prop
  | .read _ lag => ∀ upcoming,
      get_upcoming_events settings s.events (s.clock - lag) = .ok upcoming →
        ∀ e ∈ upcoming, e.2.alerted = false → ¬ Pending s e.1
  | .mark _ stored => stored = true
  | .abort i => ∀ t, s.tick i = some t → t.marking = none
  | .create _ event => event.alerted = false
  | .update id form_data => ∀ event, s.events.get? id = some event →
      (¬ Pending s id → ((event.update form_data).alerted ↔
        (id, (event.update form_data).start_at) ∈ s.alertedPairs)) ∧
      (Pending s id → (event.update form_data).alerted = event.alerted ∧
        (event.update form_data).start_at = event.start_at)
  | .next _ | .elapse _ => True

/-! ## The invariant -/

/-- What a tick holds: each of its events once, those with the flag alerted, those without it as the
table has them and not alerted, and the one that it is to mark alerted and unmarked. -/
structure TickInv (events : Dict String CalendarEvent) (alerted : List (String × ℤ)) (t : Tick) :
    Prop where
  distinct : (t.upcoming.map Prod.fst).Nodup
  flagged : ∀ e ∈ t.upcoming, e.2.alerted = true → (e.1, e.2.start_at) ∈ alerted
  unflagged : ∀ e ∈ t.upcoming, e.2.alerted = false → (e.1, e.2.start_at) ∉ alerted ∧
    ∃ event, events.get? e.1 = some event ∧ event.start_at = e.2.start_at
  marking : ∀ id, t.marking = some id → id ∉ t.upcoming.map Prod.fst ∧
    ∃ event, events.get? id = some event ∧ (id, event.start_at) ∈ alerted
  now_ne_zero : t.now_ns ≠ 0

/-- The flag of an event says whether its start time was alerted, but for the events that a tick is
to mark, and no two ticks are to alert or mark one event. -/
structure AlertInv (s : AlertState I) : Prop where
  once : AlertedOnce s
  known : ∀ p ∈ s.alertedPairs, p.1 ∈ s.events
  flagged : ∀ id event, s.events.get? id = some event → event.alerted = true →
    (id, event.start_at) ∈ s.alertedPairs
  unflagged : ∀ id event, s.events.get? id = some event → event.alerted = false →
    (id, event.start_at) ∈ s.alertedPairs → ∃ i t, s.tick i = some t ∧ t.marking = some id
  tick : ∀ i t, s.tick i = some t → TickInv s.events s.alertedPairs t
  exclusive : ∀ id i j, PendingBy s i id → PendingBy s j id → i = j

theorem alertInv_start (clock : ℕ) : AlertInv (AlertState.start clock : AlertState I) where
  once := ⟨List.nodup_nil, fun p hp => by cases hp⟩
  known p hp := by cases hp
  flagged id event h := by cases h
  unflagged id event h := by cases h
  tick i t h := by cases h
  exclusive id i j h := by
    obtain ⟨t, ht, -⟩ := h
    cases ht

variable {settings : AlertSettings} {s s' : AlertState I} {i j : I} {t t' : Tick} {id : String}
  {event : CalendarEvent}

/-! ## Ticks -/

theorem tick_setTick_self (s : AlertState I) (i : I) (t : Option Tick) :
    (s.setTick i t).tick i = t := Function.update_self ..

theorem tick_setTick_ne (s : AlertState I) (t : Option Tick) (h : j ≠ i) :
    (s.setTick i t).tick j = s.tick j := Function.update_of_ne h ..

/-- What another tick is to do stays. -/
theorem pendingBy_setTick_ne (t : Option Tick) (h : j ≠ i) :
    PendingBy (s.setTick i t) j id ↔ PendingBy s j id := by
  unfold PendingBy
  rw [tick_setTick_ne s t h]

theorem pendingBy_setTick_self (t : Option Tick) :
    PendingBy (s.setTick i t) i id ↔ ∃ t', t = some t' ∧ t'.Pending id := by
  unfold PendingBy
  rw [tick_setTick_self]

/-- A tick that is to do no more than before, or only what no tick is to do. -/
theorem AlertInv.exclusive_setTick (h : AlertInv s) {new : Option Tick}
    (hpending : ∀ id t, new = some t → t.Pending id → PendingBy s i id ∨ ¬ Pending s id)
    (id : String) (j k : I) (hj : PendingBy (s.setTick i new) j id)
    (hk : PendingBy (s.setTick i new) k id) : j = k := by
  have hself : ∀ {k}, k ≠ i → PendingBy (s.setTick i new) i id →
      PendingBy (s.setTick i new) k id → False := by
    intro k hki hi hk
    rw [pendingBy_setTick_ne new hki] at hk
    obtain ⟨t, ht, hdo⟩ := (pendingBy_setTick_self new).mp hi
    rcases hpending id t ht hdo with hbefore | hnone
    · exact hki (h.exclusive id k i hk hbefore)
    · exact hnone ⟨k, hk⟩
  by_cases hji : j = i
  · by_cases hki : k = i
    · rw [hji, hki]
    · subst hji
      exact (hself hki hj hk).elim
  · by_cases hki : k = i
    · subst hki
      exact (hself hji hk hj).elim
    · rw [pendingBy_setTick_ne new hji] at hj
      rw [pendingBy_setTick_ne new hki] at hk
      exact h.exclusive id j k hj hk

/-- A tick that is to mark nothing is replaced. -/
theorem AlertInv.setTick (h : AlertInv s) {new : Option Tick}
    (hold : ∀ t, s.tick i = some t → t.marking = none)
    (hnew : ∀ t, new = some t → TickInv s.events s.alertedPairs t)
    (hpending : ∀ id t, new = some t → t.Pending id → PendingBy s i id ∨ ¬ Pending s id) :
    AlertInv (s.setTick i new) where
  once := h.once
  known := h.known
  flagged := h.flagged
  unflagged id event hevent halerted hpair := by
    obtain ⟨j, t, ht, hmarking⟩ := h.unflagged id event hevent halerted hpair
    refine ⟨j, t, ?_, hmarking⟩
    rw [tick_setTick_ne]
    · exact ht
    · rintro rfl
      rw [hold t ht] at hmarking
      cases hmarking
  tick j t ht := by
    by_cases hji : j = i
    · subst hji
      rw [tick_setTick_self] at ht
      exact hnew t ht
    · rw [tick_setTick_ne s new hji] at ht
      exact h.tick j t ht
  exclusive := h.exclusive_setTick hpending

/-! ## Steps of a tick -/

/-- Reading the events: those without the flag are pending for no tick, so they were not alerted. -/
theorem AlertInv.read (h : AlertInv s) {now_ns : ℤ} (hnow : now_ns ≠ 0) (hidle : s.tick i = none)
    {upcoming : List (String × CalendarEvent)}
    (hupcoming : upcoming.Sublist s.events.entries)
    (horderly : ∀ e ∈ upcoming, e.2.alerted = false → ¬ Pending s e.1) :
    AlertInv (s.setTick i (some ⟨now_ns, upcoming, none⟩)) := by
  have hget : ∀ e ∈ upcoming, s.events.get? e.1 = some e.2 := fun e he =>
    Dict.mem_entries_iff.mp (hupcoming.subset he)
  refine h.setTick (fun t ht => ?_) (fun t ht => ?_) fun id t ht hdo => ?_
  · rw [hidle] at ht
    cases ht
  · cases ht
    refine ⟨(hupcoming.map Prod.fst).nodup s.events.nodup, fun e he halerted => ?_,
      fun e he halerted => ⟨fun hpair => ?_, e.2, hget e he, rfl⟩, ?_, hnow⟩
    · exact h.flagged e.1 e.2 (hget e he) halerted
    · obtain ⟨j, t, ht, hmarking⟩ := h.unflagged e.1 e.2 (hget e he) halerted hpair
      exact horderly e he halerted ⟨j, t, ht, .inl hmarking⟩
    · intro id hid
      cases hid
  · cases ht
    rcases hdo with hmarking | ⟨event, he, halerted⟩
    · cases hmarking
    · exact .inr (horderly (id, event) he halerted)

/-- The rest of a tick. -/
theorem TickInv.rest {events : Dict String CalendarEvent} {alerted : List (String × ℤ)}
    {now_ns : ℤ} {rest : List (String × CalendarEvent)}
    (h : TickInv events alerted ⟨now_ns, (id, event) :: rest, none⟩) :
    TickInv events alerted ⟨now_ns, rest, none⟩ where
  distinct := (List.nodup_cons.mp h.distinct).2
  flagged e he := h.flagged e (List.mem_cons_of_mem _ he)
  unflagged e he := h.unflagged e (List.mem_cons_of_mem _ he)
  marking id hid := by cases hid
  now_ne_zero := h.now_ne_zero

/-- **Passing over** an event that has the flag: it was alerted. -/
theorem AlertInv.pass (h : AlertInv s) {now_ns : ℤ} {rest : List (String × CalendarEvent)}
    (ht : s.tick i = some ⟨now_ns, (id, event) :: rest, none⟩) (halerted : event.alerted = true) :
    AlertInv { s.setTick i (some ⟨now_ns, rest, none⟩) with
      passed := (id, event.start_at) :: s.passed } := by
  have htick := h.tick i _ ht
  have hset : AlertInv (s.setTick i (some ⟨now_ns, rest, none⟩)) := by
    refine h.setTick (fun t ht' => ?_) (fun t ht' => ?_) fun id' t ht' hdo => .inl ?_
    · rw [ht] at ht'
      cases ht'
      rfl
    · cases ht'
      exact htick.rest
    · cases ht'
      rcases hdo with hmarking | ⟨event', he, hflag⟩
      · cases hmarking
      · exact ⟨_, ht, .inr ⟨event', List.mem_cons_of_mem _ he, hflag⟩⟩
  have hpair : (id, event.start_at) ∈ s.alertedPairs :=
    htick.flagged (id, event) List.mem_cons_self halerted
  exact ⟨⟨hset.once.1, List.forall_mem_cons.mpr ⟨hpair, hset.once.2⟩⟩, hset.known, hset.flagged,
    hset.unflagged, hset.tick, hset.exclusive⟩

/-- One more pair is alerted, of an event that the tick is not to alert. -/
theorem TickInv.alert {events : Dict String CalendarEvent} {alerted : List (String × ℤ)}
    (h : TickInv events alerted t) (p : String × ℤ)
    (hother : ∀ e ∈ t.upcoming, e.2.alerted = false → e.1 ≠ p.1) :
    TickInv events (p :: alerted) t where
  distinct := h.distinct
  flagged e he halerted := List.mem_cons_of_mem p (h.flagged e he halerted)
  unflagged e he halerted := by
    refine ⟨fun hmem => ?_, (h.unflagged e he halerted).2⟩
    rcases List.mem_cons.mp hmem with hsame | hbefore
    · exact hother e he halerted (congrArg Prod.fst hsame)
    · exact (h.unflagged e he halerted).1 hbefore
  marking id hid := by
    obtain ⟨hnot, event, hevent, hpair⟩ := h.marking id hid
    exact ⟨hnot, event, hevent, List.mem_cons_of_mem p hpair⟩
  now_ne_zero := h.now_ne_zero

/-- **Alerting** an event without the flag: it was not alerted, and no other tick is to do so. -/
theorem AlertInv.emit (h : AlertInv s) {now_ns : ℤ} {rest : List (String × CalendarEvent)}
    (ht : s.tick i = some ⟨now_ns, (id, event) :: rest, none⟩) (halerted : event.alerted = false) :
    AlertInv { s.setTick i (some ⟨now_ns, rest, some id⟩) with
      alerts := alertOf now_ns id event :: s.alerts } := by
  have htick := h.tick i _ ht
  have hpending : PendingBy s i id := ⟨_, ht, .inr ⟨event, List.mem_cons_self, halerted⟩⟩
  obtain ⟨hnew, event', hevent', hstart⟩ := htick.unflagged (id, event) List.mem_cons_self halerted
  obtain ⟨hid, hrest⟩ := List.nodup_cons.mp htick.distinct
  refine ⟨⟨List.nodup_cons.mpr ⟨hnew, h.once.1⟩, ?_⟩, ?_, ?_, ?_, ?_, ?_⟩
  · exact fun p hp => List.mem_cons_of_mem _ (h.once.2 p hp)
  · exact List.forall_mem_cons.mpr ⟨Dict.mem_iff_exists.mpr ⟨event', hevent'⟩, h.known⟩
  · exact fun id' row hrow hflag => List.mem_cons_of_mem _ (h.flagged id' row hrow hflag)
  · intro id' row hrow hflag hpair
    rcases List.mem_cons.mp hpair with hsame | hbefore
    · refine ⟨i, _, tick_setTick_self s i _, ?_⟩
      exact congrArg some (congrArg Prod.fst hsame).symm
    · obtain ⟨j, t, htj, hmarking⟩ := h.unflagged id' row hrow hflag hbefore
      refine ⟨j, t, (tick_setTick_ne s _ ?_).trans htj, hmarking⟩
      rintro rfl
      rw [ht] at htj
      cases htj
      cases hmarking
  · intro j t htj
    by_cases hji : j = i
    · subst hji
      cases (tick_setTick_self s j _).symm.trans htj
      have hother : ∀ e ∈ rest, e.1 ≠ id := fun e he hsame =>
        hid (List.mem_map.mpr ⟨e, he, hsame⟩)
      have hrestInv := htick.rest.alert (id, event.start_at) fun e he _ => hother e he
      refine ⟨hrestInv.distinct, hrestInv.flagged, hrestInv.unflagged, ?_, hrestInv.now_ne_zero⟩
      intro id' hid'
      cases hid'
      refine ⟨hid, event', hevent', List.mem_cons.mpr (.inl ?_)⟩
      exact congrArg (Prod.mk id) hstart
    · have htj' := (tick_setTick_ne s _ hji).symm.trans htj
      refine (h.tick j t htj').alert (id, event.start_at) fun e he hflag hsame => hji ?_
      have hsame' : (id, e.2) = e := Prod.ext hsame.symm rfl
      exact h.exclusive id j i ⟨t, htj', .inr ⟨e.2, hsame'.symm ▸ he, hflag⟩⟩ hpending
  · refine h.exclusive_setTick fun id' t ht' hdo => .inl ?_
    cases ht'
    rcases hdo with hmarking | ⟨event'', he, hflag⟩
    · cases hmarking
      exact hpending
    · exact ⟨_, ht, .inr ⟨event'', List.mem_cons_of_mem _ he, hflag⟩⟩

/-! ## Edits -/

/-- An edit that keeps the start times of the events that the tick is to alert or mark. -/
theorem TickInv.edit {events events' : Dict String CalendarEvent} {alerted : List (String × ℤ)}
    (h : TickInv events alerted t)
    (hstart : ∀ id event, t.Pending id → events.get? id = some event →
      ∃ event', events'.get? id = some event' ∧ event'.start_at = event.start_at) :
    TickInv events' alerted t where
  distinct := h.distinct
  flagged := h.flagged
  unflagged e he halerted := by
    obtain ⟨hnot, event, hevent, hsame⟩ := h.unflagged e he halerted
    obtain ⟨event', hevent', hsame'⟩ := hstart e.1 event (.inr ⟨e.2, he, halerted⟩) hevent
    exact ⟨hnot, event', hevent', hsame'.trans hsame⟩
  marking id hid := by
    obtain ⟨hnot, event, hevent, hpair⟩ := h.marking id hid
    obtain ⟨event', hevent', hsame⟩ := hstart id event (.inl hid) hevent
    exact ⟨hnot, event', hevent', hsame ▸ hpair⟩
  now_ne_zero := h.now_ne_zero

theorem mem_update_event_by_id {events : Dict String CalendarEvent} {id id' : String}
    {form_data : CalendarEventUpdateForm} :
    id' ∈ update_event_by_id events id form_data ↔ id' ∈ events := by
  rw [Dict.mem_iff_isSome, Dict.mem_iff_isSome, update_event_by_id, Dict.get?_modify,
    Option.isSome_map]

theorem get?_update_event_by_id (events : Dict String CalendarEvent) (id id' : String)
    (form_data : CalendarEventUpdateForm) :
    (update_event_by_id events id form_data).get? id' =
      (events.get? id').map fun event => if id' = id then event.update form_data else event :=
  Dict.get?_modify ..

/-- The edit of one event, which keeps its start time if the tick is to alert or mark it. -/
theorem TickInv.update {events : Dict String CalendarEvent} {alerted : List (String × ℤ)}
    (h : TickInv events alerted t) {form_data : CalendarEventUpdateForm}
    (hstart : ∀ event, t.Pending id → events.get? id = some event →
      (event.update form_data).start_at = event.start_at) :
    TickInv (update_event_by_id events id form_data) alerted t := by
  refine h.edit fun id' row hdo hrow =>
    ⟨if id' = id then row.update form_data else row, ?_, ?_⟩
  · rw [get?_update_event_by_id, hrow]
    rfl
  · split
    · rename_i hsame
      subst hsame
      exact hstart row hdo hrow
    · rfl

/-- The mark sets the flag and leaves the start time. -/
theorem alerted_update_markForm (event : CalendarEvent) {now_ns : ℤ} (h : now_ns ≠ 0) :
    (event.update (markForm now_ns)).alerted = true := by
  have hfield : (event.update (markForm now_ns)).metaField "alerted_at" = .int now_ns := by
    show (((event.meta_.getD .empty).update (Dict.empty.set "alerted_at" (.int now_ns))).get?
      "alerted_at").getD .null = _
    rw [Dict.get?_update, Dict.get?_set_self]
    rfl
  unfold CalendarEvent.alerted
  rw [hfield]
  simpa [Json.truthy] using h

/-- **Marking** the event that was alerted. -/
theorem AlertInv.mark (h : AlertInv s) {now_ns : ℤ} {upcoming : List (String × CalendarEvent)}
    (ht : s.tick i = some ⟨now_ns, upcoming, some id⟩) :
    AlertInv { s.setTick i (some ⟨now_ns, upcoming, none⟩) with
      events := update_event_by_id s.events id (markForm now_ns) } := by
  have htick := h.tick i _ ht
  obtain ⟨hid, event, hevent, hpair⟩ := htick.marking id rfl
  have hrow : ∀ {id' row}, (update_event_by_id s.events id (markForm now_ns)).get? id' = some row →
      ∃ old, s.events.get? id' = some old ∧ row.start_at = old.start_at ∧
        (id' ≠ id → row = old) ∧ (id' = id → row.alerted = true) := by
    intro id' row hrow
    rw [get?_update_event_by_id] at hrow
    obtain ⟨old, hold, rfl⟩ := Option.map_eq_some_iff.mp hrow
    by_cases hsame : id' = id
    · rw [if_pos hsame]
      exact ⟨old, hold, rfl, fun hne => absurd hsame hne,
        fun _ => alerted_update_markForm old htick.now_ne_zero⟩
    · rw [if_neg hsame]
      exact ⟨old, hold, rfl, fun _ => rfl, fun heq => absurd heq hsame⟩
  have hedit : ∀ {t}, TickInv s.events s.alertedPairs t →
      TickInv (update_event_by_id s.events id (markForm now_ns)) s.alertedPairs t :=
    fun ht => ht.update fun _ _ _ => rfl
  refine ⟨h.once, fun p hp => mem_update_event_by_id.mpr (h.known p hp), ?_, ?_, ?_, ?_⟩
  · intro id' row hget hflag
    obtain ⟨old, hold, hstart, hother, -⟩ := hrow hget
    by_cases hsame : id' = id
    · subst hsame
      rw [hevent] at hold
      cases hold
      rw [hstart]
      exact hpair
    · rw [hother hsame] at hflag ⊢
      exact h.flagged id' old hold hflag
  · intro id' row hget hflag halerted
    obtain ⟨old, hold, -, hother, hmarked⟩ := hrow hget
    by_cases hsame : id' = id
    · rw [hmarked hsame] at hflag
      cases hflag
    · rw [hother hsame] at hflag halerted
      obtain ⟨j, t, htj, hmarking⟩ := h.unflagged id' old hold hflag halerted
      refine ⟨j, t, (tick_setTick_ne s _ ?_).trans htj, hmarking⟩
      rintro rfl
      rw [ht] at htj
      cases htj
      exact hsame (Option.some.inj hmarking).symm
  · intro j t htj
    by_cases hji : j = i
    · subst hji
      cases (tick_setTick_self s j _).symm.trans htj
      refine hedit ⟨htick.distinct, htick.flagged, htick.unflagged, ?_, htick.now_ne_zero⟩
      intro id' hid'
      cases hid'
    · exact hedit (h.tick j t ((tick_setTick_ne s _ hji).symm.trans htj))
  · refine h.exclusive_setTick fun id' t ht' hdo => .inl ?_
    cases ht'
    rcases hdo with hmarking | hrest
    · cases hmarking
    · exact ⟨_, ht, .inr hrest⟩

/-- A new event without the flag. -/
theorem AlertInv.create (h : AlertInv s) (hnew : id ∉ s.events) (halerted : event.alerted = false) :
    AlertInv { s with events := s.events.set id event } := by
  have hold : ∀ {id'}, id' ≠ id → (s.events.set id event).get? id' = s.events.get? id' :=
    fun hne => Dict.get?_set_ne _ hne _
  refine ⟨h.once, fun p hp => Dict.mem_set.mpr (.inr (h.known p hp)), ?_, ?_, ?_, h.exclusive⟩
  · intro id' row hget hflag
    by_cases hsame : id' = id
    · subst hsame
      rw [Dict.get?_set_self] at hget
      cases hget
      rw [halerted] at hflag
      cases hflag
    · rw [hold hsame] at hget
      exact h.flagged id' row hget hflag
  · intro id' row hget hflag hpair
    by_cases hsame : id' = id
    · subst hsame
      exact absurd (h.known _ hpair) hnew
    · rw [hold hsame] at hget
      exact h.unflagged id' row hget hflag hpair
  · refine fun j t ht => (h.tick j t ht).edit fun id' row _ hrow => ⟨row, ?_, rfl⟩
    refine (hold ?_).trans hrow
    rintro rfl
    exact hnew (Dict.mem_iff_exists.mpr ⟨row, hrow⟩)

/-- **An edit** that leaves the flag as it has to be. -/
theorem AlertInv.update (h : AlertInv s) {form_data : CalendarEventUpdateForm}
    (horderly : Orderly settings s (.update id form_data)) :
    AlertInv { s with events := update_event_by_id s.events id form_data } := by
  have hrow : ∀ {id' row}, (update_event_by_id s.events id form_data).get? id' = some row →
      ∃ old, s.events.get? id' = some old ∧
        row = if id' = id then old.update form_data else old := by
    intro id' row hrow
    rw [get?_update_event_by_id] at hrow
    obtain ⟨old, hold, hval⟩ := Option.map_eq_some_iff.mp hrow
    exact ⟨old, hold, hval.symm⟩
  refine ⟨h.once, fun p hp => mem_update_event_by_id.mpr (h.known p hp), ?_, ?_, ?_, h.exclusive⟩
  · intro id' row hget hflag
    obtain ⟨old, hold, rfl⟩ := hrow hget
    by_cases hsame : id' = id
    · subst hsame
      rw [if_pos rfl] at hflag ⊢
      obtain ⟨hfree, hbusy⟩ := horderly old hold
      by_cases hpending : Pending s id'
      · rw [(hbusy hpending).1] at hflag
        rw [(hbusy hpending).2]
        exact h.flagged id' old hold hflag
      · exact (hfree hpending).mp hflag
    · rw [if_neg hsame] at hflag ⊢
      exact h.flagged id' old hold hflag
  · intro id' row hget hflag hpair
    obtain ⟨old, hold, rfl⟩ := hrow hget
    by_cases hsame : id' = id
    · subst hsame
      rw [if_pos rfl] at hflag hpair
      obtain ⟨hfree, hbusy⟩ := horderly old hold
      by_cases hpending : Pending s id'
      · rw [(hbusy hpending).1] at hflag
        rw [(hbusy hpending).2] at hpair
        exact h.unflagged id' old hold hflag hpair
      · rw [(hfree hpending).mpr hpair] at hflag
        cases hflag
    · rw [if_neg hsame] at hflag hpair
      exact h.unflagged id' old hold hflag hpair
  · exact fun j t ht => (h.tick j t ht).update fun old hdo hold =>
      ((horderly old hold).2 ⟨j, t, ht, hdo⟩).2

/-! ## Runs -/

/-- The events of a tick are rows of the table, each once. -/
theorem get_upcoming_events_sublist {events : Dict String CalendarEvent} {now_ns : ℤ}
    {upcoming : List (String × CalendarEvent)}
    (h : get_upcoming_events settings events now_ns = .ok upcoming) :
    upcoming.Sublist events.entries := by
  obtain ⟨within, hwithin, h⟩ := bind_eq_ok.mp h
  cases h
  have hlength := (forall₂_of_mapM hwithin).length_eq
  refine (List.filter_sublist.map Prod.fst).trans ?_
  rw [List.map_fst_zip (Nat.le_of_eq hlength)]
  exact List.filter_sublist

/-- **Step lemma.** -/
theorem AlertInv.step (h : AlertInv s) {e : AlertEvent I} (horderly : Orderly settings s e)
    (hstep : alertStep settings s e = some s') : AlertInv s' := by
  cases e with
  | read i lag =>
    obtain ⟨⟨hidle, hlag⟩, hstep⟩ := Option.ite_none_right_eq_some.mp hstep
    cases hread : get_upcoming_events settings s.events (s.clock - lag) with
    | ok upcoming =>
      rw [hread] at hstep
      cases hstep
      have hnow : (s.clock : ℤ) - lag ≠ 0 := by omega
      exact h.read hnow hidle (get_upcoming_events_sublist hread) (horderly upcoming hread)
    | error e =>
      rw [hread] at hstep
      cases hstep
      exact h
  | next i =>
    unfold alertStep at hstep
    dsimp only at hstep
    split at hstep
    · rename_i now_ns ht
      cases hstep
      refine h.setTick (fun t ht' => ?_) (fun t ht' => by cases ht') fun id t ht' => by cases ht'
      rw [ht] at ht'
      cases ht'
      rfl
    · rename_i now_ns id event rest ht
      cases hstep
      unfold AlertState.visit
      cases halerted : event.alerted with
      | true => exact h.pass ht halerted
      | false => exact h.emit ht halerted
    · cases hstep
  | mark i stored =>
    cases horderly
    unfold alertStep at hstep
    dsimp only at hstep
    split at hstep
    · rename_i now_ns upcoming id ht
      cases hstep
      exact h.mark ht
    · cases hstep
  | abort i =>
    cases hstep
    exact h.setTick horderly (fun t ht' => by cases ht') fun id t ht' => by cases ht'
  | create id event =>
    obtain ⟨hnew, hstep⟩ := Option.ite_none_right_eq_some.mp hstep
    cases hstep
    exact h.create hnew horderly
  | update id form_data =>
    cases hstep
    exact h.update horderly
  | elapse time =>
    cases hstep
    exact ⟨h.once, h.known, h.flagged, h.unflagged, h.tick, h.exclusive⟩

/-- **Every start time is alerted once** in the runs whose steps are orderly: no event is alerted
twice for one, and an event that was moved is passed over only where its new start time was alerted.
-/
theorem alerted_once (settings : AlertSettings) {I : Type u} [DecidableEq I] (clock : ℕ)
    {run : List (AlertEvent I)} {s : AlertState I}
    (horderly : StepsMeet (alertStep settings) (Orderly settings) (.start clock) run)
    (hrun : exec (alertStep settings) (.start clock) run = some s) : AlertedOnce s :=
  (exec_invariant_of_stepsMeet (fun _ _ _ h hC hstep => h.step hC hstep) (alertInv_start clock)
    horderly hrun).once

/-! ## Two ticks, and a moved event -/

/-- Ten minutes ahead, and a grace of fifteen seconds. -/
def tenMinutes : AlertSettings := ⟨10 * minute, 15000000000, fun _ _ _ => false⟩

/-- A meeting. -/
def meeting (start_at : ℤ) : CalendarEvent :=
  ⟨"c", "u", "Meeting", none, start_at, none, none, false⟩

/-- The edit that moves an event. -/
def moveTo (start_at : ℤ) : CalendarEventUpdateForm :=
  ⟨none, none, none, some start_at, none, none, none⟩

/-- A meeting that is moved, alerted, and passed over by the next tick. -/
def movedBefore : List (AlertEvent Bool) :=
  [.create "m" (meeting minute), .update "m" (moveTo (2 * minute)), .read true 0, .next true,
    .mark true true, .next true, .read false 0, .next false]

theorem movedBefore_orderly :
    StepsMeet (alertStep tenMinutes) (Orderly tenMinutes) (.start 1) movedBefore := by
  refine .cons rfl rfl (.cons (fun event hevent => ?_) rfl (.cons (fun upcoming _ e _ _ => ?_) rfl
    (.cons trivial rfl (.cons rfl rfl (.cons trivial rfl (.cons (fun upcoming hread e he => ?_) rfl
      (.cons trivial rfl trivial)))))))
  · cases hevent
    refine ⟨fun _ => by decide, fun hpending => ?_⟩
    obtain ⟨i, t, ht, -⟩ := hpending
    cases ht
  · rintro ⟨i, t, ht, -⟩
    cases ht
  · rintro halerted ⟨i, t, ht, -⟩
    cases i <;> cases ht

/-- It is alerted once, for the start time that it has. -/
theorem alerted_movedBefore : ∃ s, exec (alertStep tenMinutes) (.start 1) movedBefore = some s ∧
    s.alertedPairs = [("m", 2 * minute)] ∧ s.passed = [("m", 2 * minute)] ∧ AlertedOnce s := by
  refine ⟨_, rfl, rfl, rfl, ?_⟩
  exact alerted_once tenMinutes 1 movedBefore_orderly rfl

/-- Two ticks that overlap alert a meeting twice; and a meeting that is moved after its alert is
passed over. -/
theorem alerted_twice_and_missed :
    (∃ s : AlertState Bool, exec (alertStep tenMinutes) (.start 1)
        [.create "m" (meeting minute), .read true 0, .read false 0, .next true, .next false] =
        some s ∧ s.alertedPairs = [("m", minute), ("m", minute)]) ∧
      ∃ s : AlertState Bool, exec (alertStep tenMinutes) (.start 1)
        [.create "m" (meeting minute), .read true 0, .next true, .mark true true, .next true,
          .update "m" (moveTo (2 * minute)), .read true 0, .next true] = some s ∧
        s.alertedPairs = [("m", minute)] ∧ s.passed = [("m", 2 * minute)] :=
  ⟨⟨_, rfl, rfl⟩, ⟨_, rfl, rfl, rfl⟩⟩

end OpenLaunch.Calendar
