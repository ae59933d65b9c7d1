import OpenLaunch.Calendar.Alerts

/-! # The events due for an alert

The events that a tick alerts are selected three times: by a query with one window for all, by the
lead time of each event, and by the flag of those that were alerted. Together they are the events
within their own windows, as long as no lead time is longer than the window of the query. -/

namespace OpenLaunch.Calendar

open Python

section Upcoming

variable (settings : AlertSettings) (now_ns : ℤ) (event : CalendarEvent)

/-- The event starts no later than its own lead time from now: the default one without a lead time,
never with a negative one. -/
def InOwnWindow : Prop :=
  match event.metaField "alert_minutes" with
  | .null => event.start_at ≤ now_ns + settings.default_lookahead_ns
  | .int n => 0 ≤ n ∧ event.start_at ≤ now_ns + n * minute
  | .bool b => event.start_at ≤ now_ns + (if b then 1 else 0) * minute
  | .float x => settings.inFloatWindow x event.start_at now_ns = true
  | .str _ | .list _ | .dict _ => False

/-- The lead time is absent or a number. -/
def NumericLead : Prop :=
  match event.metaField "alert_minutes" with
  | .null | .int _ | .bool _ | .float _ => True
  | .str _ | .list _ | .dict _ => False

/-- The lead time is no longer than an hour or the default one. -/
def ShortLead : Prop :=
  match event.metaField "alert_minutes" with
  | .int n => n * minute ≤ max settings.default_lookahead_ns (60 * minute)
  | .float x => settings.inFloatWindow x event.start_at now_ns = true →
      event.start_at ≤ now_ns + max settings.default_lookahead_ns (60 * minute)
  | .null | .bool _ | .str _ | .list _ | .dict _ => True

end Upcoming

variable {settings : AlertSettings} {now_ns : ℤ} {event : CalendarEvent}

/-- The check on one event, where the lead time is a number. -/
theorem inWindow_of_numeric (h : NumericLead event) :
    ∃ b, inWindow settings now_ns event = .ok b ∧
      (b = true ↔ InOwnWindow settings now_ns event) := by
  unfold NumericLead at h
  unfold inWindow InOwnWindow
  cases hlead : event.metaField "alert_minutes" with
  | null => exact ⟨_, rfl, decide_eq_true_iff⟩
  | int n => exact ⟨_, rfl, decide_eq_true_iff⟩
  | bool b =>
    refine ⟨_, rfl, decide_eq_true_iff.trans (and_iff_right ?_)⟩
    cases b
    · decide
    · decide
  | float x => exact ⟨_, rfl, Iff.rfl⟩
  | str s =>
    rw [hlead] at h
    exact h.elim
  | list xs =>
    rw [hlead] at h
    exact h.elim
  | dict kvs =>
    rw [hlead] at h
    exact h.elim

/-- The window of the query is wide enough for a short lead time. -/
theorem start_le_of_shortLead (hshort : ShortLead settings now_ns event)
    (h : InOwnWindow settings now_ns event) :
    event.start_at ≤ now_ns + max settings.default_lookahead_ns (60 * minute) := by
  have hdefault : settings.default_lookahead_ns ≤
      max settings.default_lookahead_ns (60 * minute) := Int.le_max_left _ _
  have hhour : 60 * minute ≤ max settings.default_lookahead_ns (60 * minute) :=
    Int.le_max_right _ _
  unfold ShortLead at hshort
  unfold InOwnWindow at h
  generalize max settings.default_lookahead_ns (60 * minute) = widest at *
  cases hlead : event.metaField "alert_minutes" with
  | null =>
    rw [hlead] at h
    dsimp only at h
    omega
  | int n =>
    rw [hlead] at h hshort
    dsimp only at h hshort
    omega
  | bool b =>
    rw [hlead] at h
    have hminute : (if b then 1 else 0) * minute ≤ 60 * minute := by
      cases b
      · decide
      · decide
    dsimp only at h
    omega
  | float x =>
    rw [hlead] at h hshort
    exact hshort h
  | str s =>
    rw [hlead] at h
    exact h.elim
  | list xs =>
    rw [hlead] at h
    exact h.elim
  | dict kvs =>
    rw [hlead] at h
    exact h.elim

/-- A selection by a check that may raise. -/
theorem mem_selected_iff {α : Type} {f : α → Except PyErr Bool} {xs : List α} {bs : List Bool}
    (h : xs.mapM f = .ok bs) {x : α} :
    x ∈ ((xs.zip bs).filter Prod.snd).map Prod.fst ↔ x ∈ xs ∧ f x = .ok true := by
  have hall := forall₂_of_mapM h
  clear h
  induction hall with
  | nil => simp
  | @cons y b ys bs hy _ ih =>
    have hrest : x ∈ ((ys.zip bs).filter Prod.snd).map Prod.fst ↔ x ∈ ys ∧ f x = .ok true := ih
    cases b with
    | true =>
      rw [List.zip_cons_cons, List.filter_cons_of_pos rfl, List.map_cons, List.mem_cons,
        hrest, List.mem_cons]
      constructor
      · rintro (rfl | ⟨hmem, hx⟩)
        · exact ⟨.inl rfl, hy⟩
        · exact ⟨.inr hmem, hx⟩
      · rintro ⟨rfl | hmem, hx⟩
        · exact .inl rfl
        · exact .inr ⟨hmem, hx⟩
    | false =>
      rw [List.zip_cons_cons, List.filter_cons_of_neg (by simp), hrest, List.mem_cons]
      constructor
      · rintro ⟨hmem, hx⟩
        exact ⟨.inr hmem, hx⟩
      · rintro ⟨rfl | hmem, hx⟩
        · rw [hy] at hx
          cases hx
        · exact ⟨hmem, hx⟩

/-- The events that the loop of `_check_calendar_alerts` alerts: it passes over the others. -/
def dueForAlert (upcoming : List (String × CalendarEvent)) : List (String × CalendarEvent) :=
  upcoming.filter fun e => !e.2.alerted

/-- **The events due.** Where lead times are numbers, and none is longer than an hour or the
default, the events returned are those that are not cancelled, start no earlier than the grace
period ago and are within their own windows; those of them that were not alerted are alerted. -/
theorem get_upcoming_events_iff (settings : AlertSettings) (events : Dict String CalendarEvent)
    (now_ns : ℤ) (hnumeric : ∀ e ∈ events.entries, NumericLead e.2)
    (hshort : ∀ e ∈ events.entries, ShortLead settings now_ns e.2) :
    ∃ upcoming, get_upcoming_events settings events now_ns = .ok upcoming ∧
      ∀ id event,
        ((id, event) ∈ upcoming ↔ events.get? id = some event ∧ event.is_cancelled = false ∧
          now_ns - settings.grace_ns ≤ event.start_at ∧ InOwnWindow settings now_ns event) ∧
        ((id, event) ∈ dueForAlert upcoming ↔ events.get? id = some event ∧
          event.is_cancelled = false ∧ event.alerted = false ∧
          now_ns - settings.grace_ns ≤ event.start_at ∧ InOwnWindow settings now_ns event) := by
  have hchecks : ∀ e ∈ events.entries.filter fun e => inReach settings now_ns e.2,
      ∃ b, inWindow settings now_ns e.2 = .ok b := by
    intro e he
    obtain ⟨b, hb, -⟩ := inWindow_of_numeric (hnumeric e (List.mem_filter.mp he).1)
    exact ⟨b, hb⟩
  obtain ⟨within, hwithin⟩ := exists_mapM hchecks
  refine ⟨_, by rw [get_upcoming_events, hwithin]; rfl, fun id event => ?_⟩
  have hmem : (id, event) ∈ (((events.entries.filter fun e => inReach settings now_ns e.2).zip
        within).filter Prod.snd).map Prod.fst ↔
      events.get? id = some event ∧ event.is_cancelled = false ∧
        now_ns - settings.grace_ns ≤ event.start_at ∧ InOwnWindow settings now_ns event := by
    rw [mem_selected_iff hwithin, List.mem_filter, ← Dict.mem_entries_iff]
    constructor
    · rintro ⟨⟨hentry, hreach⟩, hin⟩
      obtain ⟨b, hb, hiff⟩ := inWindow_of_numeric (hnumeric _ hentry)
      rw [hin] at hb
      cases hb
      simp only [inReach, Bool.and_eq_true, Bool.not_eq_true', decide_eq_true_eq] at hreach
      exact ⟨hentry, hreach.1.1, hreach.1.2, hiff.mp rfl⟩
    · rintro ⟨hentry, hcancelled, hgrace, hown⟩
      obtain ⟨b, hb, hiff⟩ := inWindow_of_numeric (hnumeric _ hentry)
      rw [hiff.mpr hown] at hb
      refine ⟨⟨hentry, ?_⟩, hb⟩
      -- The query reaches as far as the window of the event.
      have hwide := start_le_of_shortLead (hshort _ hentry) hown
      simp only [inReach, Bool.and_eq_true, Bool.not_eq_true', decide_eq_true_eq]
      exact ⟨⟨hcancelled, hgrace⟩, hwide⟩
  refine ⟨hmem, ?_⟩
  rw [dueForAlert, List.mem_filter, hmem, Bool.not_eq_true']
  tauto

/-! ## At the edges -/

/-- An event that starts at a time, with some `meta`. -/
def eventAt (start_at : ℤ) (meta_ : Dict String Json) : CalendarEvent :=
  ⟨"c", "u", "Meeting", none, start_at, none, some meta_, false⟩

/-- Ten minutes ahead by default, and two minutes of grace. -/
def tenMinutesAhead : AlertSettings := ⟨10 * minute, 2 * minute, fun _ _ _ => false⟩

/-- An event with a lead time of a quarter of an hour, a quarter of an hour ahead. -/
theorem get_upcoming_events_quarter :
    ∃ upcoming, get_upcoming_events tenMinutesAhead
        (Dict.empty.set "e" (eventAt (15 * minute) (Dict.empty.set "alert_minutes" (.int 15)))) 0 =
      .ok upcoming ∧
      ("e", eventAt (15 * minute) (Dict.empty.set "alert_minutes" (.int 15))) ∈
        dueForAlert upcoming := by
  obtain ⟨upcoming, hget, hmem⟩ := get_upcoming_events_iff tenMinutesAhead
    (Dict.empty.set "e" (eventAt (15 * minute) (Dict.empty.set "alert_minutes" (.int 15)))) 0
    (List.forall_mem_singleton.mpr trivial) (List.forall_mem_singleton.mpr (by
      show 15 * minute ≤ max (10 * minute) (60 * minute)
      decide))
  refine ⟨upcoming, hget, (hmem _ _).2.mpr ⟨rfl, rfl, rfl, by decide, ?_⟩⟩
  show 0 ≤ (15 : ℤ) ∧ 15 * minute ≤ 0 + 15 * minute
  decide

/-- **What is selected otherwise**: an event that was alerted is returned, and passed over later; a
negative lead time is for no alert, even in the grace period; a lead time of two hours does not
reach the query; and one that is a text makes the check raise. -/
theorem upcoming_counterexample :
    get_upcoming_events tenMinutesAhead
        (Dict.empty.set "e" (eventAt minute (Dict.empty.set "alerted_at" (.int 1)))) 0 =
      .ok [("e", eventAt minute (Dict.empty.set "alerted_at" (.int 1)))] ∧
    get_upcoming_events tenMinutesAhead (Dict.empty.set "e"
      (eventAt (-2 * minute) (Dict.empty.set "alert_minutes" (.int (-1))))) 0 = .ok [] ∧
    get_upcoming_events tenMinutesAhead (Dict.empty.set "e"
      (eventAt (90 * minute) (Dict.empty.set "alert_minutes" (.int 120)))) 0 = .ok [] ∧
    get_upcoming_events tenMinutesAhead (Dict.empty.set "e"
      (eventAt minute (Dict.empty.set "alert_minutes" (.str "15")))) 0 = .error .typeError := by
  decide

end OpenLaunch.Calendar
