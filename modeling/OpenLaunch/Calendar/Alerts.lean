import OpenLaunch.Python.Json
import OpenLaunch.Transition
import Mathlib.Logic.Function.Basic
import Mathlib.Data.Int.Notation
import Mathlib.Order.Defs.LinearOrder

/-! # Calendar alerts

Every instance of the server has a scheduler that ticks: it reads the events that start within their
alert windows and alerts the user of each, unless the event's `meta` says that it was alerted. After
an alert it writes this into the `meta`. The ticks of several instances run side by side, and events
are created and edited in between. Times are in nanoseconds. -/

namespace OpenLaunch.Calendar

open Python Transition

universe u

/-! ## Events -/

/-- An event, with the columns that the alerts read. -/
structure CalendarEvent where
  calendar_id : String
  user_id : String
  title : String
  description : Option String
  start_at : ℤ
  location : Option String
  meta_ : Option (Dict String Json)
  is_cancelled : Bool
  deriving DecidableEq

/-- An edit: the fields that it sets. -/
structure CalendarEventUpdateForm where
  calendar_id : Option String
  title : Option String
  description : Option (Option String)
  start_at : Option ℤ
  location : Option (Option String)
  meta_ : Option (Dict String Json)
  is_cancelled : Option Bool
  deriving DecidableEq

/-- What `CalendarEventTable.update_event_by_id` makes of the event. -/
def CalendarEvent.update (event : CalendarEvent) (form_data : CalendarEventUpdateForm) :
    CalendarEvent where
  calendar_id := form_data.calendar_id.getD event.calendar_id
  user_id := event.user_id
  title := form_data.title.getD event.title
  description := form_data.description.getD event.description
  start_at := form_data.start_at.getD event.start_at
  location := form_data.location.getD event.location
  meta_ :=
    match form_data.meta_ with
    | some new => some ((event.meta_.getD .empty).update new)
    | none => event.meta_
  is_cancelled := form_data.is_cancelled.getD event.is_cancelled

/-- `CalendarEventTable.update_event_by_id`; without such an event nothing changes. -/
def update_event_by_id (events : Dict String CalendarEvent) (id : String)
    (form_data : CalendarEventUpdateForm) : Dict String CalendarEvent :=
  events.modify id (·.update form_data)

/-- `event.meta.get(key)`. -/
def CalendarEvent.metaField (event : CalendarEvent) (key : String) : Json :=
  ((event.meta_.getD .empty).get? key).getD .null

/-- `event.meta and event.meta.get('alerted_at')`. -/
def CalendarEvent.alerted (event : CalendarEvent) : Bool := (event.metaField "alerted_at").truthy

/-! ## Windows -/

/-- The nanoseconds of a minute. -/
def minute : ℤ := 60 * 1000000000

/-- The settings of the alerts. -/
structure AlertSettings where
  /-- `default_lookahead_ns`. -/
  default_lookahead_ns : ℤ
  /-- `grace_ns`. -/
  grace_ns : ℤ
  /-- `0 <= x` and `start_at <= now_ns + x * 60 * 1_000_000_000`, of a float `x`. -/
  inFloatWindow : FloatLit → (start_at now_ns : ℤ) → Bool

variable (settings : AlertSettings)

/-- The event starts within its own alert window, or the default one. A negative `alert_minutes` is
for no alert. -/
def inWindow (now_ns : ℤ) (event : CalendarEvent) : Except PyErr Bool :=
  let within (alert_minutes : ℤ) : Bool :=
    0 ≤ alert_minutes ∧ event.start_at ≤ now_ns + alert_minutes * minute
  match event.metaField "alert_minutes" with
  | .null => .ok (event.start_at ≤ now_ns + settings.default_lookahead_ns)
  | .int n => .ok (within n)
  | .bool b => .ok (within (if b then 1 else 0))
  | .float x => .ok (settings.inFloatWindow x event.start_at now_ns)
  | .str _ | .list _ | .dict _ => .error .typeError

/-- The query of `get_upcoming_events`. -/
def inReach (now_ns : ℤ) (event : CalendarEvent) : Bool :=
  !event.is_cancelled && now_ns - settings.grace_ns ≤ event.start_at &&
    event.start_at ≤ now_ns + max settings.default_lookahead_ns (60 * minute)

/-- `CalendarEventTable.get_upcoming_events`: the events with their ids. -/
def get_upcoming_events (events : Dict String CalendarEvent) (now_ns : ℤ) :
    Except PyErr (List (String × CalendarEvent)) := do
  let rows := events.entries.filter fun e => inReach settings now_ns e.2
  let within ← rows.mapM fun e => inWindow settings now_ns e.2
  return ((rows.zip within).filter Prod.snd).map Prod.fst

/-! ## Alerts -/

/-- An alert that was emitted, to the room of the event's user. -/
structure Alert where
  event_id : String
  user_id : String
  title : String
  description : String
  start_at : ℤ
  minutes_until : ℤ
  calendar_id : String
  location : String
  deriving DecidableEq

/-- The alert of an event. -/
def alertOf (now_ns : ℤ) (id : String) (event : CalendarEvent) : Alert where
  event_id := id
  user_id := event.user_id
  title := event.title
  description := event.description.getD ""
  start_at := event.start_at
  minutes_until := max 0 ((event.start_at - now_ns).tdiv minute)
  calendar_id := event.calendar_id
  location := event.location.getD ""

/-- The edit that marks an event as alerted. -/
def markForm (now_ns : ℤ) : CalendarEventUpdateForm where
  calendar_id := none
  title := none
  description := none
  start_at := none
  location := none
  meta_ := some (Dict.empty.set "alerted_at" (.int now_ns))
  is_cancelled := none

/-! ## Runs -/

/-- A running `_check_calendar_alerts`: the events that it read and has not come to, and the event
that it alerted and has not marked. -/
structure Tick where
  now_ns : ℤ
  upcoming : List (String × CalendarEvent)
  marking : Option String
  deriving DecidableEq

/-- The table of events, the ticks of the instances, and what they did. -/
structure AlertState (I : Type u) where
  clock : ℕ
  events : Dict String CalendarEvent
  tick : I → Option Tick
  alerts : List Alert
  /-- The events with their start times that a tick found in their windows and passed over as
  alerted. -/
  passed : List (String × ℤ)

/-- The steps. -/
inductive AlertEvent (I : Type u)
  /-- A tick starts: it reads the clock, and `lag` later the events. -/
  | read (instance_ : I) (lag : ℕ)
  /-- A tick comes to its next event and alerts it or passes over it; after the last one it ends. -/
  | next (instance_ : I)
  /-- A tick marks the event that it alerted; it goes on if that fails. -/
  | mark (instance_ : I) (stored : Bool)
  /-- A tick ends early. -/
  | abort (instance_ : I)
  | create (id : String) (event : CalendarEvent)
  | update (id : String) (form_data : CalendarEventUpdateForm)
  | elapse (time : ℕ)

variable {I : Type u} [DecidableEq I]

/-- The state with another tick of the instance. -/
def AlertState.setTick (s : AlertState I) (i : I) (t : Option Tick) : AlertState I :=
  { s with tick := Function.update s.tick i t }

/-- The tick comes to an event. -/
def AlertState.visit (s : AlertState I) (i : I) (t : Tick) (id : String) (event : CalendarEvent)
    (rest : List (String × CalendarEvent)) : AlertState I :=
  if event.alerted then
    { s.setTick i (some ⟨t.now_ns, rest, none⟩) with passed := (id, event.start_at) :: s.passed }
  else
    { s.setTick i (some ⟨t.now_ns, rest, some id⟩) with
      alerts := alertOf t.now_ns id event :: s.alerts }

/-- One step. An event is created with a new UUID. -/
def alertStep (s : AlertState I) : AlertEvent I → Option (AlertState I)
  | .read i lag =>
    if s.tick i = none ∧ lag < s.clock then
      match get_upcoming_events settings s.events (s.clock - lag) with
      | .ok upcoming => some (s.setTick i (some ⟨s.clock - lag, upcoming, none⟩))
      | .error _ => some s
    else none
  | .next i =>
    match s.tick i with
    | some ⟨now_ns, [], none⟩ => some (s.setTick i none)
    | some ⟨now_ns, (id, event) :: rest, none⟩ =>
      some (s.visit i ⟨now_ns, (id, event) :: rest, none⟩ id event rest)
    | _ => none
  | .mark i stored =>
    match s.tick i with
    | some ⟨now_ns, upcoming, some id⟩ =>
      let events := if stored then update_event_by_id s.events id (markForm now_ns) else s.events
      some { s.setTick i (some ⟨now_ns, upcoming, none⟩) with events := events }
    | _ => none
  | .abort i => some (s.setTick i none)
  | .create id event =>
    if id ∉ s.events then some { s with events := s.events.set id event } else none
  | .update id form_data => some { s with events := update_event_by_id s.events id form_data }
  | .elapse time => some { s with clock := s.clock + time }

/-- Before any event is created. -/
def AlertState.start (clock : ℕ) : AlertState I := ⟨clock, .empty, fun _ => none, [], []⟩

/-- The events that were alerted, with the start times they were alerted for. -/
def AlertState.alertedPairs (s : AlertState I) : List (String × ℤ) :=
  s.alerts.map fun a => (a.event_id, a.start_at)

/-- **One alert for each start time**: no event is alerted twice for one, and what a tick finds in
its window and passes over has been alerted. -/
def AlertedOnce (s : AlertState I) : Prop :=
  s.alertedPairs.Nodup ∧ ∀ p ∈ s.passed, p ∈ s.alertedPairs

end OpenLaunch.Calendar
