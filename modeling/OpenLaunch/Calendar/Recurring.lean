import OpenLaunch.Python.Json
import Mathlib.Data.Int.Notation
import Mathlib.Data.List.Pairwise

/-! # Recurring events

The instances of a recurring event in a range. The rule of the event is enumerated on the wall clock
of the server, from one day before the range on, and each time that it gives is then read on the
clock of a time zone. Times are in nanoseconds since the epoch, and those of wall clocks in
microseconds. -/

namespace OpenLaunch.Calendar

open Python

/-! ## Clocks and rules -/

/-- A wall clock: what it shows at a time, and the time at which it shows something. -/
structure WallClock where
  /-- `datetime.fromtimestamp(ns / 1_000_000_000)`. -/
  wall : ℤ → ℤ
  /-- `int(dt.timestamp() * 1_000_000_000)`. -/
  stamp : ℤ → ℤ

/-- `timedelta(days=1)`. -/
def oneDay : ℤ := 86400000000

/-- A rule with its start, as the wall clock times at which it occurs. -/
structure RRule where
  occurs : ℤ → Prop
  /-- `rule.after(dt, inc=inc)`: the next occurrence. -/
  after : ℤ → Bool → Option ℤ
  after_some : ∀ dt inc next, after dt inc = some next →
    occurs next ∧ (dt < next ∨ inc = true ∧ dt = next) ∧
      ∀ t, occurs t → (dt < t ∨ inc = true ∧ dt = t) → next ≤ t
  after_none : ∀ dt inc, after dt inc = none → ∀ t, occurs t → ¬ (dt < t ∨ inc = true ∧ dt = t)

/-- An event as a dictionary, or an instance of one. -/
structure EventDict where
  id : String
  rrule : Option String
  start_at : ℤ
  end_at : Option ℤ
  instance_id : Option String
  others : List (String × Json)

section Expansion

variable (server : WallClock) (zoneInfo : String → Option WallClock)
  (rrulestr : String → ℤ → Option RRule)

/-- The clock of the argument `tz`: of the server without one, or where there is no such zone. -/
def clockOf (tz : Option String) : WallClock :=
  match tz with
  | none => server
  | some tz => if tz = "" then server else (zoneInfo tz).getD server

/-- A number that is not zero, of a value that may be missing. -/
def nonzero (n : Option ℤ) : Option ℤ := n.filter fun n => n ≠ 0

/-- `original_end_ns - original_start_ns`, of an event with an end. -/
def durationOf (event : EventDict) : Option ℤ :=
  (nonzero event.end_at).map fun end_at => end_at - event.start_at

/-- The instance that starts at a time. -/
def instanceAt (event : EventDict) (start_ns : ℤ) : EventDict :=
  { event with
    start_at := start_ns
    end_at := (nonzero (durationOf event)).map fun duration_ns => start_ns + duration_ns
    instance_id := some (event.id ++ "_" ++ toString start_ns) }

/-- The loop, at an occurrence, with the number of instances that it may still find. -/
def instancesFrom (rule : RRule) (clock : WallClock) (event : EventDict) (range_start range_end_dt :
    ℤ) (left : ℕ) (dt : Option ℤ) : List EventDict :=
  match dt with
  | none => []
  | some t =>
    if t < range_end_dt ∧ 0 < left then
      if range_start ≤ clock.stamp t then
        instanceAt event (clock.stamp t) ::
          instancesFrom rule clock event range_start range_end_dt (left - 1) (rule.after t false)
      else instancesFrom rule clock event range_start range_end_dt left (rule.after t false)
    else []
termination_by match dt with
  | none => 0
  | some t => 1 + (range_end_dt - t).toNat
decreasing_by
  all_goals
    cases hnext : rule.after t false with
    | none =>
      simp only
      omega
    | some next =>
      obtain ⟨-, hlater, -⟩ := rule.after_some t false next hnext
      simp only [Bool.false_eq_true, false_and, or_false] at hlater
      simp only
      omega

/-- `expand_recurring_event`. -/
def expand_recurring_event (event : EventDict) (range_start_ns range_end_ns : ℤ)
    (tz : Option String) (max_instances : ℕ) : List EventDict :=
  match event.rrule with
  | none => [event]
  | some rrule_str =>
    if rrule_str = "" then [event]
    else
      let range_end_dt := server.wall range_end_ns
      let scan_start := server.wall range_start_ns - oneDay
      match rrulestr rrule_str (server.wall event.start_at) with
      | none => [event]
      | some rule =>
        instancesFrom rule (clockOf server zoneInfo tz) event range_start_ns range_end_dt
          max_instances (rule.after scan_start true)

end Expansion

/-! ## What an expansion is -/

/-- A time in the range at which the clock shows an occurrence of the rule. -/
def IsOccurrence (clock : WallClock) (rule : RRule) (range_start range_end s : ℤ) : Prop :=
  range_start ≤ s ∧ s < range_end ∧ ∃ t, rule.occurs t ∧ clock.stamp t = s

/-- The instances are those at the occurrences in the range, one after the other, up to a number of
them, and each takes as long as the event. -/
structure Expansion (clock : WallClock) (rule : RRule) (event : EventDict)
    (range_start range_end : ℤ) (max_instances : ℕ) (instances : List EventDict) : Prop where
  increasing : (instances.map EventDict.start_at).Pairwise (· < ·)
  sound : ∀ i ∈ instances, IsOccurrence clock rule range_start range_end i.start_at
  atMost : instances.length ≤ max_instances
  complete : ∀ s, IsOccurrence clock rule range_start range_end s →
    (∃ i ∈ instances, i.start_at = s) ∨
      instances.length = max_instances ∧ ∀ i ∈ instances, i.start_at < s
  same : ∀ i ∈ instances, i = { event with
    start_at := i.start_at
    end_at := event.end_at.map fun end_at => i.start_at + (end_at - event.start_at)
    instance_id := some (event.id ++ "_" ++ toString i.start_at) }

/-- Over the range, the clock of the zone goes with the one of the server: it shows the same at the
start of the event, it takes the occurrences in their order, and the range that is scanned on the
clock of the server is the one that is asked for. -/
structure GoesWith (server clock : WallClock) (rule : RRule) (event : EventDict)
    (range_start range_end : ℤ) : Prop where
  anchor : clock.wall event.start_at = server.wall event.start_at
  increasing : ∀ t u, rule.occurs t → rule.occurs u → t < u → clock.stamp t < clock.stamp u
  first : ∀ t, rule.occurs t → range_start ≤ clock.stamp t →
    server.wall range_start - oneDay ≤ t
  last : ∀ t, rule.occurs t → (t < server.wall range_end ↔ clock.stamp t < range_end)

section Proofs

variable {rule : RRule} {clock : WallClock} {event : EventDict} {range_start range_end_dt : ℤ}

/-- The instances that the loop finds from an occurrence on. -/
structure FoundFrom (rule : RRule) (clock : WallClock) (event : EventDict)
    (range_start range_end_dt : ℤ) (left : ℕ) (dt : Option ℤ) (instances : List EventDict) :
    Prop where
  increasing : (instances.map EventDict.start_at).Pairwise (· < ·)
  sound : ∀ i ∈ instances, ∃ t u, dt = some t ∧ rule.occurs u ∧ t ≤ u ∧ u < range_end_dt ∧
    range_start ≤ clock.stamp u ∧ i = instanceAt event (clock.stamp u)
  atMost : instances.length ≤ left
  complete : ∀ t, dt = some t → ∀ u, rule.occurs u → t ≤ u → u < range_end_dt →
    range_start ≤ clock.stamp u → (∃ i ∈ instances, i.start_at = clock.stamp u) ∨
      instances.length = left ∧ ∀ i ∈ instances, i.start_at < clock.stamp u

theorem after_false_spec {t next : ℤ} (h : rule.after t false = some next) :
    rule.occurs next ∧ t < next ∧ ∀ u, rule.occurs u → t < u → next ≤ u := by
  obtain ⟨hoccurs, hlater, hleast⟩ := rule.after_some t false next h
  refine ⟨hoccurs, hlater.resolve_right (by simp), fun u hu htu => hleast u hu (.inl htu)⟩

/-- After an occurrence that is not the last one there is a next one. -/
theorem exists_next {t u : ℤ} (hu : rule.occurs u) (htu : t < u) :
    ∃ next, rule.after t false = some next ∧ next ≤ u := by
  cases hnext : rule.after t false with
  | none => exact absurd (.inl htu) (rule.after_none t false hnext u hu)
  | some next => exact ⟨next, rfl, (after_false_spec hnext).2.2 u hu htu⟩

/-- **The loop.** The induction is the one of the loop: it goes on at the next occurrence. -/
theorem foundFrom (hincreasing : ∀ t u, rule.occurs t → rule.occurs u → t < u →
      clock.stamp t < clock.stamp u) (left : ℕ) (dt : Option ℤ)
    (hdt : ∀ t, dt = some t → rule.occurs t) :
    FoundFrom rule clock event range_start range_end_dt left dt
      (instancesFrom rule clock event range_start range_end_dt left dt) := by
  fun_induction instancesFrom rule clock event range_start range_end_dt left dt with
  | case1 left =>
    exact ⟨.nil, fun i hi => absurd hi List.not_mem_nil, Nat.zero_le _, fun t ht => nomatch ht⟩
  | case2 left t hgoes hstart ih =>
    have hrest := ih fun next hnext => (after_false_spec hnext).1
    have ht := hdt t rfl
    refine ⟨?_, ?_, ?_, ?_⟩
    · refine List.pairwise_cons.mpr ⟨fun s hs => ?_, hrest.increasing⟩
      obtain ⟨i, hi, rfl⟩ := List.mem_map.mp hs
      obtain ⟨next, u, hnext, hu, hle, -, -, rfl⟩ := hrest.sound i hi
      have hlater := (after_false_spec hnext).2.1
      exact hincreasing t u ht hu (by omega)
    · intro i hi
      rcases List.mem_cons.mp hi with rfl | hi
      · exact ⟨t, t, rfl, ht, Int.le_refl t, hgoes.1, hstart, rfl⟩
      · obtain ⟨next, u, hnext, hu, hle, hend, hin, rfl⟩ := hrest.sound i hi
        have hlater := (after_false_spec hnext).2.1
        exact ⟨t, u, rfl, hu, by omega, hend, hin, rfl⟩
    · have hrest' := hrest.atMost
      rw [List.length_cons]
      omega
    · intro t' ht' u hu hle hend hin
      cases ht'
      by_cases htu : t = u
      · subst htu
        exact .inl ⟨_, List.mem_cons_self, rfl⟩
      · obtain ⟨next, hnext, hle'⟩ := @exists_next rule t u hu (by omega)
        rcases hrest.complete next hnext u hu hle' hend hin with ⟨i, hi, hstart'⟩ | ⟨hfull, hbefore⟩
        · exact .inl ⟨i, List.mem_cons_of_mem _ hi, hstart'⟩
        · refine .inr ⟨?_, List.forall_mem_cons.mpr ⟨?_, hbefore⟩⟩
          · rw [List.length_cons, hfull]
            omega
          · exact hincreasing t u ht hu (by omega)
  | case3 left t hgoes hstart ih =>
    have hrest := ih fun next hnext => (after_false_spec hnext).1
    refine ⟨hrest.increasing, fun i hi => ?_, hrest.atMost, ?_⟩
    · obtain ⟨next, u, hnext, hu, hle, hend, hin, rfl⟩ := hrest.sound i hi
      have hlater := (after_false_spec hnext).2.1
      exact ⟨t, u, rfl, hu, by omega, hend, hin, rfl⟩
    · intro t' ht' u hu hle hend hin
      cases ht'
      -- The occurrence itself starts before the range.
      have htu : t ≠ u := fun heq => hstart (heq ▸ hin)
      obtain ⟨next, hnext, hle'⟩ := @exists_next rule t u hu (by omega)
      exact hrest.complete next hnext u hu hle' hend hin
  | case4 left t hstop =>
    refine ⟨.nil, fun i hi => absurd hi List.not_mem_nil, Nat.zero_le _, ?_⟩
    intro t' ht' u hu hle hend hin
    cases ht'
    refine .inr ⟨?_, fun i hi => absurd hi List.not_mem_nil⟩
    rw [List.length_nil]
    omega

theorem nonzero_of_ne {n : Option ℤ} (h : n ≠ some 0) : nonzero n = n := by
  cases n with
  | none => rfl
  | some n => exact Option.filter_some_pos (by simpa using h)

/-- An instance takes as long as the event, if that takes any time. -/
theorem instanceAt_eq (hend : event.end_at ≠ some 0) (hlong : event.end_at ≠ some event.start_at)
    (s : ℤ) : instanceAt event s = { event with
      start_at := s
      end_at := event.end_at.map fun end_at => s + (end_at - event.start_at)
      instance_id := some (event.id ++ "_" ++ toString s) } := by
  have hduration : nonzero (durationOf event) =
      event.end_at.map fun end_at => end_at - event.start_at := by
    rw [durationOf, nonzero_of_ne hend]
    apply nonzero_of_ne
    intro hzero
    obtain ⟨end_at, hend_at, hsub⟩ := Option.map_eq_some_iff.mp hzero
    rw [hend_at] at hlong
    exact hlong (congrArg some (by omega))
  rw [instanceAt, hduration, Option.map_map]
  rfl

end Proofs

/-- `FREQ=DAILY;COUNT=1`. -/
def onceRule (anchor : ℤ) : RRule where
  occurs t := t = anchor
  after dt inc := if dt < anchor ∨ inc = true ∧ dt = anchor then some anchor else none
  after_some dt inc next h := by
    split at h
    · next hlater =>
      cases h
      exact ⟨rfl, hlater, fun t ht _ => (Int.le_of_eq ht.symm)⟩
    · cases h
  after_none dt inc h t ht := by
    split at h
    · cases h
    · next hlater =>
      rw [ht]
      exact hlater

/-- The clock that shows UTC. -/
def utc : WallClock := ⟨fun ns => ns / 1000, fun dt => dt * 1000⟩

/-- The clock that is five hours behind. -/
def newYork : WallClock :=
  ⟨fun ns => ns / 1000 - 18000000000, fun dt => (dt + 18000000000) * 1000⟩

/-- The one zone there is. -/
def newYorkZone (tz : String) : Option WallClock :=
  if tz = "America/New_York" then some newYork else none

/-- An hour at noon, UTC. -/
def noonMeeting : EventDict :=
  ⟨"e", some "FREQ=DAILY;COUNT=1", 43200000000000, some 46800000000000, none, []⟩

end OpenLaunch.Calendar
