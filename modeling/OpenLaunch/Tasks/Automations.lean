import OpenLaunch.Transition
import OpenLaunch.Python.Dict
import OpenLaunch.Python.Json
import OpenLaunch.Python.Lines
import OpenLaunch.Python.Replace
import Mathlib.Data.List.Sort

/-! # Claiming due automations

A worker that claims the due automations reads them, evaluates when each runs next, and commits this
with the time of the claim. Where the database locks no rows, the reads and the commits of other
workers come in between. A recurrence that cannot be evaluated raises, and nothing is committed. -/

namespace OpenLaunch.Tasks

open Python Transition

universe u

/-! ## Recurrences -/

/-- The libraries of recurrence rules and of time zones. `Rule`, `Zone` and `Local` are parsed rules,
time zones, and times without a zone. -/
structure Calendar (Rule Zone Local : Type) where
  /-- `ZoneInfo(tz)`, if it does not raise. -/
  zoneInfo : String → Option Zone
  /-- `rrulestr(s, ignoretz=True)`, with the epoch as `dtstart` or without `dtstart`. -/
  rrulestr : (epoch : Bool) → List Char → Except PyErr Rule
  /-- `rule.after(dt)`. -/
  after : Rule → Local → Except PyErr (Option Local)
  /-- `datetime.now(zi)` at a time, without its zone. -/
  now : Option Zone → ℤ → Local
  /-- `int(dt.timestamp() * 1_000_000_000)`, for a time of the zone. -/
  timestamp : Option Zone → Local → Except PyErr ℤ

variable {Rule Zone Local : Type} (cal : Calendar Rule Zone Local)

/-- `resolve_tz`. -/
def resolve_tz : Option String → Option Zone
  | none => none
  | some tz => if tz = "" then none else cal.zoneInfo tz

/-- The parts `key=value` of a rule, in their order. -/
def ruleParts (s : List Char) : List (List Char × List Char) :=
  let raw := replace "RRULE:".toList [] s
  let pieces := (splitLines ';' raw).1 ++ [(splitLines ';' raw).2]
  (pieces.filter fun p => '=' ∈ p).map fun p =>
    (p.takeWhile (· ≠ '='), (p.dropWhile (· ≠ '=')).tail)

/-- `parse_rule`. Of two parts with one key, a `dict` has the last. -/
def parse_rule (s : List Char) : Except PyErr Rule :=
  let freq := (Assoc.get? (ruleParts s).reverse "FREQ".toList).getD []
  cal.rrulestr (freq = "MINUTELY".toList ∨ freq = "HOURLY".toList) s

/-- `next_run_ns`, at the time `clock`. Only a `str` has what is called first. -/
def next_run_ns (s : Json) (tz : Option String) (clock : ℤ) : Except PyErr (Option ℤ) :=
  match s with
  | .str s =>
    let zi := resolve_tz cal tz
    (parse_rule cal s.toList).bind fun rule =>
      (cal.after rule (cal.now zi clock)).bind fun dt =>
        match dt with
        | none => .ok none
        | some dt => (cal.timestamp zi dt).map some
  | _ => .error .attributeError

/-! ## The table -/

/-- A row of the table of automations, as far as claims are concerned. -/
structure Automation where
  id : String
  user_id : String
  data : Json
  is_active : Bool
  last_run_at : Option ℤ
  next_run_at : Option ℤ
  deriving DecidableEq

/-- The table. The ids are its primary key. -/
structure AutomationTable where
  rows : List Automation
  nodup : (rows.map Automation.id).Nodup

/-- The automation runs at a time that has come. -/
def Automation.isDue (now_ns : ℤ) (row : Automation) : Bool :=
  row.is_active && (match row.next_run_at with
    | some next => decide (next ≤ now_ns)
    | none => false)

/-- The rows that `claim_due` selects. Those that run at one time are in the order of the table. -/
def AutomationTable.due (table : AutomationTable) (now_ns : ℤ) (limit : ℕ) : List Automation :=
  ((table.rows.filter (Automation.isDue now_ns)).insertionSort fun a b =>
    a.next_run_at.getD 0 ≤ b.next_run_at.getD 0).take limit

/-- `row.data.get('rrule', '')`. -/
def Automation.rrule (row : Automation) : Except PyErr Json :=
  match row.data with
  | .dict kvs => .ok ((Assoc.get? kvs "rrule").getD (.str ""))
  | _ => .error .attributeError

/-- When a row runs next, for the time zones of the users. -/
def Automation.nextRun (timezone : String → Option String) (row : Automation) (clock : ℤ) :
    Except PyErr (Option ℤ) :=
  row.rrule.bind fun rrule => next_run_ns cal rrule (timezone row.user_id) clock

/-- The update of a row: of the values that were read, those that changed are written. -/
def Automation.flush (read : Automation) (now_ns : ℤ) (next : Option ℤ) (stored : Automation) :
    Automation :=
  { stored with
    last_run_at := if read.last_run_at = some now_ns then stored.last_run_at else some now_ns
    next_run_at := if read.next_run_at = next then stored.next_run_at else next }

@[simp] theorem Automation.flush_id (read stored : Automation) (now_ns : ℤ) (next : Option ℤ) :
    (read.flush now_ns next stored).id = stored.id := rfl

/-- The rows that were read are updated, by their ids. -/
def AutomationTable.update (table : AutomationTable) (now_ns : ℤ)
    (batch : List (Automation × Option ℤ)) : AutomationTable where
  rows := table.rows.map fun stored =>
    match batch.find? fun e => e.1.id = stored.id with
    | some e => e.1.flush now_ns e.2 stored
    | none => stored
  nodup := by
    rw [List.map_map]
    convert table.nodup using 2
    funext stored
    rw [Function.comp_apply]
    split <;> rfl

/-! ## Workers -/

/-- What a worker has read: the time of the claim, and the rows. -/
structure Batch where
  now_ns : ℤ
  rows : List Automation

/-- A claimed automation: when it was to run, the time of the claim, and when it runs next. -/
structure Claim (W : Type u) where
  worker : W
  id : String
  occurrence : Option ℤ
  now_ns : ℤ
  next : Option ℤ

/-- The table, what the workers have read and not committed yet, and what they have claimed. -/
structure Scheduler (W : Type u) where
  table : AutomationTable
  reading : W → Option Batch
  claims : List (Claim W)

/-- The steps of `claim_due`. -/
inductive ClaimEvent (W : Type u)
  /-- A worker selects the rows that are due. -/
  | read (w : W) (now_ns : ℤ) (limit : ℕ)
  /-- A worker evaluates the recurrences, each at its time, and commits. -/
  | commit (w : W) (clock : String → ℤ)

variable {W : Type u} [DecidableEq W] (timezone : String → Option String)

/-- The rows of a batch with their next runs, if every recurrence can be evaluated. -/
def Batch.evaluate (b : Batch) (clock : String → ℤ) :
    Except PyErr (List (Automation × Option ℤ)) :=
  b.rows.mapM fun row => (row.nextRun cal timezone (clock row.id)).map fun next => (row, next)

/-- The claims of a batch. -/
def Batch.claims (b : Batch) (w : W) (evaluated : List (Automation × Option ℤ)) : List (Claim W) :=
  evaluated.map fun e => ⟨w, e.1.id, e.1.next_run_at, b.now_ns, e.2⟩

/-- One step. Where a recurrence raises, the session is rolled back. -/
def claimStep (s : Scheduler W) : ClaimEvent W → Option (Scheduler W)
  | .read w now_ns limit =>
    if s.reading w = none then
      some { s with
        reading := Function.update s.reading w (some ⟨now_ns, s.table.due now_ns limit⟩) }
    else none
  | .commit w clock =>
    (s.reading w).map fun b =>
      match b.evaluate cal timezone clock with
      | .ok evaluated =>
        { table := s.table.update b.now_ns evaluated
          reading := Function.update s.reading w none
          claims := s.claims ++ b.claims w evaluated }
      | .error _ => { s with reading := Function.update s.reading w none }

/-- No worker has read anything, and nothing is claimed. -/
def Scheduler.start (table : AutomationTable) : Scheduler W := ⟨table, fun _ => none, []⟩

end OpenLaunch.Tasks
