import KiwiCI.Lib.Text
import KiwiCI.Lib.Table
import KiwiCI.Lib.Transaction
import KiwiCI.Model

/-!
`internal/server/schedule_cron.go`: cron expressions of five fields and the search for
their next occurrence.

An instant is a number of seconds since the epoch, in UTC.  `nextBudget` walks over days,
each paid from the tick's scan budget, and on a day that matches over its hours and
minutes.  `next_least` says what the walk is for: whatever it returns is the first matching
minute after the instant it was asked about.
-/

namespace KiwiCI.Server

open Text List

/-! ## Fields -/

/-- `cronField`: which values between `min` and `max` the field admits. -/
structure CronField (min max : Nat) where
  mask : List Bool
  size : mask.length = max - min + 1

/-- Why one field does not parse. -/
inductive CronFieldError where
  | emptyEntry
  | invalidStep (part : String)
  | invalidValue (text : String)
  | invalidRange (part : String)
  deriving DecidableEq, Repr

/-- Why an expression does not parse; a field's error carries the field's name. -/
inductive CronError where
  | fieldCount (spec : String) (count : Nat)
  | field (name : String) (cause : CronFieldError)
  deriving DecidableEq, Repr

namespace CronField

variable {min max : Nat}

/-- `mask[v-min]`. -/
def contains (f : CronField min max) (v : Nat) : Bool := f.mask.getD (v - min) false

/-- `isRestricted`: some value is left out. -/
def isRestricted (f : CronField min max) : Bool := f.mask.any (!·)

/-- The admitted values, in the order the loops visit them. -/
def values (f : CronField min max) : List Nat :=
  (List.range' min (max + 1 - min)).filter f.contains

/-- `mask[v-min] = true`. -/
def mark (f : CronField min max) (v : Nat) : CronField min max where
  mask := f.mask.set (v - min) true
  size := by rw [List.length_set, f.size]

/-- The mask a field starts from. -/
def blank (min max : Nat) : CronField min max where
  mask := List.replicate (max - min + 1) false
  size := List.length_replicate

end CronField

def cronMonthNames : List (String × Nat) :=
  [("jan", 1), ("feb", 2), ("mar", 3), ("apr", 4), ("may", 5), ("jun", 6),
    ("jul", 7), ("aug", 8), ("sep", 9), ("oct", 10), ("nov", 11), ("dec", 12)]

def cronDowNames : List (String × Nat) :=
  [("sun", 0), ("mon", 1), ("tue", 2), ("wed", 3), ("thu", 4), ("fri", 5), ("sat", 6)]

/-- `cronValue`: a name of the field, or a number. -/
def cronValue (names : List (String × Nat)) (s : String) : Except CronFieldError Int :=
  match names.lookup (lower s) with
  | some v => .ok v
  | none =>
    match atoi s with
    | some v => .ok v
    | none => .error (.invalidValue s)

/-- The part of an entry before its `/` and the step behind it, 1 where there is none. -/
def cronStep (part : String) : Except CronFieldError (String × Nat) :=
  match cut "/" part with
  | none => .ok (part, 1)
  | some (base, text) =>
    match atoi text with
    | some v => if v < 1 then .error (.invalidStep part) else .ok (base, v.toNat)
    | none => .error (.invalidStep part)

def cronRange (min max : Nat) (names : List (String × Nat)) (base : String) :
    Except CronFieldError (Int × Int) :=
  if base = "*" ∨ base = "?" then .ok (min, max)
  else match cut "-" base with
    | some (a, b) => do
      let low ← cronValue names a
      let high ← cronValue names b
      return (low, high)
    | none => do
      let v ← cronValue names base
      return (v, v)

/-- One entry of a field: `low`, `low + step`, … up to `high` are admitted. -/
def cronEntry {min max : Nat} (names : List (String × Nat)) (f : CronField min max)
    (entry : String) : Except CronFieldError (CronField min max) := do
  let part := trimSpace entry
  if part = "" then throw .emptyEntry
  let (base, step) ← cronStep part
  let (low, high) ← cronRange min max names base
  if low > high ∨ high > max ∨ low < min then throw (.invalidRange part)
  let offsets := (List.range (high - low + 1).toNat).filter (· % step = 0)
  return offsets.foldl (fun f k => f.mark (low.toNat + k)) f

def parseCronField (s : String) (min max : Nat) (names : List (String × Nat)) :
    Except CronFieldError (CronField min max) :=
  (split ',' s).foldlM (cronEntry names) (.blank min max)

/-! ## Expressions -/

structure CronSchedule where
  minute : CronField 0 59
  hour : CronField 0 23
  dom : CronField 1 31
  month : CronField 1 12
  dow : CronField 0 6

def fields (s : String) : List String :=
  ((s.toList.splitOnP isSpace).filter (· ≠ [])).map String.ofList

/-- Parse one field under its name. -/
def cronNamed (name s : String) (min max : Nat) (names : List (String × Nat)) :
    Except CronError (CronField min max) :=
  (parseCronField s min max names).mapError (.field name)

def parseCron (s : String) : Except CronError CronSchedule :=
  match fields s with
  | [minute, hour, dom, month, dow] => do
    return {
      minute := ← cronNamed "minute" minute 0 59 []
      hour := ← cronNamed "hour" hour 0 23 []
      dom := ← cronNamed "day-of-month" dom 1 31 []
      month := ← cronNamed "month" month 1 12 cronMonthNames
      dow := ← cronNamed "day-of-week" dow 0 6 cronDowNames }
  | parts => .error (.fieldCount s parts.length)

/-! ## The calendar -/

/-- The month and the day of the month of a day counted from the epoch: the Gregorian
calendar, in years that begin in March so that the leap day is their last. -/
def civil (day : Nat) : Nat × Nat :=
  let z := day + 719468
  let dayOfEra := z % 146097
  let yearOfEra := (dayOfEra - dayOfEra / 1460 + dayOfEra / 36524 - dayOfEra / 146096) / 365
  let dayOfYear := dayOfEra - (365 * yearOfEra + yearOfEra / 4 - yearOfEra / 100)
  let shifted := (5 * dayOfYear + 2) / 153
  (if shifted < 10 then shifted + 3 else shifted - 9, dayOfYear - (153 * shifted + 2) / 5 + 1)

-- 29 February 2024.
example : civil 19782 = (2, 29) := rfl

/-- `Weekday`, Sunday being 0; the epoch was a Thursday. -/
def weekday (day : Nat) : Nat := (day + 4) % 7

/-- The day an instant lies on. -/
def dayOf (t : Nat) : Nat := t / 86400

/-- `time.Date` with the given day, hour and minute. -/
def instantAt (day h m : Nat) : Nat := day * 86400 + h * 3600 + m * 60

/-- `Truncate(time.Minute)`. -/
def truncateMinute (t : Nat) : Nat := t / 60 * 60

namespace CronSchedule

def dayMatches (c : CronSchedule) (day : Nat) : Bool :=
  let (month, dom) := civil day
  if !c.month.contains month then false
  else
    let domSet := c.dom.contains dom
    let dowSet := c.dow.contains (weekday day)
    match c.dom.isRestricted, c.dow.isRestricted with
    | true, true => domSet || dowSet
    | true, false => domSet
    | false, true => dowSet
    | false, false => true

/-- `matches`: the minute and hour fields admit the time of day, the others the day. -/
def «matches» (c : CronSchedule) (t : Nat) : Bool :=
  c.minute.contains (t / 60 % 60) && c.hour.contains (t / 3600 % 24) && c.dayMatches (dayOf t)

/-- A cron occurrence: a whole minute that matches. -/
def Occurs (c : CronSchedule) (t : Nat) : Prop := t % 60 = 0 ∧ c.matches t = true

instance (c : CronSchedule) (t : Nat) : Decidable (c.Occurs t) :=
  inferInstanceAs (Decidable (_ ∧ _))

/-- The instants of a day the hour and minute fields admit, in the order the loops of
`firstTimeOnDay` visit them. -/
def timesOnDay (c : CronSchedule) (day : Nat) : List Nat :=
  c.hour.values.flatMap fun h => c.minute.values.map fun m => instantAt day h m

def firstTimeOnDay (c : CronSchedule) (day : Nat) (start : Nat) : Option Nat :=
  (c.timesOnDay day).find? (start < ·)

end CronSchedule

/-! ## The scan budget -/

/-- `cronScanBudget`; a search without a budget is unlimited. -/
abbrev ScanBudget := Option Nat

/-- `spend(1)`: whether the day was paid for, and what is left. -/
def ScanBudget.spend : ScanBudget → Bool × ScanBudget
  | none => (true, none)
  | some 0 => (false, some 0)
  | some (n + 1) => (true, some n)

def maxCronHorizonDays : Nat := 366 * 8 + 2

def maxCronScanDaysPerTick : Nat := 250000

namespace CronSchedule

/-- The loop of `nextBudget` over the days from `day` on. -/
def scanDays (c : CronSchedule) (start : Nat) :
    Nat → Nat → ScanBudget → Option Nat × ScanBudget
  | 0, _, budget => (none, budget)
  | steps + 1, day, budget =>
    match budget.spend with
    | (false, budget) => (none, budget)
    | (true, budget) =>
      match if c.dayMatches day then c.firstTimeOnDay day start else none with
      | some hit => (some hit, budget)
      | none => scanDays c start steps (day + 1) budget

def nextBudget (c : CronSchedule) (t : Nat) (budget : ScanBudget) :
    Option Nat × ScanBudget :=
  c.scanDays (truncateMinute t) (maxCronHorizonDays + 1) (dayOf (truncateMinute t)) budget

def next (c : CronSchedule) (t : Nat) : Option Nat := (c.nextBudget t none).1

/-! ## What the search finds -/

variable {c : CronSchedule} {day : Nat} {start t n : Nat}

theorem mem_values {min max : Nat} {f : CronField min max} {v : Nat} :
    v ∈ f.values ↔ (min ≤ v ∧ v < min + (max + 1 - min)) ∧ f.contains v = true := by
  rw [CronField.values, mem_filter, mem_range'_1]

theorem values_increasing {min max : Nat} (f : CronField min max) :
    f.values.Pairwise (· < ·) :=
  Pairwise.filter _ pairwise_lt_range'

theorem mem_timesOnDay :
    t ∈ c.timesOnDay day ↔ dayOf t = day ∧ t % 60 = 0 ∧
      c.minute.contains (t / 60 % 60) = true ∧ c.hour.contains (t / 3600 % 24) = true := by
  simp only [timesOnDay, mem_flatMap, mem_map, mem_values, instantAt, dayOf]
  constructor
  · rintro ⟨h, ⟨hour, hourSet⟩, m, ⟨minute, minuteSet⟩, rfl⟩
    have atHour : (day * 86400 + h * 3600 + m * 60) / 3600 % 24 = h := by omega
    have atMinute : (day * 86400 + h * 3600 + m * 60) / 60 % 60 = m := by omega
    rw [atHour, atMinute]
    exact ⟨by omega, by omega, minuteSet, hourSet⟩
  · rintro ⟨onDay, whole, minuteSet, hourSet⟩
    refine ⟨t / 3600 % 24, ⟨by omega, hourSet⟩, t / 60 % 60, ⟨by omega, minuteSet⟩, ?_⟩
    omega

theorem timesOnDay_increasing (c : CronSchedule) (day : Nat) :
    (c.timesOnDay day).Pairwise (· < ·) := by
  refine pairwise_flatMap.mpr ⟨fun h _ => ?_, ?_⟩
  · refine Pairwise.map _ (fun m m' earlier => ?_) (values_increasing c.minute)
    simp only [instantAt]
    omega
  · refine (values_increasing c.hour).imp fun {h h'} earlier a inFirst b inSecond => ?_
    obtain ⟨m, minute, rfl⟩ := mem_map.mp inFirst
    obtain ⟨m', minute', rfl⟩ := mem_map.mp inSecond
    have inHour := (mem_values.mp minute).1
    simp only [instantAt]
    omega

theorem occurs_iff : c.Occurs t ↔ c.dayMatches (dayOf t) = true ∧ t ∈ c.timesOnDay (dayOf t) := by
  rw [Occurs, «matches», mem_timesOnDay, Bool.and_eq_true, Bool.and_eq_true]
  constructor
  · rintro ⟨whole, ⟨minuteSet, hourSet⟩, onDay⟩
    exact ⟨onDay, rfl, whole, minuteSet, hourSet⟩
  · rintro ⟨onDay, -, whole, minuteSet, hourSet⟩
    exact ⟨whole, ⟨minuteSet, hourSet⟩, onDay⟩

/-- The first time `firstTimeOnDay` finds lies on the day and before every other one. -/
theorem firstTimeOnDay_least (found : c.firstTimeOnDay day start = some n) :
    n ∈ c.timesOnDay day ∧ start < n ∧ ∀ t ∈ c.timesOnDay day, start < t → n ≤ t := by
  obtain ⟨after, before, rest, shape, skipped⟩ := find?_eq_some_iff_append.mp found
  have increasing := timesOnDay_increasing c day
  rw [shape, pairwise_append, pairwise_cons] at increasing
  refine ⟨by simp [shape], by simpa using after, fun t onDay later => ?_⟩
  rw [shape, mem_append, mem_cons] at onDay
  rcases onDay with early | rfl | late
  · have early := skipped t early
    simp [later] at early
  · exact le_rfl
  · exact (increasing.2.1.1 t late).le

/-- What one day of the scan finds, for the occurrences on that day. -/
theorem scanDay_least
    (found : (if c.dayMatches day then c.firstTimeOnDay day start else none) = some n) :
    c.Occurs n ∧ dayOf n = day ∧ start < n ∧
      ∀ t, c.Occurs t → dayOf t = day → start < t → n ≤ t := by
  split at found
  case isFalse => cases found
  case isTrue onDay =>
    obtain ⟨time, after, least⟩ := firstTimeOnDay_least found
    have same := (mem_timesOnDay.mp time).1
    refine ⟨occurs_iff.mpr ⟨by rw [same]; exact onDay, by rw [same]; exact time⟩, same, after, ?_⟩
    intro t occurs here later
    have member := (occurs_iff.mp occurs).2
    rw [here] at member
    exact least t member later

theorem scanDay_none
    (nothing : (if c.dayMatches day then c.firstTimeOnDay day start else none) = none)
    (occurs : c.Occurs t) (later : start < t) : dayOf t ≠ day := by
  rintro rfl
  have ⟨onDay, member⟩ := occurs_iff.mp occurs
  rw [if_pos onDay, firstTimeOnDay, find?_eq_none] at nothing
  exact nothing t member (by simpa using later)

theorem scanDays_least (reached : ∀ t, c.Occurs t → start < t → day ≤ dayOf t)
    (found : (c.scanDays start steps day budget).1 = some n) :
    c.Occurs n ∧ start < n ∧ ∀ t, c.Occurs t → start < t → n ≤ t := by
  induction steps generalizing day budget with
  | zero => cases found
  | succ steps ih =>
    unfold scanDays at found
    split at found
    · cases found
    · split at found
      case h_1 hit here =>
        cases found
        obtain ⟨occurs, onDay, after, least⟩ := scanDay_least here
        refine ⟨occurs, after, fun t other later => ?_⟩
        rcases (reached t other later).eq_or_lt with same | beyond
        · exact least t other same.symm later
        · simp only [dayOf] at onDay beyond
          omega
      case h_2 nothing =>
        refine ih (fun t occurs later => ?_) found
        have here := reached t occurs later
        have other := scanDay_none nothing occurs later
        omega

/-- `nextBudget` returns the first occurrence after the instant it is asked about. -/
theorem next_least (found : (c.nextBudget t budget).1 = some n) :
    c.Occurs n ∧ t < n ∧ ∀ m, c.Occurs m → t < m → n ≤ m := by
  have later : ∀ m, c.Occurs m → (truncateMinute t < m ↔ t < m) := by
    intro m occurs
    have whole := occurs.1
    simp only [truncateMinute]
    omega
  have reached : ∀ m, c.Occurs m → truncateMinute t < m → dayOf (truncateMinute t) ≤ dayOf m :=
    fun m _ after => Nat.div_le_div_right after.le
  obtain ⟨occurs, after, least⟩ := scanDays_least reached found
  refine ⟨occurs, (later n occurs).mp after, fun m other beyond => ?_⟩
  exact least m other ((later m other).mpr beyond)

end CronSchedule

/-!
`internal/server/schedules.go`: the maintenance tick that fires due schedules, the manual
trigger, and the marker that records how far a schedule has come.

The state holds the schedule rows, the occurrence claims and the committed runs: SQL tables
with a database, the process's own maps without one.  A tick first collects what is due and
then works through it; so every tick and every manual trigger is a worker with a list of
work left, and workers of any number of replicas interleave, one store access at a time.
What the world answers to an access (the forge, the database, the file system, the
principals' grants) is part of the event.
-/

structure Schedule where
  id : String
  repository : String := ""
  repoID : String := ""
  repoURL : String := ""
  forge : String := ""
  trusted : Bool := false
  spec : String := ""
  enabled : Bool := true
  lastRun : Option Nat := none
  createdAt : Nat := 0
  createdBy : String := ""
  deriving DecidableEq, Repr

/-- The instant due occurrences are counted from: `LastRun`, or the creation. -/
def Schedule.base (sc : Schedule) : Nat := sc.lastRun.getD sc.createdAt

/-- Where the state lives: behind `s.DB`, or in the process and its data directory. -/
inductive Mode where
  | database
  | files
  deriving DecidableEq, Repr

/-- The first entry of a pipeline text's `on.schedule`. -/
structure CronTrigger where
  cron : String
  branches : List String := []
  deriving DecidableEq, Repr

/-- The server's configuration and the parts of it the scheduler consults. -/
structure Host where
  mode : Mode
  /-- `pipeline.Parse`, a job declared, and the first `on.schedule` entry. -/
  trigger : String → Option CronTrigger
  /-- The canonical repository identity, clone URL and forge `durableScheduleIdentity`
  derives, where the stored ones agree. -/
  identity : Schedule → Option (String × String × String)
  /-- `validateDurableScheduleCron`. -/
  cronShape : Schedule → Bool
  /-- The clone URL's host has a forge adapter. -/
  forgeKind : Schedule → Bool

/-- The cron expression of a schedule's text. -/
def Host.cron (h : Host) (spec : String) : Option CronSchedule :=
  match h.trigger spec with
  | none => none
  | some entry => if entry.cron = "" then none else (parseCron entry.cron).toOption

/-- `parseScheduleSpec`, of which the firing needs the expression; one without an
occurrence within the horizon of the process clock is refused. -/
def Host.parseScheduleSpec (h : Host) (clock : Nat) (spec : String) : Option CronSchedule :=
  match h.cron spec with
  | none => none
  | some cron => if (cron.next clock).isNone then none else some cron

def Host.durableScheduleIdentity (h : Host) (sc : Schedule) : Option Schedule :=
  (h.identity sc).map fun (repoID, repoURL, forge) =>
    { sc with repoID := repoID, repoURL := repoURL, forge := forge }

/-- `AuthStore`: who holds `trusted_run` on which repository; `none` is open mode. -/
abbrev Grants := Option (String → String → Bool)

def scheduleTrustStillGranted (grants : Grants) (sc : Schedule) : Bool :=
  match grants with
  | none => true
  | some holds => sc.createdBy ≠ "" && holds sc.createdBy sc.repoID

/-! ## State -/

/-- A committed run of a schedule: its `schedule_id` and `schedule_nominal`. -/
structure ScheduledRun where
  scheduleID : String
  nominal : Nat
  deriving DecidableEq, Repr

/-- One thing a worker has still to do. -/
inductive Work where
  /-- `fireSchedule` for the copy of the row that was read, at a nominal minute. -/
  | fire (sc : Schedule) (nominal : Nat)
  /-- `advanceSchedulePast`. -/
  | advance (id : String) (nominal : Nat)
  deriving DecidableEq, Repr

/-- A running `fireDueSchedules` or `triggerSchedule`. -/
structure Worker where
  manual : Bool
  /-- The occurrences the tick collected. -/
  collected : List (String × Nat) := []
  work : List Work
  deriving DecidableEq, Repr

structure State where
  schedules : Table String Schedule := .empty
  occurrences : Table (String × Nat) RunID := .empty
  runs : Table RunID ScheduledRun := .empty
  /-- The occurrences a tick gave up, with an audit entry, because the schedule was
  disabled, deleted or no longer trusted. -/
  skipped : List (String × Nat) := []
  workers : Table Nat Worker := .empty

/-- What the world answers to one store access of a worker. -/
structure Reply where
  /-- `GetSchedule` succeeds. -/
  read : Bool := true
  grants : Grants := none
  /-- `newID`. -/
  runID : Option RunID
  clock : Nat := 0
  /-- `resolveExecutionRevision` succeeds. -/
  revision : Bool := true
  /-- `fetchImageLockByForge` succeeds. -/
  imageLock : Bool := true
  /-- The enqueue passes compilation, policy and admission, and its store write goes
  through. -/
  enqueue : Bool := true
  /-- The leadership epoch is still this replica's. -/
  leader : Bool := true
  /-- The durable write of the marker, or of the schedules journal, goes through. -/
  durable : Bool := true

/-! ## Firing -/

inductive FireError where
  | read
  | gone
  | disabled
  | identity
  | unauthorized
  | newID
  | spec
  | revision
  | imageLock
  | staleLeader
  | enqueue
  | notDurable
  deriving DecidableEq, Repr

namespace State

/-- The row a fire goes by: the durable one with a database, the copy it was given
otherwise. -/
def currentSchedule (h : Host) (sc : Schedule) (r : Reply) (s : State) :
    Except FireError Schedule :=
  match h.mode with
  | .files => .ok sc
  | .database =>
    if !r.read then .error .read
    else match s.schedules.get? sc.id with
      | none => .error .gone
      | some durable => if durable.enabled then .ok durable else .error .disabled

/-- `fireSchedule` up to the trust check. -/
def authorizedSchedule (h : Host) (sc : Schedule) (r : Reply) (s : State) :
    Except FireError Schedule := do
  let sc ← s.currentSchedule h sc r
  let sc ← orThrow (h.durableScheduleIdentity sc) .identity
  require (!(sc.trusted && !scheduleTrustStillGranted r.grants sc)) .unauthorized
  return sc

/-- `scheduleOccurrenceRunLocked`: the claim, or a committed run that carries the
occurrence and whose claim is adopted. -/
def scheduleOccurrenceRun (id : String) (nominal : Nat) (s : State) : Option RunID × State :=
  match s.occurrences.get? (id, nominal) with
  | some run => (some run, s)
  | none =>
    match s.runs.rows.find? fun row => row.2 = ⟨id, nominal⟩ with
    | some row => (some row.1, { s with occurrences := s.occurrences.put (id, nominal) row.1 })
    | none => (none, s)

/-- `adoptCommittedScheduleOccurrence`, which only the mode without a database asks. -/
def adopt (h : Host) (id : String) (nominal : Nat) (s : State) : Option RunID × State :=
  match h.mode with
  | .database => (none, s)
  | .files => s.scheduleOccurrenceRun id nominal

/-- The checks of `fireSchedule` between the adoption and the enqueue. -/
def submission (h : Host) (sc : Schedule) (r : Reply) : Except FireError RunID := do
  let run ← orThrow r.runID .newID
  let _ ← orThrow (h.parseScheduleSpec r.clock sc.spec) .spec
  if h.forgeKind sc then
    require r.revision .revision
    require r.imageLock .imageLock
  require r.enqueue .enqueue
  require r.leader .staleLeader
  return run

/-- The run and its claim, committed together. -/
def commitRun (id : String) (nominal : Nat) (run : RunID) (s : State) : State :=
  { s with
    runs := s.runs.put run ⟨id, nominal⟩
    occurrences := s.occurrences.put (id, nominal) run }

/-- The part of `enqueueID` that commits: whether the run was committed, or its nominal
belongs to another run.  A database refuses a run id twice; without one the claim's journal
is written after the run and its failure reported. -/
def insertScheduleClaim (h : Host) (id : String) (nominal : Nat) (run : RunID) (r : Reply)
    (s : State) : Except FireError Bool × State :=
  if (s.occurrences.get? (id, nominal)).any (· ≠ run) then (.ok false, s)
  else match h.mode with
    | .database =>
      if (s.runs.get? run).isSome then (.error .enqueue, s)
      else (.ok true, s.commitRun id nominal run)
    | .files =>
      (if r.durable then .ok true else .error .notDurable, s.commitRun id nominal run)

/-- `fireSchedule` before its advance: whether the occurrence was fired by this call. -/
def fireSchedule (h : Host) (sc : Schedule) (nominal : Nat) (r : Reply) (s : State) :
    Except FireError Bool × State :=
  match s.authorizedSchedule h sc r with
  | .error e => (.error e, s)
  | .ok sc =>
    match s.adopt h sc.id nominal with
    | (some _, s) => (.ok false, s)
    | (none, s) =>
      match submission h sc r with
      | .error e => (.error e, s)
      | .ok run => s.insertScheduleClaim h sc.id nominal run r

/-- `advanceSchedulePast`: `last_run = GREATEST(COALESCE(last_run, epoch), nominal)`. -/
def advanceSchedulePast (id : String) (nominal : Nat) (s : State) : State :=
  { s with schedules := s.schedules.modify id fun sc =>
      { sc with lastRun := some (max (sc.lastRun.getD 0) nominal) } }

end State

/-! ## Collecting what is due -/

/-- The inner loop of `nextDueScheduleFromBudget` over the occurrences of one schedule,
past those already collected. -/
def nextDueOccurrence (cron : CronSchedule) (id : String) (now : Nat)
    (seen : List (String × Nat)) : Nat → Nat → ScanBudget → Option Nat × ScanBudget
  | 0, _, budget => (none, budget)
  | steps + 1, base, budget =>
    match cron.nextBudget base budget with
    | (none, budget) => (none, budget)
    | (some next, budget) =>
      if now < next then (none, budget)
      else if (id, next) ∈ seen then nextDueOccurrence cron id now seen steps next budget
      else (some next, budget)

/-- `nextDueScheduleFromBudget` over the rows that are left of the sorted map. -/
def nextDueSchedule (h : Host) (clock now : Nat) (seen : List (String × Nat)) :
    List Schedule → ScanBudget → Option (Schedule × Nat) × ScanBudget
  | [], budget => (none, budget)
  | sc :: rest, budget =>
    match if sc.enabled then h.parseScheduleSpec clock sc.spec else none with
    | none => nextDueSchedule h clock now seen rest budget
    | some cron =>
      match nextDueOccurrence cron sc.id now seen 64 sc.base budget with
      | (some next, budget) => (some (sc, next), budget)
      | (none, budget) => nextDueSchedule h clock now seen rest budget

/-- The collection loop of `fireDueSchedules`; `dues` is in order of collection. -/
def collectDue (h : Host) (clock now : Nat) (rows : List Schedule) :
    Nat → List (Schedule × Nat) → ScanBudget → List (Schedule × Nat)
  | 0, dues, _ => dues
  | steps + 1, dues, budget =>
    match nextDueSchedule h clock now (dues.map fun d => (d.1.id, d.2)) rows budget with
    | (none, _) => dues
    | (some due, budget) => collectDue h clock now rows steps (dues ++ [due]) budget

/-- Everything a tick collects. -/
def dueOccurrences (h : Host) (clock now : Nat) (rows : Table String Schedule) :
    List (Schedule × Nat) :=
  collectDue h clock now (rows.sorted.map (·.2)) 100 [] (some maxCronScanDaysPerTick)

/-- The worker of a tick that has collected its occurrences. -/
def tickWorker (dues : List (Schedule × Nat)) : Worker where
  manual := false
  collected := dues.map fun d => (d.1.id, d.2)
  work := dues.map fun d => .fire d.1 d.2

/-- A row as `validateLoadedSchedules` keeps it: canonical, or disabled. -/
def Host.validateLoaded (h : Host) (sc : Schedule) : Schedule :=
  match h.durableScheduleIdentity sc with
  | some valid => if h.cronShape valid then valid else { sc with enabled := false }
  | none => { sc with enabled := false }

/-- Whether `validateLoadedSchedules` reports the row as disabled. -/
def Host.loadsInvalid (h : Host) (sc : Schedule) : Bool :=
  !(h.durableScheduleIdentity sc).any h.cronShape

/-- A row as the reload leaves it in the store: disabled where it is invalid and that write
goes through. -/
def Host.leaveStored (h : Host) (saved : Bool) (sc : Schedule) : Schedule :=
  if h.loadsInvalid sc && saved then { sc with enabled := false } else sc

namespace State

/-- `reloadSchedulesFromStore`: the rows it serves to the tick, and the rows left in the
store. -/
def reloadSchedules (h : Host) (saved : String → Bool) (s : State) :
    Table String Schedule × State :=
  (s.schedules.map fun _ => h.validateLoaded,
    { s with schedules := s.schedules.map fun id => h.leaveStored (saved id) })

/-- `reconcileScheduleOccurrences`, for one committed run. -/
def reconcileRun (s : State) (row : Sigma fun _ : RunID => ScheduledRun) : State :=
  match s.schedules.get? row.2.scheduleID with
  | none => s
  | some _ =>
    if (s.occurrences.get? (row.2.scheduleID, row.2.nominal)).isSome then s
    else { s with
      occurrences := s.occurrences.put (row.2.scheduleID, row.2.nominal) row.1
      schedules := s.schedules.modify row.2.scheduleID fun sc =>
        if sc.lastRun.all (· < row.2.nominal) then { sc with lastRun := some row.2.nominal }
        else sc }

/-- `reconcileScheduleOccurrences`. -/
def reconcileOccurrences (s : State) : State := s.runs.rows.foldl reconcileRun s

/-- The refresh a tick starts with, and the rows it then evaluates; a failed read skips
the tick. -/
def discover (h : Host) (read : Bool) (saved : String → Bool) (s : State) :
    Option (Table String Schedule) × State :=
  match h.mode with
  | .database =>
    if read then (some (s.reloadSchedules h saved).1, (s.reloadSchedules h saved).2)
    else (none, s)
  | .files => (some s.reconcileOccurrences.schedules, s.reconcileOccurrences)

end State

/-! ## Events -/

/-- A change of a row by another request or replica. -/
inductive Change where
  | setEnabled (id : String) (enabled : Bool)
  | remove (id : String)
  deriving DecidableEq, Repr

inductive Event where
  /-- A maintenance tick starts: `now` is the instant it evaluates, `clock` the process's. -/
  | tick (worker now clock : Nat) (read : Bool) (saved : String → Bool)
  /-- A manual trigger starts; `allowed` and `trusted` are what `requireAction` says. -/
  | trigger (worker : Nat) (id : String) (now : Nat) (allowed trusted : Bool)
  /-- A worker does the next thing on its list. -/
  | work (worker : Nat) (reply : Reply)
  | change (c : Change)

namespace State

def applyChange (s : State) : Change → State
  | .setEnabled id enabled =>
    { s with schedules := s.schedules.modify id fun sc => { sc with enabled := enabled } }
  | .remove id => { s with schedules := s.schedules.delete id }

/-- The collecting half of `fireDueSchedules`. -/
def startTick (h : Host) (worker now clock : Nat) (read : Bool) (saved : String → Bool)
    (s : State) : State :=
  match s.discover h read saved with
  | (none, s) => s
  | (some rows, s) =>
    { s with workers := s.workers.put worker (tickWorker (dueOccurrences h clock now rows)) }

/-- `triggerSchedule` up to its fire. -/
def startTrigger (worker : Nat) (id : String) (now : Nat) (allowed trusted : Bool)
    (s : State) : State :=
  if !allowed then s
  else match s.schedules.get? id with
    | none => s
    | some sc =>
      if sc.trusted && !trusted then s
      else
        { s with workers := s.workers.put worker ⟨true, [], [.fire sc (truncateMinute now)]⟩ }

def putWork (worker : Nat) (w : Worker) (work : List Work) (s : State) : State :=
  { s with workers := s.workers.put worker { w with work := work } }

/-- The audit entry of a skipped occurrence. -/
def skip (id : String) (nominal : Nat) (s : State) : State :=
  { s with skipped := (id, nominal) :: s.skipped }

/-- The firing half of `fireDueSchedules` at one occurrence. -/
def settleTick (worker : Nat) (w : Worker) (id : String) (nominal : Nat) (rest : List Work)
    (result : Except FireError Bool) (s : State) : State :=
  match result with
  | .ok _ => s.putWork worker w (.advance id nominal :: rest)
  | .error .disabled | .error .gone | .error .unauthorized =>
    (s.skip id nominal).putWork worker w (.advance id nominal :: rest)
  | .error .staleLeader => s.putWork worker w []
  | .error _ => s.putWork worker w rest

/-- `triggerSchedule` after its fire. -/
def settleTrigger (worker : Nat) (w : Worker) (id : String) (nominal : Nat) (rest : List Work)
    (result : Except FireError Bool) (s : State) : State :=
  match result with
  | .ok true => s.putWork worker w (.advance id nominal :: rest)
  | .ok false | .error _ => s.putWork worker w rest

/-- A worker takes the first item off its list. -/
def doWork (h : Host) (worker : Nat) (w : Worker) (r : Reply) (s : State) : State :=
  match w.work with
  | [] => s
  | .fire sc nominal :: rest =>
    let (result, s) := s.fireSchedule h sc nominal r
    if w.manual then s.settleTrigger worker w sc.id nominal rest result
    else s.settleTick worker w sc.id nominal rest result
  | .advance id nominal :: rest =>
    (if r.durable then s.advanceSchedulePast id nominal else s).putWork worker w rest

/-- One event.  A tick or a trigger starts on a worker that has nothing left to do. -/
def step (h : Host) (e : Event) (s : State) : State :=
  match e with
  | .tick worker now clock read saved =>
    if ((s.workers.get? worker).any (·.work ≠ [])) then s
    else s.startTick h worker now clock read saved
  | .trigger worker id now allowed trusted =>
    if ((s.workers.get? worker).any (·.work ≠ [])) then s
    else s.startTrigger worker id now allowed trusted
  | .work worker reply =>
    match s.workers.get? worker with
    | none => s
    | some w => s.doWork h worker w reply
  | .change c => s.applyChange c

end State

end KiwiCI.Server
