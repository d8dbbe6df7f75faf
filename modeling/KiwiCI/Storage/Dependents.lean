import KiwiCI.Pipeline.Condition
import KiwiCI.Storage.Schema

/-!
What a settled job does to the others: `recomputeDependentsTx` re-evaluates the
jobs that directly need it and `recomputeRunTx` the status of its run
(`postgres.go`).

A dependent is looked at through its payload.  Its status there decides whether
it is re-evaluated at all, and the payload status is what is written back to the
status column.
-/

namespace KiwiCI.Storage

/-- `dependencyOutcome` with the outcome so far; `none` is "not ready".  A
missing need is a failure that ends the scan, an unsettled one ends it too. -/
def dependencyOutcomeFrom (statusOf : JobID → Option Status) (outcome : Status) :
    List JobID → Option Status
  | [] => some outcome
  | need :: needs =>
    match statusOf need with
    | none => some .failure
    | some d =>
      if d.terminal = false then none
      else
        dependencyOutcomeFrom statusOf
          (match d with
            | .failure | .blocked => .failure
            | .cancelled => if outcome ≠ .failure then .cancelled else outcome
            | _ => outcome)
          needs

def dependencyOutcome (statusOf : JobID → Option Status) (needs : List JobID) : Option Status :=
  dependencyOutcomeFrom statusOf .success needs

/-- Two statuses a dependency outcome does not tell apart. -/
def Status.Agree (a b : Option Status) : Prop :=
  a = b ∨ ∃ s t, a = some s ∧ b = some t ∧ s.terminal = false ∧ t.terminal = false

theorem dependencyOutcomeFrom_congr {statusOf statusOf' : JobID → Option Status}
    (agree : ∀ need ∈ needs, Status.Agree (statusOf need) (statusOf' need))
    (outcome : Status) :
    dependencyOutcomeFrom statusOf outcome needs = dependencyOutcomeFrom statusOf' outcome needs := by
  induction needs generalizing outcome with
  | nil => rfl
  | cons need needs ih =>
    have later := ih fun other member => agree other (List.mem_cons_of_mem _ member)
    unfold dependencyOutcomeFrom
    rcases agree need (by simp) with same | ⟨s, t, left, right, unsettled, unsettled'⟩
    · rw [same]
      cases statusOf' need with
      | none => rfl
      | some d => simp only [later]
    · simp only [left, right, unsettled, unsettled', if_pos]

/-- An outcome only reads which needs are missing, unsettled, or how they ended. -/
theorem dependencyOutcome_congr {statusOf statusOf' : JobID → Option Status}
    (agree : ∀ need ∈ needs, Status.Agree (statusOf need) (statusOf' need)) :
    dependencyOutcome statusOf needs = dependencyOutcome statusOf' needs :=
  dependencyOutcomeFrom_congr agree .success

def DB.statusOf (db : DB) (id : JobID) : Option Status := (db.jobs.get? id).map (·.status)

def dependencyConditionAllows (d : Job) (outcome : Status) : Bool :=
  Pipeline.conditionAllows d.condition (Pipeline.jobConditionContext outcome d.ref d.event)

theorem dependencyConditionAllows_congr (same : j.spec = k.spec) (outcome : Status) :
    dependencyConditionAllows j outcome = dependencyConditionAllows k outcome := by
  obtain ⟨_, condition, ref, event, _, _⟩ := Job.fields_of_spec same
  rw [dependencyConditionAllows, dependencyConditionAllows, condition, ref, event]

/-- The dependent once its needs have settled on `outcome`. -/
def resolveDependent (now : Time) (d : Job) (outcome : Status) : Job :=
  let d := { d with dependencyStatus := some outcome }
  if dependencyConditionAllows d outcome then d
  else if outcome = .success then
    { d with status := .skipped, error := "condition not satisfied", finishedAt := some now }
  else { d with status := .blocked, error := "dependency failed", finishedAt := some now }

/-- The columns and the payload `recomputeDependentTx` writes. -/
def JobRow.writeDependent (row : JobRow) (d : Job) : JobRow :=
  { row with
    status := d.status, dependencyStatus := d.dependencyStatus, error := d.error
    finishedAt := d.finishedAt, payload := .encode d }

def recomputeDependentTx (now : Time) (db : DB) (depID : JobID) : Except StoreError DB :=
  match db.jobs.get? depID with
  | none => pure db
  | some row => do
    let d ← orThrow row.payload.decode (.decode "job payload")
    if d.status.waiting = false then pure db
    else
      match dependencyOutcome db.statusOf d.needs with
      | none => pure db
      | some outcome =>
        pure { db with
          jobs := db.jobs.put depID (row.writeDependent (resolveDependent now d outcome)) }

/-- The jobs that need `jobID`, in order. -/
def DB.dependentsOf (db : DB) (jobID : JobID) : List JobID :=
  ((db.dependencies.filter fun edge => edge.2 = jobID).map Prod.fst).insertionSort (· ≤ ·)

def recomputeDependentsTx (now : Time) (jobID : JobID) (db : DB) : Except StoreError DB :=
  (db.dependentsOf jobID).foldlM (recomputeDependentTx now) db

/-- The columns of a job `recomputeRunTx` reads. -/
structure JobState where
  status : Status
  startedAt : Option Time
  finishedAt : Option Time

/-- `recomputeRunStatus`; `none` when nothing changes. -/
def recomputeRunStatus (now : Time) (run : Run) (states : List JobState) : Option Run :=
  if states.isEmpty || run.status = .cancelled then none
  else
    let some? (s : Status) := states.any fun st => st.status = s
    let firstStart := (states.filterMap (·.startedAt)).min?
    let settled := states.filter fun st => st.status.terminal
    let lastFinish := (settled.filterMap (·.finishedAt)).max?
    let (status, finishedAt) :=
      if settled.length = states.length then
        (if some? .failure || some? .blocked then Status.failure
          else if some? .cancelled then .cancelled
          else .success,
        some (lastFinish.getD now))
      else
        (if some? .running then .running
          else if some? .waitingApproval then .waitingApproval
          else .queued,
        run.finishedAt)
    let startedAt := run.startedAt.or firstStart
    if status ≠ run.status || finishedAt ≠ run.finishedAt ||
        (run.startedAt.isNone && startedAt.isSome) then
      some { run with status, startedAt, finishedAt }
    else none

def recomputeRunTx (now : Time) (runID : RunID) (db : DB) : Except StoreError DB :=
  match db.runs.get? runID with
  | none => pure db
  | some row => do
    require (row.decodes = true) (.decode "run payload")
    let states := (db.jobs.rows.filter fun e => e.2.runID = runID).map fun e =>
      (⟨e.2.status, e.2.startedAt, e.2.finishedAt⟩ : JobState)
    match recomputeRunStatus now row.payload states with
    | none => pure db
    | some run =>
      pure { db with
        runs := db.runs.put runID
          { row with
            status := run.status, startedAt := run.startedAt
            finishedAt := run.finishedAt, payload := run } }

end KiwiCI.Storage
