import KiwiCI.Storage.RunStatus

/-!
The in-memory aggregation of a run, `refreshRunLocked` of `internal/server/server.go`,
against the one the PostgreSQL store makes in SQL.

The loop keeps counters and flags (`Tally`); `Tally.counted` reads them off the
list of jobs, in whatever order Go iterates them.  A run without downstream
children ends up with the store's `aggregate`.  In DB mode the function returns
at once, so only the memory mode is modelled.
-/

namespace KiwiCI.Server

open Storage Table List

/-- The local variables of `refreshRunLocked`. -/
structure Tally where
  total : Nat := 0
  terminal : Nat := 0
  anyRunning : Bool := false
  anyFailure : Bool := false
  anyCancelled : Bool := false
  anyWaiting : Bool := false
  firstStart : Option Time := none
  lastFinish : Option Time := none

/-- The earlier of two times, where there are two. -/
def earlier (first : Option Time) : Option Time → Option Time
  | none => first
  | some start => if first.all (start < ·) then some start else first

/-- The later of two times, where there are two. -/
def later (last : Option Time) : Option Time → Option Time
  | none => last
  | some finish => if last.all (· < finish) then some finish else last

/-- One turn of the loop. -/
def Tally.count (t : Tally) (j : Job) : Tally where
  total := t.total + 1
  terminal := if j.status.terminal then t.terminal + 1 else t.terminal
  anyRunning := t.anyRunning || j.status = .running
  anyFailure := t.anyFailure || (j.status = .failure || j.status = .blocked)
  anyCancelled := t.anyCancelled || j.status = .cancelled
  anyWaiting := t.anyWaiting || j.status = .waitingApproval
  firstStart := earlier t.firstStart j.startedAt
  lastFinish := if j.status.terminal then later t.lastFinish j.finishedAt else t.lastFinish

/-- The switch after the loop. -/
def Tally.assign (t : Tally) (now : Time) (run : Run) : Run :=
  let run :=
    if t.terminal = t.total then
      { run with
        status := if t.anyFailure then .failure else if t.anyCancelled then .cancelled else .success
        finishedAt := t.lastFinish.or (some now) }
    else if t.anyRunning then { run with status := .running }
    else if t.anyWaiting then { run with status := .waitingApproval }
    else { run with status := .queued }
  { run with startedAt := run.startedAt.or t.firstStart }

/-- `applyDownstreamChildrenLocked`. -/
def applyDownstreamChildren (runs : Table RunID Run) (run : Run) : Run :=
  if run.downstreamRuns = [] then run
  else if run.status ≠ .success then run
  else
    let children := run.downstreamRuns.filterMap runs.get?
    if children.any fun child => !child.status.terminal then
      { run with status := .running, finishedAt := none }
    else if children.any fun child => child.status = .failure || child.status = .blocked then
      { run with status := .failure }
    else if children.any fun child => child.status = .cancelled then
      { run with status := .cancelled }
    else run

/-- The run `refreshRunLocked` stores, from the jobs `jobsForRunLocked` lists. -/
def refreshRun (now : Time) (runs : Table RunID Run) (run : Run) (jobs : List Job) : Run :=
  let t := jobs.foldl Tally.count {}
  if t.total = 0 then run
  else if run.status = .cancelled then run
  else applyDownstreamChildren runs (t.assign now run)

/-- `jobsForRunLocked`. -/
def jobsForRun (jobs : Table JobID Job) (runID : RunID) : List Job :=
  (jobs.rows.filter fun e => e.2.runID = runID).map fun e => e.2

def refreshRunLocked (now : Time) (jobs : Table JobID Job) (runID : RunID)
    (runs : Table RunID Run) : Table RunID Run :=
  match runs.get? runID with
  | none => runs
  | some run => runs.put runID (refreshRun now runs run (jobsForRun jobs runID))

theorem get?_refreshRunLocked (now : Time) (jobs : Table JobID Job) (runID : RunID)
    (runs : Table RunID Run) (id : RunID) :
    (refreshRunLocked now jobs runID runs).get? id =
      (runs.get? id).map fun run =>
        if id = runID then refreshRun now runs run (jobsForRun jobs runID) else run := by
  unfold refreshRunLocked
  by_cases same : id = runID
  · subst same
    cases found : runs.get? id with
    | none => exact found
    | some run => simp
  · simp only [same, if_false, Option.map_id']
    split
    · rfl
    · exact get?_put_ne _ _ same

/-! ## The loop -/

theorem earlier_min? (first start : Option Time) (rest : List Time) :
    ((earlier first start).toList ++ rest).min? = (first.toList ++ (start.toList ++ rest)).min? := by
  cases start with
  | none => rfl
  | some start =>
    cases first with
    | none => rfl
    | some first =>
      simp only [earlier, Option.all_some, decide_eq_true_eq, Option.toList_some,
        singleton_append]
      split <;> rename_i before
      · simp only [Option.toList_some, singleton_append, min?_cons', foldl_cons,
          min_eq_right before.le]
      · simp only [Option.toList_some, singleton_append, min?_cons', foldl_cons,
          min_eq_left (not_lt.mp before)]

theorem later_max? (last finish : Option Time) (rest : List Time) :
    ((later last finish).toList ++ rest).max? = (last.toList ++ (finish.toList ++ rest)).max? := by
  cases finish with
  | none => rfl
  | some finish =>
    cases last with
    | none => rfl
    | some last =>
      simp only [later, Option.all_some, decide_eq_true_eq, Option.toList_some,
        singleton_append]
      split <;> rename_i after
      · simp only [Option.toList_some, singleton_append, max?_cons', foldl_cons,
          max_eq_right after.le]
      · simp only [Option.toList_some, singleton_append, max?_cons', foldl_cons,
          max_eq_left (not_lt.mp after)]

/-- What the loop has counted, started from any tally. -/
structure Tally.Counted (t : Tally) (jobs : List Job) (t' : Tally) : Prop where
  total : t'.total = t.total + jobs.length
  terminal : t'.terminal = t.terminal + (jobs.filter (·.status.terminal)).length
  anyRunning : t'.anyRunning = (t.anyRunning || jobs.any (·.status = .running))
  anyFailure : t'.anyFailure =
    (t.anyFailure || jobs.any fun j => j.status = .failure || j.status = .blocked)
  anyCancelled : t'.anyCancelled = (t.anyCancelled || jobs.any (·.status = .cancelled))
  anyWaiting : t'.anyWaiting = (t.anyWaiting || jobs.any (·.status = .waitingApproval))
  firstStart : t'.firstStart = (t.firstStart.toList ++ jobs.filterMap (·.startedAt)).min?
  lastFinish : t'.lastFinish =
    (t.lastFinish.toList ++ (jobs.filter (·.status.terminal)).filterMap (·.finishedAt)).max?

theorem Tally.counted (jobs : List Job) (t : Tally) : t.Counted jobs (jobs.foldl Tally.count t) := by
  induction jobs generalizing t with
  | nil =>
    have single (o : Option Time) : o = o.toList.min? ∧ o = o.toList.max? := by cases o <;> exact ⟨rfl, rfl⟩
    constructor <;> simp [← (single _).1, ← (single _).2]
  | cons j rest ih =>
    obtain ⟨total, terminal, running, failure, cancelled, waiting, first, last⟩ := ih (t.count j)
    rw [foldl_cons]
    refine ⟨?_, ?_, ?_, ?_, ?_, ?_, ?_, ?_⟩
    · rw [total, length_cons, Tally.count]
      dsimp only
      omega
    · rw [terminal, filter_cons, Tally.count]
      dsimp only
      split
      · rw [length_cons]
        omega
      · rfl
    · rw [running, any_cons, Tally.count, Bool.or_assoc]
    · rw [failure, any_cons, Tally.count, Bool.or_assoc]
    · rw [cancelled, any_cons, Tally.count, Bool.or_assoc]
    · rw [waiting, any_cons, Tally.count, Bool.or_assoc]
    · rw [first, Tally.count, earlier_min?]
      cases started : j.startedAt <;> simp [started]
    · rw [last, filter_cons, Tally.count]
      dsimp only
      split
      · rw [later_max?]
        cases finished : j.finishedAt <;> simp [finished]
      · rfl

/-- What the store would read of a job. -/
def jobState (j : Job) : JobState := ⟨j.status, j.startedAt, j.finishedAt⟩

theorem Tally.assign_downstreamRuns (t : Tally) (now : Time) (run : Run) :
    (t.assign now run).downstreamRuns = run.downstreamRuns := by
  unfold Tally.assign
  dsimp only
  split
  · rfl
  · split
    · rfl
    · split <;> rfl

/-- The switch, over a tally that reads the statuses of the jobs. -/
theorem Tally.assign_eq (counted : Tally.Counted {} jobs t) (now : Time) (run : Run) :
    t.assign now run =
      { run with
        status := aggregateStatus (jobs.map (·.status))
        startedAt := run.startedAt.or (jobs.filterMap (·.startedAt)).min?
        finishedAt := if (jobs.map (·.status)).all Status.terminal then
            some (((jobs.filter (·.status.terminal)).filterMap (·.finishedAt)).max?.getD now)
          else run.finishedAt } := by
  obtain ⟨total, terminal, running, failure, cancelled, waiting, first, last⟩ := counted
  simp only [Nat.zero_add] at total terminal
  simp only [Bool.false_or] at running failure cancelled waiting
  simp only [Option.toList_none, nil_append] at first last
  have all : t.terminal = t.total ↔ (jobs.map (·.status)).all Status.terminal = true := by
    rw [total, terminal, length_filter_eq_length_iff]
    simp
  have failed : t.anyFailure = true ↔
      .failure ∈ jobs.map (·.status) ∨ .blocked ∈ jobs.map (·.status) := by
    simp [failure, and_or_left, exists_or]
  have stopped : t.anyCancelled = true ↔ .cancelled ∈ jobs.map (·.status) := by
    simp [cancelled]
  have busy : t.anyRunning = true ↔ .running ∈ jobs.map (·.status) := by
    simp [running]
  have held : t.anyWaiting = true ↔ .waitingApproval ∈ jobs.map (·.status) := by
    simp [waiting]
  unfold Tally.assign aggregateStatus
  simp only [all, failed, stopped, busy, held, first, last]
  split
  · rw [Option.or_some]
  · split
    · rfl
    · split <;> rfl

/-- Both aggregations of a run without downstream children are the same. -/
theorem refreshRun_eq_aggregate (now : Time) (runs : Table RunID Run) {run : Run}
    (alone : run.downstreamRuns = []) (jobs : List Job) :
    refreshRun now runs run jobs = aggregate now run (jobs.map jobState) := by
  have counted := Tally.counted jobs {}
  have total : (jobs.foldl Tally.count {}).total = jobs.length := by rw [counted.total, Nat.zero_add]
  unfold refreshRun
  dsimp only
  split <;> rename_i empty
  · rw [total, length_eq_zero_iff] at empty
    rw [aggregate_idle (.inl (by rw [empty, map_nil]))]
  split <;> rename_i live
  · rw [aggregate_idle (.inr live)]
  have nonempty : jobs.map jobState ≠ [] := by
    rintro none
    rw [map_eq_nil_iff] at none
    exact empty (by rw [total, none]; rfl)
  have statuses : (jobs.map jobState).map (·.status) = jobs.map (·.status) := by
    rw [map_map]
    rfl
  have starts : (jobs.map jobState).filterMap (·.startedAt) = jobs.filterMap (·.startedAt) := by
    rw [filterMap_map]
    rfl
  have finishes : ((jobs.map jobState).filter (·.status.terminal)).filterMap (·.finishedAt) =
      (jobs.filter (·.status.terminal)).filterMap (·.finishedAt) := by
    rw [filter_map, filterMap_map]
    rfl
  rw [aggregate_eq nonempty live, statuses, starts, finishes, applyDownstreamChildren,
    Tally.assign_downstreamRuns, if_pos alone, Tally.assign_eq counted]

/-- **The status of a run follows its jobs, in both aggregations.**  For a run
without downstream children, `refreshRunLocked` and `recomputeRunStatus` make the
same of any list of jobs, in any order.  If the run has jobs and is not cancelled
yet, the status they assign is terminal exactly when all jobs are; a run without
jobs and a cancelled run stay as they are.  And in the store, whatever calls come
before and after, a run that came to be over stays over. -/
theorem run_status_follows_jobs :
    (∀ now jobs runID runs run, Table.get? runs runID = some run → run.downstreamRuns = [] →
      (refreshRunLocked now jobs runID runs).get? runID =
        some (aggregate now run ((jobsForRun jobs runID).map jobState))) ∧
    (∀ now runs run (jobs : List Job), run.downstreamRuns = [] →
      refreshRun now runs run jobs = aggregate now run (jobs.map jobState) ∧
      (∀ jobs', jobs.Perm jobs' → refreshRun now runs run jobs' = refreshRun now runs run jobs) ∧
      (jobs ≠ [] → run.status ≠ .cancelled →
        ((refreshRun now runs run jobs).status.terminal = true ↔
          ∀ j ∈ jobs, j.status.terminal = true)) ∧
      (jobs = [] ∨ run.status = .cancelled → refreshRun now runs run jobs = run)) ∧
    ∀ db : DB, (∀ id row, db.jobs.get? id = some row → row.payload.job.status = row.status) →
      (∀ id row, db.runs.get? id = some row → row.payload.status = row.status) →
      ∀ ops op later, Guarded step Op.placesJobs (ops ++ op :: later) db →
        ∀ runID, (run step ops db).runTerminal runID = false →
          (run step (ops ++ [op]) db).runTerminal runID = true →
          (run step (ops ++ op :: later) db).runTerminal runID = true := by
  refine ⟨fun now jobs runID runs run found alone => ?_, fun now runs run jobs alone => ?_,
    fun db agree synced ops op later places runID => ?_⟩
  · rw [get?_refreshRunLocked, found, Option.map_some, if_pos rfl,
      refreshRun_eq_aggregate now runs alone]
  · have same := refreshRun_eq_aggregate now runs alone
    refine ⟨same jobs, fun jobs' perm => ?_, fun nonempty live => ?_, fun idle => ?_⟩
    · rw [same, same]
      exact (aggregate_perm (perm.map jobState)).symm
    · rw [same, aggregate_eq (by simpa using nonempty) live, aggregateStatus_terminal]
      simp [jobState]
    · rw [same]
      exact aggregate_idle (idle.imp_left fun none => by rw [none, map_nil])
  · exact run_stays_terminal (fun id row found _ _ => agree id row found) synced places

/-- A cancelled run stays cancelled although its job is running, in both
aggregations, and a run without jobs stays queued. -/
theorem cancelled_run_ignores_running_job :
    let cancelled : Run := { status := .cancelled }
    let running : Job := { status := .running }
    (refreshRun 5 Table.empty cancelled [running]).status = .cancelled ∧
      (aggregate 5 cancelled [jobState running]).status = .cancelled ∧
      running.status.terminal = false ∧
      (refreshRun 5 Table.empty { status := .queued } []).status = .queued ∧
      (aggregate 5 { status := .queued } []).status = .queued := by
  decide

namespace LastJob

def runID : RunID := "0000000000000000000000000000000a"

/-- The run of a store whose only job is about to complete. -/
def start : DB :=
  { OneLease.start with
    runs := Table.empty.put runID
      { status := .running, createdAt := 0, payload := { id := runID, status := .running } } }

end LastJob

open LastJob in
/-- The completion of the last job ends the run, and no cancellation reopens it. -/
theorem last_completion_ends_run :
    (refreshRun 5 Table.empty {} [{ status := .success }, { status := .failure }]).status.terminal =
      true ∧
    (run step [OneLease.completion] start).runTerminal runID = true ∧
      (run step [OneLease.completion, .cancelRunJobs {} runID "late"] start).runTerminal runID =
        true := by
  have before : (run step [] start).runTerminal runID = false := by decide +kernel
  have after : (run step [OneLease.completion] start).runTerminal runID = true := by decide +kernel
  have agree : ∀ id row, start.jobs.get? id = some row → row.payload.job.status = row.status := by
    intro id row found
    rw [start, OneLease.start, get?_put] at found
    split at found
    · cases found
      rfl
    · cases found
  have synced : ∀ id row, start.runs.get? id = some row → row.payload.status = row.status := by
    intro id row found
    rw [start, get?_put] at found
    split at found
    · cases found
      rfl
    · cases found
  refine ⟨?_, after, run_status_follows_jobs.2.2 start agree synced [] OneLease.completion
    [.cancelRunJobs {} runID "late"] ⟨trivial, trivial, trivial⟩ runID before after⟩
  refine ((run_status_follows_jobs.2.1 5 Table.empty {} [{ status := .success }, { status := .failure }]
    rfl).2.2.1 (by decide) (by decide)).mpr ?_
  decide

end KiwiCI.Server
