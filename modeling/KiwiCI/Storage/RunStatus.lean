import KiwiCI.Storage.Fragments
import KiwiCI.Storage.Supersession

/-!
What the status of a run says about its jobs, over whole runs of the store.

`aggregate` is what `recomputeRunStatus` makes of a run: terminal exactly when
all its jobs are.  A run is closed when they are (`DB.Closed`).  Jobs stay over
(`step_absorbs`) and none is added to a closed run, so a run that once was over
is never open again (`DB.Settled`).
-/

namespace KiwiCI.Storage

variable {jobID : JobID} {runnerID : RunnerID} {req : InsertCompiledRunRequest}

open Table Option DB

/-! ## The aggregate of one run -/

/-- The run as `recomputeRunStatus` leaves it. -/
def aggregate (now : Time) (run : Run) (states : List JobState) : Run :=
  (recomputeRunStatus now run states).getD run

/-- The status the jobs of a run add up to. -/
def aggregateStatus (statuses : List Status) : Status :=
  if statuses.all Status.terminal then
    if .failure ∈ statuses ∨ .blocked ∈ statuses then .failure
    else if .cancelled ∈ statuses then .cancelled
    else .success
  else if .running ∈ statuses then .running
  else if .waitingApproval ∈ statuses then .waitingApproval
  else .queued

theorem aggregateStatus_terminal (statuses : List Status) :
    (aggregateStatus statuses).terminal = statuses.all Status.terminal := by
  unfold aggregateStatus
  split <;> rename_i all
  · rw [all]
    split
    · rfl
    · split <;> rfl
  · rw [Bool.not_eq_true] at all
    rw [all]
    split
    · rfl
    · split <;> rfl

theorem aggregateStatus_perm (perm : statuses.Perm statuses') :
    aggregateStatus statuses = aggregateStatus statuses' := by
  simp [aggregateStatus, perm.mem_iff]

theorem aggregate_idle {run : Run}
    (idle : states = [] ∨ run.status = .cancelled) : aggregate now run states = run := by
  rw [aggregate, recomputeRunStatus, if_pos (by simpa using idle), getD_none]

/-- Writing the run only when something changed loses nothing. -/
theorem getD_changed (run : Run) (status : Status) (firstStart finishedAt : Option Time) :
    (if status ≠ run.status || finishedAt ≠ run.finishedAt ||
        (run.startedAt.isNone && (run.startedAt.or firstStart).isSome) then
      some { run with status, startedAt := run.startedAt.or firstStart, finishedAt }
    else none).getD run =
      { run with status, startedAt := run.startedAt.or firstStart, finishedAt } := by
  split <;> rename_i changed
  · rfl
  · simp only [ne_eq, decide_not, Bool.or_eq_true, Bool.not_eq_eq_eq_not, Bool.not_true,
      decide_eq_false_iff_not, Bool.and_eq_true, not_or, not_not, not_and, Bool.not_eq_true] at changed
    obtain ⟨⟨sameStatus, sameFinish⟩, started⟩ := changed
    have sameStart : run.startedAt.or firstStart = run.startedAt := by
      cases given : run.startedAt with
      | some start => rfl
      | none =>
        have absent := started (by rw [given]; rfl)
        rw [given] at absent
        exact isSome_eq_false_iff.mp absent |> isNone_iff_eq_none.mp
    rw [sameStatus, sameFinish, sameStart, getD_none]

/-- What the jobs of a run that is not cancelled make of it. -/
theorem aggregate_eq {run : Run} (nonempty : states ≠ []) (live : run.status ≠ .cancelled) :
    aggregate now run states =
      { run with
        status := aggregateStatus (states.map (·.status))
        startedAt := run.startedAt.or (states.filterMap (·.startedAt)).min?
        finishedAt := if (states.map (·.status)).all Status.terminal then
            some (((states.filter (·.status.terminal)).filterMap (·.finishedAt)).max?.getD now)
          else run.finishedAt } := by
  have seen : ∀ s : Status, (states.any fun st => st.status = s) =
      decide (s ∈ states.map (·.status)) := by
    intro s
    rw [Bool.eq_iff_iff]
    simp
  have counted : (states.filter fun st => st.status.terminal).length = states.length ↔
      (states.map (·.status)).all Status.terminal = true := by
    rw [List.length_filter_eq_length_iff]
    simp
  rw [aggregate, recomputeRunStatus, if_neg (by simpa using ⟨nonempty, live⟩)]
  simp only [seen]
  by_cases all : (states.map (·.status)).all Status.terminal = true
  · rw [if_pos (counted.mpr all), if_pos all, aggregateStatus, if_pos all]
    rw [← Bool.decide_or (.failure ∈ states.map (·.status)) (.blocked ∈ states.map (·.status))]
    simp only [decide_eq_true_eq]
    exact getD_changed run _ _ _
  · rw [if_neg (mt counted.mp all), if_neg all, aggregateStatus, if_neg all]
    simp only [decide_eq_true_eq]
    exact getD_changed run _ _ _

theorem aggregate_perm {run : Run}
    (perm : states.Perm states') : aggregate now run states = aggregate now run states' := by
  by_cases idle : states = [] ∨ run.status = .cancelled
  · rw [aggregate_idle idle, aggregate_idle (idle.imp_left fun none => (none ▸ perm).nil_eq.symm)]
  rw [not_or] at idle
  have nonempty : states' ≠ [] := fun none => idle.1 (none ▸ perm).eq_nil
  have earliest : (states.filterMap (·.startedAt)).min? = (states'.filterMap (·.startedAt)).min? := by
    ext time
    simp only [List.min?_eq_some_iff, (perm.filterMap _).mem_iff]
  have latest : ((states.filter (·.status.terminal)).filterMap (·.finishedAt)).max? =
      ((states'.filter (·.status.terminal)).filterMap (·.finishedAt)).max? := by
    ext time
    simp only [List.max?_eq_some_iff, ((perm.filter _).filterMap _).mem_iff]
  have all : (states.map (·.status)).all Status.terminal =
      (states'.map (·.status)).all Status.terminal := (perm.map _).all_eq
  rw [aggregate_eq idle.1 idle.2, aggregate_eq nonempty idle.2, earliest, latest, all,
    aggregateStatus_perm (perm.map _)]

/-! ## Run rows -/

/-- Every job of the run is over. -/
def DB.Closed (db : DB) (runID : RunID) : Prop :=
  ∀ id row, db.jobs.get? id = some row → row.runID = runID → row.status.terminal = true

/-- What a call makes of the row of a run: it stays, it is cancelled, or, unless
it was cancelled, it is over exactly when the run is closed. -/
structure RunRow.Reports (closed : Prop) (old new : RunRow) : Prop where
  synced : new.payload.status = new.status
  status : new.status = old.status ∨ new.status = .cancelled ∨
    (old.status ≠ .cancelled ∧ (new.status.terminal = true ↔ closed))

theorem RunRow.Reports.refl {row : RunRow} (synced : row.payload.status = row.status) :
    row.Reports closed row := ⟨synced, .inl rfl⟩

theorem RunRow.Reports.trans {a c : RunRow} (first : a.Reports closed b)
    (second : b.Reports closed c) : a.Reports closed c where
  synced := second.synced
  status := by
    rcases second.status with same | cancelled | ⟨live, isOver⟩
    · rw [same]
      exact first.status
    · exact .inr (.inl cancelled)
    · rcases first.status with same | cancelled | ⟨early, _⟩
      · exact .inr (.inr ⟨same ▸ live, isOver⟩)
      · exact absurd cancelled live
      · exact .inr (.inr ⟨early, isOver⟩)

/-- Column and payload of every run say the same. -/
def RunsSynced (runs : Table RunID RunRow) : Prop :=
  ∀ id row, runs.get? id = some row → row.payload.status = row.status

structure RunsMove (closed : RunID → Prop) (runs runs' : Table RunID RunRow) : Prop where
  rows : ∀ id row, runs.get? id = some row →
    ∃ row', runs'.get? id = some row' ∧ row.Reports (closed id) row'
  added : ∀ id, runs.get? id = none → runs'.get? id = none

namespace RunsMove

variable {closed : RunID → Prop} {runs runs' : Table RunID RunRow}

theorem refl (synced : RunsSynced runs) : RunsMove closed runs runs :=
  ⟨fun id row found => ⟨row, found, .refl (synced id row found)⟩, fun _ => id⟩

theorem ofEq (same : runs' = runs) (synced : RunsSynced runs) : RunsMove closed runs runs' :=
  same ▸ .refl (same ▸ synced)

theorem trans (first : RunsMove closed a b)
    (second : RunsMove closed b c) : RunsMove closed a c where
  rows := by
    intro id row found
    obtain ⟨mid, there, early⟩ := first.rows id row found
    obtain ⟨row', held, late⟩ := second.rows id mid there
    exact ⟨row', held, early.trans late⟩
  added := fun id absent => second.added id (first.added id absent)

theorem synced (moves : RunsMove closed runs runs') : RunsSynced runs' := by
  intro id row' found
  cases before : runs.get? id with
  | none =>
    rw [moves.added id before] at found
    cases found
  | some row =>
    obtain ⟨other, there, reports⟩ := moves.rows id row before
    cases found.symm.trans there
    exact reports.synced

theorem ofPut {id : RunID} (synced : RunsSynced runs)
    (found : runs.get? id = some row) (reports : row.Reports (closed id) row') :
    RunsMove closed runs (runs.put id row') where
  rows := by
    intro other held there
    rw [get?_put]
    split <;> rename_i same
    · subst same
      cases found.symm.trans there
      exact ⟨row', rfl, reports⟩
    · exact ⟨held, there, .refl (synced other held there)⟩
  added := by
    intro other absent
    rw [get?_put]
    split <;> rename_i same
    · rw [same, found] at absent
      cases absent
    · exact absent

end RunsMove

/-- What the recomputation reads of the jobs of a run. -/
def DB.jobStates (db : DB) (runID : RunID) : List JobState :=
  (db.jobs.rows.filter fun e => e.2.runID = runID).map fun e =>
    ⟨e.2.status, e.2.startedAt, e.2.finishedAt⟩

theorem DB.jobStates_terminal (db : DB) (runID : RunID) :
    ((db.jobStates runID).map (·.status)).all Status.terminal = true ↔ db.Closed runID := by
  simp only [jobStates, List.map_map, List.all_eq_true, List.mem_map, List.mem_filter,
    decide_eq_true_eq, Function.comp_apply]
  constructor
  · intro all id row found own
    exact all _ ⟨⟨id, row⟩, ⟨mem_rows_iff.mpr found, own⟩, rfl⟩
  · rintro closed _ ⟨⟨id, row⟩, ⟨member, own⟩, rfl⟩
    exact closed id row (mem_rows_iff.mp member) own

/-- A recomputation that writes assigned a status, of a run with jobs that was
not cancelled. -/
theorem recomputeRunStatus_some {run : Run}
    (changed : recomputeRunStatus now run states = some run') :
    run.status ≠ .cancelled ∧ run'.status = aggregateStatus (states.map (·.status)) := by
  have written : aggregate now run states = run' := by rw [aggregate, changed, getD_some]
  have assigned : ¬(states = [] ∨ run.status = .cancelled) := by
    intro idle
    rw [recomputeRunStatus, if_pos (by simpa using idle)] at changed
    cases changed
  rw [not_or] at assigned
  rw [aggregate_eq assigned.1 assigned.2] at written
  exact ⟨assigned.2, by rw [← written]⟩

theorem recomputeRunTx_runs {runID : RunID} {db' : DB} (synced : RunsSynced db.runs)
    (ran : recomputeRunTx now runID db = .ok db') : RunsMove db.Closed db.runs db'.runs := by
  unfold recomputeRunTx at ran
  split at ran
  · rw [← pure_ok_iff.mp ran]
    exact .refl synced
  rename_i row found
  obtain ⟨_, _, ran⟩ := bind_ok_iff.mp ran
  dsimp only at ran
  split at ran <;> rw [pure_ok_iff] at ran
  · rw [← ran]
    exact .refl synced
  rename_i run changed
  rw [← ran]
  obtain ⟨live, assigned⟩ := recomputeRunStatus_some changed
  refine .ofPut synced found ⟨rfl, .inr (.inr ⟨synced _ _ found ▸ live, ?_⟩)⟩
  dsimp only
  rw [assigned, aggregateStatus_terminal]
  exact db.jobStates_terminal runID

theorem cancelRunRowTx_runs (closed : RunID → Prop)
    (synced : RunsSynced db.runs) (ran : cancelRunRowTx now db runID = .ok db') :
    RunsMove closed db.runs db'.runs := by
  unfold cancelRunRowTx at ran
  split at ran
  · rw [← pure_ok_iff.mp ran]
    exact .refl synced
  rename_i row found
  split at ran
  · rw [← pure_ok_iff.mp ran]
    exact .refl synced
  obtain ⟨_, _, ran⟩ := bind_ok_iff.mp ran
  rw [← pure_ok_iff.mp ran]
  exact .ofPut synced found ⟨rfl, .inr (.inl rfl)⟩

/-! ## Calls -/

section Calls

variable {c : Call} {db mid db' : DB}

theorem DB.closed_congr (same : db'.jobs = db.jobs) : db'.Closed = db.Closed := by
  funext runID
  rw [Closed, same, Closed]

theorem recomputeDependentsTx_runs
    (ran : recomputeDependentsTx now jobID db = .ok db') : db'.runs = db.runs := by
  rw [recomputes_only ran]

/-- The jobs of a call are written, then the dependents and the run of one of them are
recomputed. -/
theorem RunsMove.recomputed (synced : RunsSynced db.runs) (same : left.runs = db.runs)
    (ran : (recomputeDependentsTx now jobID left >>= recomputeRunTx now runID) = .ok db') :
    RunsMove db'.Closed db.runs db'.runs := by
  obtain ⟨mid, dependents, run⟩ := bind_ok_iff.mp ran
  rw [← recomputeDependentsTx_runs dependents] at same
  rw [closed_congr (recomputeRunTx_elsewhere run).jobs, ← same]
  exact recomputeRunTx_runs (same ▸ synced) run

theorem completeRunnerTx_runs
    (ran : completeRunnerTx runnerID jobID st db = .ok db') : db'.runs = db.runs := by
  unfold completeRunnerTx at ran
  split at ran
  · rw [← pure_ok_iff.mp ran]
  · obtain ⟨_, _, ran⟩ := bind_ok_iff.mp ran
    rw [← pure_ok_iff.mp ran]

theorem insertReceiptTx_runs
    (ran : insertReceiptTx c receipt result db = .ok (some db')) : db'.runs = db.runs := by
  unfold insertReceiptTx at ran
  dsimp only at ran
  split at ran
  · split at ran
    · cases pure_ok_iff.mp ran
    · cases ran
  · rw [← some.inj (pure_ok_iff.mp ran)]

theorem pruneCompletionReceiptsTx_runs (c : Call) (db : DB) :
    (pruneCompletionReceiptsTx c db).runs = db.runs := by
  unfold pruneCompletionReceiptsTx
  split <;> rfl

theorem completeJob_runs (synced : RunsSynced db.runs)
    (ran : completeJob c jobID generation runnerID result receipt db = .ok db') :
    RunsMove db'.Closed db.runs db'.runs := by
  simp only [completeJob, bind_ok_iff] at ran
  obtain ⟨_, -, _, -, _, -, _, -, row, -, ran⟩ := ran
  split at ran
  · rw [(replayCompletion_inv ran).1]
    exact .refl synced
  simp only [completeActive, bind_ok_iff] at ran
  obtain ⟨_, -, j, -, _, -, stored, inserted, ran⟩ := ran
  cases stored with
  | none =>
    rw [← pure_ok_iff.mp ran]
    exact .refl synced
  | some written =>
    simp only [bind_ok_iff] at ran
    obtain ⟨freed, runner, resolved, dependents, reported, run, effects⟩ := ran
    have same : freed.runs = db.runs := by
      rw [completeRunnerTx_runs runner, pruneCompletionReceiptsTx_runs,
        insertReceiptTx_runs inserted]
      rfl
    have last : db'.runs = reported.runs ∧ db'.jobs = reported.jobs := by
      simp only [insertCompletionEffectsTx, bind_ok_iff, pure_ok_iff] at effects
      obtain ⟨_, -, rfl⟩ := effects
      exact ⟨rfl, rfl⟩
    rw [last.1, closed_congr last.2]
    exact .recomputed synced same (bind_ok_iff.mpr ⟨resolved, dependents, run⟩)

theorem recoverExpiredLease_runs (synced : RunsSynced db.runs)
    (ran : recoverExpiredLease c jobID generation db = .ok db') :
    RunsMove db'.Closed db.runs db'.runs := by
  have lost (runnerID : RunnerID) (db : DB) : (releaseLostRunner runnerID jobID db).runs = db.runs := by
    unfold releaseLostRunner
    split <;> rfl
  simp only [recoverExpiredLease, bind_ok_iff] at ran
  obtain ⟨_, -, _, -, row, -, ran⟩ := ran
  split at ran
  · rw [← pure_ok_iff.mp ran]
    exact .refl synced
  cases decoded : row.payload.decode with
  | none =>
    rw [decoded] at ran
    refine .recomputed synced ?_ ran
    exact lost _ _
  | some j =>
    rw [decoded] at ran
    dsimp only at ran
    split at ran
    · rw [← pure_ok_iff.mp ran]
      exact .refl synced
    refine .recomputed synced ?_ ran
    exact lost _ _

theorem expireQueuedJob_runs (synced : RunsSynced db.runs)
    (ran : expireQueuedJob c jobID observed db = .ok db') : RunsMove db'.Closed db.runs db'.runs := by
  simp only [expireQueuedJob, bind_ok_iff] at ran
  obtain ⟨_, -, _, -, row, -, ran⟩ := ran
  split at ran
  · rw [← pure_ok_iff.mp ran]
    exact .refl synced
  split at ran
  · rw [← pure_ok_iff.mp ran]
    exact .refl synced
  refine .recomputed synced ?_ ran
  rfl

theorem recomputeRuns_runs {runIDs : List RunID} (synced : RunsSynced db.runs)
    (ran : runIDs.foldlM (fun db runID => recomputeRunTx now runID db) db = .ok db') :
    db'.jobs = db.jobs ∧ RunsMove db.Closed db.runs db'.runs := by
  have whole := foldlM_rel (r := fun a b : DB => RunsSynced a.runs →
      b.jobs = a.jobs ∧ RunsMove a.Closed a.runs b.runs) (fun _ synced => ⟨rfl, .refl synced⟩)
    (fun first second synced => ?_) runIDs (fun runID _ a b one synced =>
      ⟨(recomputeRunTx_elsewhere one).jobs, recomputeRunTx_runs synced one⟩) ran
  · exact whole synced
  · obtain ⟨jobs, early⟩ := first synced
    obtain ⟨jobs', late⟩ := second early.synced
    rw [closed_congr jobs] at late
    exact ⟨jobs'.trans jobs, early.trans late⟩

theorem revokeRunnerLeases_runs (synced : RunsSynced db.runs)
    (ran : revokeRunnerLeases c runnerID reason db = .ok db') :
    RunsMove db'.Closed db.runs db'.runs := by
  simp only [revokeRunnerLeases, revokeRunnerLeasesTx, bind_ok_iff] at ran
  obtain ⟨_, -, _, -, leased, -, ran⟩ := ran
  split at ran
  · rw [← pure_ok_iff.mp ran]
    exact .refl synced
  obtain ⟨resolved, dependents, runs⟩ := bind_ok_iff.mp ran
  have same : resolved.runs = db.runs := by
    have loop {α : Type} {f : DB → α → DB} (each : ∀ db a, (f db a).runs = db.runs)
        (items : List α) (db : DB) : (items.foldl f db).runs = db.runs :=
      foldl_rel (r := fun a b : DB => b.runs = a.runs) (fun _ => rfl)
        (fun first second => second.trans first) items (fun a _ db => each db a) db
    refine (foldlM_same DB.runs (fun _ _ _ _ each => recomputeDependentsTx_runs each)
      dependents).trans ?_
    exact (loop (f := fun db id => releaseRunnerSlotTx runnerID id db) (fun _ _ => rfl) _ _).trans
      (loop (f := revokeLease c.now reason) (fun _ _ => rfl) leased db)
  obtain ⟨jobs, moves⟩ := recomputeRuns_runs (same ▸ synced) runs
  rw [closed_congr jobs, ← same]
  exact moves

theorem cancelJobTx_runs
    (ran : cancelJobTx now reason db jobID = .ok db') : db'.runs = db.runs := by
  unfold cancelJobTx at ran
  split at ran
  · rw [← pure_ok_iff.mp ran]
  split at ran
  · rw [← pure_ok_iff.mp ran]
  obtain ⟨j, -, ran⟩ := bind_ok_iff.mp ran
  dsimp only at ran
  split at ran
  · split at ran <;> rw [← pure_ok_iff.mp ran] <;> rfl
  · rw [← pure_ok_iff.mp ran]
    rfl

theorem cancelRunJobs_runs (closed : RunID → Prop)
    (synced : RunsSynced db.runs) (ran : cancelRunJobs c runID reason db = .ok db') :
    RunsMove closed db.runs db'.runs := by
  simp only [cancelRunJobs, bind_ok_iff] at ran
  obtain ⟨_, -, _, -, left, jobs, ran⟩ := ran
  have same : left.runs = db.runs :=
    foldlM_same DB.runs (fun _ _ _ _ each => cancelJobTx_runs each) jobs
  rw [← same]
  exact cancelRunRowTx_runs closed (same ▸ synced) ran

theorem releaseRunnerJob_runs
    (ran : releaseRunnerJob c runnerID jobID status db = .ok (db', reported)) :
    db'.runs = db.runs := by
  have quota (db : DB) : (releaseResourcesTx jobID (releaseJobQuotaTx jobID db)).runs = db.runs := by
    obtain ⟨quota, only⟩ := releaseJobQuotaTx_only jobID db
    rw [only]
    rfl
  simp only [releaseRunnerJob, bind_ok_iff] at ran
  obtain ⟨_, -, _, -, _, -, ran⟩ := ran
  split at ran
  · rw [← (Prod.mk.inj (pure_ok_iff.mp ran)).1]
    exact quota db
  · obtain ⟨_, -, ran⟩ := bind_ok_iff.mp ran
    rw [← (Prod.mk.inj (pure_ok_iff.mp ran)).1]
    exact quota _

theorem cancelSupersededTx_runs (closed : RunID → Prop) (synced : RunsSynced db.runs)
    (ran : cancelSupersededTx now ids newRunID db = .ok db') : RunsMove closed db.runs db'.runs := by
  simp only [cancelSupersededTx, bind_ok_iff] at ran
  obtain ⟨acc, jobs, resolved, recomputed, runs⟩ := ran
  have loop : acc.db.runs = db.runs :=
    foldlM_same (·.db.runs) (fun _ _ _ _ each => supersedeJob_runs each) jobs
  have same : resolved.runs = acc.db.runs :=
    foldlM_same DB.runs (fun _ _ _ _ each => recomputeDependentsTx_runs each) recomputed
  rw [← loop, ← same] at synced ⊢
  exact foldlM_rel (r := fun a b : DB => RunsSynced a.runs → RunsMove closed a.runs b.runs)
    (fun _ synced => .refl synced)
    (fun first second synced => (first synced).trans (second (first synced).synced)) _
    (fun _ _ _ _ each synced => cancelRunRowTx_runs closed synced each) runs synced

/-- The calls that add jobs. -/
def Op.inserts : Op → Bool
  | .insertCompiledRun .. | .insertGeneratedFragment .. => true
  | _ => false

/-- A call that neither claims, ends nor adds jobs leaves the graph and the runs alone. -/
theorem Op.apart {op : Op} (kind : op.inserts = false) (other : (op.isClaim || op.ending) = false)
    (ran : op.exec db = .ok db') : db'.graph = db.graph ∧ db'.runs = db.runs := by
  cases op with
  | insertCompiledRun | insertGeneratedFragment => cases kind
  | acquireLeaseAtomic | completeJob | cancelRunJobs | recoverExpiredLease | revokeRunnerLeases
  | expireQueuedJob => cases other
  | approveJob c jobID actor =>
    rcases approveJob_inv ran with rfl | ⟨row, j, found, _, _, _, _, rfl⟩
    · exact ⟨rfl, rfl⟩
    · exact ⟨graph_put found rfl rfl rfl, rfl⟩
  | heartbeatLease c jobID runnerID generation expiresAt =>
    obtain ⟨_, renewed⟩ := heartbeatLease_inv ran
    obtain ⟨row, found, _, rfl⟩ := renewLease_inv renewed
    exact ⟨graph_put found rfl rfl rfl, rfl⟩
  | heartbeatLeaseWithTTL c jobID runnerID generation ttl =>
    obtain ⟨row, found, _, rfl⟩ := renewLease_inv (heartbeatLeaseWithTTL_inv ran)
    exact ⟨graph_put found rfl rfl rfl, rfl⟩
  | releaseRunnerJob c runnerID jobID status =>
    obtain ⟨⟨_, reported⟩, released, rfl⟩ := map_ok_iff.mp ran
    refine ⟨?_, releaseRunnerJob_runs released⟩
    obtain ⟨slot, frees, rfl⟩ := releaseRunnerJob_inv released
    obtain ⟨quota, only⟩ := releaseJobQuotaTx_only jobID slot
    dsimp only
    rw [only]
    exact graph_congr frees.jobs frees.config.fragments
  | reconcileResourceReservations c =>
    rw [reconcileResourceReservations_only ran]
    exact ⟨rfl, rfl⟩

theorem Op.graph_of_not_inserts {op : Op} (kind : op.inserts = false) (ran : op.exec db = .ok db') :
    db'.graph = db.graph := by
  cases lifecycle : op.isClaim || op.ending with
  | true => exact Op.graph_of_lifecycle lifecycle ran
  | false => exact (Op.apart kind lifecycle ran).1

theorem Op.runsMove {op : Op} (kind : op.inserts = false) (synced : RunsSynced db.runs)
    (ran : op.exec db = .ok db') : RunsMove db'.Closed db.runs db'.runs := by
  cases op with
  | insertCompiledRun | insertGeneratedFragment => cases kind
  | acquireLeaseAtomic c claim =>
    obtain ⟨_, _, _, _, _, _, _, committed⟩ := Op.claim rfl ran
    exact .ofEq (by rw [committed.only]) synced
  | completeJob => exact completeJob_runs synced ran
  | cancelRunJobs => exact cancelRunJobs_runs _ synced ran
  | recoverExpiredLease => exact recoverExpiredLease_runs synced ran
  | revokeRunnerLeases => exact revokeRunnerLeases_runs synced ran
  | expireQueuedJob => exact expireQueuedJob_runs synced ran
  | approveJob | heartbeatLease | heartbeatLeaseWithTTL | releaseRunnerJob
  | reconcileResourceReservations => exact .ofEq (Op.apart rfl rfl ran).2 synced

end Calls

/-! ## Runs that are over -/

section Over

variable {db mid db' : DB} {runID : RunID}

/-- The run is over: it is cancelled, or all its jobs are over too. -/
def DB.RunOver (db : DB) (runID : RunID) : Prop :=
  ∃ row, db.runs.get? runID = some row ∧ row.status.terminal = true ∧
    (row.status = .cancelled ∨ db.Closed runID)

/-- Jobs stay over, so a run without new jobs stays closed. -/
theorem DB.Closed.kept (coherent : db.Coherent) (absorbs : db.Absorbs db')
    (own : ∀ id row', db'.jobs.get? id = some row' → row'.runID = runID →
      ∃ row, db.jobs.get? id = some row ∧ row.runID = runID)
    (closed : db.Closed runID) : db'.Closed runID := by
  intro id row' found mine
  obtain ⟨row, there, sameRun⟩ := own id row' found mine
  obtain ⟨late, held, absorbed⟩ := absorbs.rows id row there
  cases held.symm.trans found
  have isOver := closed id row there sameRun
  rw [absorbed.absorbing (coherent id row there) isOver]
  exact isOver

theorem DB.own_of_graph (same : db'.graph = db.graph) {id : JobID}
    (found : db'.jobs.get? id = some row') (mine : row'.runID = runID) :
    ∃ row, db.jobs.get? id = some row ∧ row.runID = runID := by
  have node : (db.jobs.get? id).map JobRow.node = some row'.node := by
    rw [← map_some, ← found]
    exact congrFun (congrArg Graph.node same.symm) id
  obtain ⟨row, there, equal⟩ := map_eq_some_iff.mp node
  exact ⟨row, there, (congrArg Prod.fst equal).trans mine⟩

/-- What a call makes of the runs that are over: they stay over, and a run that
comes to be over is cancelled or closed. -/
structure DB.Concludes (db db' : DB) : Prop where
  stays : ∀ id, db.RunOver id → db'.RunOver id
  comes : ∀ id row', db'.runs.get? id = some row' → row'.status.terminal = true →
    (∃ row, db.runs.get? id = some row ∧ row.status.terminal = true) ∨ db'.RunOver id
  synced : RunsSynced db'.runs

theorem RunsMove.concludes (moves : RunsMove db'.Closed db.runs db'.runs)
    (closes : ∀ id, db.Closed id → db'.Closed id) : db.Concludes db' where
  synced := moves.synced
  stays := by
    rintro id ⟨row, found, isOver, why⟩
    obtain ⟨row', there, reports⟩ := moves.rows id row found
    refine ⟨row', there, ?_⟩
    rcases reports.status with same | cancelled | ⟨live, exact⟩
    · rw [same]
      exact ⟨isOver, why.imp_right (closes id)⟩
    · rw [cancelled]
      exact ⟨rfl, .inl rfl⟩
    · have closed := closes id (why.resolve_left live)
      exact ⟨exact.mpr closed, .inr closed⟩
  comes := by
    intro id row' found isOver
    cases before : db.runs.get? id with
    | none =>
      rw [moves.added id before] at found
      cases found
    | some row =>
      obtain ⟨other, there, reports⟩ := moves.rows id row before
      cases there.symm.trans found
      rcases reports.status with same | cancelled | ⟨_, exact⟩
      · exact .inl ⟨row, rfl, same ▸ isOver⟩
      · exact .inr ⟨row', found, isOver, .inl cancelled⟩
      · exact .inr ⟨row', found, isOver, .inr (exact.mp isOver)⟩

theorem DB.Concludes.trans {a c : DB} (first : a.Concludes b) (second : b.Concludes c) :
    a.Concludes c where
  synced := second.synced
  stays := fun id isOver => second.stays id (first.stays id isOver)
  comes := by
    intro id row found isOver
    rcases second.comes id row found isOver with ⟨middle, there, early⟩ | concluded
    · exact (first.comes id middle there early).imp_right (second.stays id)
    · exact .inr concluded

theorem DB.Concludes.ofTables (jobs : db'.jobs = db.jobs) (runs : db'.runs = db.runs)
    (synced : RunsSynced db.runs) : db.Concludes db' := by
  refine RunsMove.concludes (.ofEq runs synced) fun id closed => ?_
  rw [closed_congr jobs]
  exact closed

variable (coherent : db.Coherent) (synced : RunsSynced db.runs)

include coherent synced

theorem cancelSupersededTx_concludes
    (ran : cancelSupersededTx now ids newRunID db = .ok db') : db'.Coherent ∧ db.Concludes db' := by
  have absorbs : db.Absorbs db' := (cancelSupersededTx_evolves ran).mono .ofEvolves
  refine ⟨absorbs.coherent coherent, (cancelSupersededTx_runs _ synced ran).concludes fun id => ?_⟩
  refine Closed.kept coherent absorbs fun jobID row' found mine => ?_
  obtain ⟨row, there, evolves⟩ := (cancelSupersededTx_narrows ran).jobs jobID row' found
  exact ⟨row, there, evolves.runID.symm.trans mine⟩

theorem supersedePrevious_concludes {c : Call} (ran : supersedePrevious c req db = .ok db') :
    db.Concludes db' := by
  obtain ⟨byPolicy, policy, named⟩ := bind_ok_iff.mp ran
  obtain ⟨middle, first⟩ : byPolicy.Coherent ∧ db.Concludes byPolicy := by
    cases asked : req.supersede with
    | none =>
      rw [asked, whenSome] at policy
      cases policy
      exact ⟨coherent, .ofTables rfl rfl synced⟩
    | some p =>
      rw [asked, whenSome] at policy
      exact cancelSupersededTx_concludes coherent synced policy
  exact first.trans (cancelSupersededTx_concludes middle first.synced named).2

theorem insertCompiledRows_concludes (opens : req.run.status.terminal = false)
    (own : ∀ entry ∈ req.jobs, entry.2.runID = req.run.id)
    (ran : insertCompiledRows req db = .ok db') : db.Concludes db' := by
  obtain ⟨fresh, inserts, only⟩ := insertCompiledRows_inv ran
  have runs : ∀ id, id ≠ req.run.id → db'.runs.get? id = db.runs.get? id := by
    intro id other
    rw [only]
    exact get?_put_ne _ _ other
  have newRun : ∀ row, db'.runs.get? req.run.id = some row →
      row.status = req.run.status ∧ row.payload = req.run := by
    intro row found
    rw [only] at found
    dsimp only at found
    rw [get?_put_self] at found
    cases found
    exact ⟨rfl, rfl⟩
  have absorbs : db.Absorbs db' := (insertCompiledRows_evolves ran).mono .ofEvolves
  refine ⟨?_, fun id row' found isOver => ?_, fun id row' found => ?_⟩
  · rintro id ⟨row, found, isOver, why⟩
    have other : id ≠ req.run.id := by
      rintro rfl
      rw [fresh] at found
      cases found
    refine ⟨row, (runs id other).trans found, isOver, why.imp_right ?_⟩
    refine Closed.kept coherent absorbs fun jobID row' there mine => ?_
    rcases inserts.only jobID row' there with ⟨old, held, plain⟩ | ⟨j, member, _, plain⟩
    · exact ⟨old, held, (JobRow.plain_eq plain).1.symm.trans mine⟩
    · obtain ⟨entry, listed, rfl⟩ := List.mem_map.mp member
      have written := (JobRow.plain_write plain).1
      exact absurd (mine.symm.trans (written.trans (own entry listed))) other
  · by_cases same : id = req.run.id
    · subst same
      rw [(newRun row' found).1, opens] at isOver
      cases isOver
    · exact .inl ⟨row', (runs id same).symm.trans found, isOver⟩
  · by_cases same : id = req.run.id
    · subst same
      obtain ⟨status, payload⟩ := newRun row' found
      rw [status, payload]
    · exact synced id row' ((runs id same).symm.trans found)

theorem insertCompiledRun_concludes {c : Call} (opens : req.run.status.terminal = false)
    (own : ∀ entry ∈ req.jobs, entry.2.runID = req.run.id)
    (ran : insertCompiledRun c req db = .ok db') : db.Concludes db' := by
  obtain ⟨claimed, inserted, superseded, before, rows, previous, after⟩ := insertCompiledRun_inv ran
  have start : db.Concludes claimed := .ofTables before.elsewhere.jobs before.runs synced
  have claimedCoherent : claimed.Coherent := fun id row found =>
    coherent id row (before.elsewhere.jobs ▸ found)
  have insertedCoherent : inserted.Coherent :=
    Absorbs.coherent ((insertCompiledRows_evolves rows).mono .ofEvolves) claimedCoherent
  have written := insertCompiledRows_concludes claimedCoherent start.synced opens own rows
  have cancelled := supersedePrevious_concludes insertedCoherent written.synced previous
  have finish : superseded.Concludes db' := .ofTables after.jobs after.runs cancelled.synced
  exact ((start.trans written).trans cancelled).trans finish

/-- The jobs of a fragment join the run of their parent, which is running. -/
theorem insertGeneratedFragmentTx_concludes {req : GeneratedFragmentRequest}
    (own : ∀ parent ∈ db.parentOf req, ∀ j ∈ req.items, j.runID = parent.runID)
    (ran : insertGeneratedFragmentTx c req verify db = .ok db') : db.Concludes db' := by
  have absorbs : db.Absorbs db' := (insertGeneratedFragmentTx_evolves ran).mono .ofEvolves
  obtain ⟨parent, read, leased, ⟨_, rfl⟩ | filled⟩ := insertGeneratedFragmentTx_cases ran
  · exact .ofTables rfl rfl synced
  have runs : db'.runs = db.runs := by rw [filled.only]
  refine RunsMove.concludes (.ofEq runs synced) fun id closed => ?_
  refine Closed.kept coherent absorbs (fun jobID row' found mine => ?_) closed
  rcases filled.inserts.only jobID row' found with ⟨old, held, plain⟩ | ⟨j, member, _, plain⟩
  · exact ⟨old, held, (JobRow.plain_eq plain).1.symm.trans mine⟩
  · have written := (JobRow.plain_write plain).1
    obtain ⟨row, there, read⟩ := bind_eq_some_iff.mp read
    obtain ⟨_, _, rfl⟩ := map_eq_some_iff.mp read
    have joined : row.runID = id := (own _ ‹_› j member).symm.trans (written.symm.trans mine)
    have isOver := closed _ row there joined
    rw [show row.status = .running from leased.1] at isOver
    cases isOver

/-- A new run comes open and with jobs of its own; a fragment's jobs join the run
of their parent. -/
def Op.placesJobs (op : Op) (db : DB) : Prop :=
  match op with
  | .insertCompiledRun _ req =>
    req.run.status.terminal = false ∧ ∀ entry ∈ req.jobs, entry.2.runID = req.run.id
  | .insertGeneratedFragment _ req _ =>
    ∀ parent ∈ db.parentOf req, ∀ j ∈ req.items, j.runID = parent.runID
  | _ => True

theorem step_concludes {op : Op} (places : op.placesJobs db) : db.Concludes (step op db) := by
  refine commit_elim (P := db.Concludes) (.ofTables rfl rfl synced) fun db' ran => ?_
  have absorbs : db.Absorbs db' := by
    have moved := step_absorbs op db
    rwa [step, ran, commit_ok] at moved
  cases kind : op.inserts with
  | false =>
    have graph := Op.graph_of_not_inserts kind ran
    exact (Op.runsMove kind synced ran).concludes fun id =>
      Closed.kept coherent absorbs fun _ _ found mine => own_of_graph graph found mine
  | true =>
    cases op with
    | insertCompiledRun c req =>
      exact insertCompiledRun_concludes coherent synced places.1 places.2 ran
    | insertGeneratedFragment c req verify =>
      exact insertGeneratedFragmentTx_concludes coherent synced places ran
    | _ => cases kind

theorem run_concludes {ops : List Op} (places : Guarded step Op.placesJobs ops db) :
    (run step ops db).Coherent ∧ db.Concludes (run step ops db) := by
  refine run_guarded (I := fun now => now.Coherent ∧ db.Concludes now)
    (fun op now met holds => ?_) ops places ⟨coherent, .ofTables rfl rfl synced⟩
  exact ⟨(step_absorbs op now).coherent holds.1,
    holds.2.trans (step_concludes holds.1 holds.2.synced met)⟩

/-- The row of the run says that it is over. -/
def DB.runTerminal (db : DB) (runID : RunID) : Bool :=
  (db.runs.get? runID).any (·.status.terminal)

omit coherent synced in
theorem DB.runTerminal_iff : db.runTerminal runID = true ↔
    ∃ row, db.runs.get? runID = some row ∧ row.status.terminal = true := by
  rw [runTerminal]
  cases db.runs.get? runID <;> simp

theorem run_stays_terminal (places : Guarded step Op.placesJobs (ops ++ op :: later) db)
    (before : (run step ops db).runTerminal runID = false)
    (after : (run step (ops ++ [op]) db).runTerminal runID = true) :
    (run step (ops ++ op :: later) db).runTerminal runID = true := by
  obtain ⟨early, placed, late⟩ := Guarded.append.mp places
  obtain ⟨reached, first⟩ := run_concludes coherent synced early
  have second := step_concludes reached first.synced placed
  have third := (run_concludes ((step_absorbs op _).coherent reached) second.synced late).2
  rw [run_append] at after ⊢
  obtain ⟨row, found, isOver⟩ := runTerminal_iff.mp after
  have concluded : (step op (run step ops db)).RunOver runID := by
    rcases second.comes runID row found isOver with already | concluded
    · rw [runTerminal_iff.mpr already] at before
      cases before
    · exact concluded
  obtain ⟨row', there, stillOver, _⟩ := third.stays runID concluded
  exact runTerminal_iff.mpr ⟨row', there, stillOver⟩

end Over

end KiwiCI.Storage
