import KiwiCI.Storage.Store

/-!
The shape every operation that ends leases or jobs has.

`CompleteJob`, `CancelRunJobs`, `RecoverExpiredLease`, `RevokeRunnerLeases`,
`ExpireQueuedJob` and the supersession inside `InsertCompiledRun` do the same
three things: jobs leave (`Ends`: the row, its reservation, its quota slot and
its runner slot move together), then the dependents of some of them are
re-evaluated (`recomputeDependentsTx`), and tables outside the lease accounting
follow (`DB.Elsewhere`).  `Settlement` is that shape.  One inversion lemma per
operation puts a committed call into it; what the operations keep is proved
about the shape.
-/

namespace KiwiCI.Storage

variable {id : JobID} {outcome : Status} {row : JobRow} {runnerID : RunnerID}

variable {db db' : DB} {now : Time} {jobID : JobID} {receipt : CompletionReceipt}
  {result : CompletionResult} {c : Call} {reason : String} {ids : List JobID} {newRunID : RunID}

open Table List RunnerRow Payload

/-! ## Frames -/

/-- A runner row without what its leases move. -/
def RunnerRow.registered (r : RunnerRow) : RunnerRow :=
  { r with
    busy := false, completed := 0, failed := 0, currentJob := "", activeJobs := []
    payload := r.payload.registration }

/-- The active set of a runner; `none` for an unknown one. -/
def DB.activeOf (db : DB) (r : RunnerID) : Option (List JobID) :=
  (db.runners.get? r).map (·.activeJobs)

/-- The configuration no lifecycle operation changes: edges, profiles, links, the
receipts of generated fragments, what registration fixed about the runners and
the refs of the runs. -/
structure DB.SameConfig (db db' : DB) : Prop where
  dependencies : db'.dependencies = db.dependencies
  profiles : db'.profiles = db.profiles
  certProfileLinks : db'.certProfileLinks = db.certProfileLinks
  runnerProfileLinks : db'.runnerProfileLinks = db.runnerProfileLinks
  fragments : db'.generatedFragments = db.generatedFragments
  runners : ∀ r, (db'.runners.get? r).map (·.registered) = (db.runners.get? r).map (·.registered)
  refs : ∀ run, (db'.runs.get? run).map (·.payload.ref) = (db.runs.get? run).map (·.payload.ref)

theorem DB.SameConfig.refl (db : DB) : db.SameConfig db :=
  ⟨rfl, rfl, rfl, rfl, rfl, fun _ => rfl, fun _ => rfl⟩

theorem DB.SameConfig.trans {a c : DB} (first : a.SameConfig b) (second : b.SameConfig c) :
    a.SameConfig c :=
  ⟨second.dependencies.trans first.dependencies, second.profiles.trans first.profiles,
    second.certProfileLinks.trans first.certProfileLinks,
    second.runnerProfileLinks.trans first.runnerProfileLinks,
    second.fragments.trans first.fragments, fun r => (second.runners r).trans (first.runners r),
    fun run => (second.refs run).trans (first.refs run)⟩

/-- Nothing happens in the tables of the lease accounting. -/
structure DB.Elsewhere (db db' : DB) : Prop where
  jobs : db'.jobs = db.jobs
  quota : db'.quota = db.quota
  reservations : db'.reservations = db.reservations
  active : ∀ r, db'.activeOf r = db.activeOf r
  config : db.SameConfig db'

theorem DB.Elsewhere.refl (db : DB) : db.Elsewhere db := ⟨rfl, rfl, rfl, fun _ => rfl, .refl db⟩

theorem DB.Elsewhere.trans {a c : DB} (first : a.Elsewhere b) (second : b.Elsewhere c) :
    a.Elsewhere c :=
  ⟨second.jobs.trans first.jobs, second.quota.trans first.quota,
    second.reservations.trans first.reservations,
    fun r => (second.active r).trans (first.active r), first.config.trans second.config⟩

theorem DB.Elsewhere.writeRun {row : RunRow}
    (found : db.runs.get? runID = some row) (ref : row'.payload.ref = row.payload.ref) :
    db.Elsewhere { db with runs := db.runs.put runID row' } := by
  refine ⟨rfl, rfl, rfl, fun _ => rfl, ⟨rfl, rfl, rfl, rfl, rfl, fun _ => rfl, fun run => ?_⟩⟩
  rw [get?_put]
  split <;> rename_i same
  · rw [same, found, Option.map_some, Option.map_some, ref]
  · rfl

theorem DB.Elsewhere.writeReceipts (db : DB)
    (receipts : Table (JobID × Int × RunnerID) ReceiptRow) : db.Elsewhere { db with receipts } :=
  ⟨rfl, rfl, rfl, fun _ => rfl, ⟨rfl, rfl, rfl, rfl, rfl, fun _ => rfl, fun _ => rfl⟩⟩

/-! ## Leaving -/

/-- The queued slot a leaving job takes or gives back: a requeued lease takes
one, a job that was not running gives its own back. -/
def queuedDelta (before after : Status) : Int :=
  if before = .running then (if after = .queued then 1 else 0) else -1

/-- The running slot a leaving job gives back. -/
def runningDelta (before : Status) : Int := if before = .running then -1 else 0

/-- A job that was not over leaves: it ends, or its lease goes back to the queue. -/
structure JobRow.Ended (old new : JobRow) (outcome : Status) : Prop where
  unsettled : old.status.terminal = false
  evolves : old.Evolves new
  status : new.status = outcome
  copy : old.payload.decodes = true → new.payload.job.status = outcome
  isOver : outcome.terminal = true ∨ (outcome = .queued ∧ old.status = .running)
  approval : new.payload.job.approvedBy = old.payload.job.approvedBy
  attempts : new.attempts = old.attempts

/-- Job `id` leaves with `outcome`, in all four tables of the lease accounting. -/
structure Ends (id : JobID) (outcome : Status) (row row' : JobRow) (db db' : DB) : Prop where
  found : db.jobs.get? id = some row
  ended : row.Ended row' outcome
  jobs : db'.jobs = db.jobs.put id row'
  reservations : db'.reservations = db.reservations.delete id
  quota : ∃ repoID, (row.payload.decodes = true → repoID = repoIDForJob row.payload.job) ∧
    db'.quota = (quotaKeys repoID).foldl
      (adjustQuotaKey (runningDelta row.status) (queuedDelta row.status outcome)) db.quota
  freed : row.status = .running → row.leaseRunnerID ≠ "" → ∀ r, db'.activeOf r =
    (db.activeOf r).map fun active =>
      if r = row.leaseRunnerID then removeString active id else active
  held : row.status ≠ .running → ∀ r, db'.activeOf r = db.activeOf r
  config : db.SameConfig db'

/-- The jobs of the list leave one after the other, each with its outcome. -/
inductive EndsAll : List (JobID × Status) → DB → DB → Prop where
  | nil {db db' : DB} : db.Elsewhere db' → EndsAll [] db db'
  | cons {id : JobID} {outcome : Status} {rest : List (JobID × Status)} {row row' : JobRow}
    {db mid db' : DB} :
    Ends id outcome row row' db mid → EndsAll rest mid db' → EndsAll ((id, outcome) :: rest) db db'

/-- Jobs leave, then the dependents of `settled` are re-evaluated. -/
def Settlement (now : Time) (ended : List (JobID × Status)) (settled : List JobID)
    (db db' : DB) : Prop :=
  ∃ left resolved, EndsAll ended db left ∧
    settled.foldlM (fun db id => recomputeDependentsTx now id db) left = .ok resolved ∧
    resolved.Elsewhere db'

theorem EndsAll.elsewhere {ended : List (JobID × Status)}
    (all : EndsAll ended db mid) (follows : mid.Elsewhere db') : EndsAll ended db db' := by
  induction all with
  | nil first => exact .nil (first.trans follows)
  | cons ends _ ih => exact .cons ends (ih follows)

theorem EndsAll.single (ends : Ends id outcome row row' db db') : EndsAll [(id, outcome)] db db' :=
  .cons ends (.nil (.refl db'))

/-! ## Helpers that only touch runs, or only a runner's counters -/

theorem recomputeRunStatus_ref {run : Run}
    (changed : recomputeRunStatus now run states = some run') : run'.ref = run.ref := by
  unfold recomputeRunStatus at changed
  split at changed
  · cases changed
  · dsimp only at changed
    rw [Option.ite_none_right_eq_some] at changed
    obtain ⟨_, same⟩ := changed
    cases same
    rfl

theorem recomputeRunTx_elsewhere
    (ran : recomputeRunTx now runID db = .ok db') : db.Elsewhere db' := by
  unfold recomputeRunTx at ran
  split at ran
  · rw [pure_ok_iff] at ran
    exact ran ▸ .refl db
  · rename_i row found
    obtain ⟨_, _, ran⟩ := bind_ok_iff.mp ran
    dsimp only at ran
    split at ran <;> rw [pure_ok_iff] at ran
    · exact ran ▸ .refl db
    · rename_i run changed
      exact ran ▸ .writeRun found (recomputeRunStatus_ref changed)

theorem cancelRunRowTx_elsewhere
    (ran : cancelRunRowTx now db runID = .ok db') : db.Elsewhere db' := by
  unfold cancelRunRowTx at ran
  split at ran
  · rw [pure_ok_iff] at ran
    exact ran ▸ .refl db
  · rename_i row found
    split at ran
    · rw [pure_ok_iff] at ran
      exact ran ▸ .refl db
    · obtain ⟨_, _, ran⟩ := bind_ok_iff.mp ran
      rw [pure_ok_iff] at ran
      exact ran ▸ .writeRun found rfl

theorem countRunnerFailures_elsewhere (runnerID : RunnerID) (n : Int) (db : DB) :
    db.Elsewhere (countRunnerFailures runnerID n db) where
  jobs := rfl
  quota := rfl
  reservations := rfl
  active := fun r => by
    simp only [DB.activeOf, countRunnerFailures, get?_modify]
    split <;> rename_i same
    · simp [same, Function.comp_def]
    · rfl
  config := ⟨rfl, rfl, rfl, rfl, rfl, fun r => by
    simp only [countRunnerFailures, get?_modify]
    split <;> rename_i same
    · simp [same, Function.comp_def, registered]
    · rfl, fun _ => rfl⟩

/-- A transaction that takes one job out of one active set. -/
structure FreesSlot (runnerID : RunnerID) (jobID : JobID) (db db' : DB) : Prop where
  jobs : db'.jobs = db.jobs
  quota : db'.quota = db.quota
  reservations : db'.reservations = db.reservations
  active : ∀ r, db'.activeOf r =
    (db.activeOf r).map fun active => if r = runnerID then removeString active jobID else active
  config : db.SameConfig db'

theorem FreesSlot.elsewhere {mid : DB}
    (frees : FreesSlot runnerID jobID db mid) (follows : mid.Elsewhere db') :
    FreesSlot runnerID jobID db db' :=
  ⟨follows.jobs.trans frees.jobs, follows.quota.trans frees.quota,
    follows.reservations.trans frees.reservations,
    fun r => (follows.active r).trans (frees.active r), frees.config.trans follows.config⟩

theorem DB.Elsewhere.frees {mid : DB}
    (first : db.Elsewhere mid) (frees : FreesSlot runnerID jobID mid db') :
    FreesSlot runnerID jobID db db' :=
  ⟨frees.jobs.trans first.jobs, frees.quota.trans first.quota,
    frees.reservations.trans first.reservations,
    fun r => (frees.active r).trans (by rw [first.active r]), first.config.trans frees.config⟩

theorem releaseRunnerSlotTx_frees (runnerID : RunnerID) (jobID : JobID) (db : DB) :
    FreesSlot runnerID jobID db (releaseRunnerSlotTx runnerID jobID db) where
  jobs := rfl
  quota := rfl
  reservations := rfl
  active := fun r => by
    simp only [DB.activeOf, releaseRunnerSlotTx, get?_modify]
    split <;> rename_i same
    · simp [same, Function.comp_def, releaseSlot]
    · simp [Function.comp_def]
  config := ⟨rfl, rfl, rfl, rfl, rfl, fun r => by
    simp only [releaseRunnerSlotTx, get?_modify]
    split <;> rename_i same
    · simp [same, Function.comp_def, registered, releaseSlot]
    · rfl, fun _ => rfl⟩

theorem releaseLostRunner_frees (leased : runnerID ≠ "") (jobID : JobID)
    (db : DB) : FreesSlot runnerID jobID db (releaseLostRunner runnerID jobID db) := by
  rw [releaseLostRunner, if_pos leased]
  exact (releaseRunnerSlotTx_frees runnerID jobID db).elsewhere
    (countRunnerFailures_elsewhere runnerID 1 _)

theorem putComplete_frees (found : db.runners.get? runnerID = some r) : FreesSlot runnerID jobID db
      { db with runners := db.runners.put runnerID (r.complete jobID st) } where
  jobs := rfl
  quota := rfl
  reservations := rfl
  active := fun other => by
    simp only [DB.activeOf, get?_put]
    split <;> rename_i same
    · simp [same, found, complete, releaseSlot]
    · simp [Function.comp_def]
  config := ⟨rfl, rfl, rfl, rfl, rfl, fun other => by
    simp only [get?_put]
    split <;> rename_i same
    · simp [same, found, complete, releaseSlot, registered,
        Runner.registration]
    · rfl, fun _ => rfl⟩

theorem completeRunnerTx_frees
    (ran : completeRunnerTx runnerID jobID st db = .ok db') : FreesSlot runnerID jobID db db' := by
  unfold completeRunnerTx at ran
  split at ran
  · rename_i unknown
    rw [pure_ok_iff] at ran
    subst ran
    refine ⟨rfl, rfl, rfl, fun r => ?_, .refl db⟩
    by_cases same : r = runnerID
    · simp [DB.activeOf, same, unknown]
    · simp [same]
  · rename_i r found
    obtain ⟨_, _, ran⟩ := bind_ok_iff.mp ran
    rw [pure_ok_iff] at ran
    exact ran ▸ putComplete_frees found

/-! ## Putting an operation's writes together -/

/-- The job, quota and reservation tables after a job has left. -/
def leaveTables (id : JobID) (row' : JobRow) (repoID : String) (dr dq : Int) (db : DB) : DB :=
  { db with
    jobs := db.jobs.put id row'
    reservations := db.reservations.delete id
    quota := (quotaKeys repoID).foldl (adjustQuotaKey dr dq) db.quota }

theorem releaseResourcesTx_adjustQuotaTx (id : JobID) (row' : JobRow) (repoID : String) (dr dq : Int)
    (db : DB) :
    releaseResourcesTx id (adjustQuotaTx repoID dr dq { db with jobs := db.jobs.put id row' }) =
      leaveTables id row' repoID dr dq db := by
  simp only [releaseResourcesTx, adjustQuotaTx, leaveTables]

theorem adjustQuotaTx_releaseResourcesTx (id : JobID) (row' : JobRow) (repoID : String) (dr dq : Int)
    (db : DB) :
    adjustQuotaTx repoID dr dq (releaseResourcesTx id { db with jobs := db.jobs.put id row' }) =
      leaveTables id row' repoID dr dq db := by
  simp only [releaseResourcesTx, adjustQuotaTx, leaveTables]

section Ends

variable {id : JobID} {outcome : Status} {row row' : JobRow} {repoID : String} {dr dq : Int}
  {runnerID : RunnerID} {db db' : DB}

theorem Settlement.single (ends : Ends id outcome row row' db left)
    (recomputed : recomputeDependentsTx now id left = .ok resolved)
    (follows : resolved.Elsewhere db') : Settlement now [(id, outcome)] [id] db db' := by
  refine ⟨left, resolved, .single ends, ?_, follows⟩
  rw [foldlM_cons, recomputed]
  rfl

variable (found : db.jobs.get? id = some row) (ended : row.Ended row' outcome)
  (identity : row.payload.decodes = true → repoID = repoIDForJob row.payload.job)

include found ended identity

/-- A lease ends: the tables are written and its runner's slot is freed. -/
theorem Ends.ofLease (running : row.status = .running) (requeued : dq = if outcome = .queued then 1 else 0)
    (holder : row.leaseRunnerID ≠ "" → runnerID = row.leaseRunnerID)
    (frees : FreesSlot runnerID id (leaveTables id row' repoID (-1) dq db) db') :
    Ends id outcome row row' db db' where
  found := found
  ended := ended
  jobs := frees.jobs
  reservations := frees.reservations
  quota := ⟨repoID, identity, by
    rw [frees.quota, queuedDelta, runningDelta, if_pos running, if_pos running, ← requeued,
      leaveTables]⟩
  freed := fun _ leased r => by
    rw [frees.active r, holder leased]
    rfl
  held := fun notRunning => absurd running notRunning
  config := { frees.config with }

/-- A job without a lease holder ends: no active set changes. -/
theorem Ends.ofUnleased (unleased : row.status = .running → row.leaseRunnerID = "")
    (released : dr = runningDelta row.status) (requeued : dq = queuedDelta row.status outcome) :
    Ends id outcome row row' db (leaveTables id row' repoID dr dq db) where
  found := found
  ended := ended
  jobs := rfl
  reservations := rfl
  quota := ⟨repoID, identity, by rw [released, requeued, leaveTables]⟩
  freed := fun running leased => absurd (unleased running) leased
  held := fun _ _ => rfl
  config := ⟨rfl, rfl, rfl, rfl, rfl, fun _ => rfl, fun _ => rfl⟩

/-- A lease is lost: its holder, if it has one, also counts a failure. -/
theorem Ends.ofLost (running : row.status = .running) (requeued : dq = if outcome = .queued then 1 else 0) :
    Ends id outcome row row' db
      (releaseLostRunner row.leaseRunnerID id (leaveTables id row' repoID (-1) dq db)) := by
  by_cases leased : row.leaseRunnerID = ""
  · rw [releaseLostRunner, if_neg (not_not.mpr leased)]
    exact .ofUnleased found ended identity (fun _ => leased) (by rw [runningDelta, if_pos running])
      (by rw [requeued, queuedDelta, if_pos running])
  · exact .ofLease found ended identity running requeued (fun _ => rfl)
      (releaseLostRunner_frees leased id _)

end Ends

/-! ## Completion -/

theorem completionStatus_terminal (status : Status) : (completionStatus status).terminal = true := by
  cases status <;> rfl

theorem JobRow.Ended.complete (decoded : row.payload.decode = some j)
    (running : row.status = .running) :
    row.Ended (row.complete now j receipt result) (completionStatus result.status) := by
  obtain ⟨decodes, same⟩ := decode_eq_some.mp decoded
  have unsettled : row.status.terminal = false := by rw [running]; rfl
  exact ⟨unsettled, .complete decodes (by rw [same]) unsettled, rfl, fun _ => rfl,
    .inl (completionStatus_terminal _), by rw [same]; rfl, rfl⟩

/-- The tables the receipt insert, the pruning and the effects write lie outside
the lease accounting. -/
theorem insertReceiptTx_elsewhere (ran : insertReceiptTx c receipt result db = .ok (some db')) :
    db.Elsewhere db' := by
  simp only [insertReceiptTx] at ran
  split at ran
  · split at ran
    · exact absurd (pure_ok_iff.mp ran) (by simp)
    · cases ran
  · cases pure_ok_iff.mp ran
    exact .writeReceipts db _

theorem pruneCompletionReceiptsTx_elsewhere (c : Call) (db : DB) :
    db.Elsewhere (pruneCompletionReceiptsTx c db) := by
  unfold pruneCompletionReceiptsTx
  dsimp only
  split
  · exact .writeReceipts db _
  · exact .writeReceipts db _

theorem insertCompletionEffectsTx_elsewhere {generation : Int}
    (ran : insertCompletionEffectsTx jobID generation db = .ok db') : db.Elsewhere db' := by
  obtain ⟨_, _, ran⟩ := bind_ok_iff.mp ran
  rw [pure_ok_iff] at ran
  exact ran ▸ ⟨rfl, rfl, rfl, fun _ => rfl, ⟨rfl, rfl, rfl, rfl, rfl, fun _ => rfl, fun _ => rfl⟩⟩

/-- A completion that finds its lease running acknowledges without a change, or
settles the job. -/
theorem completeActive_inv (found : db.jobs.get? receipt.jobID = some row)
    (running : row.status = .running) (holder : row.leaseRunnerID = receipt.runnerID)
    (ran : completeActive c row receipt result db = .ok db') :
    row.leaseExpiresAt.any (c.now < ·) = true ∧
      (db' = db ∨ Settlement c.now [(receipt.jobID, completionStatus result.status)]
        [receipt.jobID] db db') := by
  obtain ⟨_, unexpired, ran⟩ := bind_ok_iff.mp ran
  obtain ⟨j, decoded, ran⟩ := bind_ok_iff.mp ran
  rw [require_ok_iff] at unexpired
  rw [orThrow_ok_iff] at decoded
  refine ⟨unexpired, ?_⟩
  obtain ⟨_, _, ran⟩ := bind_ok_iff.mp ran
  obtain ⟨acknowledged, receipts, ran⟩ := bind_ok_iff.mp ran
  cases acknowledged with
  | none =>
    rw [pure_ok_iff] at ran
    exact .inl ran.symm
  | some written =>
    obtain ⟨freed, completed, ran⟩ := bind_ok_iff.mp ran
    obtain ⟨resolved, recomputed, ran⟩ := bind_ok_iff.mp ran
    obtain ⟨settled, runRow, effects⟩ := bind_ok_iff.mp ran
    rw [releaseResourcesTx_adjustQuotaTx] at receipts
    have frees := ((insertReceiptTx_elsewhere receipts).trans
      (pruneCompletionReceiptsTx_elsewhere c written)).frees (completeRunnerTx_frees completed)
    obtain ⟨decodes, same⟩ := decode_eq_some.mp decoded
    have ends : Ends receipt.jobID (completionStatus result.status) row
        (row.complete c.now j receipt result) db freed :=
      .ofLease found (.complete decoded running) (fun _ => by rw [same]) running
        (by cases result.status <;> rfl) (fun _ => holder.symm) frees
    exact .inr (.single ends recomputed
      ((recomputeRunTx_elsewhere runRow).trans (insertCompletionEffectsTx_elsewhere effects)))

theorem replayCompletion_inv
    (ran : replayCompletion c row receipt result db = .ok db') : db' = db ∧ ∃ stored,
      db.liveReceipt c.now (receipt.jobID, receipt.generation, receipt.runnerID) = some stored ∧
      completionReceiptReplayMatches stored.resultHash stored.resultHashVersion receipt.resultHash
        receipt.resultHashVersion result
        (storedCompletionObservedRuntime row stored.resultHashVersion receipt.generation
          result.observed) = true := by
  unfold replayCompletion at ran
  split at ran
  · rename_i stored live
    split at ran
    · rename_i same
      exact ⟨(pure_ok_iff.mp ran).symm, stored, live, same⟩
    · cases ran
  · split at ran <;> cases ran

/-- An accepted completion changes nothing, or it settles the job under the
lease it names. -/
theorem completeJob_inv
    (ran : completeJob c jobID generation runnerID result receipt db = .ok db') :
    ∃ row, db.jobs.get? jobID = some row ∧
      (db' = db ∨ (row.status = .running ∧ row.leaseGeneration = generation ∧
        row.leaseRunnerID = runnerID ∧ row.leaseExpiresAt.any (c.now < ·) = true ∧
        Settlement c.now [(jobID, completionStatus result.status)] [jobID] db db')) := by
  simp only [completeJob, bind_ok_iff, require_ok_iff, orThrow_ok_iff] at ran
  obtain ⟨_, -, _, -, _, ⟨rfl, rfl, rfl⟩, _, -, row, found, ran⟩ := ran
  refine ⟨row, found, ?_⟩
  split at ran
  · exact .inl (replayCompletion_inv ran).1
  · rename_i current
    push Not at current
    obtain ⟨generation, holder, running⟩ := current
    obtain ⟨unexpired, same | settled⟩ := completeActive_inv found running holder ran
    · exact .inl same
    · exact .inr ⟨running, generation, holder, unexpired, settled⟩

/-! ## Recovery and expiry -/

theorem JobRow.Ended.leave {error : String}
    {finishedAt : Option Time} (decodes : row.payload.decodes = true)
    (same : j.spec = row.payload.job.spec)
    (approval : j.approvedBy = row.payload.job.approvedBy) (unsettled : row.status.terminal = false)
    (isOver : outcome.terminal = true ∨ (outcome = .queued ∧ row.status = .running)) :
    row.Ended (row.leave j outcome error finishedAt) outcome := by
  have stops : outcome ≠ .running := by
    rintro rfl
    simp [Status.terminal] at isOver
  exact ⟨unsettled, .leave decodes same unsettled stops, rfl, fun _ => rfl, isOver, approval, rfl⟩

/-- One with a corrupt payload leaves by its columns alone. -/
theorem JobRow.Ended.leaveColumns {error : String}
    {finishedAt : Option Time} (corrupt : row.payload.decodes = false)
    (unsettled : row.status.terminal = false) (isOver : outcome.terminal = true) :
    row.Ended (row.leaveColumns outcome error finishedAt) outcome := by
  have stops : outcome ≠ .running := by
    rintro rfl
    simp [Status.terminal] at isOver
  refine ⟨unsettled, .leaveColumns corrupt unsettled stops, rfl, fun decodes => ?_, .inl isOver, rfl,
    rfl⟩
  rw [corrupt] at decodes
  exact absurd decodes (by decide)

theorem repoIDForJob_congr (same : j.spec = k.spec) :
    repoIDForJob j = repoIDForJob k := by
  have read : ∀ j : Job, repoIDForJob j.spec = repoIDForJob j := by
    intro j
    unfold repoIDForJob
    rfl
  rw [← read j, same, read k]

theorem recoverCorruptLeaseTx_inv
    (found : db.jobs.get? jobID = some row) (running : row.status = .running)
    (corrupt : row.payload.decodes = false)
    (ran : recoverCorruptLeaseTx now jobID row db = .ok db') :
    Settlement now [(jobID, .failure)] [jobID] db db' := by
  obtain ⟨resolved, recomputed, runRow⟩ := bind_ok_iff.mp ran
  rw [adjustQuotaTx_releaseResourcesTx] at recomputed
  have ended : row.Ended (row.leaveColumns .failure corruptLeaseRecoveryReason (some now)) .failure :=
    .leaveColumns corrupt (by rw [running]; rfl) rfl
  have identity : row.payload.decodes = true →
      db.repoIDForRecovery row.runID = repoIDForJob row.payload.job :=
    fun decodes => absurd decodes (by simp [corrupt])
  exact .single (.ofLost found ended identity running (if_neg (by decide)).symm) recomputed
    (recomputeRunTx_elsewhere runRow)

/-- What becomes of a lost lease: the queue while the retry budget lasts, else
`final`. -/
def JobRow.lostStatus (row : JobRow) (final : Status) : Status :=
  if row.attempts ≤ effectiveMaxInfraRetries row.payload.job then .queued else final

/-- What `RecoverExpiredLease` makes of a job; a corrupt payload is not retried. -/
def JobRow.recoveredStatus (row : JobRow) : Status :=
  if row.payload.decodes then row.lostStatus .failure else .failure

theorem effectiveMaxInfraRetries_congr (same : j.spec = k.spec) :
    effectiveMaxInfraRetries j = effectiveMaxInfraRetries k := by
  have budget : j.spec.maxInfraRetries = k.spec.maxInfraRetries := by rw [same]
  exact congrArg (min · maxInfraRetriesLimit) budget

theorem recoverLeaseTx_inv (found : db.jobs.get? jobID = some row) (running : row.status = .running)
    (decodes : row.payload.decodes = true) (same : j.spec = row.payload.job.spec)
    (approval : j.approvedBy = row.payload.job.approvedBy) (counted : j.attempts = row.attempts)
    (ran : recoverLeaseTx now jobID row j db = .ok db') :
    Settlement now [(jobID, row.recoveredStatus)] [jobID] db db' := by
  obtain ⟨resolved, recomputed, runRow⟩ := bind_ok_iff.mp ran
  rw [adjustQuotaTx_releaseResourcesTx] at recomputed
  have unsettled : row.status.terminal = false := by rw [running]; rfl
  have follows := recomputeRunTx_elsewhere runRow
  rw [JobRow.recoveredStatus, if_pos decodes, JobRow.lostStatus, ← counted,
    ← effectiveMaxInfraRetries_congr same]
  by_cases retry : j.attempts ≤ effectiveMaxInfraRetries j
  · rw [if_pos (decide_eq_true retry), if_pos (decide_eq_true retry)] at recomputed
    rw [if_pos retry]
    exact .single (.ofLost found (.leave decodes same approval unsettled (.inr ⟨rfl, running⟩))
      (fun _ => repoIDForJob_congr same) running (if_pos rfl).symm) recomputed follows
  · have spent : ¬decide (j.attempts ≤ effectiveMaxInfraRetries j) = true := by simpa using retry
    rw [if_neg spent, if_neg spent] at recomputed
    rw [if_neg retry]
    exact .single (.ofLost found (.leave decodes same approval unsettled (.inl rfl))
      (fun _ => repoIDForJob_congr same) running (if_neg (by decide)).symm) recomputed follows

/-- An expired lease ends its job or puts it back in the queue. -/
theorem recoverExpiredLease_inv (ran : recoverExpiredLease c jobID generation db = .ok db') :
    ∃ row, db.jobs.get? jobID = some row ∧
      (db' = db ∨ (row.status = .running ∧ row.leaseGeneration = generation ∧
        Settlement c.now [(jobID, row.recoveredStatus)] [jobID] db db')) := by
  simp only [recoverExpiredLease, bind_ok_iff, orThrow_ok_iff] at ran
  obtain ⟨_, -, _, -, row, found, ran⟩ := ran
  refine ⟨row, found, ?_⟩
  split at ran
  · exact .inl (pure_ok_iff.mp ran).symm
  rename_i current
  push Not at current
  obtain ⟨running, same⟩ := current
  cases decoded : row.payload.decode with
  | none =>
    rw [decoded] at ran
    have corrupt := decode_eq_none.mp decoded
    have settled := recoverCorruptLeaseTx_inv found running corrupt ran
    refine .inr ⟨running, same, ?_⟩
    rwa [JobRow.recoveredStatus, corrupt]
  | some j =>
    rw [decoded] at ran
    dsimp only at ran
    split at ran
    · exact .inl (pure_ok_iff.mp ran).symm
    · obtain ⟨decodes, rfl⟩ := decode_eq_some.mp decoded
      exact .inr ⟨running, same,
        recoverLeaseTx_inv found running decodes (by rfl) (by rfl) (by rfl) ran⟩

theorem Status.waiting_not_running {s : Status} (waiting : s.waiting = true) : s ≠ .running := by
  rintro rfl
  exact absurd waiting (by decide)

theorem expireRow_ended (now : Time) (row : JobRow) (decoded : Option Job) (db : DB)
    (unsettled : row.status.terminal = false)
    (some_iff : decoded.isSome = row.payload.decodes)
    (same : ∀ j, decoded = some j →
      j.spec = row.payload.job.spec ∧ j.approvedBy = row.payload.job.approvedBy) :
    row.Ended (expireRow now row decoded db).1 .cancelled ∧
      (row.payload.decodes = true →
        (expireRow now row decoded db).2 = repoIDForJob row.payload.job) := by
  cases decoded with
  | none =>
    have corrupt : row.payload.decodes = false := some_iff.symm
    exact ⟨.leaveColumns corrupt unsettled rfl, fun decodes => by simp [corrupt] at decodes⟩
  | some j =>
    have decodes : row.payload.decodes = true := some_iff.symm
    dsimp only [expireRow]
    obtain ⟨spec, approval⟩ := same j rfl
    exact ⟨.leave decodes spec approval unsettled (.inl rfl), fun _ => repoIDForJob_congr spec⟩

/-- A queue timeout cancels a job that is still waiting. -/
theorem expireQueuedJob_inv {observed : Option Time}
    (ran : expireQueuedJob c jobID observed db = .ok db') :
    ∃ row, db.jobs.get? jobID = some row ∧ (db' = db ∨ (row.status.waiting = true ∧
      Settlement c.now [(jobID, .cancelled)] [jobID] db db')) := by
  simp only [expireQueuedJob, bind_ok_iff, orThrow_ok_iff] at ran
  obtain ⟨_, -, _, -, row, found, ran⟩ := ran
  refine ⟨row, found, ?_⟩
  split at ran
  · exact .inl (pure_ok_iff.mp ran).symm
  rename_i waiting
  rw [Bool.not_eq_false] at waiting
  split at ran
  · exact .inl (pure_ok_iff.mp ran).symm
  obtain ⟨resolved, recomputed, runRow⟩ := bind_ok_iff.mp ran
  rw [adjustQuotaTx_releaseResourcesTx] at recomputed
  have notRunning := Status.waiting_not_running waiting
  obtain ⟨ended, identity⟩ := expireRow_ended c.now row
    (row.payload.decode.map fun j => { j with id := jobID, runID := row.runID, key := row.key }) db
    (Status.not_terminal_of_waiting waiting)
    (by unfold Payload.decode; split <;> simp_all)
    (by
      intro j decoded
      obtain ⟨k, found, rfl⟩ := Option.map_eq_some_iff.mp decoded
      obtain ⟨_, rfl⟩ := decode_eq_some.mp found
      exact ⟨rfl, rfl⟩)
  refine .inr ⟨waiting, .single (.ofUnleased found ended identity
    (fun running => absurd running notRunning) ?_ ?_) recomputed (recomputeRunTx_elsewhere runRow)⟩
  · rw [runningDelta, if_neg notRunning]
  · rw [queuedDelta, if_neg notRunning]

/-! ## Cancellation -/

theorem cancelJobTx_inv (ran : cancelJobTx now reason db jobID = .ok db') :
    (db' = db ∧ ∀ row, db.jobs.get? jobID = some row → row.status.terminal = true) ∨
      ∃ row row', Ends jobID .cancelled row row' db db' := by
  unfold cancelJobTx at ran
  split at ran
  · rename_i absent
    exact .inl ⟨(pure_ok_iff.mp ran).symm, fun row found => by simp [absent] at found⟩
  rename_i row found
  split at ran
  · rename_i isOver
    refine .inl ⟨(pure_ok_iff.mp ran).symm, fun other same => ?_⟩
    rw [found] at same
    exact Option.some.inj same ▸ isOver
  rename_i unsettled
  rw [Bool.not_eq_true] at unsettled
  obtain ⟨j, decoded, ran⟩ := bind_ok_iff.mp ran
  rw [orThrow_ok_iff] at decoded
  obtain ⟨decodes, rfl⟩ := decode_eq_some.mp decoded
  have ended : row.Ended (row.leave row.payload.job .cancelled reason (some now)) .cancelled :=
    .leave decodes rfl rfl unsettled (.inl rfl)
  refine .inr ⟨row, row.leave row.payload.job .cancelled reason (some now), ?_⟩
  dsimp only at ran
  split at ran
  · rename_i running
    rw [adjustQuotaTx_releaseResourcesTx] at ran
    split at ran <;> rename_i leased
    · cases pure_ok_iff.mp ran
      exact .ofLease found ended (fun _ => rfl) running (if_neg (by decide)).symm (fun _ => rfl)
        (releaseRunnerSlotTx_frees _ _ _)
    · cases pure_ok_iff.mp ran
      exact .ofUnleased found ended (fun _ => rfl) (fun _ => not_not.mp leased)
        (by rw [runningDelta, if_pos running]) (by rw [queuedDelta, if_pos running]; rfl)
  · rename_i notRunning
    rw [adjustQuotaTx_releaseResourcesTx] at ran
    cases pure_ok_iff.mp ran
    exact .ofUnleased found ended (fun _ => rfl) (fun running => absurd running notRunning)
      (by rw [runningDelta, if_neg notRunning]) (by rw [queuedDelta, if_neg notRunning])

def DB.Open (db : DB) (id : JobID) : Prop :=
  ∃ row, db.jobs.get? id = some row ∧ row.status.terminal = false

/-- A loop that cancels the jobs of `ids` that are still open; `ended` are those. -/
inductive Cancels : List JobID → List JobID → DB → DB → Prop where
  | nil {db : DB} : Cancels [] [] db db
  | skip {id : JobID} {ids ended : List JobID} {db db' : DB} :
    ¬db.Open id → Cancels ids ended db db' → Cancels (id :: ids) ended db db'
  | cancel {id : JobID} {ids ended : List JobID} {row row' : JobRow} {db mid db' : DB} :
    Ends id .cancelled row row' db mid → Cancels ids ended mid db' →
      Cancels (id :: ids) (id :: ended) db db'

theorem Ends.get? (ends : Ends id outcome row row' db db') (other : JobID) :
    db'.jobs.get? other = if other = id then some row' else db.jobs.get? other := by
  rw [ends.jobs, get?_put]

theorem Ends.open_iff
    (ends : Ends id outcome row row' db db') (isOver : outcome.terminal = true) (other : JobID) :
    db'.Open other ↔ db.Open other ∧ other ≠ id := by
  unfold DB.Open
  rw [ends.get?]
  split <;> rename_i same
  · simp [same, ends.ended.status, isOver]
  · simp [same]

theorem Cancels.endsAll (loop : Cancels ids ended db db') :
    EndsAll (ended.map (·, .cancelled)) db db' := by
  induction loop with
  | nil => exact .nil (.refl _)
  | skip _ _ ih => exact ih
  | cancel ends _ ih => exact .cons ends ih

/-- The loop ends exactly the open jobs among `ids`, each once. -/
theorem Cancels.mem_iff (loop : Cancels ids ended db db')
    (id : JobID) : id ∈ ended ↔ id ∈ ids ∧ db.Open id := by
  induction loop with
  | nil => simp
  | skip isOver _ ih =>
    rw [ih, mem_cons]
    refine ⟨fun ⟨member, opened⟩ => ⟨.inr member, opened⟩, ?_⟩
    rintro ⟨rfl | member, opened⟩
    · exact absurd opened isOver
    · exact ⟨member, opened⟩
  | @cancel head _ _ row _ _ _ _ ends _ ih =>
    rw [mem_cons, mem_cons, ih, ends.open_iff rfl]
    have opened := ends.ended.unsettled
    by_cases same : id = head
    · subst same
      exact ⟨fun _ => ⟨.inl rfl, row, ends.found, opened⟩, fun _ => .inl rfl⟩
    · simp [same]

theorem Cancels.nodup (loop : Cancels ids ended db db') : ended.Nodup := by
  induction loop with
  | nil => exact nodup_nil
  | skip _ _ ih => exact ih
  | cancel ends rest ih =>
    refine nodup_cons.mpr ⟨fun member => ?_, ih⟩
    exact ((ends.open_iff rfl _).mp ((rest.mem_iff _).mp member).2).2 rfl

theorem cancelJobs_cancels (ran : ids.foldlM (cancelJobTx now reason) db = .ok db') :
    ∃ ended, Cancels ids ended db db' := by
  induction ran using foldlM_ok_induction with
  | nil => exact ⟨[], .nil⟩
  | cons head rest db mid first tail ih =>
    obtain ⟨ended, loop⟩ := ih
    rcases cancelJobTx_inv first with ⟨rfl, isOver⟩ | ⟨row, row', ends⟩
    · refine ⟨ended, .skip ?_ loop⟩
      rintro ⟨row, found, opened⟩
      exact absurd (isOver row found) (by simp [opened])
    · exact ⟨head :: ended, .cancel ends loop⟩

/-- An operator's cancellation ends the open jobs of the run and re-evaluates
nothing. -/
theorem cancelRunJobs_inv (ran : cancelRunJobs c runID reason db = .ok db') :
    ∃ ended left, Cancels (db.openJobsOf runID) ended db left ∧ left.Elsewhere db' := by
  simp only [cancelRunJobs, bind_ok_iff] at ran
  obtain ⟨_, -, _, -, left, jobs, runRow⟩ := ran
  obtain ⟨ended, loop⟩ := cancelJobs_cancels jobs
  exact ⟨ended, left, loop, cancelRunRowTx_elsewhere runRow⟩

/-! ## Supersession -/

theorem adjustQuotaTx_releaseRunnerSlotTx (repoID : String) (dr dq : Int) (runnerID : RunnerID)
    (id : JobID) (db : DB) :
    adjustQuotaTx repoID dr dq (releaseRunnerSlotTx runnerID id db) =
      releaseRunnerSlotTx runnerID id (adjustQuotaTx repoID dr dq db) := by
  simp only [adjustQuotaTx, releaseRunnerSlotTx]

theorem supersedeRow_ends
    (found : db.jobs.get? id = some row) (unsettled : row.status.terminal = false)
    (decodes : row.payload.decodes = true) : Ends id .cancelled row
      (row.leave row.payload.job .cancelled ("superseded by run " ++ newRunID) (some now)) db
      (supersedeRow now newRunID id row row.payload.job db) := by
  have ended : row.Ended (row.leave row.payload.job .cancelled ("superseded by run " ++ newRunID)
      (some now)) .cancelled := .leave decodes rfl rfl unsettled (.inl rfl)
  unfold supersedeRow
  dsimp only
  generalize runner : (if row.leaseRunnerID = "" then row.payload.job.leaseRunnerID
    else row.leaseRunnerID) = runnerID
  have holder : row.leaseRunnerID ≠ "" → runnerID = row.leaseRunnerID := by
    intro leased
    rw [← runner, if_neg leased]
  by_cases running : row.status = .running
  · rw [if_pos running]
    split <;> rename_i leased
    · rw [adjustQuotaTx_releaseRunnerSlotTx, adjustQuotaTx_releaseResourcesTx]
      exact .ofLease found ended (fun _ => rfl) running (if_neg (by decide)).symm holder
        (releaseRunnerSlotTx_frees _ _ _)
    · rw [adjustQuotaTx_releaseResourcesTx]
      refine .ofUnleased found ended (fun _ => rfl) (fun _ => ?_)
        (by rw [runningDelta, if_pos running]) (by rw [queuedDelta, if_pos running]; rfl)
      by_contra held
      exact leased ⟨running, holder held ▸ held⟩
  · rw [if_neg running, if_neg (fun both => running both.1), adjustQuotaTx_releaseResourcesTx]
    exact .ofUnleased found ended (fun _ => rfl) (fun holds => absurd holds running)
      (by rw [runningDelta, if_neg running]) (by rw [queuedDelta, if_neg running])

theorem supersedeJob_inv
    (ran : supersedeJob now newRunID acc id = .ok acc') : (acc' = acc ∧ ¬acc.db.Open id) ∨
      ∃ row row', Ends id .cancelled row row' acc.db acc'.db ∧
        acc'.cancelled = acc.cancelled ++ [id] := by
  obtain ⟨_, _, ran⟩ := bind_ok_iff.mp ran
  split at ran
  · rename_i absent
    refine .inl ⟨(pure_ok_iff.mp ran).symm, ?_⟩
    rintro ⟨row, found, _⟩
    simp [absent] at found
  rename_i row found
  split at ran
  · rename_i isOver
    refine .inl ⟨(pure_ok_iff.mp ran).symm, ?_⟩
    rintro ⟨other, same, opened⟩
    cases found.symm.trans same
    simp [isOver] at opened
  rename_i unsettled
  rw [Bool.not_eq_true] at unsettled
  obtain ⟨j, decoded, ran⟩ := bind_ok_iff.mp ran
  rw [orThrow_ok_iff] at decoded
  obtain ⟨decodes, rfl⟩ := decode_eq_some.mp decoded
  cases pure_ok_iff.mp ran
  exact .inr ⟨row, _, supersedeRow_ends found unsettled decodes, rfl⟩

theorem supersedeJobs_cancels (ran : ids.foldlM (supersedeJob now newRunID) acc = .ok acc') :
    ∃ ended, Cancels ids ended acc.db acc'.db ∧ acc'.cancelled = acc.cancelled ++ ended := by
  induction ran using foldlM_ok_induction with
  | nil => exact ⟨[], .nil, by simp⟩
  | cons head rest acc mid first tail ih =>
    obtain ⟨ended, loop, collected⟩ := ih
    rcases supersedeJob_inv first with ⟨rfl, isOver⟩ | ⟨row, row', ends, noted⟩
    · exact ⟨ended, .skip isOver loop, collected⟩
    · exact ⟨head :: ended, .cancel ends loop, by rw [collected, noted]; simp⟩

/-- Supersession cancels the open jobs it was given and re-evaluates their
dependents. -/
theorem cancelSupersededTx_inv (ran : cancelSupersededTx now ids newRunID db = .ok db') :
    ∃ ended left resolved, Cancels ids ended db left ∧
      ended.foldlM (fun db id => recomputeDependentsTx now id db) left = .ok resolved ∧
      resolved.Elsewhere db' := by
  simp only [cancelSupersededTx, bind_ok_iff] at ran
  obtain ⟨acc, jobs, resolved, recomputed, runs⟩ := ran
  obtain ⟨ended, loop, collected⟩ := supersedeJobs_cancels jobs
  rw [collected, nil_append] at recomputed
  exact ⟨ended, acc.db, resolved, loop, recomputed,
    foldlM_rel (r := DB.Elsewhere) .refl .trans _
      (fun _ _ _ _ each => cancelRunRowTx_elsewhere each) runs⟩

/-! ## Revocation -/

/-- What `RevokeRunnerLeases` makes of a leased job. -/
def DB.revokedStatus (db : DB) (id : JobID) : Status :=
  (db.jobs.get? id).elim .cancelled (·.lostStatus .cancelled)

theorem revokeLease_ends (found : db.jobs.get? id = some row)
    (running : row.status = .running) (holder : row.leaseRunnerID = runnerID)
    (merged : row.job id = some j) : ∃ row', Ends id (row.lostStatus .cancelled) row row' db
      (releaseRunnerSlotTx runnerID id (revokeLease now reason db j)) := by
  obtain ⟨decodes, rfl, _, counted, _, same, approval⟩ := JobRow.merged_of_job merged
  have unsettled : row.status.terminal = false := by rw [running]; rfl
  have identity : row.payload.decodes = true → repoIDForJob j = repoIDForJob row.payload.job :=
    fun _ => repoIDForJob_congr same
  unfold revokeLease
  dsimp only
  rw [modify_of_get? found, adjustQuotaTx_releaseResourcesTx, JobRow.lostStatus, ← counted,
    ← effectiveMaxInfraRetries_congr same]
  by_cases retry : j.attempts ≤ effectiveMaxInfraRetries j
  · rw [if_pos (decide_eq_true retry), if_pos (decide_eq_true retry), if_pos retry]
    exact ⟨_, .ofLease found (.leave decodes same approval unsettled (.inr ⟨rfl, running⟩)) identity running
      (if_pos rfl).symm (fun _ => holder.symm) (releaseRunnerSlotTx_frees _ _ _)⟩
  · have spent : ¬decide (j.attempts ≤ effectiveMaxInfraRetries j) = true := by simpa using retry
    rw [if_neg spent, if_neg spent, if_neg retry]
    exact ⟨_, .ofLease found (.leave decodes same approval unsettled (.inl rfl)) identity running
      (if_neg (by decide)).symm (fun _ => holder.symm) (releaseRunnerSlotTx_frees _ _ _)⟩

theorem scanJob_ok (ran : db.scanJob id = .ok j) :
    ∃ row, db.jobs.get? id = some row ∧ row.job id = some j := by
  rw [DB.scanJob, orThrow_ok_iff, Option.bind_eq_some_iff] at ran
  exact ran

/-- The loop over the leases, each as it was when the loop began. -/
theorem revokeLeases_endsAll (now : Time) (reason : String) {start : DB}
    (scanned : List.Forall₂ (start.scanJob · = .ok ·) ids leased)
    (nodup : ids.Nodup) (held : ∀ id ∈ ids, ∀ row, start.jobs.get? id = some row →
      row.status = .running ∧ row.leaseRunnerID = runnerID) (current :
    ∀ id ∈ ids, db.jobs.get? id = start.jobs.get? id) :
    EndsAll (ids.map fun id => (id, start.revokedStatus id)) db
      (leased.foldl (fun db j => releaseRunnerSlotTx runnerID j.id (revokeLease now reason db j)) db) := by
  induction scanned generalizing db with
  | nil => exact .nil (.refl db)
  | @cons id j ids leased first _ ih =>
    obtain ⟨row, found, merged⟩ := scanJob_ok first
    obtain ⟨running, holder⟩ := held id (by simp) row found
    have same : j.id = id := (JobRow.merged_of_job merged).id
    obtain ⟨row', ends⟩ := revokeLease_ends (current id (by simp) |>.trans found) running holder merged
    have outcome : start.revokedStatus id = row.lostStatus .cancelled := by
      rw [DB.revokedStatus, found, Option.elim_some]
    rw [foldl_cons, map_cons, same, outcome]
    obtain ⟨fresh, nodup⟩ := nodup_cons.mp nodup
    refine .cons ends (ih nodup (fun id member => held id (mem_cons_of_mem _ member)) ?_)
    intro other member
    have differ : other ≠ id := fun equal => fresh (equal ▸ member)
    rw [ends.get?, if_neg differ]
    exact current other (mem_cons_of_mem _ member)

theorem mem_leasedTo :
    id ∈ db.leasedTo runnerID ↔ ∃ row, db.jobs.get? id = some row ∧ row.status = .running ∧
      row.leaseRunnerID = runnerID := by
  simp [DB.leasedTo, mem_select]

/-- Revocation ends every lease of the runner and re-evaluates the dependents. -/
theorem revokeRunnerLeases_inv (ran : revokeRunnerLeases c runnerID reason db = .ok db') :
    Settlement c.now ((db.leasedTo runnerID).map fun id => (id, db.revokedStatus id))
      (db.leasedTo runnerID) db db' := by
  simp only [revokeRunnerLeases, revokeRunnerLeasesTx, bind_ok_iff] at ran
  obtain ⟨_, -, _, -, leased, scan, ran⟩ := ran
  have scanned := mapM_ok scan
  split at ran
  · rename_i empty
    rw [isEmpty_iff.mp empty, forall₂_nil_right_iff] at scanned
    rw [scanned, ← pure_ok_iff.mp ran]
    exact ⟨db, db, .nil (.refl db), rfl, .refl db⟩
  obtain ⟨resolved, recomputed, runs⟩ := bind_ok_iff.mp ran
  have names : leased.map (·.id) = db.leasedTo runnerID := by
    refine forall₂_eq_eq_eq ▸ forall₂_map_left_iff.mpr (scanned.flip.imp ?_)
    intro j id read
    obtain ⟨row, _, merged⟩ := scanJob_ok read
    exact (JobRow.merged_of_job merged).id
  have slots : ∀ db : DB, (leased.map (·.id)).foldl (fun db id => releaseRunnerSlotTx runnerID id db)
      (leased.foldl (revokeLease c.now reason) db) =
      leased.foldl (fun db j => releaseRunnerSlotTx runnerID j.id (revokeLease c.now reason db j)) db := by
    intro db
    rw [foldl_map]
    exact foldl_foldl_commute (fun db j k => by
      simp only [revokeLease, releaseRunnerSlotTx, releaseResourcesTx, adjustQuotaTx]) leased db
  have left := revokeLeases_endsAll c.now reason scanned
    (nodup_select _ _) (fun id member row found => by
      obtain ⟨other, same, running, holder⟩ := mem_leasedTo.mp member
      cases same.symm.trans found
      exact ⟨running, holder⟩) (fun _ _ => rfl)
  rw [slots, names] at recomputed
  exact ⟨_, resolved, left.elsewhere (countRunnerFailures_elsewhere _ _ _), recomputed,
    foldlM_rel (r := DB.Elsewhere) .refl .trans _
      (fun _ _ _ _ each => recomputeRunTx_elsewhere each) runs⟩

end KiwiCI.Storage
