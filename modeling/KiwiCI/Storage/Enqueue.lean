import KiwiCI.Storage.Dependents
import KiwiCI.Storage.Ledger

/-!
Cancelling, revoking, recovering and expiring: `CancelRunJobs`,
`ReleaseRunnerJob` (`postgres.go`), `RevokeRunnerLeases`, `RecoverExpiredLease`
and `ExpireQueuedJob` (`postgres_recovery.go`).
-/

namespace KiwiCI.Storage

/-! ## Cancellation -/

/-- `cancelJobTx` for an operator's cancellation: no dependents, no run. -/
def cancelJobTx (now : Time) (reason : String) (db : DB) (jobID : JobID) : Except StoreError DB :=
  match db.jobs.get? jobID with
  | none => pure db
  | some row =>
    if row.status.terminal then pure db
    else do
      let j ← orThrow row.payload.decode (.decode "job payload")
      let db := { db with jobs := db.jobs.put jobID (row.leave j .cancelled reason (some now)) }
      let db := releaseResourcesTx jobID db
      if row.status = .running then
        let db := adjustQuotaTx (repoIDForJob j) (-1) 0 db
        if row.leaseRunnerID ≠ "" then pure (releaseRunnerSlotTx row.leaseRunnerID jobID db)
        else pure db
      else pure (adjustQuotaTx (repoIDForJob j) 0 (-1) db)

/-- `cancelRunRowTx` for an operator, and `cancelSupersededRunTx`. -/
def cancelRunRowTx (now : Time) (db : DB) (runID : RunID) : Except StoreError DB :=
  match db.runs.get? runID with
  | none => pure db
  | some row =>
    if row.status.terminal then pure db
    else do
      require (row.decodes = true) (.decode "run payload")
      pure { db with
        runs := db.runs.put runID
          { row with
            status := .cancelled, finishedAt := some now
            payload := { row.payload with status := .cancelled, finishedAt := some now } } }

def DB.openJobsOf (db : DB) (runID : RunID) : List JobID :=
  db.jobs.select fun _ row => row.runID = runID && !row.status.terminal

def cancelRunJobs (c : Call) (runID : RunID) (reason : String) (db : DB) :
    Except StoreError DB := do
  validateID runID
  beginSchemaCompatibleTx c db
  let db ← (db.openJobsOf runID).foldlM (cancelJobTx c.now reason) db
  cancelRunRowTx c.now db runID

/-! ## Revocation -/

/-- One lease of `revokeRunnerLeasesTx`: requeued while the retry budget lasts,
else cancelled. -/
def revokeLease (now : Time) (reason : String) (db : DB) (j : Job) : DB :=
  let requeue : Bool := j.attempts ≤ effectiveMaxInfraRetries j
  let db := { db with
    jobs := db.jobs.modify j.id fun row =>
      if requeue then row.leave j .queued (reason ++ "; retrying") j.finishedAt
      else row.leave j .cancelled reason (some now) }
  let db := releaseResourcesTx j.id db
  adjustQuotaTx (repoIDForJob j) (-1) (if requeue then 1 else 0) db

def DB.leasedTo (db : DB) (runnerID : RunnerID) : List JobID :=
  db.jobs.select fun _ row => row.status = .running && row.leaseRunnerID = runnerID

/-- The decoded job of a row the caller has just selected. -/
def DB.scanJob (db : DB) (id : JobID) : Except StoreError Job :=
  orThrow ((db.jobs.get? id).bind (·.job id)) (.decode "job payload")

def revokeRunnerLeasesTx (now : Time) (runnerID : RunnerID) (reason : String) (db : DB) :
    Except StoreError DB := do
  let leased ← (db.leasedTo runnerID).mapM db.scanJob
  if leased.isEmpty then pure db
  else
    let revoked := leased.map (·.id)
    let runIDs := ((leased.map (·.runID)).filter (· ≠ "")).dedup
    let db := leased.foldl (revokeLease now reason) db
    let db := revoked.foldl (fun db id => releaseRunnerSlotTx runnerID id db) db
    let db := countRunnerFailures runnerID revoked.length db
    let db ← revoked.foldlM (fun db id => recomputeDependentsTx now id db) db
    runIDs.foldlM (fun db runID => recomputeRunTx now runID db) db

def revokeRunnerLeases (c : Call) (runnerID : RunnerID) (reason : String) (db : DB) :
    Except StoreError DB := do
  validateID runnerID
  beginSchemaCompatibleTx c db
  revokeRunnerLeasesTx c.now runnerID reason db

/-! ## Expired leases -/

def corruptLeaseRecoveryReason : String :=
  "failure: persisted job payload is corrupt; lease forcibly recovered"

/-- `repoIDForRecoveryTx`: the identity of the run, when the job's own payload
cannot be trusted. -/
def DB.repoIDForRecovery (db : DB) (runID : RunID) : String :=
  match db.runs.get? runID with
  | none => ""
  | some row =>
    let r := row.payload
    Text.trimSpace (canonicalPolicyRepoIDSQL r.policyRepoID r.repoID r.repo r.repoFullName)

/-- The runner side of a recovered lease: the slot and one failure. -/
def releaseLostRunner (runnerID : RunnerID) (jobID : JobID) (db : DB) : DB :=
  if runnerID ≠ "" then countRunnerFailures runnerID 1 (releaseRunnerSlotTx runnerID jobID db)
  else db

/-- `recoverCorruptLeaseTx`: terminal failure from the columns alone. -/
def recoverCorruptLeaseTx (now : Time) (jobID : JobID) (row : JobRow) (db : DB) :
    Except StoreError DB := do
  let repoID := db.repoIDForRecovery row.runID
  let db := { db with
    jobs := db.jobs.put jobID (row.leaveColumns .failure corruptLeaseRecoveryReason (some now)) }
  let db := releaseResourcesTx jobID db
  let db := adjustQuotaTx repoID (-1) 0 db
  let db := releaseLostRunner row.leaseRunnerID jobID db
  let db ← recomputeDependentsTx now jobID db
  recomputeRunTx now row.runID db

/-- The expired lease of a decodable job: requeued while the retry budget lasts,
else failed. -/
def recoverLeaseTx (now : Time) (jobID : JobID) (row : JobRow) (j : Job) (db : DB) :
    Except StoreError DB := do
  let requeue : Bool := j.attempts ≤ effectiveMaxInfraRetries j
  let row' := if requeue then row.leave j .queued "runner lease expired; retrying" j.finishedAt
    else row.leave j .failure "runner lease expired and infrastructure retry budget exhausted"
      (some now)
  let db := { db with jobs := db.jobs.put jobID row' }
  let db := releaseResourcesTx jobID db
  let db := adjustQuotaTx (repoIDForJob j) (-1) (if requeue then 1 else 0) db
  let db := releaseLostRunner row.leaseRunnerID jobID db
  let db ← recomputeDependentsTx now jobID db
  recomputeRunTx now row.runID db

def recoverExpiredLease (c : Call) (jobID : JobID) (expectedGeneration : Int) (db : DB) :
    Except StoreError DB := do
  validateID jobID
  beginFencedTx c db
  let row ← orThrow (db.jobs.get? jobID) .notFound
  if row.status ≠ .running ∨ row.leaseGeneration ≠ expectedGeneration then pure db
  else
    match row.payload.decode with
    | none => recoverCorruptLeaseTx c.now jobID row db
    | some j =>
      if row.leaseExpiresAt.any (c.now < ·) then pure db
      else
        recoverLeaseTx c.now jobID row
          { j with id := jobID, runID := row.runID, key := row.key, attempts := row.attempts } db

/-! ## Queue timeouts -/

def corruptQueueExpiryReason : String :=
  "queue timeout: persisted job payload is corrupt; queued reservation forcibly released"

/-- Nothing to expire: no provable deadline, one moved past what the caller
observed, or one that has not passed. -/
def deadlineHolds (now : Time) (eff : Option Time) (observed : Option Time) : Bool :=
  match eff with
  | none => true
  | some deadline =>
    now < deadline || observed.any fun seen => seen < deadline || now < seen

/-- The row of an expired job and the identity its slot is charged to; a corrupt
payload leaves by its columns alone. -/
def expireRow (now : Time) (row : JobRow) (decoded : Option Job) (db : DB) : JobRow × String :=
  match decoded with
  | some j => (row.leave j .cancelled "queue timeout" (some now), repoIDForJob j)
  | none =>
    (row.leaveColumns .cancelled corruptQueueExpiryReason (some now),
      db.repoIDForRecovery row.runID)

/-- `ExpireQueuedJob`; `observed` is the deadline the caller saw, if any. -/
def expireQueuedJob (c : Call) (jobID : JobID) (observed : Option Time) (db : DB) :
    Except StoreError DB := do
  validateID jobID
  beginFencedTx c db
  let row ← orThrow (db.jobs.get? jobID) .notFound
  if row.status.waiting = false then pure db
  else
    let decoded := row.payload.decode.map fun j =>
      { j with id := jobID, runID := row.runID, key := row.key }
    let eff := row.queueDeadline.or (decoded.bind queueDeadlineFor)
    if deadlineHolds c.now eff observed then pure db
    else
      let expired := expireRow c.now row decoded db
      let db := { db with jobs := db.jobs.put jobID expired.1 }
      let db := releaseResourcesTx jobID db
      let db := adjustQuotaTx expired.2 0 (-1) db
      let db ← recomputeDependentsTx c.now jobID db
      recomputeRunTx c.now row.runID db

/-! ## The legacy release helper -/

/-- `releaseJobQuotaTx`: the identity here leaves the policy repository out. -/
def releaseJobQuotaTx (jobID : JobID) (db : DB) : DB :=
  match db.jobs.get? jobID with
  | none => db
  | some row =>
    let j := row.payload.job
    adjustQuotaTx (repoIDFor j.repoID j.repoURL j.repoFullName) (-1)
      (if row.status = .queued then 1 else 0) db

/-- `ReleaseRunnerJob`: the committed state, and the error reported after the
commit when the runner row is gone. -/
def releaseRunnerJob (c : Call) (runnerID : RunnerID) (jobID : JobID) (status : Status) (db : DB) :
    Except StoreError (DB × Option StoreError) := do
  validateID runnerID
  validateID jobID
  beginSchemaCompatibleTx c db
  match db.runners.get? runnerID with
  | none => pure (releaseResourcesTx jobID (releaseJobQuotaTx jobID db), some .notFound)
  | some r => do
    require (r.decodes = true) (.decode "runner payload")
    let db := { db with runners := db.runners.put runnerID (r.complete jobID status) }
    pure (releaseResourcesTx jobID (releaseJobQuotaTx jobID db), none)

/-!
Enqueueing: `InsertCompiledRun` with the supersession of earlier runs, and
`InsertGeneratedFragmentTx` (`postgres.go`).

The maps of a request are association lists; the order of a list stands for the
unspecified order Go iterates the map in.
-/

structure SupersedePolicy where
  repoID : String
  concurrencyGroup : String
  deriving DecidableEq, Repr

structure WebhookClaim where
  forge : String
  deliveryID : String
  runID : RunID
  payloadDigest : String := ""
  deriving DecidableEq, Repr

structure ScheduleClaim where
  scheduleID : String
  nominal : Time
  deriving DecidableEq, Repr

structure DownstreamLaunchClaim where
  linkKey : String
  stableChildID : String
  deriving DecidableEq, Repr

structure RunIdempotencyClaim where
  repoID : String
  key : String
  digest : String
  runID : RunID
  deriving DecidableEq, Repr

structure InsertCompiledRunRequest where
  run : Run
  jobs : List (JobID × Job) := []
  deps : List (JobID × List JobID) := []
  contracts : List (JobID × List ArtifactContract) := []
  cancelPrevious : List JobID := []
  supersede : Option SupersedePolicy := none
  webhookClaim : Option WebhookClaim := none
  bodyClaim : Option WebhookClaim := none
  quota : Option QuotaReservation := none
  scheduleClaim : Option ScheduleClaim := none
  downstreamLaunch : Option DownstreamLaunchClaim := none
  idempotency : Option RunIdempotencyClaim := none
  deriving DecidableEq, Repr

/-! ## Rows -/

def insertRunTx (run : Run) (db : DB) : Except StoreError DB := do
  require (db.runs.get? run.id = none) (.constraint "runs_pkey")
  pure { db with
    runs := db.runs.put run.id
      { status := run.status, startedAt := run.startedAt, finishedAt := run.finishedAt
        createdAt := run.createdAt, payload := run } }

/-- `insertJobRowTx`, with the keys and indexes of the table. -/
def insertJobRowTx (db : DB) (j : Job) : Except StoreError DB := do
  require (db.jobs.get? j.id = none) (.constraint "jobs_pkey")
  require ((db.runs.get? j.runID).isSome) (.constraint "jobs_run_id_fkey")
  require (db.runKeyIndex = false ∨
      db.jobs.select (fun _ row => row.runID = j.runID && row.key = j.key) = [])
    (.constraint "jobs_run_key_idx")
  pure { db with jobs := db.jobs.put j.id (.write j) }

/-- One edge of `replaceDependenciesTx`. -/
def insertDependencyTx (jobID : JobID) (db : DB) (dep : JobID) : Except StoreError DB := do
  require ((jobID, dep) ∉ db.dependencies) (.constraint "job_dependencies_pkey")
  require ((db.jobs.get? jobID).isSome ∧ (db.jobs.get? dep).isSome)
    (.constraint "job_dependencies_fkey")
  pure { db with dependencies := db.dependencies ++ [(jobID, dep)] }

def replaceDependenciesTx (db : DB) (j : Job) : Except StoreError DB :=
  j.needs.foldlM (insertDependencyTx j.id)
    { db with dependencies := db.dependencies.filter fun edge => edge.1 ≠ j.id }

/-- The `artifact_contracts` key of a payload is written. -/
def insertContractsTx (db : DB) (entry : JobID × List ArtifactContract) : Except StoreError DB := do
  validateID entry.1
  pure { db with
    jobs := db.jobs.modify entry.1 fun row =>
      { row with payload := { row.payload with artifactContracts := entry.2 } } }

/-- The existing job of a run under one of the requested keys, in key order:
`CheckGeneratedJobKeyConflicts`. -/
def checkGeneratedJobKeyConflicts (runID : RunID) (jobs : List (JobID × Job)) (db : DB) :
    Except StoreError Unit :=
  let keys := (jobs.map (·.2.key)).insertionSort (· ≤ ·)
  let taken (key : String) := (db.jobs.select fun _ row => row.runID = runID && row.key = key).head?
  match keys.findSome? fun key => (taken key).map fun id => (key, id) with
  | some (key, id) => throw (.generatedJobKeyConflict runID key id)
  | none => pure ()

def effectiveNeeds (id : JobID) (j : Job) (deps : List (JobID × List JobID)) : List JobID :=
  (deps.lookup id).getD j.needs

/-! ## Claims -/

def claimDownstreamLaunchTx (claim : DownstreamLaunchClaim) (childRunID : RunID) (db : DB) :
    Except StoreError DB := do
  match Text.split '\x00' claim.linkKey with
  | [parentJobID, targetRepo, targetRef] =>
    require (parentJobID ≠ "" ∧ targetRepo ≠ "" ∧ targetRef ≠ "")
      (.failed "storage: malformed downstream launch claim")
    require (claim.stableChildID.utf8ByteSize = 64)
      (.failed "storage: malformed downstream stable child id")
    validateID parentJobID
    validateID childRunID
    let existing ← orThrow (db.downstreamLinks.get? (parentJobID, targetRepo, targetRef))
      (.failed "storage: downstream launch claim link missing")
    require (existing ≠ childRunID ∨ existing = "") .downstreamLaunched
    require (existing = "") (.failed "storage: downstream launch claim lost")
    pure { db with
      downstreamLinks := db.downstreamLinks.put (parentJobID, targetRepo, targetRef) childRunID }
  | _ => throw (.failed "storage: malformed downstream launch claim")

def claimRunIdempotencyTx (claim : RunIdempotencyClaim) (db : DB) : Except StoreError DB := do
  require (claim.repoID ≠ "" ∧ claim.key ≠ "") (.failed "storage: incomplete idempotency claim")
  validateID claim.runID
  match db.runIdempotency.get? (claim.repoID, claim.key) with
  | none =>
    pure { db with
      runIdempotency := db.runIdempotency.put (claim.repoID, claim.key) (claim.runID, claim.digest) }
  | some (runID, digest) =>
    if digest = claim.digest then throw (.idempotentReplay runID)
    else throw .idempotencyKeyConflict

def insertWebhookClaimTx (db : DB) (claim : WebhookClaim) : Except StoreError DB := do
  require (claim.forge ≠ "" ∧ claim.deliveryID ≠ "") (.failed "storage: incomplete webhook claim")
  validateID claim.runID
  require (db.webhookDeliveries.get? (claim.forge, claim.deliveryID) = none) .deliveryDuplicate
  pure { db with
    webhookDeliveries := db.webhookDeliveries.put (claim.forge, claim.deliveryID) claim.runID }

def insertScheduleClaimTx (claim : ScheduleClaim) (runID : RunID) (db : DB) :
    Except StoreError DB := do
  require (claim.scheduleID ≠ "") (.failed "storage: empty schedule id")
  match db.scheduleOccurrences.get? (claim.scheduleID, claim.nominal) with
  | none =>
    pure { db with
      scheduleOccurrences := db.scheduleOccurrences.put (claim.scheduleID, claim.nominal) runID }
  | some existing =>
    require (existing = runID) .scheduleClaimLost
    pure db

/-! ## Supersession -/

/-- The runs a policy supersedes, oldest first: same group, same identity in SQL,
not over, and not the new run. -/
def DB.supersededRuns (db : DB) (repoID group : String) (newRunID : RunID) : List RunID :=
  let conflicting := db.runs.rows.filter fun e =>
    e.1 ≠ newRunID && runRepoIDSQL e.2.payload = repoID &&
      e.2.payload.concurrencyGroup = group && !e.2.status.terminal
  (conflicting.insertionSort fun a b =>
    a.2.createdAt < b.2.createdAt ∨ (a.2.createdAt = b.2.createdAt ∧ a.1 ≤ b.1)).map Sigma.fst

def supersededJobIDsTx (p : SupersedePolicy) (newRunID : RunID) (db : DB) : List JobID :=
  let repoID := Text.trimSpace p.repoID
  let group := Text.trimSpace p.concurrencyGroup
  if repoID = "" || group = "" then []
  else (db.supersededRuns repoID group newRunID).flatMap db.openJobsOf

/-- What the loop of `cancelSupersededTx` carries: the store, the jobs it
cancelled and the runs they belong to. -/
structure Superseding where
  db : DB
  cancelled : List JobID := []
  runs : List RunID := []

/-- The writes of `cancelSupersededTx` for one open job.  The lease column names
the runner, and the payload copy stands in for rows without it. -/
def supersedeRow (now : Time) (newRunID : RunID) (id : JobID) (row : JobRow) (j : Job) (db : DB) :
    DB :=
  let runnerID := if row.leaseRunnerID = "" then j.leaseRunnerID else row.leaseRunnerID
  let db := { db with
    jobs := db.jobs.put id (row.leave j .cancelled ("superseded by run " ++ newRunID) (some now)) }
  let db := releaseResourcesTx id db
  let db := if row.status = .running ∧ runnerID ≠ "" then releaseRunnerSlotTx runnerID id db else db
  if row.status = .running then adjustQuotaTx (repoIDForJob j) (-1) 0 db
  else adjustQuotaTx (repoIDForJob j) 0 (-1) db

/-- One job of `cancelSupersededTx`. -/
def supersedeJob (now : Time) (newRunID : RunID) (acc : Superseding) (id : JobID) :
    Except StoreError Superseding := do
  validateID id
  match acc.db.jobs.get? id with
  | none => pure acc
  | some row =>
    if row.status.terminal then pure acc
    else do
      let j ← orThrow row.payload.decode (.decode "job payload")
      pure {
        db := supersedeRow now newRunID id row j acc.db
        cancelled := acc.cancelled ++ [id]
        runs := if row.runID ≠ "" then acc.runs ++ [row.runID] else acc.runs }

def cancelSupersededTx (now : Time) (jobIDs : List JobID) (newRunID : RunID) (db : DB) :
    Except StoreError DB := do
  let acc ← jobIDs.foldlM (supersedeJob now newRunID) { db }
  let db ← acc.cancelled.foldlM (fun db id => recomputeDependentsTx now id db) acc.db
  acc.runs.dedup.foldlM (cancelRunRowTx now) db

/-! ## The enqueue transaction -/

/-- Schedule and downstream enqueues come from the leader only. -/
def fenceEnqueueTx (c : Call) (req : InsertCompiledRunRequest) (db : DB) : Except StoreError Unit :=
  if req.scheduleClaim.isSome ∨ req.downstreamLaunch.isSome then fenceLeaderTx c db else pure ()

def claimBeforeRun (c : Call) (req : InsertCompiledRunRequest) (db : DB) :
    Except StoreError DB := do
  fenceEnqueueTx c req db
  let db ← whenSome req.downstreamLaunch (claimDownstreamLaunchTx · req.run.id) db
  whenSome req.idempotency claimRunIdempotencyTx db

/-- One job row of `InsertCompiledRun`. -/
def insertCompiledJob (deps : List (JobID × List JobID)) (db : DB) (entry : JobID × Job) :
    Except StoreError DB := do
  validateID entry.1
  validateID entry.2.runID
  insertJobRowTx db { entry.2 with needs := effectiveNeeds entry.1 entry.2 deps }

/-- The run, its jobs, their edges and contracts. -/
def insertCompiledRows (req : InsertCompiledRunRequest) (db : DB) : Except StoreError DB := do
  let db ← insertRunTx req.run db
  checkGeneratedJobKeyConflicts req.run.id req.jobs db
  let db ← req.jobs.foldlM (insertCompiledJob req.deps) db
  let db ← req.jobs.foldlM (fun db entry =>
    replaceDependenciesTx db { entry.2 with needs := effectiveNeeds entry.1 entry.2 req.deps }) db
  req.contracts.foldlM insertContractsTx db

/-- The jobs the request supersedes by policy, then those it names. -/
def supersedePrevious (c : Call) (req : InsertCompiledRunRequest) (db : DB) :
    Except StoreError DB := do
  let db ← whenSome req.supersede (fun p db =>
    cancelSupersededTx c.now (supersededJobIDsTx p req.run.id db) req.run.id db) db
  cancelSupersededTx c.now req.cancelPrevious req.run.id db

/-- The deliveries, the quota and the schedule occurrence the enqueue claims. -/
def claimAfterRun (req : InsertCompiledRunRequest) (db : DB) : Except StoreError DB := do
  let db ← (req.webhookClaim.toList ++ req.bodyClaim.toList).foldlM insertWebhookClaimTx db
  let db ← reserveQuotaTx req.quota db
  whenSome req.scheduleClaim (insertScheduleClaimTx · req.run.id) db

def insertCompiledRun (c : Call) (req : InsertCompiledRunRequest) (db : DB) :
    Except StoreError DB := do
  validateID req.run.id
  beginSchemaCompatibleTx c db
  let db ← claimBeforeRun c req db
  let db ← insertCompiledRows req db
  let db ← supersedePrevious c req db
  claimAfterRun req db

/-! ## Generated fragments -/

structure GeneratedFragmentRequest where
  parentJobID : JobID
  runnerID : RunnerID
  leaseGeneration : Int
  leaseTokenHash : List UInt8
  mutationSlot : String := ""
  fragmentID : String
  jobs : List (JobID × Job) := []
  contracts : List (JobID × List ArtifactContract) := []
  children : List (String × JobID) := []
  deriving DecidableEq, Repr

def generatedFragmentSlot (slot : String) : String := if slot = "" then "generated" else slot

def validateGeneratedParentLease (parent : Job) (req : GeneratedFragmentRequest) (now : Time) :
    Except StoreError Unit := do
  require (parent.status = .running) (.leaseLost "parent job is not running")
  require (parent.leaseRunnerID = req.runnerID) (.leaseLost "parent lease runner changed")
  require (parent.leaseGeneration = req.leaseGeneration)
    (.leaseLost "parent lease generation changed")
  require (parent.leaseTokenHash ≠ [] ∧ parent.leaseTokenHash = req.leaseTokenHash)
    (.leaseLost "parent lease token changed")
  require (parent.leaseExpiresAt.any (now < ·) = true) (.leaseLost "parent lease expired")

/-- `InsertGeneratedFragmentTx`; `verify` is the caller's graph check of the
parent, the size of its run and the instant.  The children reserve no quota. -/
def insertGeneratedFragmentTx (c : Call) (req : GeneratedFragmentRequest)
    (verify : Job → Nat → Time → Except StoreError Unit) (db : DB) : Except StoreError DB := do
  validateID req.parentJobID
  require (req.fragmentID ≠ "") (.failed "storage: empty fragment id")
  beginSchemaCompatibleTx c db
  let row ← orThrow (db.jobs.get? req.parentJobID) .notFound
  let parent ← orThrow (row.job req.parentJobID) (.decode "job payload")
  validateGeneratedParentLease parent req c.now
  let slot := generatedFragmentSlot req.mutationSlot
  match db.generatedFragments.get? (req.parentJobID, slot) with
  | some stored => do
    require (stored.fragmentID = req.fragmentID)
      (.generatedMutationConflict req.parentJobID slot stored.fragmentID req.fragmentID)
    pure db
  | none => do
    checkGeneratedJobKeyConflicts parent.runID req.jobs db
    verify parent (db.jobs.count fun _ row => row.runID = parent.runID) c.now
    let db ← req.jobs.foldlM (fun db entry => do
      validateID entry.2.id
      insertJobRowTx db entry.2) db
    let db ← req.jobs.foldlM (fun db entry => replaceDependenciesTx db entry.2) db
    let db ← req.contracts.foldlM insertContractsTx db
    pure { db with
      generatedFragments := db.generatedFragments.put (req.parentJobID, slot)
        { leaseGeneration := req.leaseGeneration, fragmentID := req.fragmentID
          children := req.children } }

end KiwiCI.Storage
