import KiwiCI.Storage.Schema

/-!
The lease claim and the scheduling predicates every lease path shares:
`store.go` (`LeaseClaim` and its keys), `lease_predicate.go` and the live
profile precedence of `postgres_runner_profile_links.go`.
-/

namespace KiwiCI.Storage

/-- `LeaseClaim`.  Concurrency limits count whole jobs here, where the source
has `float64` quotas. -/
structure LeaseClaim where
  jobID : JobID
  runnerID : RunnerID
  tokenHash : List UInt8 := []
  generation : Int
  expiresAt : Time := 0
  ttl : Int := 0
  runtime : String := ""
  canonRepoID : String := ""
  repoFullName : String := ""
  requiredLabels : List String := []
  placementRegions : List String := []
  environment : String := ""
  environmentConcurrency : Int := 0
  concurrencyGroup : String := ""
  concurrencyLimit : Int := 0
  concurrencyScope : String := ""
  repoConcurrency : Int := 0
  teamConcurrency : Int := 0
  executionSemantics : String := ""
  request : ResourceCapacity := {}
  serviceEnvelopeRequest : ResourceCapacity := {}
  ignoreServiceEnvelope : Bool := false
  quarantined : Bool := false
  deriving DecidableEq, Repr

def LeaseClaim.requestedResources (c : LeaseClaim) : ResourceCapacity :=
  if c.ignoreServiceEnvelope then c.request
  else addResourceCapacity c.request c.serviceEnvelopeRequest

/-- The separator inside a concurrency key. -/
def unitSeparator : String := "\x1f"

def LeaseClaim.envKey (c : LeaseClaim) : String :=
  if c.canonRepoID = "" || c.environment = "" then ""
  else c.canonRepoID ++ unitSeparator ++ c.environment

/-- The key of a concurrency group in its namespace: `LeaseClaim.GroupKey`, and
the same rule inside `AcquireLeaseAtomic` for the effective group name. -/
def LeaseClaim.groupKeyOf (c : LeaseClaim) (group : String) : String :=
  if group = "" then ""
  else if c.concurrencyScope = "global" then "global" ++ unitSeparator ++ group
  else if c.canonRepoID = "" then "noid" ++ unitSeparator ++ group
  else c.canonRepoID ++ unitSeparator ++ group

theorem append_separator_ne_empty (first second : String) :
    first ++ unitSeparator ++ second ≠ "" := by
  intro empty
  have size := congrArg String.utf8ByteSize empty
  rw [String.utf8ByteSize_append, String.utf8ByteSize_append] at size
  have one : unitSeparator.utf8ByteSize = 1 := by decide
  have none : "".utf8ByteSize = 0 := by decide
  omega

theorem LeaseClaim.envKey_ne_empty {c : LeaseClaim} (repo : c.canonRepoID ≠ "")
    (env : c.environment ≠ "") : c.envKey ≠ "" := by
  rw [LeaseClaim.envKey, if_neg (by simp [repo, env])]
  exact append_separator_ne_empty _ _

/-- A claim keeps a group without a repository apart instead of skipping it. -/
theorem LeaseClaim.groupKeyOf_ne_empty {c : LeaseClaim} {group : String} (named : group ≠ "") :
    c.groupKeyOf group ≠ "" := by
  rw [LeaseClaim.groupKeyOf, if_neg named]
  split
  · exact append_separator_ne_empty _ _
  · split <;> exact append_separator_ne_empty _ _

/-! ## Predicates -/

def labelsSatisfy (held need : List String) : Bool := need.all held.contains

def repoEntryMatchesJob : Auth.RepoGrant → Auth.RepoGrant → Bool
  | .identity entryHost entryName, .identity host name => entryHost = host && entryName = name
  | .identity _ _, .alias _ => false
  | .alias entryName, .identity _ name => entryName = name
  | .alias entryName, .alias name => entryName = name

/-- `RepoAllowed`; an entry that does not parse admits nothing. -/
def repoAllowed (allowed : List String) (j : Job) : Bool :=
  if allowed = [] then true
  else
    match Auth.parseStoredRepoID (repoIDForJob j) with
    | none => false
    | some jobGrant =>
      allowed.any fun a =>
        match Auth.parseStoredRepoID a with
        | some entry => repoEntryMatchesJob entry jobGrant
        | none => false

def intersectCapabilities (ceiling claimed : List String) : List String :=
  ceiling.filter claimed.contains

def runtimeAllowed (capabilities : List String) (enforced : Bool) (runtime : String) : Bool :=
  let runtime := if runtime = "" then "native" else runtime
  if !enforced && capabilities = [] then true else capabilities.contains runtime

def policyRuntimeAllowed (enforced : Bool) (runtimes : List String) (jobRuntime : String) : Bool :=
  if !enforced then true
  else if runtimes = [] then false
  else if jobRuntime = "" then true
  else runtimes.contains jobRuntime

/-- `LeasePolicyRuntimes`: the granted runtimes and whether they are enforced. -/
def leasePolicyRuntimes (j : Job) : List String × Bool :=
  match j.compiledJobPayload with
  | none => ([], false)
  | some p =>
    match p.effectivePolicy with
    | .absent | .corrupt => ([], 1 ≤ p.schemaVersion)
    | .caps caps =>
      if !caps.enforced then ([], false)
      else
        ((if caps.nativeExecution then ["native"] else []) ++
          (if caps.container then ["container"] else []) ++
          (if caps.tart then ["tart"] else []), true)

def jobRuntime (j : Job) : String :=
  match j.compiledJobPayload.bind (·.effectiveJob) with
  | none => ""
  | some cj => if ["container", "tart", "native"].contains cj.runtime then cj.runtime else ""

/-- The runner-side half of both lease predicates: quarantine, interpreter,
admission state, capacity, labels, repository, runtime and region. -/
def runnerAdmits (r : Runner) (quarantined : Bool) (semantics : String) (labels : List String)
    (repository : Job) (runtime : String) (regions : List String) : Bool :=
  !quarantined && supportsExecutionSemantics r.supportedExecutionSemantics semantics &&
    !(r.disabled || r.draining) && !(r.capacity ≤ 0 || r.capacity ≤ r.activeJobs.length) &&
    labelsSatisfy r.labels labels && repoAllowed r.allowedRepositories repository &&
    runtimeAllowed r.capabilities r.capabilitiesEnforced runtime &&
    (regions = [] || regions.contains r.region)

def claimRepoIdentity (c : LeaseClaim) : Job :=
  { policyRepoID := c.canonRepoID, repoFullName := c.repoFullName }

def claimAllowsRunner (r : Runner) (c : LeaseClaim) : Bool :=
  runnerAdmits r c.quarantined c.executionSemantics c.requiredLabels (claimRepoIdentity c)
    c.runtime c.placementRegions

structure LeasePredicate where
  runner : Runner
  job : Job
  envRunning : Nat
  groupRunning : Nat
  policyEnforced : Bool
  policyRuntimes : List String

/-- The environment clause of `LeasePredicate.Allows`. -/
def LeasePredicate.envAdmits (p : LeasePredicate) : Bool :=
  !(p.job.environment ≠ "" && 0 < p.job.environmentConcurrency &&
    p.job.environmentConcurrency ≤ p.envRunning)

/-- The concurrency group clause of `LeasePredicate.Allows`. -/
def LeasePredicate.groupAdmits (p : LeasePredicate) : Bool :=
  !(p.job.concurrencyGroup ≠ "" && 0 < p.job.concurrencyLimit &&
    p.job.concurrencyLimit ≤ p.groupRunning)

/-- A limit clause holds when there is no limit or the count is below it. -/
theorem limitClause_iff (name : String) (limit : Int) (running : Nat) :
    (!(name ≠ "" && 0 < limit && limit ≤ running)) = true ↔
      (name ≠ "" → 0 < limit → (running : Int) < limit) := by
  simp only [Bool.not_eq_true', Bool.and_eq_false_iff, decide_eq_false_iff_not, not_le, not_not,
    or_assoc, ← imp_iff_not_or, ne_eq]
  exact or_iff_not_imp_left

/-- The clauses of `LeasePredicate.Allows` that read no running count. -/
def LeasePredicate.runnerAdmits (p : LeasePredicate) : Bool :=
  let runtime := jobRuntime p.job
  Storage.runnerAdmits p.runner p.job.repoIdentityQuarantined p.job.executionSemantics
      p.job.requiredLabels p.job runtime p.job.placementRegions &&
    policyRuntimeAllowed p.policyEnforced p.policyRuntimes runtime

def LeasePredicate.allows (p : LeasePredicate) : Bool :=
  p.runnerAdmits && p.envAdmits && p.groupAdmits

/-! ## Live profiles -/

def resolveRunnerProfile (r : Runner) (profile : Option RunnerProfile) : Runner :=
  match profile with
  | none => r
  | some p =>
    { r with
      labels := p.labels, region := p.region, allowedRepositories := p.repositories
      capabilities := intersectCapabilities p.capabilities r.reportedCapabilities
      capabilitiesEnforced := true, capacity := p.maxCapacity
      resourceCapacity := p.maxResources, jobCgroup := p.jobCgroup }

/-- `ResolveLiveProfileBinding`: the bound profile identifier, if any; a
registered certificate serial wins over the runner's own link. -/
def liveProfileBinding (db : DB) (runnerID : RunnerID) (serial : String) : Option String :=
  let byCert := if Text.trimSpace serial ≠ "" then db.certProfileLinks.get? serial else none
  byCert.or (db.runnerProfileLinks.get? runnerID)

/-- The effective scheduling view of a runner: the live profile over the
registration snapshot, or `none` when a bound profile is gone (`DeniesLease`). -/
def effectiveRunner (db : DB) (runnerID : RunnerID) (snapshot : Runner) : Option Runner :=
  match liveProfileBinding db runnerID snapshot.certSerial with
  | none => some (resolveRunnerProfile snapshot none)
  | some profileID =>
    (db.profiles.get? profileID).map fun p => resolveRunnerProfile snapshot (some p)

/-!
The three ledgers a lease is accounted in besides its job row: the quota
counters, the resource reservations and the runner's active set
(`postgres.go`, `postgres_resource_reservation.go`).

Each helper changes one table.
-/

/-! ## Quota counters -/

/-- One `UPDATE` of `adjustQuotaTx`: counters never go below zero, and a missing
row is left missing. -/
def adjustQuotaKey (runningDelta queuedDelta : Int) (quota : Table String QuotaRow)
    (key : String) : Table String QuotaRow :=
  quota.modify key fun q =>
    { running := max (q.running + runningDelta) 0, queued := max (q.queued + queuedDelta) 0 }

def adjustQuotaTx (repoID : String) (runningDelta queuedDelta : Int) (db : DB) : DB :=
  { db with quota := (quotaKeys repoID).foldl (adjustQuotaKey runningDelta queuedDelta) db.quota }

structure QuotaReservation where
  repoKey : String
  teamKey : String := ""
  jobCount : Int := 0
  repoConcurrency : Int := 0
  teamConcurrency : Int := 0
  repoQueueDepth : Int := 0
  teamQueueDepth : Int := 0
  deriving DecidableEq, Repr

/-- The counter keys a reservation charges. -/
def QuotaReservation.keys (q : QuotaReservation) : List String :=
  if q.teamKey ≠ "" && q.teamKey ≠ q.repoKey then [q.repoKey, q.teamKey] else [q.repoKey]

/-- `limitCheck` of `reserveQuotaTx`. -/
def quotaLimitCheck (reason scope : String) (runningLimit queueLimit : Int) (row : QuotaRow) :
    Except StoreError Unit := do
  require (¬(0 < runningLimit ∧ runningLimit ≤ row.running))
    (.quotaExceeded reason (scope ++ " already has " ++ toString row.running ++
      " running job(s), concurrency limit " ++ toString runningLimit))
  require (¬(0 < queueLimit ∧ queueLimit < row.queued))
    (.quotaExceeded reason (scope ++ " queue depth would reach " ++ toString row.queued ++
      ", limit " ++ toString queueLimit))

/-- One key of `reserveQuotaTx`. -/
def reserveQuotaKey (q : QuotaReservation) (quota : Table String QuotaRow) (key : String) :
    Except StoreError (Table String QuotaRow) := do
  let row := (quota.get? key).getD {}
  let row := { row with queued := row.queued + max q.jobCount 0 }
  if key = q.teamKey then
    quotaLimitCheck "TEAM_QUOTA" "team" q.teamConcurrency q.teamQueueDepth row
  else quotaLimitCheck "REPO_QUOTA" "repository" q.repoConcurrency q.repoQueueDepth row
  pure (quota.put key row)

def reserveQuotaTx (q : Option QuotaReservation) (db : DB) : Except StoreError DB :=
  match q with
  | none => pure db
  | some q => do
    let quota ← q.keys.foldlM (reserveQuotaKey q) db.quota
    pure { db with quota }

/-- One key of `claimQuotaTx`: one slot moves from queued to running while the
limit admits it. -/
def claimQuotaKey (reason scope : String) (limit : Int) (quota : Table String QuotaRow)
    (key : String) : Except StoreError (Table String QuotaRow) := do
  let row := (quota.get? key).getD {}
  require (limit ≤ 0 ∨ row.running < limit)
    (.quotaExceeded reason (scope ++ " " ++ key ++ " already holds the maximum " ++
      toString limit ++ " running job(s)"))
  pure (quota.put key { running := row.running + 1, queued := max (row.queued - 1) 0 })

/-- The counters `claimQuotaTx` writes: the first key is the repository, the
second the team. -/
def claimQuota (repoID : String) (repoLimit teamLimit : Int) (quota : Table String QuotaRow) :
    Except StoreError (Table String QuotaRow) :=
  match quotaKeys repoID with
  | [] => pure quota
  | repo :: teams => do
    let quota ← claimQuotaKey "REPO_QUOTA" "repository" repoLimit quota repo
    teams.foldlM (claimQuotaKey "TEAM_QUOTA" "team" teamLimit) quota

def claimQuotaTx (repoID : String) (repoLimit teamLimit : Int) (db : DB) : Except StoreError DB := do
  let quota ← claimQuota repoID repoLimit teamLimit db.quota
  pure { db with quota }

/-! ## Resource reservations -/

/-- `liveReservationExistsSQL`: the row still describes a live lease. -/
def DB.liveReservation (db : DB) (jobID : JobID) (r : ResourceReservation) : Bool :=
  match db.jobs.get? jobID with
  | some row =>
    row.status = .running && row.leaseRunnerID ≠ "" && row.leaseGeneration = r.generation
  | none => false

/-- One dimension of the runner's live reservations, one job left out. -/
def DB.reservedAt (db : DB) (runnerID : RunnerID) (excludeJobID : JobID) (d : Dimension) : Int :=
  db.reservations.sum fun jobID r =>
    if r.runnerID = runnerID ∧ (excludeJobID = "" ∨ jobID ≠ excludeJobID) ∧
        db.liveReservation jobID r = true
    then r.amount.at d else 0

/-- `runnerReservedResourcesExcludingTx`. -/
def DB.runnerReservedExcluding (db : DB) (runnerID : RunnerID) (excludeJobID : JobID) :
    ResourceCapacity where
  cpu := db.reservedAt runnerID excludeJobID .cpu
  memory := db.reservedAt runnerID excludeJobID .memory
  disk := db.reservedAt runnerID excludeJobID .disk
  pids := db.reservedAt runnerID excludeJobID .pids

/-- `ResourceAdmission.Allows`: no dimension with a configured capacity would
exceed it. -/
def resourceAdmissionAllows (capacity reserved requested : ResourceCapacity) : Bool :=
  [Dimension.cpu, .memory, .disk, .pids].all fun d =>
    !(0 < capacity.at d && capacity.at d < reserved.at d + requested.at d)

/-- `reserveResourcesTx`: the new row replaces whatever the job still had. -/
def reserveResourcesTx (claim : LeaseClaim) (capacity : ResourceCapacity) (db : DB) :
    Except StoreError DB := do
  let reserved := db.runnerReservedExcluding claim.runnerID claim.jobID
  let requested := claim.requestedResources
  require (resourceAdmissionAllows capacity reserved requested = true)
    (.resourceCapacity claim.runnerID requested reserved capacity)
  pure { db with
    reservations := db.reservations.put claim.jobID
      { runnerID := claim.runnerID, generation := claim.generation, amount := requested } }

def releaseResourcesTx (jobID : JobID) (db : DB) : DB :=
  { db with reservations := db.reservations.delete jobID }

@[simp] theorem DB.runnerReservedExcluding_at (db : DB) (runnerID : RunnerID) (jobID : JobID)
    (d : Dimension) :
    (db.runnerReservedExcluding runnerID jobID).at d = db.reservedAt runnerID jobID d := by
  cases d <;> rfl

theorem resourceAdmissionAllows_iff {capacity reserved requested : ResourceCapacity} :
    resourceAdmissionAllows capacity reserved requested = true ↔
      ∀ d, 0 < capacity.at d → reserved.at d + requested.at d ≤ capacity.at d := by
  have clauses : resourceAdmissionAllows capacity reserved requested = true ↔
      ∀ d ∈ [Dimension.cpu, .memory, .disk, .pids],
        0 < capacity.at d → reserved.at d + requested.at d ≤ capacity.at d := by
    simp only [resourceAdmissionAllows, List.all_eq_true, Bool.not_eq_true', Bool.and_eq_false_iff,
      decide_eq_false_iff_not, not_lt, or_iff_not_imp_left, not_le]
  rw [clauses]
  refine ⟨fun fits d => fits d (by cases d <;> simp), fun fits d _ => fits d⟩

/-! ## Runner slots -/

def removeString (active : List JobID) (jobID : JobID) : List JobID := active.filter (· ≠ jobID)

/-- The columns `releaseRunnerSlotTx` rewrites. -/
def RunnerRow.releaseSlot (r : RunnerRow) (jobID : JobID) : RunnerRow :=
  let active := removeString r.activeJobs jobID
  { r with
    activeJobs := active
    busy := 0 < r.capacity && r.capacity ≤ active.length
    currentJob := active.headD "" }

/-- `releaseRunnerSlotTx`; a missing runner is tolerated. -/
def releaseRunnerSlotTx (runnerID : RunnerID) (jobID : JobID) (db : DB) : DB :=
  { db with runners := db.runners.modify runnerID (·.releaseSlot jobID) }

/-- `UPDATE runners SET failed = failed + n`. -/
def countRunnerFailures (runnerID : RunnerID) (n : Int) (db : DB) : DB :=
  { db with runners := db.runners.modify runnerID fun r => { r with failed := r.failed + n } }

/-- The row `completeRunnerTx` and `ReleaseRunnerJob` write: slot, counters and
the payload copy of them. -/
def RunnerRow.complete (r : RunnerRow) (jobID : JobID) (st : Status) : RunnerRow :=
  let freed := r.releaseSlot jobID
  let completed := if st = .success then r.completed + 1 else r.completed
  let failed := if st = .failure then r.failed + 1 else r.failed
  { freed with
    completed, failed
    payload := { r.payload with
      activeJobs := freed.activeJobs, currentJob := freed.currentJob, busy := freed.busy
      capacity := r.capacity, completed, failed } }

/-- `completeRunnerTx`; a missing runner is tolerated. -/
def completeRunnerTx (runnerID : RunnerID) (jobID : JobID) (st : Status) (db : DB) :
    Except StoreError DB :=
  match db.runners.get? runnerID with
  | none => pure db
  | some r => do
    require (r.decodes = true) (.decode "runner payload")
    pure { db with runners := db.runners.put runnerID (r.complete jobID st) }

/-!
Approving, claiming and renewing: `ApproveJob`, `AcquireLeaseAtomic`,
`HeartbeatLease` and `HeartbeatLeaseWithTTL` of `postgres.go`.

A claim is cut where its checks under the job row and the advisory locks end
(`acquireCheck`, which only reads) and its writes begin (`acquireCommit`): two
claims may interleave there unless one of their locks makes them wait.
-/

/-! ## Approval -/

/-- The job value `ApproveJob` writes: approved, and queued if it was waiting. -/
def approvedJob (j : Job) (actor : String) : Job :=
  if j.status = .waitingApproval then
    { j with approvedBy := actor, status := .queued, waitingSince := none }
  else { j with approvedBy := actor }

def approveJob (c : Call) (jobID : JobID) (actor : String) (db : DB) : Except StoreError DB := do
  validateID jobID
  beginSchemaCompatibleTx c db
  let row ← orThrow (db.jobs.get? jobID) .notFound
  let j ← orThrow (row.job jobID) (.decode "job payload")
  require (j.approvalRequired = true) .approvalNotRequired
  require (j.status.terminal = false) .jobTerminal
  if j.approvedBy ≠ "" ∧ j.status ≠ .waitingApproval then pure db
  else
    let j := approvedJob j actor
    pure { db with
      jobs := db.jobs.put jobID { row with status := j.status, payload := .encode j } }

/-! ## Claiming -/

def validateClaimText (field value : String) : Except StoreError Unit :=
  require (value.toList.contains '\x00' = false)
    (.failed ("storage: claim " ++ field ++ " contains a NUL byte"))

/-- The text checks of `AcquireLeaseAtomic`, in order. -/
def validateClaimTexts (claim : LeaseClaim) : Except StoreError Unit := do
  validateClaimText "runtime" claim.runtime
  validateClaimText "canonical repository id" claim.canonRepoID
  validateClaimText "repository full name" claim.repoFullName
  validateClaimText "environment" claim.environment
  claim.requiredLabels.forM (validateClaimText "required label")
  claim.placementRegions.forM (validateClaimText "placement region")

/-- `LeaseParentRunEligibleSQL`: only a run row that is there can deny. -/
def DB.parentRunEligible (db : DB) (runID : RunID) : Bool :=
  match db.runs.get? runID with
  | some run => !run.status.terminal && !run.payload.repoIdentityQuarantined
  | none => true

/-- The other running jobs of one repository's environment, as the claim counts
them in SQL. -/
def DB.envRunning (db : DB) (repoID environment : String) (exclude : JobID) : Nat :=
  db.jobs.count fun id row =>
    row.status = .running && jobRepoIDSQL row.payload.job = repoID &&
      row.payload.job.environment = environment && id ≠ exclude

/-- The other running jobs of a concurrency group, of one repository unless the
scope is global. -/
def DB.groupRunning (db : DB) (repoID : Option String) (group : String) (exclude : JobID) : Nat :=
  db.jobs.count fun id row =>
    row.status = .running && row.payload.job.concurrencyGroup = group && id ≠ exclude &&
      repoID.all fun repo => jobRepoIDSQL row.payload.job = repo

/-- The repository a claim's group count is scoped to. -/
def LeaseClaim.groupScope (claim : LeaseClaim) : Option String :=
  if claim.concurrencyScope = "global" then none else some claim.canonRepoID

/-- The group and limit a claim reserves: its own, else the job row's. -/
def LeaseClaim.effectiveGroup (claim : LeaseClaim) (row : JobRow) : String × Int :=
  if claim.concurrencyGroup = "" then
    (row.payload.job.concurrencyGroup, row.payload.job.concurrencyLimit)
  else (claim.concurrencyGroup, claim.concurrencyLimit)

/-- Step 2 of `AcquireLeaseAtomic`: the environment has a free slot. -/
def LeaseClaim.envFree (claim : LeaseClaim) (db : DB) : Prop :=
  claim.envKey ≠ "" → 0 < claim.environmentConcurrency →
    (db.envRunning claim.canonRepoID claim.environment claim.jobID : Int) <
      claim.environmentConcurrency

instance (claim : LeaseClaim) (db : DB) : Decidable (claim.envFree db) := by
  unfold LeaseClaim.envFree; infer_instance

/-- Step 2b of `AcquireLeaseAtomic`: the concurrency group has a free slot. -/
def LeaseClaim.groupFree (claim : LeaseClaim) (row : JobRow) (db : DB) : Prop :=
  let (group, limit) := claim.effectiveGroup row
  claim.groupKeyOf group ≠ "" → 0 < limit →
    (db.groupRunning claim.groupScope group claim.jobID : Int) < limit

instance (claim : LeaseClaim) (row : JobRow) (db : DB) : Decidable (claim.groupFree row db) := by
  unfold LeaseClaim.groupFree; infer_instance

/-- `AcquireLeaseAtomic` up to its advisory-locked counts (steps 1 to 2b). -/
def acquireCheck (c : Call) (claim : LeaseClaim) (db : DB) : Except StoreError Unit := do
  validateID claim.jobID
  require (claim.runnerID ≠ "") (.failed "storage: empty runner id")
  beginSchemaCompatibleTx c db
  validateClaimTexts claim
  let row ← orThrow (db.jobs.get? claim.jobID) .leaseConflict
  require (row.status = .queued) .leaseConflict
  require (row.payload.job.repoIdentityQuarantined = false ∧ claim.quarantined = false ∧
    db.parentRunEligible row.runID = true) .noCapacity
  require (claim.envFree db) .envConcurrency
  require (claim.groupFree row db) .groupConcurrency

/-- The registration snapshot under the runner's live columns. -/
def RunnerRow.snapshot (r : RunnerRow) : Runner :=
  { r.payload with
    capacity := r.capacity
    disabled := r.disabled || r.payload.disabled
    draining := r.draining || r.payload.draining
    activeJobs := r.activeJobs }

/-- `acquireLeaseAtomicClaimSQL` and the payload write behind it. -/
def JobRow.claim (row : JobRow) (now : Time) (claim : LeaseClaim) (interpreter : String) : JobRow :=
  { row with
    status := .running
    attempts := row.attempts + 1
    startedAt := row.startedAt.or (some now)
    leaseRunnerID := claim.runnerID
    leaseTokenHash := claim.tokenHash
    leaseGeneration := claim.generation
    leaseExpiresAt := some (if 0 < claim.ttl then now + claim.ttl else claim.expiresAt)
    payload := { row.payload with
      job := { row.payload.job with leaseInterpreter := interpreter } } }

def RunnerRow.occupy (r : RunnerRow) (jobID : JobID) : RunnerRow :=
  { r with
    activeJobs := r.activeJobs ++ [jobID]
    busy := true
    currentJob := if r.currentJob = "" then jobID else r.currentJob }

/-- `AcquireLeaseAtomic` from the runner row on (steps 3 to 8). -/
def acquireCommit (c : Call) (claim : LeaseClaim) (db : DB) : Except StoreError DB := do
  let r ← orThrow (db.runners.get? claim.runnerID) .noCapacity
  require (r.snapshot.disabled = false ∧ r.snapshot.draining = false) .noCapacity
  require (r.decodes = true) (.decode "runner payload")
  let effective ← orThrow (effectiveRunner db claim.runnerID r.snapshot) .noCapacity
  require (claimAllowsRunner effective claim = true) .noCapacity
  let row ← orThrow (db.jobs.get? claim.jobID) .leaseConflict
  require (row.status = .queued ∧ row.queueDeadline.all (c.now < ·) = true ∧
    row.leaseExpiresAt.all (· < c.now) = true) .leaseConflict
  let j ← orThrow row.payload.decode (.decode "job payload")
  let interpreter := leaseInterpreterFor effective.supportedExecutionSemantics j.executionSemantics
  let db := { db with jobs := db.jobs.put claim.jobID (row.claim c.now claim interpreter) }
  let db ← reserveResourcesTx claim effective.resourceCapacity db
  let db ← claimQuotaTx (repoIDForJob j) claim.repoConcurrency claim.teamConcurrency db
  require (0 < effective.capacity ∧ r.activeJobs.length < effective.capacity) .noCapacity
  pure { db with runners := db.runners.put claim.runnerID (r.occupy claim.jobID) }

def acquireLeaseAtomic (c : Call) (claim : LeaseClaim) (db : DB) : Except StoreError DB := do
  acquireCheck c claim db
  acquireCommit c claim db

/-! ## Heartbeats -/

/-- `legacyHeartbeatHorizonSQL`, in microseconds. -/
def legacyHeartbeatHorizon : Int := 24 * 60 * 60 * 1000000

/-- The lease the heartbeat statements renew: running under this runner and
generation and not yet expired. -/
def JobRow.renewable (row : JobRow) (now : Time) (runnerID : RunnerID) (generation : Int) : Bool :=
  row.status = .running && runnerID ≠ "" && row.leaseRunnerID = runnerID &&
    row.leaseGeneration = generation && row.leaseExpiresAt.any (now < ·)

def classifyHeartbeatMiss (jobID : JobID) (generation : Int) (db : DB) : StoreError :=
  match db.jobs.get? jobID with
  | none => .notFound
  | some row => if row.leaseGeneration ≠ generation then .generationMismatch else .leaseConflict

/-- The heartbeat statement: renew up to `expiresAt` when `bounded` admits it. -/
def renewLease (c : Call) (jobID : JobID) (runnerID : RunnerID) (generation : Int)
    (expiresAt : Time) (bounded : Bool) (db : DB) : Except StoreError DB :=
  match db.jobs.get? jobID with
  | some row =>
    if row.renewable c.now runnerID generation && bounded then
      pure { db with jobs := db.jobs.put jobID { row with leaseExpiresAt := some expiresAt } }
    else throw (classifyHeartbeatMiss jobID generation db)
  | none => throw (classifyHeartbeatMiss jobID generation db)

def heartbeatLease (c : Call) (jobID : JobID) (runnerID : RunnerID) (generation : Int)
    (expiresAt : Time) (db : DB) : Except StoreError DB := do
  validateID jobID
  beginSchemaCompatibleTx c db
  renewLease c jobID runnerID generation expiresAt (expiresAt ≤ c.now + legacyHeartbeatHorizon) db

def heartbeatLeaseWithTTL (c : Call) (jobID : JobID) (runnerID : RunnerID) (generation ttl : Int)
    (db : DB) : Except StoreError DB := do
  validateID jobID
  require (0 < ttl) (.failed "storage: lease heartbeat TTL must be positive")
  beginSchemaCompatibleTx c db
  renewLease c jobID runnerID generation (c.now + ttl) true db

end KiwiCI.Storage
