import KiwiCI.Storage.Dependents
import KiwiCI.Storage.Ledger

/-!
The scheduler's walk over queued candidates: `consider` and `eligible` of
`internal/scheduler/scheduler.go`.

A replica reads the candidates outside any transaction, decides here on what it
read, and hands the store a claim built from it.
-/

namespace KiwiCI.Scheduler

open Storage

/-- `leaseCandidateWalk`: one lease attempt of a runner.  `eff` is the runner's
effective view, `reserved` its live reservations, `head` the reservation head. -/
structure LeaseWalk where
  now : Time
  runnerID : RunnerID
  eff : Runner
  reserved : ResourceCapacity := {}
  head : Option Job := none
  reservationWait : Int := 0
  leaseDuration : Int := 60000000
  repoConcurrency : Int := 0
  teamConcurrency : Int := 0

/-- What `consider` decides about a candidate. -/
inductive Considered where
  | skip
  | newHead
  | claim (c : LeaseClaim)
  deriving DecidableEq, Repr

def effectiveJobRequest (j : Job) (ignoreEnvelope : Bool) : ResourceCapacity :=
  if ignoreEnvelope then j.resourceRequest else j.reservedResources

/-- The claim `consider` builds for a candidate. -/
def LeaseWalk.claimFor (w : LeaseWalk) (candidate : Job) (tokenHash : List UInt8) : LeaseClaim where
  jobID := candidate.id
  runnerID := w.runnerID
  tokenHash := tokenHash
  generation := candidate.leaseGeneration + 1
  expiresAt := w.now + w.leaseDuration
  ttl := w.leaseDuration
  runtime := jobRuntime candidate
  canonRepoID := repoIDForJob candidate
  repoFullName := candidate.repoFullName
  requiredLabels := candidate.requiredLabels
  placementRegions := candidate.placementRegions
  environment := candidate.environment
  environmentConcurrency := candidate.environmentConcurrency
  concurrencyGroup := candidate.concurrencyGroup
  concurrencyLimit := candidate.concurrencyLimit
  repoConcurrency := w.repoConcurrency
  teamConcurrency := w.teamConcurrency
  executionSemantics := candidate.executionSemantics
  request := candidate.resourceRequest
  serviceEnvelopeRequest := candidate.serviceEnvelopeRequest
  ignoreServiceEnvelope := w.eff.jobCgroup
  quarantined := candidate.repoIdentityQuarantined

/-- The jobs a listing query returns; one payload that does not decode fails it. -/
def listJobs (p : JobRow → Bool) (db : DB) : Except StoreError (List Job) :=
  (db.jobs.select fun _ row => p row).mapM fun id =>
    orThrow ((db.jobs.get? id).bind (·.job id)) (.decode "job payload")

def listJobsByEnvironment (repoID environment : String) : DB → Except StoreError (List Job) :=
  listJobs fun row =>
    jobRepoIDSQL row.payload.job = repoID && row.payload.job.environment = environment

def listJobsByConcurrencyGroup (group : String) : DB → Except StoreError (List Job) :=
  listJobs fun row => row.payload.job.concurrencyGroup = group

def othersRunning (candidate : Job) (jobs : List Job) : Nat :=
  jobs.countP fun other => other.id ≠ candidate.id && other.status = .running

/-- The environment count of `eligible`. -/
def envRunningOf (candidate : Job) (db : DB) : Except StoreError Nat :=
  if candidate.environment ≠ "" ∧ 0 < candidate.environmentConcurrency then
    (listJobsByEnvironment (repoIDForJob candidate) candidate.environment db).map
      (othersRunning candidate)
  else pure 0

/-- The concurrency group count of `eligible`. -/
def groupRunningOf (candidate : Job) (db : DB) : Except StoreError Nat :=
  if candidate.concurrencyGroup ≠ "" ∧ 0 < candidate.concurrencyLimit then
    (listJobsByConcurrencyGroup candidate.concurrencyGroup db).map (othersRunning candidate)
  else pure 0

/-- The lease predicate `eligible` evaluates. -/
def LeaseWalk.predicate (w : LeaseWalk) (candidate : Job) (envRunning groupRunning : Nat) :
    LeasePredicate :=
  let (runtimes, enforced) := leasePolicyRuntimes candidate
  { runner := w.eff, job := candidate, envRunning, groupRunning
    policyEnforced := enforced, policyRuntimes := runtimes }

def LeaseWalk.eligible (w : LeaseWalk) (candidate : Job) (db : DB) : Except StoreError Bool := do
  let envRunning ← envRunningOf candidate db
  let groupRunning ← groupRunningOf candidate db
  if (w.predicate candidate envRunning groupRunning).allows = false then pure false
  else do
    let jobs ← listJobs (fun row => row.runID = candidate.runID) db
    let statusOf (id : JobID) := (jobs.find? fun j => j.id = id).map (·.status)
    match dependencyOutcome statusOf candidate.needs with
    | none => pure false
    | some outcome => pure (dependencyConditionAllows candidate outcome)

def LeaseWalk.headFitsAlongside (w : LeaseWalk) (head candidate : Job) : Bool :=
  let add := effectiveJobRequest candidate w.eff.jobCgroup
  let want := effectiveJobRequest head w.eff.jobCgroup
  [Dimension.cpu, .memory, .disk, .pids].all fun d =>
    !(0 < w.eff.resourceCapacity.at d && 0 < add.at d &&
      w.eff.resourceCapacity.at d < w.reserved.at d + add.at d + want.at d)

def everSatisfiable (capacity requested : ResourceCapacity) : Bool :=
  [Dimension.cpu, .memory, .disk, .pids].all fun d =>
    !(0 < capacity.at d && capacity.at d < requested.at d)

def LeaseWalk.consider (w : LeaseWalk) (candidate : Job) (tokenHash : List UInt8) (db : DB) :
    Except StoreError Considered := do
  let requested := effectiveJobRequest candidate w.eff.jobCgroup
  if (queueDeadlineFor candidate).any (· ≤ w.now) then pure .skip
  else if resourceAdmissionAllows w.eff.resourceCapacity w.reserved requested = false then
    if w.head.isSome || !everSatisfiable w.eff.resourceCapacity requested then pure .skip
    else do
      let eligible ← w.eligible candidate db
      if eligible = false then pure .skip
      else if 0 < w.reservationWait ∧ w.now - candidate.createdAt < w.reservationWait then pure .skip
      else pure .newHead
  else if w.head.any (fun head => !w.headFitsAlongside head candidate) then pure .skip
  else do
    let eligible ← w.eligible candidate db
    if eligible = false then pure .skip else pure (.claim (w.claimFor candidate tokenHash))

/-!
The coarse filter of the queue: `QueuedJobMatchesFilter` under the filter
`runnerQueuedJobFilter` derives from a runner.

It restates the runtime, label, region and capacity rules of the lease predicate, so that a
page of the queue skips only jobs the runner would refuse.  A runner without a region is the
one place where the two rules differ.
-/

/-- `QueuedJobFilter`; `none` stands for a nil slice. -/
structure QueuedJobFilter where
  runtimes : Option (List String) := none
  runnerLabels : Option (List String) := none
  runnerRegion : String := ""
  maxRequested : ResourceCapacity := {}
  ignoreServiceEnvelope : Bool := false
  deriving DecidableEq

/-- `queuedJobFilterUnconstrained`: the entirely zero filter. -/
def QueuedJobFilter.unconstrained (f : QueuedJobFilter) : Bool := f = {}

def queuedJobMatchesFilter (j : Job) (filter : QueuedJobFilter) : Bool :=
  filter.unconstrained ||
    filter.runtimes.all (·.contains (if jobRuntime j = "" then "native" else jobRuntime j)) &&
    filter.runnerLabels.all (fun labels => j.requiredLabels.all labels.contains) &&
    (if filter.runnerRegion = "" then j.placementRegions = []
      else j.placementRegions = [] || j.placementRegions.contains filter.runnerRegion) &&
    everSatisfiable filter.maxRequested
      (if filter.ignoreServiceEnvelope then j.resourceRequest
        else addResourceCapacity j.resourceRequest j.serviceEnvelopeRequest)

def runnerQueuedJobFilter (eff : Runner) : QueuedJobFilter where
  runnerRegion := eff.region
  maxRequested := eff.resourceCapacity
  ignoreServiceEnvelope := eff.jobCgroup
  runtimes := if !eff.capabilitiesEnforced && eff.capabilities = [] then none
    else some eff.capabilities
  runnerLabels := some (eff.labels.insertionSort (· ≤ ·))

/-- What the filter keeps: the runtime, the labels, the region and the capacity, each as the
runner's own predicates decide it. -/
theorem matches_runner_iff {j : Job} {eff : Runner} :
    queuedJobMatchesFilter j (runnerQueuedJobFilter eff) = true ↔
      runtimeAllowed eff.capabilities eff.capabilitiesEnforced (jobRuntime j) = true ∧
        labelsSatisfy eff.labels j.requiredLabels = true ∧
        (j.placementRegions = [] ∨ eff.region ≠ "" ∧ eff.region ∈ j.placementRegions) ∧
        everSatisfiable eff.resourceCapacity (effectiveJobRequest j eff.jobCgroup) = true := by
  have constrained : (runnerQueuedJobFilter eff).unconstrained = false := by
    simp [QueuedJobFilter.unconstrained, runnerQueuedJobFilter]
  have runtime : (runnerQueuedJobFilter eff).runtimes.all
      (·.contains (if jobRuntime j = "" then "native" else jobRuntime j)) =
        runtimeAllowed eff.capabilities eff.capabilitiesEnforced (jobRuntime j) := by
    dsimp only [runnerQueuedJobFilter, runtimeAllowed]
    by_cases free : (!eff.capabilitiesEnforced && decide (eff.capabilities = [])) = true
    · rw [if_pos free, if_pos free]
      rfl
    · rw [if_neg free, if_neg free]
      rfl
  have labels : (runnerQueuedJobFilter eff).runnerLabels.all
      (fun labels => j.requiredLabels.all labels.contains) =
        labelsSatisfy eff.labels j.requiredLabels := by
    rw [Bool.eq_iff_iff]
    simp [runnerQueuedJobFilter, labelsSatisfy]
  rw [queuedJobMatchesFilter, constrained, runtime, labels, Bool.false_or]
  simp only [Bool.and_eq_true, and_assoc]
  refine and_congr .rfl (and_congr .rfl (and_congr ?_ .rfl))
  by_cases regionless : eff.region = "" <;> simp [runnerQueuedJobFilter, regionless]

end KiwiCI.Scheduler
