import Mathlib.Data.Int.Order.Basic

/-!
The records of `internal/model`: statuses, resource quantities, jobs, runs,
runners and runner profiles, with the fields the control plane decides on.

Instants are integers, and so are the CPU quantities, counted in thousandths of
a core where the source has a `float64` number of cores.  A compiled job
payload is kept as what the decision code decodes from it.
-/

namespace KiwiCI

abbrev JobID := String
abbrev RunID := String
abbrev RunnerID := String
abbrev Time := Int

inductive Status where
  | pending
  | queued
  | waitingApproval
  | running
  | success
  | failure
  | cancelled
  | skipped
  | blocked
  deriving DecidableEq, Repr, Inhabited

def Status.terminal : Status → Bool
  | .success | .failure | .cancelled | .skipped | .blocked => true
  | .pending | .queued | .waitingApproval | .running => false

/-- The spelling a status is stored and compared under. -/
def Status.text : Status → String
  | .pending => "pending"
  | .queued => "queued"
  | .waitingApproval => "waiting_approval"
  | .running => "running"
  | .success => "success"
  | .failure => "failure"
  | .cancelled => "cancelled"
  | .skipped => "skipped"
  | .blocked => "blocked"

/-- Queued for a runner or waiting for an approval: not started, not over. -/
def Status.waiting (s : Status) : Bool := s = .queued || s = .waitingApproval

/-- Under a lease. -/
def Status.isRunning (s : Status) : Bool := s = .running

theorem Status.not_terminal_of_waiting {s : Status} (waiting : s.waiting = true) :
    s.terminal = false := by
  cases s <;> simp_all [Status.terminal, Status.waiting]

/-- `model.ResourceCapacity`: quantities per dimension, CPU in thousandths of a
core.  A zero is "unconstrained" as a capacity and "none" as a request. -/
structure ResourceCapacity where
  cpu : Int := 0
  memory : Int := 0
  disk : Int := 0
  pids : Int := 0
  deriving DecidableEq, Repr, Inhabited

def addResourceCapacity (a b : ResourceCapacity) : ResourceCapacity where
  cpu := a.cpu + b.cpu
  memory := a.memory + b.memory
  disk := a.disk + b.disk
  pids := a.pids + b.pids

/-- The four dimensions of a `ResourceCapacity`. -/
inductive Dimension where
  | cpu
  | memory
  | disk
  | pids
  deriving DecidableEq, Repr

/-- One dimension's quantity. -/
def ResourceCapacity.at (c : ResourceCapacity) : Dimension → Int
  | .cpu => c.cpu
  | .memory => c.memory
  | .disk => c.disk
  | .pids => c.pids

/-- What the decision code reads of a compiled job: its runtime, how many
services it declares and its queue timeout. -/
structure EffectiveJob where
  runtime : String := ""
  services : Nat := 0
  queueTimeout : Int := 0
  deriving DecidableEq, Repr, Inhabited

/-- The runtime grants of `policy.Capabilities`. -/
structure Capabilities where
  nativeExecution : Bool := false
  container : Bool := false
  tart : Bool := false
  enforced : Bool := false
  deriving DecidableEq, Repr, Inhabited

/-- An `EffectivePolicy` value: absent, undecodable, or a capability set. -/
inductive EffectivePolicy where
  | absent
  | corrupt
  | caps (c : Capabilities)
  deriving DecidableEq, Repr, Inhabited

/-- `model.CompiledJobPayload`; `effectiveJob` is `none` when it is absent or
does not decode. -/
structure CompiledJobPayload where
  schemaVersion : Int := 0
  effectiveJob : Option EffectiveJob := none
  effectivePolicy : EffectivePolicy := .absent
  deriving DecidableEq, Repr, Inhabited

/-- `model.ExecutionControlReceipt`: what the runtime entered when it started. -/
structure ExecutionControlReceipt where
  runtime : String := ""
  sandboxStarted : Bool := false
  networkEnforced : String := ""
  rootFilesystemReadOnly : Bool := false
  workspaceQuotaEnforced : Bool := false
  deriving DecidableEq, Repr, Inhabited

/-- `model.ObservedRuntime`; `capturedAt` is its RFC 3339 text, empty when unset. -/
structure ObservedRuntime where
  os : String := ""
  arch : String := ""
  runtimeName : String := ""
  runtimeVersion : String := ""
  mainImage : String := ""
  mainImageDigest : String := ""
  serviceImages : List (String × String) := []
  serviceImageDigests : List (String × String) := []
  components : List (String × String) := []
  capturedAt : String := ""
  control : Option ExecutionControlReceipt := none
  deriving DecidableEq, Repr, Inhabited

structure Job where
  id : JobID := ""
  runID : RunID := ""
  key : String := ""
  repoID : String := ""
  repoURL : String := ""
  repoFullName : String := ""
  policyRepoID : String := ""
  ref : String := ""
  event : String := ""
  condition : String := ""
  dependencyStatus : Option Status := none
  needs : List JobID := []
  requiredLabels : List String := []
  environment : String := ""
  approvalRequired : Bool := false
  environmentBranches : List String := []
  environmentConcurrency : Int := 0
  concurrencyGroup : String := ""
  concurrencyLimit : Int := 0
  status : Status := .pending
  maxInfraRetries : Int := 0
  createdAt : Time := 0
  startedAt : Option Time := none
  finishedAt : Option Time := none
  error : String := ""
  outputs : List (String × String) := []
  attempts : Int := 0
  leaseRunnerID : RunnerID := ""
  leaseTokenHash : List UInt8 := []
  leaseGeneration : Int := 0
  leaseExpiresAt : Option Time := none
  leaseInterpreter : String := ""
  attemptRunnerID : RunnerID := ""
  observedRuntime : Option ObservedRuntime := none
  observedExecutionSemantics : String := ""
  approvedBy : String := ""
  placementRegions : List String := []
  compiledJobPayload : Option CompiledJobPayload := none
  waitingSince : Option Time := none
  resourceRequest : ResourceCapacity := {}
  serviceEnvelopeRequest : ResourceCapacity := {}
  queueDeadline : Option Time := none
  repoIdentityQuarantined : Bool := false
  executionSemantics : String := ""
  dynamicDepth : Int := 0
  deriving DecidableEq, Repr, Inhabited

/-- `Job.ReservedResources`: the job's own request plus its service envelope. -/
def Job.reservedResources (j : Job) : ResourceCapacity :=
  addResourceCapacity j.resourceRequest j.serviceEnvelopeRequest

/-- What enqueueing fixed about a job: the record without the fields its
lifecycle moves. -/
def Job.spec (j : Job) : Job :=
  { j with
    id := "", runID := "", key := "", dependencyStatus := none, status := .pending
    createdAt := 0, startedAt := none, finishedAt := none, error := "", outputs := []
    attempts := 0, leaseRunnerID := "", leaseTokenHash := [], leaseGeneration := 0
    leaseExpiresAt := none, leaseInterpreter := "", attemptRunnerID := ""
    observedRuntime := none, observedExecutionSemantics := "", approvedBy := ""
    waitingSince := none }

/-- What dependency evaluation and the deployment gates read is fixed at enqueue. -/
theorem Job.fields_of_spec {j k : Job} (same : j.spec = k.spec) :
    j.needs = k.needs ∧ j.condition = k.condition ∧ j.ref = k.ref ∧ j.event = k.event ∧
      j.environmentBranches = k.environmentBranches ∧ j.approvalRequired = k.approvalRequired := by
  have read {β : Type} (f : Job → β) : f j.spec = f k.spec := congrArg f same
  exact ⟨read Job.needs, read Job.condition, read Job.ref, read Job.event,
    read Job.environmentBranches, read Job.approvalRequired⟩

/-- `pipeline.MaxInfraRetries`. -/
def maxInfraRetriesLimit : Int := 20

def effectiveMaxInfraRetries (j : Job) : Int := min j.maxInfraRetries maxInfraRetriesLimit

/-- `QueueDeadlineFor`: the persisted deadline, else creation plus the compiled
queue timeout. -/
def queueDeadlineFor (j : Job) : Option Time :=
  match j.queueDeadline with
  | some deadline => some deadline
  | none =>
    match j.compiledJobPayload.bind (·.effectiveJob) with
    | some cj => if cj.queueTimeout ≤ 0 then none else some (j.createdAt + cj.queueTimeout)
    | none => none

structure Run where
  id : RunID := ""
  repoID : String := ""
  repo : String := ""
  repoFullName : String := ""
  policyRepoID : String := ""
  ref : String := ""
  event : String := ""
  status : Status := .pending
  concurrencyGroup : String := ""
  createdAt : Time := 0
  startedAt : Option Time := none
  finishedAt : Option Time := none
  repoIdentityQuarantined : Bool := false
  downstreamRuns : List RunID := []
  deriving DecidableEq, Repr, Inhabited

structure Runner where
  labels : List String := []
  capacity : Int := 0
  completed : Int := 0
  failed : Int := 0
  activeJobs : List JobID := []
  currentJob : JobID := ""
  busy : Bool := false
  resourceCapacity : ResourceCapacity := {}
  jobCgroup : Bool := false
  disabled : Bool := false
  draining : Bool := false
  region : String := ""
  supportedExecutionSemantics : List String := []
  capabilities : List String := []
  reportedCapabilities : List String := []
  capabilitiesEnforced : Bool := false
  allowedRepositories : List String := []
  certSerial : String := ""
  deriving DecidableEq, Repr, Inhabited

/-- What registration fixed about a runner: the record without the fields its
leases move. -/
def Runner.registration (r : Runner) : Runner :=
  { r with
    capacity := 0, completed := 0, failed := 0, activeJobs := [], currentJob := "", busy := false }

/-- `model.RunnerProfile`, with the maxima as one `ResourceCapacity`. -/
structure RunnerProfile where
  labels : List String := []
  region : String := ""
  repositories : List String := []
  capabilities : List String := []
  maxCapacity : Int := 0
  maxResources : ResourceCapacity := {}
  jobCgroup : Bool := false
  deriving DecidableEq, Repr, Inhabited

/-! ## Execution semantics -/

def executionSemanticsVersion : String := "kiwi.execution.v3"

def legacyExecutionSemanticsVersion : String := "kiwi.execution.v2"

/-- `model.SupportsExecutionSemantics`: an unstamped job is always admitted and
a runner that never advertised interprets only the legacy version. -/
def supportsExecutionSemantics (supported : List String) (jobSemantics : String) : Bool :=
  if jobSemantics = "" then true
  else if supported = [] then jobSemantics = legacyExecutionSemanticsVersion
  else supported.contains jobSemantics

/-- `model.LeaseInterpreterFor`; the job's own stamp plays no part. -/
def leaseInterpreterFor (advertised : List String) (_jobStamp : String) : String :=
  if advertised = [] then legacyExecutionSemanticsVersion
  else if advertised.contains executionSemanticsVersion then executionSemanticsVersion
  else advertised.getLastD ""

end KiwiCI
