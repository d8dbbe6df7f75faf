import KiwiCI.Auth.RepoIdentity
import KiwiCI.Model
import KiwiCI.Lib.Table
import KiwiCI.Lib.Transaction

/-!
Which repository a stored job or run belongs to.

The Go side resolves it with `repoIDForJob` and `repoIDForRun`, policy
repository first (`lease_predicate.go`).  The database side resolves it with the
SQL function `kiwi_canonical_repo_id` and the policy-first expression over it
(`canonicalRepoIDBody`, `canonicalPolicyRepoIDSQLExpr`).  The two are written
independently and both are modelled here, since the scheduling decisions
compare values of one with values of the other.  `quotaKeys` names the quota
counters of an identity.
-/

namespace KiwiCI.Storage

open Text

/-! ## The Go resolution -/

def repoHost (repoURL : String) : String := Auth.canonicalHost repoURL

/-- The path of a repository without its `.git` suffix and outer slashes. -/
def repoPath (path : String) : String := trimChar '/' (trimSuffix ".git" path)

def repoFullNameFromURL (repoURL : String) : String :=
  let u := trimSpace repoURL
  if contains "://" u then
    match Url.parse u with
    | some parsed => if parsed.host = "" then "" else repoPath parsed.path
    | none => ""
  else
    match (cut "@" u).bind fun (_, rest) => cut ":" rest with
    | some (_, path) => repoPath path
    | none => ""

/-- `RepoIDFor`: a stored identity is returned verbatim. -/
def repoIDFor (repoID repoURL repoFullName : String) : String :=
  let id := trimSpace repoID
  if id ≠ "" then id
  else
    let named := trimSpace repoFullName
    let fullName := if named = "" then repoFullNameFromURL repoURL else named
    Auth.canonicalRepoID (repoHost repoURL) fullName

def repoIDForJob (j : Job) : String :=
  let id := trimSpace j.policyRepoID
  if id ≠ "" then id else repoIDFor j.repoID j.repoURL j.repoFullName

/-- `RepoIDForRun`; a run keeps its clone URL as `repo`. -/
def repoIDForRun (r : Run) : String :=
  let id := trimSpace r.policyRepoID
  if id ≠ "" then id else repoIDFor r.repoID r.repo r.repoFullName

/-! ## The SQL resolution -/

/-- `REGEXP_REPLACE(s, '^.*@', '')`. -/
def stripUserinfo (s : String) : String :=
  match cutLast '@' s with
  | some (_, rest) => rest
  | none => s

/-- The `host` and `path` expressions of `canonicalRepoIDBody`: a scheme, the
scp-like form (a colon before any slash), or a bare path. -/
def canonicalHostPathSQL (u : String) : String × String :=
  match cut "://" u with
  | some (_, rest) =>
    (stripUserinfo (beforeAny (· == '/') rest), repoPath ((cut "/" rest).elim "" (·.2)))
  | none =>
    match cut ":" u with
    | some (before, after) =>
      if contains "/" before then (stripUserinfo (beforeAny (· == '/') u), repoPath u)
      else (stripUserinfo before, repoPath after)
    | none => (stripUserinfo (beforeAny (· == '/') u), repoPath u)

/-- `foldRepoIdentitySQL`: the path goes to lower case and the host stays, told
apart by position; the `r1:` and `a1:` spellings are left alone. -/
def foldRepoIdentitySQL (id : String) : String :=
  if hasPrefix "r1:" id || hasPrefix "a1:" id then id
  else
    match cut "/" id with
    | none => lower id
    | some (host, rest) => if contains "/" rest then host ++ "/" ++ lower rest else lower id

/-- `canonicalRepoIDBody`, the body of `kiwi_canonical_repo_id`. -/
def canonicalRepoIDSQL (repoID url repoFullName : String) : String :=
  let stored := btrim repoID
  let f := btrim repoFullName
  let (host, path) := canonicalHostPathSQL url
  let full := if f ≠ "" then f else path
  foldRepoIdentitySQL <|
    if stored ≠ "" then stored
    else if full = "" then ""
    else if host = "" || hasPrefix (host ++ "/") full then full
    else host ++ "/" ++ full

/-- `canonicalPolicyRepoIDSQLExpr`. -/
def canonicalPolicyRepoIDSQL (policyRepoID repoID url repoFullName : String) : String :=
  let policy := btrim policyRepoID
  if policy ≠ "" then policy else canonicalRepoIDSQL repoID url repoFullName

/-- The policy-first identity expression over a job's payload. -/
def jobRepoIDSQL (j : Job) : String :=
  canonicalPolicyRepoIDSQL j.policyRepoID j.repoID j.repoURL j.repoFullName

def runRepoIDSQL (r : Run) : String := canonicalRepoIDSQL r.repoID r.repo r.repoFullName

/-! ## Quota keys -/

/-- `repoTeamKey`: the forge host and the owner. -/
def repoTeamKey (repo : String) : String :=
  match (Url.parse repo).filter (·.host ≠ "") with
  | some u =>
    let host := Auth.canonicalHost u.host
    if host = "" then repo
    else
      match split '/' (trimChar '/' u.path) with
      | owner :: _ => if owner ≠ "" then host ++ "/" ++ owner else host
      | [] => host
  | none =>
    match Auth.parseStoredRepoID repo with
    | some (.identity host fullName) =>
      match cut "/" fullName with
      | some (owner, _) => if owner = "" then repo else host ++ "/" ++ owner
      | none => repo
    | _ => repo

def quotaKeys (repoID : String) : List String :=
  let repo := trimSpace repoID
  if repo = "" then []
  else
    let team := repoTeamKey repo
    if team = repo then [repo] else [repo, team]

theorem quotaKeys_nodup (repoID : String) : (quotaKeys repoID).Nodup := by
  unfold quotaKeys
  dsimp only
  split
  · simp
  · split
    · simp
    · next differ => simpa using Ne.symm differ

/-! The resolutions agree on a canonical stored identity and part on one that is
not in lower case. -/

example : repoIDForJob { repoID := "github.com/acme/api" } = "github.com/acme/api" ∧
    jobRepoIDSQL { repoID := "github.com/acme/api" } = "github.com/acme/api" := by decide

example : repoIDForJob { repoID := "github.com/Acme/API" } = "github.com/Acme/API" ∧
    jobRepoIDSQL { repoID := "github.com/Acme/API" } = "github.com/acme/api" := by decide

example : repoIDForJob { repoURL := "git@github.com:Acme/API.git" } = "github.com/acme/api" ∧
    jobRepoIDSQL { repoURL := "git@github.com:Acme/API.git" } = "github.com/acme/api" := by decide

/-!
The state of the PostgreSQL store: its tables, the rows they hold and the
errors its operations report.

A job row keeps its lifecycle twice, in relational columns and in the jsonb
`payload`, a marshalled `model.Job`.  The columns are authoritative.  Lease
claims move them without rewriting the payload, so the payload copy may be
stale: `JobRow.job` merges the columns over it, the way `jobScanner.job` does,
while `Payload.decode` is the bare payload that some operations read instead.

Every store call is one serialised transaction at one instant of the database
clock; `Call` holds what a call brings along: that instant and the replica's
schema version, leader epoch and planner estimate.
-/

/-- The errors of the store: its sentinels, and the texts of the others. -/
inductive StoreError where
  | notFound
  | leaseConflict
  | generationMismatch
  | noCapacity
  | envConcurrency
  | groupConcurrency
  | resourceCapacity (runnerID : RunnerID) (requested reserved capacity : ResourceCapacity)
  | quotaExceeded (reason msg : String)
  | completionConflict
  | requiredArtifactMissing (name : String)
  | approvalNotRequired
  | jobTerminal
  | staleLeader
  | schemaIncompatible (floor binary : Int)
  | deliveryDuplicate
  | idempotentReplay (runID : RunID)
  | idempotencyKeyConflict
  | scheduleClaimLost
  | downstreamLaunched
  | leaseLost (msg : String)
  | generatedJobKeyConflict (runID : RunID) (key : String) (existing : JobID)
  | generatedMutationConflict (parent : JobID) (slot existing submitted : String)
  | invalidIDLength (length : Nat)
  | invalidIDCharacter (c : Char) (position : Nat)
  | decode (what : String)
  | constraint (name : String)
  | failed (msg : String)
  deriving DecidableEq, Repr

/-! ## Rows -/

/-- `ArtifactContract`, as far as completion checks it. -/
structure ArtifactContract where
  name : String
  required : Bool := false
  provenance : String := ""
  deriving DecidableEq, Repr

/-- The jsonb payload of a job row.  `decodes` is whether it unmarshals into a
`model.Job`; `job` is what its keys say, which SQL reads even when it does not.
`envelopeKey` is whether the `service_envelope_request` key is there, which
payloads from before that field lack. -/
structure Payload where
  job : Job
  decodes : Bool := true
  envelopeKey : Bool := true
  artifactContracts : List ArtifactContract := []
  deriving DecidableEq, Repr

/-- A freshly marshalled job. -/
def Payload.encode (j : Job) : Payload := { job := j }

/-- `json.Unmarshal` of the payload. -/
def Payload.decode (p : Payload) : Option Job := if p.decodes then some p.job else none

/-- A row of `jobs`; NULL texts read as empty. -/
structure JobRow where
  runID : RunID
  key : String
  status : Status
  dependencyStatus : Option Status := none
  attempts : Int := 0
  error : String := ""
  outputs : List (String × String) := []
  leaseRunnerID : RunnerID := ""
  leaseTokenHash : List UInt8 := []
  leaseGeneration : Int := 0
  leaseExpiresAt : Option Time := none
  startedAt : Option Time := none
  finishedAt : Option Time := none
  createdAt : Time := 0
  queueDeadline : Option Time := none
  payload : Payload
  deriving DecidableEq, Repr

/-- `jobScanner.job`: the columns over the decoded payload. -/
def JobRow.job (id : JobID) (row : JobRow) : Option Job :=
  row.payload.decode.map fun j =>
    { j with
      id := id, runID := row.runID, key := row.key, status := row.status
      dependencyStatus := row.dependencyStatus, attempts := row.attempts, error := row.error
      leaseRunnerID := row.leaseRunnerID, leaseTokenHash := row.leaseTokenHash
      leaseGeneration := row.leaseGeneration, leaseExpiresAt := row.leaseExpiresAt
      startedAt := row.startedAt, finishedAt := row.finishedAt, createdAt := row.createdAt
      outputs := if row.outputs = [] then j.outputs else row.outputs }

/-- `jobWriteArgs`: the columns and the payload of one job value. -/
def JobRow.write (j : Job) : JobRow where
  runID := j.runID
  key := j.key
  status := j.status
  dependencyStatus := j.dependencyStatus
  attempts := j.attempts
  error := j.error
  outputs := j.outputs
  leaseRunnerID := j.leaseRunnerID
  leaseTokenHash := j.leaseTokenHash
  leaseGeneration := j.leaseGeneration
  leaseExpiresAt := j.leaseExpiresAt
  startedAt := j.startedAt
  finishedAt := j.finishedAt
  createdAt := j.createdAt
  queueDeadline := j.queueDeadline
  payload := .encode j

/-- The columns of a job that leaves its lease: a new status, error and finish
time, and no lease.  The generation stays. -/
def JobRow.leaveColumns (row : JobRow) (status : Status) (error : String)
    (finishedAt : Option Time) : JobRow :=
  { row with
    status, error, finishedAt
    leaseRunnerID := "", leaseTokenHash := [], leaseExpiresAt := none }

/-- The same with the payload rewritten from the job value `j`. -/
def JobRow.leave (row : JobRow) (j : Job) (status : Status) (error : String)
    (finishedAt : Option Time) : JobRow :=
  { row.leaveColumns status error finishedAt with
    payload := .encode { j with
      status, error, finishedAt
      leaseRunnerID := "", leaseTokenHash := [], leaseExpiresAt := none } }

/-- A row of `runs`. -/
structure RunRow where
  status : Status
  startedAt : Option Time := none
  finishedAt : Option Time := none
  createdAt : Time := 0
  payload : Run
  decodes : Bool := true
  deriving DecidableEq, Repr

/-- A row of `runners`; `payload` is the registration snapshot. -/
structure RunnerRow where
  busy : Bool := false
  capacity : Int := 1
  completed : Int := 0
  failed : Int := 0
  currentJob : JobID := ""
  activeJobs : List JobID := []
  disabled : Bool := false
  draining : Bool := false
  payload : Runner := {}
  decodes : Bool := true
  deriving DecidableEq, Repr

/-- A row of `quota_reservations`. -/
structure QuotaRow where
  running : Int := 0
  queued : Int := 0
  deriving DecidableEq, Repr, Inhabited

/-- `ResourceReservation`, a row of `job_resource_reservations`. -/
structure ResourceReservation where
  runnerID : RunnerID
  generation : Int
  amount : ResourceCapacity
  deriving DecidableEq, Repr

/-- A row of `completion_receipts`; its key is job, generation and runner. -/
structure ReceiptRow where
  resultHash : String
  resultHashVersion : Int
  createdAt : Time
  deriving DecidableEq, Repr

/-- A row of `artifacts`, keyed by job, generation and name, as far as its
provenance reference. -/
structure ArtifactRow where
  provenanceSHA256 : String := ""
  deriving DecidableEq, Repr

/-- A row of `generated_fragments`. -/
structure FragmentRow where
  leaseGeneration : Int
  fragmentID : String
  children : List (String × JobID)
  deriving DecidableEq, Repr

/-! ## The database -/

/-- The tables of the store. -/
structure DB where
  jobs : Table JobID JobRow := .empty
  /-- `job_dependencies`: a job and one it depends on. -/
  dependencies : List (JobID × JobID) := []
  runs : Table RunID RunRow := .empty
  runners : Table RunnerID RunnerRow := .empty
  quota : Table String QuotaRow := .empty
  reservations : Table JobID ResourceReservation := .empty
  receipts : Table (JobID × Int × RunnerID) ReceiptRow := .empty
  artifacts : Table (JobID × Int × String) ArtifactRow := .empty
  profiles : Table String RunnerProfile := .empty
  certProfileLinks : Table String String := .empty
  runnerProfileLinks : Table RunnerID String := .empty
  webhookDeliveries : Table (String × String) RunID := .empty
  runIdempotency : Table (String × String) (RunID × String) := .empty
  scheduleOccurrences : Table (String × Time) RunID := .empty
  downstreamLinks : Table (JobID × String × String) RunID := .empty
  generatedFragments : Table (JobID × String) FragmentRow := .empty
  /-- The completion effect intents, by job, generation and kind. -/
  outbox : List (JobID × Int × String) := []
  leaderEpoch : Option Int := none
  /-- `MAX(compatible_from)` over `schema_migrations`. -/
  schemaFloor : Int := 0
  /-- Whether the unique index `jobs_run_key_idx` could be built. -/
  runKeyIndex : Bool := true

/-- What one store call brings along. -/
structure Call where
  now : Time := 0
  schemaFence : Bool := true
  binarySchemaVersion : Int := 0
  leaderEpoch : Int := 0
  /-- The planner's row estimate for `completion_receipts`. -/
  receiptEstimate : Int := 0

/-! ## Fences and identifiers -/

/-- `beginSchemaCompatibleTx`: the schema floor admits the caller's binary. -/
def beginSchemaCompatibleTx (c : Call) (db : DB) : Except StoreError Unit :=
  require (c.binarySchemaVersion ≤ 0 ∨ c.schemaFence = false ∨
      db.schemaFloor ≤ c.binarySchemaVersion)
    (.schemaIncompatible db.schemaFloor c.binarySchemaVersion)

/-- `fenceLeaderTx`: the retained epoch is the durable one. -/
def fenceLeaderTx (c : Call) (db : DB) : Except StoreError Unit :=
  require (0 < c.leaderEpoch ∧ db.leaderEpoch = some c.leaderEpoch) .staleLeader

def beginFencedTx (c : Call) (db : DB) : Except StoreError Unit := do
  beginSchemaCompatibleTx c db
  fenceLeaderTx c db

/-- A character of the canonical identifier format. -/
def isIDChar (ch : Char) : Bool := ('0' ≤ ch && ch ≤ '9') || ('a' ≤ ch && ch ≤ 'f')

/-- `ValidateID`, which `ValidateJobID`, `ValidateRunID` and `ValidateRunnerID`
are: 32 lower case hexadecimal digits. -/
def validateID (id : String) : Except StoreError Unit := do
  require (id.utf8ByteSize = 32) (.invalidIDLength id.utf8ByteSize)
  match id.toList.findIdx? fun ch => !isIDChar ch with
  | some position => throw (.invalidIDCharacter (id.toList.getD position ' ') position)
  | none => pure ()

end KiwiCI.Storage
