import KiwiCI.Storage.CompletionDigest
import KiwiCI.Storage.Enqueue

/-!
Completing a leased job: `CompleteJob` of `postgres.go` with the completion
receipts that make it repeatable.

A completion that does not find its lease running is looked up among the
receipts (`replayCompletion`) and never writes.  One that does finds itself in
`completeActive`, which writes the job, the quota counters, the reservation, the
receipt, the runner, the dependents, the run and the effect intents.
-/

namespace KiwiCI.Storage

structure CompletionReceipt where
  jobID : JobID
  generation : Int
  runnerID : RunnerID
  resultHash : String
  resultHashVersion : Int := 0
  observedExecutionSemantics : String := ""
  deriving DecidableEq, Repr

/-- `CompletionReceiptTTL`, in microseconds. -/
def completionReceiptTTL : Int := 7 * 24 * 60 * 60 * 1000000

def maxCompletionReceipts : Nat := 10000

def completionReceiptPruneBatch : Nat := 1000

/-- A receipt is honoured while it is younger than the retention. -/
def ReceiptRow.live (r : ReceiptRow) (now : Time) : Bool := now - completionReceiptTTL ≤ r.createdAt

/-- `completionReceiptTx`: the live receipt under a key. -/
def DB.liveReceipt (db : DB) (now : Time) (key : JobID × Int × RunnerID) : Option ReceiptRow :=
  (db.receipts.get? key).filter (·.live now)

/-- `pruneCompletionReceiptsTx`: a batch of expired receipts, oldest first, and,
once the planner's estimate is over the cap, a batch beyond the newest
`maxCompletionReceipts`. -/
def pruneCompletionReceiptsTx (c : Call) (db : DB) : DB :=
  let oldestFirst := db.receipts.rows.insertionSort fun a b => a.2.createdAt ≤ b.2.createdAt
  let expired := (oldestFirst.filter fun e => !e.2.live c.now).take completionReceiptPruneBatch
  let kept := (expired.map Sigma.fst).foldl (fun t key => t.delete key) db.receipts
  if c.receiptEstimate ≤ maxCompletionReceipts then { db with receipts := kept }
  else
    let newestFirst := kept.rows.insertionSort fun a b => b.2.createdAt ≤ a.2.createdAt
    let beyond := (newestFirst.drop maxCompletionReceipts).take completionReceiptPruneBatch
    { db with receipts := (beyond.map Sigma.fst).foldl (fun t key => t.delete key) kept }

/-- `storedCompletionObservedRuntime`: the evidence a legacy receipt is compared
against. -/
def storedCompletionObservedRuntime (row : JobRow) (storedVersion requestGeneration : Int)
    (requestObserved : Option ObservedRuntime) : Option ObservedRuntime :=
  if completionResultHashVersionV2 ≤ storedVersion || requestObserved.isNone ||
      row.leaseGeneration ≠ requestGeneration || row.status.terminal = false then none
  else row.payload.decode.bind (·.observedRuntime)

/-- The replay gate of `CompleteJob`. -/
def replayCompletion (c : Call) (row : JobRow) (receipt : CompletionReceipt)
    (result : CompletionResult) (db : DB) : Except StoreError DB :=
  match db.liveReceipt c.now (receipt.jobID, receipt.generation, receipt.runnerID) with
  | some stored =>
    if completionReceiptReplayMatches stored.resultHash stored.resultHashVersion
        receipt.resultHash receipt.resultHashVersion result
        (storedCompletionObservedRuntime row stored.resultHashVersion receipt.generation
          result.observed) = true then
      pure db
    else throw .completionConflict
  | none =>
    if row.leaseGeneration ≠ receipt.generation ∨ row.leaseRunnerID ≠ receipt.runnerID then
      throw .generationMismatch
    else throw .leaseConflict

def artifactProvenanceRequired : String := "required"

def DB.artifactPresent (db : DB) (jobID : JobID) (generation : Int) (contract : ArtifactContract) :
    Bool :=
  match db.artifacts.get? (jobID, generation, contract.name) with
  | some a => contract.provenance ≠ artifactProvenanceRequired || a.provenanceSHA256 ≠ ""
  | none => false

/-- `requiredArtifactMissingTx`: the first required artifact that is missing. -/
def requiredArtifactMissingTx (jobID : JobID) (generation : Int) (payload : Payload) (db : DB) :
    Option String :=
  (payload.artifactContracts.find? fun contract =>
    contract.required && !db.artifactPresent jobID generation contract).map (·.name)

/-- The artifact gate of a successful completion. -/
def requireArtifactsTx (st : Status) (receipt : CompletionReceipt) (payload : Payload) (db : DB) :
    Except StoreError Unit :=
  if st = .success then
    match requiredArtifactMissingTx receipt.jobID receipt.generation payload db with
    | some name => throw (.requiredArtifactMissing name)
    | none => pure ()
  else pure ()

/-- The statuses a completion may report; anything else is a failure. -/
def completionStatus (status : Status) : Status :=
  match status with
  | .success | .failure | .cancelled | .skipped => status
  | _ => .failure

/-- The job row `CompleteJob` writes. -/
def JobRow.complete (row : JobRow) (now : Time) (j : Job) (receipt : CompletionReceipt)
    (result : CompletionResult) : JobRow :=
  let j := { j with
    outputs := result.outputs
    attemptRunnerID := receipt.runnerID
    observedRuntime := result.observed
    observedExecutionSemantics :=
      if receipt.observedExecutionSemantics ≠ "" then receipt.observedExecutionSemantics
      else if j.executionSemantics ≠ "" then j.executionSemantics
      else j.observedExecutionSemantics }
  { row.leave j (completionStatus result.status) result.errMsg (some now) with
    outputs := result.outputs }

def CompletionReceipt.storedVersion (receipt : CompletionReceipt) : Int :=
  if receipt.resultHashVersion ≤ 0 then completionResultHashVersionV2
  else receipt.resultHashVersion

/-- The receipt insert of `CompleteJob`.  `none` is the exact replay of a receipt
that is already there, which discards the transaction and acknowledges. -/
def insertReceiptTx (c : Call) (receipt : CompletionReceipt) (result : CompletionResult) (db : DB) :
    Except StoreError (Option DB) :=
  let key := (receipt.jobID, receipt.generation, receipt.runnerID)
  match db.liveReceipt c.now key with
  | some stored =>
    if completionReceiptReplayMatches stored.resultHash stored.resultHashVersion
        receipt.resultHash receipt.storedVersion { result with status := completionStatus result.status }
        none = true then
      pure none
    else throw .completionConflict
  | none =>
    -- an aged-out receipt under the key is reclaimed first
    pure (some { db with
      receipts := db.receipts.put key ⟨receipt.resultHash, receipt.storedVersion, c.now⟩ })

def newCompletionEffectKinds : List String :=
  ["completion_reconcile", "forge_delivery", "execution_attest"]

/-- `insertCompletionEffectsTx`: a strict insert of the effect intents. -/
def insertCompletionEffectsTx (jobID : JobID) (generation : Int) (db : DB) :
    Except StoreError DB := do
  let intents := newCompletionEffectKinds.map fun kind => (jobID, generation, kind)
  require (∀ intent ∈ intents, intent ∉ db.outbox) (.constraint "outbox_pkey")
  pure { db with outbox := db.outbox ++ intents }

/-- `CompleteJob` under a running lease. -/
def completeActive (c : Call) (row : JobRow) (receipt : CompletionReceipt)
    (result : CompletionResult) (start : DB) : Except StoreError DB := do
  require (row.leaseExpiresAt.any (c.now < ·) = true) .leaseConflict
  let j ← orThrow row.payload.decode (.decode "job payload")
  let st := completionStatus result.status
  requireArtifactsTx st receipt row.payload start
  let db := { start with
    jobs := start.jobs.put receipt.jobID (row.complete c.now j receipt result) }
  let db := adjustQuotaTx (repoIDForJob j) (-1) 0 db
  let db := releaseResourcesTx receipt.jobID db
  match ← insertReceiptTx c receipt result db with
  | none => pure start
  | some db => do
    let db := pruneCompletionReceiptsTx c db
    let db ← completeRunnerTx receipt.runnerID receipt.jobID st db
    let db ← recomputeDependentsTx c.now receipt.jobID db
    let db ← recomputeRunTx c.now row.runID db
    insertCompletionEffectsTx receipt.jobID receipt.generation db

def completeJob (c : Call) (jobID : JobID) (generation : Int) (runnerID : RunnerID)
    (result : CompletionResult) (receipt : CompletionReceipt) (db : DB) : Except StoreError DB := do
  validateID jobID
  require (0 ≤ generation) (.failed ("storage: invalid lease generation " ++ toString generation))
  require (receipt.jobID = jobID ∧ receipt.generation = generation ∧ receipt.runnerID = runnerID)
    (.failed "storage: completion receipt identity mismatch")
  beginSchemaCompatibleTx c db
  let row ← orThrow (db.jobs.get? jobID) .notFound
  if row.leaseGeneration ≠ generation ∨ row.leaseRunnerID ≠ runnerID ∨ row.status ≠ .running then
    replayCompletion c row receipt result db
  else completeActive c row receipt result db

/-!
Rebuilding the reservation ledger: `ReconcileResourceReservations` of
`postgres_resource_reconcile.go`, which a promoted leader runs before it issues
leases.

The amount of a rebuilt row is computed in SQL from the job's payload
(`resourceRequestSQL`), not taken from the claim that reserved it.
-/

/-- A guarded payload number: what is negative or beyond the ledger column reads
as nothing. -/
def guarded (limit : Option Int) (v : Int) : Int :=
  if v < 0 then 0
  else match limit with
    | some limit => if limit < v then 0 else v
    | none => v

/-- The largest value of a ledger column; the CPU column is a float. -/
def ledgerLimit : Dimension → Option Int
  | .cpu => none
  | .memory | .disk => some 9223372036854775807
  | .pids => some 2147483647

/-- `legacyServiceEnvelopeSQL`: services of a container job, and no envelope key. -/
def Payload.legacyServices (p : Payload) : Bool :=
  !p.envelopeKey &&
    match p.job.compiledJobPayload.bind (·.effectiveJob) with
    | some cj => cj.runtime = "container" && 0 < cj.services
    | none => false

/-- One dimension of `resourceRequestSQL`: the job's own request and its envelope,
or its own request twice for a legacy job with services. -/
def Payload.requestAt (p : Payload) (d : Dimension) : Int :=
  let own := guarded (ledgerLimit d) (p.job.resourceRequest.at d)
  own +
    if p.envelopeKey then guarded (ledgerLimit d) (p.job.serviceEnvelopeRequest.at d)
    else if p.legacyServices then own
    else 0

/-- `resourceRequestSQL`. -/
def Payload.requestSQL (p : Payload) : ResourceCapacity where
  cpu := p.requestAt .cpu
  memory := p.requestAt .memory
  disk := p.requestAt .disk
  pids := p.requestAt .pids

@[simp] theorem Payload.requestSQL_at (p : Payload) (d : Dimension) :
    p.requestSQL.at d = p.requestAt d := by
  cases d <;> rfl

def deleteStaleReservationsTx (db : DB) : DB :=
  { db with reservations := db.reservations.deleteWhere fun id r => !db.liveReservation id r }

/-- The upsert of one job: a row with a newer generation is left alone. -/
def upsertReservation (reservations : Table JobID ResourceReservation)
    (entry : Sigma fun _ : JobID => JobRow) : Table JobID ResourceReservation :=
  let (id, row) := (entry.1, entry.2)
  if row.status ≠ .running ∨ row.leaseRunnerID = "" then reservations
  else
    let fresh : ResourceReservation :=
      { runnerID := row.leaseRunnerID, generation := row.leaseGeneration
        amount := row.payload.requestSQL }
    match reservations.get? id with
    | some old => if old.generation ≤ fresh.generation then reservations.put id fresh else reservations
    | none => reservations.put id fresh

def reconcileResourceReservations (c : Call) (db : DB) : Except StoreError DB := do
  beginFencedTx c db
  let db := deleteStaleReservationsTx db
  let db := { db with reservations := db.jobs.rows.foldl upsertReservation db.reservations }
  pure (deleteStaleReservationsTx db)

/-!
The store as a state machine: its operations as one type, the transaction each
stands for, and the state a call leaves behind.
-/

/-- The lifecycle operations of the PostgreSQL store. -/
inductive Op where
  | approveJob (c : Call) (jobID : JobID) (actor : String)
  | acquireLeaseAtomic (c : Call) (claim : LeaseClaim)
  | heartbeatLease (c : Call) (jobID : JobID) (runnerID : RunnerID) (generation : Int)
      (expiresAt : Time)
  | heartbeatLeaseWithTTL (c : Call) (jobID : JobID) (runnerID : RunnerID) (generation ttl : Int)
  | completeJob (c : Call) (jobID : JobID) (generation : Int) (runnerID : RunnerID)
      (result : CompletionResult) (receipt : CompletionReceipt)
  | cancelRunJobs (c : Call) (runID : RunID) (reason : String)
  | recoverExpiredLease (c : Call) (jobID : JobID) (expectedGeneration : Int)
  | revokeRunnerLeases (c : Call) (runnerID : RunnerID) (reason : String)
  | expireQueuedJob (c : Call) (jobID : JobID) (observed : Option Time)
  | insertCompiledRun (c : Call) (req : InsertCompiledRunRequest)
  | insertGeneratedFragment (c : Call) (req : GeneratedFragmentRequest)
      (verify : Job → Nat → Time → Except StoreError Unit)
  | releaseRunnerJob (c : Call) (runnerID : RunnerID) (jobID : JobID) (status : Status)
  | reconcileResourceReservations (c : Call)

/-- The transaction of a call. -/
def Op.exec : Op → DB → Except StoreError DB
  | .approveJob c jobID actor => Storage.approveJob c jobID actor
  | .acquireLeaseAtomic c claim => Storage.acquireLeaseAtomic c claim
  | .heartbeatLease c jobID runnerID generation expiresAt =>
    Storage.heartbeatLease c jobID runnerID generation expiresAt
  | .heartbeatLeaseWithTTL c jobID runnerID generation ttl =>
    Storage.heartbeatLeaseWithTTL c jobID runnerID generation ttl
  | .completeJob c jobID generation runnerID result receipt =>
    Storage.completeJob c jobID generation runnerID result receipt
  | .cancelRunJobs c runID reason => Storage.cancelRunJobs c runID reason
  | .recoverExpiredLease c jobID generation => Storage.recoverExpiredLease c jobID generation
  | .revokeRunnerLeases c runnerID reason => Storage.revokeRunnerLeases c runnerID reason
  | .expireQueuedJob c jobID observed => Storage.expireQueuedJob c jobID observed
  | .insertCompiledRun c req => Storage.insertCompiledRun c req
  | .insertGeneratedFragment c req verify => Storage.insertGeneratedFragmentTx c req verify
  | .releaseRunnerJob c runnerID jobID status => fun db =>
    (Storage.releaseRunnerJob c runnerID jobID status db).map Prod.fst
  | .reconcileResourceReservations c => Storage.reconcileResourceReservations c

/-- The store after a call; a failed transaction leaves it as it was. -/
def step (op : Op) (db : DB) : DB := commit (op.exec db) db

/-!
What the store's operations may do to a job row.

`JobRow.Evolves` collects, once and for all, what every operation but a claim
guarantees about a row it may rewrite: its place in the run, its lease
generation and everything enqueueing fixed about the job stay, it does not start
running, and once over it stays as it is.  The relation is a preorder, so a
transaction evolves the rows when each of its writes does.  `DB.Evolves` lifts
it to the store and adds what the operations leave alone.

That a job stays over rests on the payload copy of its status.  A row is
`Coherent` when, once it is over, that copy agrees with the column; the
operations keep that too.
-/

open Table

/-! ## Rows -/

/-- Once the job is over, a decodable payload says so too. -/
def JobRow.Coherent (row : JobRow) : Prop :=
  row.status.terminal = true → row.payload.decodes = true → row.payload.job.status = row.status

/-- What an operation other than a claim may do to a job row. -/
structure JobRow.Evolves (old new : JobRow) : Prop where
  runID : new.runID = old.runID
  key : new.key = old.key
  generation : new.leaseGeneration = old.leaseGeneration
  spec : new.payload.job.spec = old.payload.job.spec
  decodes : new.payload.decodes = old.payload.decodes
  envelopeKey : old.payload.envelopeKey = true → new.payload.envelopeKey = true
  notStarted : new.status = .running →
    old.status = .running ∧ new.leaseRunnerID = old.leaseRunnerID
  coherent : old.Coherent → new.Coherent
  absorbing : old.Coherent → old.status.terminal = true → new.status = old.status

namespace JobRow.Evolves

theorem refl (row : JobRow) : row.Evolves row where
  runID := rfl
  key := rfl
  generation := rfl
  spec := rfl
  decodes := rfl
  envelopeKey := id
  notStarted := fun running => ⟨running, rfl⟩
  coherent := id
  absorbing := fun _ _ => rfl

theorem trans {a b c : JobRow} (first : a.Evolves b) (second : b.Evolves c) : a.Evolves c where
  runID := second.runID.trans first.runID
  key := second.key.trans first.key
  generation := second.generation.trans first.generation
  spec := second.spec.trans first.spec
  decodes := second.decodes.trans first.decodes
  envelopeKey := second.envelopeKey ∘ first.envelopeKey
  notStarted := fun running =>
    have middle := second.notStarted running
    ⟨(first.notStarted middle.1).1, middle.2.trans (first.notStarted middle.1).2⟩
  coherent := second.coherent ∘ first.coherent
  absorbing := fun coherent isOver =>
    have middle := first.absorbing coherent isOver
    (second.absorbing (first.coherent coherent) (middle ▸ isOver)).trans middle

variable {row : JobRow} {j : Job} {status : Status} {error : String} {finishedAt : Option Time}

theorem leave (decodes : row.payload.decodes = true) (same : j.spec = row.payload.job.spec)
    (unsettled : row.status.terminal = false) (stops : status ≠ .running) :
    row.Evolves (row.leave j status error finishedAt) where
  runID := rfl
  key := rfl
  generation := rfl
  spec := same
  decodes := decodes.symm
  envelopeKey := fun _ => rfl
  notStarted := fun running => absurd running stops
  coherent := fun _ _ _ => rfl
  absorbing := fun _ isOver => by simp [unsettled] at isOver

/-- The same for a job whose payload does not decode and stays as it is. -/
theorem leaveColumns (corrupt : row.payload.decodes = false)
    (unsettled : row.status.terminal = false) (stops : status ≠ .running) :
    row.Evolves (row.leaveColumns status error finishedAt) :=
  { refl row with
    notStarted := fun running => absurd running stops
    coherent := fun _ _ decodes => by
      rw [show (row.leaveColumns status error finishedAt).payload = row.payload from rfl,
        corrupt] at decodes
      exact absurd decodes (by decide)
    absorbing := fun _ isOver => by simp [unsettled] at isOver }

theorem complete (decodes : row.payload.decodes = true) (same : j.spec = row.payload.job.spec)
    (unsettled : row.status.terminal = false) :
    row.Evolves (row.complete now j receipt result) := by
  have left : row.Evolves (row.leave j (completionStatus result.status) "" none) :=
    leave decodes same unsettled (by cases result.status <;> simp [completionStatus])
  exact { left with }

theorem renew (expiresAt : Option Time) : row.Evolves { row with leaseExpiresAt := expiresAt } :=
  { refl row with }

theorem annotate (contracts : List ArtifactContract) :
    row.Evolves { row with payload := { row.payload with artifactContracts := contracts } } :=
  { refl row with }

end JobRow.Evolves

theorem Payload.decode_eq_some {p : Payload} {j : Job} :
    p.decode = some j ↔ p.decodes = true ∧ p.job = j := by
  unfold Payload.decode
  split <;> simp_all

theorem Payload.decode_eq_none {p : Payload} : p.decode = none ↔ p.decodes = false := by
  unfold Payload.decode
  split <;> simp_all

structure JobRow.Merged (id : JobID) (row : JobRow) (j : Job) : Prop where
  decodes : row.payload.decodes = true
  id : j.id = id
  status : j.status = row.status
  attempts : j.attempts = row.attempts
  generation : j.leaseGeneration = row.leaseGeneration
  spec : j.spec = row.payload.job.spec
  approval : j.approvedBy = row.payload.job.approvedBy

theorem JobRow.merged_of_job {id : JobID} {row : JobRow} {j : Job} (read : row.job id = some j) :
    row.Merged id j := by
  obtain ⟨copy, decoded, rfl⟩ := Option.map_eq_some_iff.mp read
  obtain ⟨decodes, rfl⟩ := Payload.decode_eq_some.mp decoded
  exact ⟨decodes, rfl, rfl, rfl, rfl, rfl, rfl⟩

end KiwiCI.Storage
