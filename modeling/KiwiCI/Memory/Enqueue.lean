import KiwiCI.Storage.Enqueue

/-!
The in-memory store and its `InsertCompiledRun` (`faultstore.go`).

The store is a set of maps under one mutex.  There is no rollback: a call that
fails leaves whatever it wrote, so `InsertCompiledRun` stages everything first
and writes at the end.  A nested map is a table keyed by the pair, and the order
of a list stands for the order Go iterates a map in.
-/

namespace KiwiCI.Memory

open Storage

/-! ## The store -/

/-- `DownstreamLink`, as far as a launch claims it. -/
structure DownstreamLink where
  childRunID : RunID := ""
  stableChildID : String := ""
  reserved : Bool := false
  reservedAt : Option Time := none
  deriving DecidableEq, Repr

structure AuditEvent where
  id : String
  action : String
  actor : String
  runID : RunID
  jobID : JobID
  message : String
  createdAt : Time
  deriving DecidableEq, Repr

structure GeneratedFragmentReceipt where
  parentJobID : JobID
  leaseGeneration : Int
  mutationSlot : String
  fragmentID : String
  children : List (String × JobID)
  createdAt : Time
  deriving DecidableEq, Repr

/-- The maps of `memStore`. -/
structure Tables where
  runs : Table RunID Run := .empty
  jobs : Table JobID Job := .empty
  runners : Table RunnerID Runner := .empty
  reservations : Table JobID ResourceReservation := .empty
  quotas : Table String QuotaRow := .empty
  contracts : Table JobID (List ArtifactContract) := .empty
  deliveries : Table String String := .empty
  runIdempotency : Table String RunIdempotencyClaim := .empty
  occurrences : Table (String × Time) RunID := .empty
  downstream : Table String DownstreamLink := .empty
  fragments : Table String GeneratedFragmentReceipt := .empty
  audit : List AuditEvent := []

/-- `memStore`: its maps, the retained leadership epoch, and the failure a test
can inject into an enqueue. -/
structure Store extends Tables where
  leaderEpoch : Int := 1
  enqueueFaultOps : Int := 0
  enqueueFaultErr : Option StoreError := none

/-- A call on the store. -/
abbrev Action := Attempt StoreError Store

/-! ## Pieces -/

def fenceLeader (m : Store) : Except StoreError Unit := require (0 < m.leaderEpoch) .staleLeader

def deliveryKey (claim : WebhookClaim) : String := claim.forge ++ "/" ++ claim.deliveryID

def memIdempotencyKey (repoID key : String) : String := repoID ++ "\x00" ++ key

/-- One key of `adjustQuotaLocked`; a missing counter starts at zero. -/
def adjustQuotaKey (runningDelta queuedDelta : Int) (quotas : Table String QuotaRow)
    (key : String) : Table String QuotaRow :=
  let q := (quotas.get? key).getD {}
  quotas.put key
    { running := max (q.running + runningDelta) 0, queued := max (q.queued + queuedDelta) 0 }

def adjustQuotaLocked (repoID : String) (runningDelta queuedDelta : Int) (m : Tables) : Tables :=
  { m with quotas := (quotaKeys repoID).foldl (adjustQuotaKey runningDelta queuedDelta) m.quotas }

def releaseReservationLocked (jobID : JobID) (m : Tables) : Tables :=
  { m with reservations := m.reservations.delete jobID }

def releaseRunnerSlotLocked (runnerID : RunnerID) (jobID : JobID) (m : Tables) : Tables :=
  { m with
    runners := m.runners.modify runnerID fun r =>
      let active := removeString r.activeJobs jobID
      { r with
        activeJobs := active
        currentJob := match active with
          | [] => ""
          | first :: _ => if r.currentJob = jobID then first else r.currentJob
        busy := 0 < r.capacity && r.capacity ≤ active.length } }

/-- One job of `recomputeDependentsLocked`. -/
def recomputeDependentLocked (cancelled : List JobID) (now : Time) (m : Tables) (id : JobID) :
    Tables :=
  match m.jobs.get? id with
  | none => m
  | some j =>
    if j.status.waiting = false ∨ j.needs.all (fun dep => dep ∉ cancelled) then m
    else
      match dependencyOutcome (fun dep => (m.jobs.get? dep).map (·.status)) j.needs with
      | none => m
      | some outcome => { m with jobs := m.jobs.put id (resolveDependent now j outcome) }

def recomputeDependentsLocked (cancelled : List JobID) (now : Time) (m : Tables) : Tables :=
  if cancelled = [] then m
  else (m.jobs.select fun _ _ => true).foldl (recomputeDependentLocked cancelled now) m

def supersededJobIDsLocked (p : SupersedePolicy) (newRunID : RunID) (m : Tables) : List JobID :=
  let repoID := Text.trimSpace p.repoID
  let group := Text.trimSpace p.concurrencyGroup
  if repoID = "" || group = "" then []
  else
    let runIDs := m.runs.select fun id r =>
      id ≠ newRunID && !r.status.terminal && repoIDForRun r = repoID && r.concurrencyGroup = group
    (runIDs.flatMap fun runID =>
      m.jobs.select fun _ j => j.runID = runID && !j.status.terminal).insertionSort (· ≤ ·)

/-! ## Staging -/

/-- A job the enqueue will cancel. -/
structure CancelStage where
  id : JobID
  job : Job
  wasRunning : Bool
  runnerID : RunnerID

/-- `bumpStaged`: the injected failure, if the operation is the one it is set for. -/
def bumpStaged (stagedOps : Int) : Action Int := do
  let m ← get
  if m.enqueueFaultOps ≤ 0 then pure stagedOps
  else if stagedOps + 1 < m.enqueueFaultOps then pure (stagedOps + 1)
  else do
    modify fun m => { m with enqueueFaultOps := 0, enqueueFaultErr := none }
    throw (m.enqueueFaultErr.getD (.failed "storage: injected enqueue failure"))

def stageDownstream (claim : DownstreamLaunchClaim) (runID : RunID) (m : Tables) :
    Except StoreError (String × DownstreamLink) := do
  let parts := Text.split '\x00' claim.linkKey
  require (parts.length = 3 ∧ ∀ part ∈ parts, part ≠ "")
    (.failed "storage: malformed downstream launch claim")
  require (claim.stableChildID.utf8ByteSize = 64)
    (.failed "storage: malformed downstream stable child id")
  let link ← orThrow (m.downstream.get? claim.linkKey)
    (.failed "storage: downstream launch claim link missing")
  require (link.childRunID = "" ∨ link.childRunID ≠ runID) .downstreamLaunched
  require (link.childRunID = "") (.failed "storage: downstream launch claim lost")
  pure (claim.linkKey,
    { link with childRunID := runID, stableChildID := claim.stableChildID, reserved := false
                reservedAt := none })

/-- The counters under one key of a reservation, checked against its limits. -/
def stageQuotaKey (q : QuotaReservation) (m : Tables) (key : String) :
    Except StoreError (String × QuotaRow) := do
  let row := (m.quotas.get? key).getD {}
  let row := { row with queued := row.queued + max q.jobCount 0 }
  if key = q.teamKey then
    quotaLimitCheck "TEAM_QUOTA" "team" q.teamConcurrency q.teamQueueDepth row
  else quotaLimitCheck "REPO_QUOTA" "repository" q.repoConcurrency q.repoQueueDepth row
  pure (key, row)

/-- The cancellation of one job, unless it is gone or over. -/
def stageCancel (runID : RunID) (now : Time) (acc : List CancelStage × Int) (id : JobID) :
    Action (List CancelStage × Int) := do
  let m ← get
  match m.jobs.get? id with
  | none => pure acc
  | some j =>
    if j.status.terminal then pure acc
    else do
      let stage : CancelStage :=
        { id
          job := { j with
            status := .cancelled, error := "superseded by run " ++ runID, finishedAt := some now
            leaseRunnerID := "", leaseTokenHash := [], leaseExpiresAt := none }
          wasRunning := j.status = .running
          runnerID := j.leaseRunnerID }
      let stagedOps ← bumpStaged acc.2
      pure (acc.1 ++ [stage], stagedOps)

/-- One job of the new run. -/
def stageJob (deps : List (JobID × List JobID)) (acc : List (JobID × Job) × Int)
    (entry : JobID × Job) : Action (List (JobID × Job) × Int) := do
  let stagedOps ← bumpStaged acc.2
  pure (acc.1 ++ [(entry.1, { entry.2 with needs := effectiveNeeds entry.1 entry.2 deps })], stagedOps)

/-- What an enqueue will write. -/
structure Staged where
  downstream : Option (String × DownstreamLink)
  quotas : List (String × QuotaRow)
  cancels : List CancelStage
  jobs : List (JobID × Job)

/-- What `InsertCompiledRun` checks before it stages any job: the leader fence, the
downstream launch, the primary keys, the quota and the schedule occurrence. -/
def admitEnqueue (req : InsertCompiledRunRequest) (m : Store) :
    Except StoreError (Option (String × DownstreamLink) × List (String × QuotaRow)) := do
  require (req.run.id ≠ "") (.failed "storage: empty run id")
  if req.scheduleClaim.isSome then fenceLeader m
  let downstream ← match req.downstreamLaunch with
    | none => pure none
    | some claim => (stageDownstream claim req.run.id m.toTables).map some
  require (m.runs.get? req.run.id = none)
    (.failed ("storage: run " ++ req.run.id ++ " already exists"))
  match req.jobs.find? fun entry => (m.jobs.get? entry.1).isSome with
  | none => pure ()
  | some entry => throw (.failed ("storage: job " ++ entry.1 ++ " already exists"))
  let quotas ← match req.quota with
    | none => pure []
    | some q => q.keys.mapM (stageQuotaKey q m.toTables)
  match req.scheduleClaim with
  | none => pure ()
  | some claim =>
    require ((m.occurrences.get? (claim.scheduleID, claim.nominal)).all (· = req.run.id) = true)
      .scheduleClaimLost
  pure (downstream, quotas)

/-- The delivery and idempotency keys of the request are unused. -/
def checkClaims (req : InsertCompiledRunRequest) (m : Tables) : Except StoreError Unit := do
  require (∀ claim ∈ req.webhookClaim.toList ++ req.bodyClaim.toList,
    m.deliveries.get? (deliveryKey claim) = none) .deliveryDuplicate
  match req.idempotency with
  | none => pure ()
  | some claim =>
    match m.runIdempotency.get? (memIdempotencyKey claim.repoID claim.key) with
    | none => pure ()
    | some stored =>
      if stored.digest = claim.digest then throw (.idempotentReplay stored.runID)
      else throw .idempotencyKeyConflict

/-- The jobs the request cancels: those it names, then those its policy selects. -/
def cancelIDs (req : InsertCompiledRunRequest) (m : Tables) : List JobID :=
  (req.cancelPrevious ++
    req.supersede.elim [] fun p => supersededJobIDsLocked p req.run.id m).eraseDups

def stageEnqueue (now : Time) (req : InsertCompiledRunRequest) : Action Staged := do
  let m ← get
  let (downstream, quotas) ← Attempt.lift (admitEnqueue req m)
  let (cancels, stagedOps) ← (cancelIDs req m.toTables).foldlM (stageCancel req.run.id now) ([], 0)
  let (jobs, _) ← req.jobs.foldlM (stageJob req.deps) ([], stagedOps)
  Attempt.lift (checkClaims req m.toTables)
  pure { downstream, quotas, cancels, jobs }

/-! ## Writing -/

/-- One superseded job. -/
def commitCancel (now : Time) (m : Tables) (stage : CancelStage) : Tables :=
  let m := { m with
    jobs := m.jobs.put stage.id stage.job
    audit := m.audit ++ [{
      id := stage.id ++ "|audit", action := "job.superseded", actor := "scheduler"
      runID := stage.job.runID, jobID := stage.id, message := "cancelled", createdAt := now }] }
  let m := releaseReservationLocked stage.id m
  if stage.wasRunning then
    let m := adjustQuotaLocked (repoIDForJob stage.job) (-1) 0 m
    if stage.runnerID ≠ "" then releaseRunnerSlotLocked stage.runnerID stage.id m else m
  else adjustQuotaLocked (repoIDForJob stage.job) 0 (-1) m

/-- A superseded run. -/
def commitCancelledRun (now : Time) (m : Tables) (runID : RunID) : Tables :=
  { m with
    runs := m.runs.modify runID fun r =>
      if r.status.terminal then r else { r with status := .cancelled, finishedAt := some now } }

/-- One job of the new run, with its contracts. -/
def commitJob (contracts : List (JobID × List ArtifactContract)) (m : Tables)
    (entry : JobID × Job) : Tables :=
  { m with
    jobs := m.jobs.put entry.1 entry.2
    contracts := (contracts.lookup entry.1).elim m.contracts (m.contracts.put entry.1 ·) }

/-- The superseded jobs, their dependents and their runs. -/
def commitSupersession (now : Time) (cancels : List CancelStage) (m : Tables) : Tables :=
  let m := cancels.foldl (commitCancel now) m
  let m := recomputeDependentsLocked (cancels.map (·.id)) now m
  ((cancels.map (·.job.runID)).filter (· ≠ "")).dedup.foldl (commitCancelledRun now) m

/-- The deliveries, the receipt and the schedule occurrence of the request. -/
def commitClaims (req : InsertCompiledRunRequest) (m : Tables) : Tables :=
  { m with
    deliveries := (req.webhookClaim.toList ++ req.bodyClaim.toList).foldl (fun deliveries claim =>
      deliveries.put (deliveryKey claim) (req.run.id ++ "/" ++ claim.payloadDigest)) m.deliveries
    runIdempotency := req.idempotency.elim m.runIdempotency fun claim =>
      m.runIdempotency.put (memIdempotencyKey claim.repoID claim.key) claim
    occurrences := req.scheduleClaim.elim m.occurrences fun claim =>
      m.occurrences.put (claim.scheduleID, claim.nominal) req.run.id }

/-- The downstream launch and the quota. -/
def commitReservations (staged : Staged) (m : Tables) : Tables :=
  { m with
    downstream := staged.downstream.elim m.downstream fun (key, link) => m.downstream.put key link
    quotas := staged.quotas.foldl (fun quotas (key, row) => quotas.put key row) m.quotas }

def commitRun (req : InsertCompiledRunRequest) (jobs : List (JobID × Job)) (m : Tables) : Tables :=
  jobs.foldl (commitJob req.contracts) { m with runs := m.runs.put req.run.id req.run }

/-- Everything an enqueue writes. -/
def commitEnqueue (now : Time) (req : InsertCompiledRunRequest) (staged : Staged) (m : Tables) :
    Tables :=
  let m := commitReservations staged m
  let m := commitSupersession now staged.cancels m
  let m := commitRun req staged.jobs m
  commitClaims req m

def insertCompiledRun (now : Time) (req : InsertCompiledRunRequest) : Action Unit := do
  let staged ← stageEnqueue now req
  modify fun m => { m with toTables := commitEnqueue now req staged m.toTables }

/-!
The in-memory `InsertCompiledRun` is all or nothing, and inserts at most one run
for a delivery or an idempotency key.

Its staging reads the maps and writes none of them (`stageEnqueue_frames`), and
its writes cannot fail, so a call that fails leaves every map as it was.  A call
that succeeds found its keys unused and records them; nothing an enqueue writes
removes a key, so a later call with one of them fails.
-/

variable {req : InsertCompiledRunRequest}

open Storage Table Attempt List

/-! ## A failed call leaves every map -/

theorem bumpStaged_frames (stagedOps : Int) : Frames Store.toTables (bumpStaged stagedOps) where
  ok := fun s a s' ran => by
    obtain ⟨m, mid, read, rest⟩ := bind_ok.mp ran
    obtain ⟨rfl, rfl⟩ := get_ok.mp read
    split at rest
    · rw [(pure_ok.mp rest).2]
    · split at rest
      · rw [(pure_ok.mp rest).2]
      · obtain ⟨_, last, _, thrown⟩ := bind_ok.mp rest
        cases thrown
  error := fun s e s' ran => by
    rcases bind_error.mp ran with read | ⟨m, mid, read, rest⟩
    · cases read
    · obtain ⟨rfl, rfl⟩ := get_ok.mp read
      split at rest
      · cases rest
      · split at rest
        · cases rest
        -- the injected failure clears itself, which is no map
        · rcases bind_error.mp rest with written | ⟨_, last, written, thrown⟩
          · cases written
          · rw [modify_ok] at written
            cases thrown
            rw [written]

theorem stageCancel_frames (runID : RunID) (now : Time) (acc : List CancelStage × Int) (id : JobID) :
    Frames Store.toTables (stageCancel runID now acc id) := by
  refine Frames.get.bind fun m => ?_
  split
  · exact .pure acc
  · split
    · exact .pure acc
    · exact (bumpStaged_frames _).bind fun _ => .pure _

theorem stageEnqueue_frames (now : Time) (req : InsertCompiledRunRequest) :
    Frames Store.toTables (stageEnqueue now req) := by
  refine Frames.get.bind fun m => (Frames.lift _).bind fun _ => ?_
  refine (Frames.foldlM (stageCancel_frames _ _) _ _).bind fun _ => ?_
  refine (Frames.foldlM (fun _ _ => (bumpStaged_frames _).bind fun _ => .pure _) _ _).bind
    fun _ => ?_
  exact (Frames.lift _).bind fun _ => .pure _

theorem insertCompiledRun_failsClean (now : Time) (req : InsertCompiledRunRequest) :
    FailsClean Store.toTables (insertCompiledRun now req) :=
  FailsClean.bind (stageEnqueue_frames now req) fun _ => .modify _

/-! ## What a successful call checked and wrote -/

/-- A successful call passed its checks on the maps it found, and wrote them all
at the end. -/
structure Inserted (now : Time) (req : InsertCompiledRunRequest) (staged : Staged)
    (m m' : Tables) : Prop where
  unused : checkClaims req m = .ok ()
  written : m' = commitEnqueue now req staged m

theorem insertCompiledRun_inv (ran : insertCompiledRun now req s = .ok u s') :
    ∃ staged, Inserted now req staged s.toTables s'.toTables := by
  obtain ⟨staged, mid, stage, write⟩ := bind_ok.mp ran
  have same := (stageEnqueue_frames now req).ok _ _ _ stage
  refine ⟨staged, ?_, ?_⟩
  · obtain ⟨m, _, read, rest⟩ := bind_ok.mp stage
    obtain ⟨rfl, rfl⟩ := get_ok.mp read
    obtain ⟨_, _, _, rest⟩ := bind_ok.mp rest
    obtain ⟨_, _, _, rest⟩ := bind_ok.mp rest
    obtain ⟨_, _, _, rest⟩ := bind_ok.mp rest
    obtain ⟨_, _, claims, _⟩ := bind_ok.mp rest
    exact (lift_ok.mp claims).1
  · rw [modify_ok.mp write, ← same]

/-! ## Keys -/

/-- What an enqueue can be a replay of. -/
inductive ReplayKey where
  | delivery (key : String)
  | idempotency (key : String)
  deriving DecidableEq, Repr

def replayKeys (req : InsertCompiledRunRequest) : List ReplayKey :=
  (req.webhookClaim.toList ++ req.bodyClaim.toList).map (fun claim => .delivery (deliveryKey claim)) ++
    req.idempotency.toList.map fun claim => .idempotency (memIdempotencyKey claim.repoID claim.key)

/-- The store has a receipt for the key. -/
def Tables.recorded (m : Tables) : ReplayKey → Bool
  | .delivery key => (m.deliveries.get? key).isSome
  | .idempotency key => (m.runIdempotency.get? key).isSome

/-- A request that passes the check carries no recorded key. -/
theorem checkClaims_unused
    (ran : checkClaims req m = .ok ()) : ∀ key ∈ replayKeys req, m.recorded key = false := by
  obtain ⟨_, deliveries, receipt⟩ := bind_ok_iff.mp ran
  rw [require_ok_iff] at deliveries
  intro key carried
  rcases mem_append.mp carried with delivery | idempotency
  · obtain ⟨claim, asked, rfl⟩ := mem_map.mp delivery
    simp [Tables.recorded, deliveries claim asked]
  · obtain ⟨claim, asked, rfl⟩ := mem_map.mp idempotency
    rw [Option.mem_toList] at asked
    rw [asked] at receipt
    cases stored : m.runIdempotency.get? (memIdempotencyKey claim.repoID claim.key) with
    | none => simp [Tables.recorded, stored]
    | some claimed =>
      simp only [stored] at receipt
      split at receipt <;> cases receipt

section Writes

variable {m m' : Tables} {now : Time}

def SameReceipts (m m' : Tables) : Prop :=
  m'.deliveries = m.deliveries ∧ m'.runIdempotency = m.runIdempotency

theorem SameReceipts.trans (first : SameReceipts a b) (second : SameReceipts b c) :
    SameReceipts a c :=
  ⟨second.1.trans first.1, second.2.trans first.2⟩

theorem commitCancel_receipts (stage : CancelStage) : SameReceipts m (commitCancel now m stage) := by
  unfold commitCancel
  split
  · split <;> exact ⟨rfl, rfl⟩
  · exact ⟨rfl, rfl⟩

theorem recomputeDependentLocked_receipts (cancelled : List JobID) (id : JobID) :
    SameReceipts m (recomputeDependentLocked cancelled now m id) := by
  unfold recomputeDependentLocked
  split
  · exact ⟨rfl, rfl⟩
  · split
    · exact ⟨rfl, rfl⟩
    · split <;> exact ⟨rfl, rfl⟩

theorem commitSupersession_receipts (cancels : List CancelStage) :
    SameReceipts m (commitSupersession now cancels m) := by
  have jobs : SameReceipts m (cancels.foldl (commitCancel now) m) :=
    foldl_rel (r := SameReceipts) (fun _ => ⟨rfl, rfl⟩) .trans cancels
      (fun stage _ _ => commitCancel_receipts stage) m
  have dependents : ∀ m, SameReceipts m (recomputeDependentsLocked (cancels.map (·.id)) now m) := by
    intro m
    unfold recomputeDependentsLocked
    split
    · exact ⟨rfl, rfl⟩
    · exact foldl_rel (r := SameReceipts) (fun _ => ⟨rfl, rfl⟩) .trans _
        (fun id _ _ => recomputeDependentLocked_receipts _ id) m
  have runs : ∀ (ids : List RunID) m, SameReceipts m (ids.foldl (commitCancelledRun now) m) := fun ids m =>
    foldl_rel (r := SameReceipts) (f := commitCancelledRun now) (fun _ => ⟨rfl, rfl⟩) .trans ids
      (fun _ _ _ => ⟨rfl, rfl⟩) m
  exact (jobs.trans (dependents _)).trans (runs _ _)

theorem commitRun_receipts (req : InsertCompiledRunRequest) (jobs : List (JobID × Job)) :
    SameReceipts m (commitRun req jobs m) :=
  SameReceipts.trans (b := { m with runs := m.runs.put req.run.id req.run }) ⟨rfl, rfl⟩
    (foldl_rel (r := SameReceipts) (f := commitJob req.contracts) (fun _ => ⟨rfl, rfl⟩) .trans jobs
      (fun _ _ _ => ⟨rfl, rfl⟩) _)

/-- A delivery table after some deliveries are written. -/
theorem isSome_deliveries {claims : List WebhookClaim} {value : WebhookClaim → String}
    {deliveries : Table String String} :
    ((claims.foldl (fun deliveries claim => deliveries.put (deliveryKey claim) (value claim))
        deliveries).get? key).isSome = true ↔
      (deliveries.get? key).isSome = true ∨ ∃ claim ∈ claims, deliveryKey claim = key := by
  induction claims generalizing deliveries with
  | nil => simp
  | cons claim claims ih =>
    rw [foldl_cons, ih, get?_put]
    by_cases same : key = deliveryKey claim
    · simp [same]
    · simp [same, Ne.symm same]

theorem commitEnqueue_recorded {staged : Staged} {key : ReplayKey} :
    (commitEnqueue now req staged m).recorded key = true ↔
      m.recorded key = true ∨ key ∈ replayKeys req := by
  have before : SameReceipts m (commitRun req staged.jobs
      (commitSupersession now staged.cancels (commitReservations staged m))) :=
    SameReceipts.trans (b := commitReservations staged m) ⟨rfl, rfl⟩
      ((commitSupersession_receipts _).trans (commitRun_receipts _ _))
  unfold commitEnqueue
  dsimp only
  generalize commitRun req staged.jobs
    (commitSupersession now staged.cancels (commitReservations staged m)) = mid at before
  obtain ⟨deliveries, receipts⟩ := before
  cases key with
  | delivery key =>
    simp only [Tables.recorded, commitClaims, deliveries, isSome_deliveries, replayKeys,
      mem_append, mem_map, ReplayKey.delivery.injEq, reduceCtorEq, and_false, exists_false,
      or_false]
  | idempotency key =>
    simp only [Tables.recorded, commitClaims, receipts, replayKeys, mem_append, mem_map,
      ReplayKey.idempotency.injEq, reduceCtorEq, and_false, exists_false, false_or, Option.mem_toList]
    cases req.idempotency with
    | none => simp
    | some claim =>
      simp only [Option.elim_some, get?_put, Option.some.injEq, exists_eq_left']
      by_cases same : key = memIdempotencyKey claim.repoID claim.key
      · simp [same]
      · simp [same, Ne.symm same]

end Writes

/-! ## Histories -/

/-- A call of another kind: anything that drops no receipt. -/
structure OtherCall where
  effect : Store → Store
  keeps : ∀ s key, s.recorded key = true → (effect s).recorded key = true

/-- The calls a store sees. -/
inductive Event where
  | insert (now : Time) (req : InsertCompiledRunRequest)
  | other (call : OtherCall)

/-- A store and the enqueues that succeeded on it, the latest first. -/
structure History where
  store : Store
  inserted : List InsertCompiledRunRequest := []

def History.step (event : Event) (h : History) : History :=
  match event with
  | .insert now req =>
    match insertCompiledRun now req h.store with
    | .ok _ store => { store, inserted := req :: h.inserted }
    | .error _ store => { h with store }
  | .other call => { h with store := call.effect h.store }

/-- The two requests carry a common delivery or idempotency key. -/
def SameKey (a b : InsertCompiledRunRequest) : Prop := ∃ key ∈ replayKeys a, key ∈ replayKeys b

/-- No two enqueues shared a key, and the store has a receipt for every key used. -/
structure History.Once (h : History) : Prop where
  apart : h.inserted.Pairwise fun a b => ¬SameKey a b
  kept : ∀ req ∈ h.inserted, ∀ key ∈ replayKeys req, h.store.recorded key = true

theorem History.Once.step {h : History} (once : h.Once) (event : Event) : (h.step event).Once := by
  cases event with
  | other call =>
    exact ⟨once.apart, fun req mem key carried => call.keeps _ _ (once.kept req mem key carried)⟩
  | insert now req =>
    cases ran : insertCompiledRun now req h.store with
    | error e store =>
      have same := insertCompiledRun_failsClean now req h.store e store ran
      simp only [History.step, ran]
      exact ⟨once.apart, fun req mem key carried => same ▸ once.kept req mem key carried⟩
    | ok u store =>
      obtain ⟨staged, inserted⟩ := insertCompiledRun_inv ran
      simp only [History.step, ran]
      refine ⟨pairwise_cons.mpr ⟨?_, once.apart⟩, fun other mem key carried => ?_⟩
      · rintro other mem ⟨key, mine, theirs⟩
        have unused := checkClaims_unused inserted.unused key mine
        rw [once.kept other mem key theirs] at unused
        cases unused
      · change store.toTables.recorded key = true
        rw [inserted.written, commitEnqueue_recorded]
        rcases mem_cons.mp mem with rfl | earlier
        · exact .inr carried
        · exact .inl (once.kept other earlier key carried)

/-- **Run insertion is all or nothing and happens once.**  An `InsertCompiledRun`
that returns an error leaves every map of the store as it was; and over every
history of enqueues and of calls that drop no receipt, no two of the enqueues
that succeeded carry a common delivery or idempotency key. -/
theorem insertion_atomic_and_once :
    (∀ now req (s : Store) e s', insertCompiledRun now req s = .error e s' →
      s'.toTables = s.toTables) ∧
    ∀ (events : List Event) (s : Store),
      (run History.step events { store := s }).inserted.Pairwise fun a b => ¬SameKey a b := by
  refine ⟨fun now req s e s' ran => insertCompiledRun_failsClean now req s e s' ran, fun events s => ?_⟩
  have first : History.Once { store := s } := ⟨.nil, by simp⟩
  exact (run_invariant (I := History.Once) (fun event h once => once.step event) events first).apart

namespace Replay

/-- An enqueue for one webhook delivery. -/
def request (runID : RunID) : InsertCompiledRunRequest :=
  { run := { id := runID, status := .queued }
    webhookClaim := some { forge := "github", deliveryID := "1", runID } }

/-- The store after the first enqueue. -/
def after : Store :=
  match insertCompiledRun 0 (request "a") {} with
  | .ok _ s | .error _ s => s

/-- The error of an enqueue, if it failed. -/
def refusal (req : InsertCompiledRunRequest) (s : Store) : Option StoreError :=
  match insertCompiledRun 0 req s with
  | .ok _ _ => none
  | .error e _ => some e

end Replay

open Replay in
/-- The delivery comes again: the enqueue is refused and the store stays. -/
theorem replayed_delivery_changes_nothing :
    (after.runs.get? "a").isSome = true ∧ ∃ s', insertCompiledRun 0 (request "b") after =
      .error .deliveryDuplicate s' ∧ s'.toTables = after.toTables := by
  refine ⟨by decide +kernel, ?_⟩
  have refused : refusal (request "b") after = some .deliveryDuplicate := by decide +kernel
  cases ran : insertCompiledRun 0 (request "b") after with
  | ok u s' => rw [refusal, ran] at refused; cases refused
  | error e s' =>
    rw [refusal, ran] at refused
    cases refused
    exact ⟨s', rfl, insertion_atomic_and_once.1 0 (request "b") after _ s' ran⟩

end KiwiCI.Memory
