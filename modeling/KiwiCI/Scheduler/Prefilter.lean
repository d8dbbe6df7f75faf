import KiwiCI.Scheduler
import KiwiCI.Storage.Evolution

/-!
The scheduler's prefilter against the claim.

`eligible` counts the running jobs of a candidate's environment and concurrency
group from two listings before it builds a claim, and `AcquireLeaseAtomic` counts
again.  The environment listing is scoped by repository as the claim's count is;
the group listing is not, so jobs of other repositories fill the candidate's
group in the prefilter only.
-/

namespace KiwiCI.Scheduler

open Storage Table LeaseWalk

/-! ## Listings as counts -/

/-- What a listing shows of the running jobs is what a count over its rows says. -/
theorem othersRunning_listJobs {p : JobRow → Bool} (listed : listJobs p db = .ok jobs) :
    othersRunning candidate jobs =
      db.jobs.count fun id row => p row && (id ≠ candidate.id && row.status = .running) := by
  have pairs := mapM_ok listed
  have same : ∀ {ids : List JobID} {jobs : List Job}, List.Forall₂
      (fun id j => orThrow ((db.jobs.get? id).bind (·.job id))
        (StoreError.decode "job payload") = .ok j) ids jobs →
      othersRunning candidate jobs = ids.countP fun id =>
        (db.jobs.get? id).any fun row => id ≠ candidate.id && row.status = .running := by
    intro ids jobs pairs
    induction pairs with
    | nil => rfl
    | cons read _ ih =>
      obtain ⟨row, found, shown⟩ := Option.bind_eq_some_iff.mp (orThrow_ok_iff.mp read)
      obtain ⟨_, _, rfl⟩ := Option.map_eq_some_iff.mp shown
      rw [List.countP_cons, ← ih, othersRunning, List.countP_cons, found]
      rfl
  rw [same pairs, countP_select]

theorem envRunningOf_eq
    (listed : envRunningOf candidate db = .ok running) (named : candidate.environment ≠ "")
    (limited : 0 < candidate.environmentConcurrency) :
    running = db.envRunning (repoIDForJob candidate) candidate.environment candidate.id := by
  rw [envRunningOf, if_pos ⟨named, limited⟩] at listed
  obtain ⟨jobs, shown, rfl⟩ := map_ok_iff.mp listed
  rw [othersRunning_listJobs shown, DB.envRunning]
  refine count_congr fun id row _ => ?_
  simp only [Bool.and_comm, Bool.and_left_comm, Bool.and_assoc]

/-- The group listing counts the jobs of every repository. -/
theorem groupRunningOf_eq
    (listed : groupRunningOf candidate db = .ok running) (named : candidate.concurrencyGroup ≠ "")
    (limited : 0 < candidate.concurrencyLimit) :
    running = db.groupRunning none candidate.concurrencyGroup candidate.id := by
  rw [groupRunningOf, if_pos ⟨named, limited⟩] at listed
  obtain ⟨jobs, shown, rfl⟩ := map_ok_iff.mp listed
  rw [othersRunning_listJobs shown, DB.groupRunning]
  refine count_congr fun id row _ => ?_
  rw [Option.all_none, Bool.and_true]
  simp only [Bool.and_comm, Bool.and_assoc]

def foreignRunning (repoID group : String) (exclude : JobID) (db : DB) : Nat :=
  db.jobs.count fun id row =>
    row.status = .running && jobRepoIDSQL row.payload.job ≠ repoID &&
      row.payload.job.concurrencyGroup = group && id ≠ exclude

theorem groupRunning_split (db : DB) (repoID group : String) (exclude : JobID) :
    db.groupRunning none group exclude =
      db.groupRunning (some repoID) group exclude + foreignRunning repoID group exclude db := by
  rw [DB.groupRunning, count_split fun _ row => jobRepoIDSQL row.payload.job = repoID]
  refine congrArg₂ (· + ·) ?_ ?_ <;> refine count_congr fun id row _ => ?_
  · rw [Option.all_none, Bool.and_true, Option.all_some, Bool.and_comm]
  · rw [Option.all_none, Bool.and_true, ← decide_not]
    change (decide (jobRepoIDSQL row.payload.job ≠ repoID) && _) = _
    simp [Bool.and_comm, Bool.and_assoc]

/-! ## The prefilter -/

/-- The environment and group clauses of `eligible`. -/
def LeaseWalk.slotsAdmit (w : LeaseWalk) (candidate : Job) (db : DB) : Except StoreError Bool := do
  let envRunning ← envRunningOf candidate db
  let groupRunning ← groupRunningOf candidate db
  let predicate := w.predicate candidate envRunning groupRunning
  pure (predicate.envAdmits && predicate.groupAdmits)

section Clauses

variable {w : LeaseWalk} {candidate : Job} {envRunning groupRunning : Nat}

theorem predicate_envAdmits :
    (w.predicate candidate envRunning groupRunning).envAdmits = true ↔
      (candidate.environment ≠ "" → 0 < candidate.environmentConcurrency →
        (envRunning : Int) < candidate.environmentConcurrency) :=
  limitClause_iff candidate.environment candidate.environmentConcurrency envRunning

theorem predicate_groupAdmits :
    (w.predicate candidate envRunning groupRunning).groupAdmits = true ↔
      (candidate.concurrencyGroup ≠ "" → 0 < candidate.concurrencyLimit →
        (groupRunning : Int) < candidate.concurrencyLimit) :=
  limitClause_iff candidate.concurrencyGroup candidate.concurrencyLimit groupRunning

end Clauses

theorem eligible_of_slots_refused {w : LeaseWalk} {candidate : Job} {db : DB}
    (refused : w.slotsAdmit candidate db = .ok false) : w.eligible candidate db = .ok false := by
  simp only [slotsAdmit, bind_ok_iff, pure_ok_iff] at refused
  obtain ⟨envRunning, env, groupRunning, group, clauses⟩ := refused
  have allows : (w.predicate candidate envRunning groupRunning).allows = false := by
    rw [LeasePredicate.allows, Bool.and_assoc, clauses, Bool.and_false]
  rw [eligible, env]
  change (groupRunningOf candidate db >>= _) = _
  rw [group]
  exact if_pos allows

/-- The running jobs the prefilter counts and the claim does not leave room: those
of other repositories in the candidate's group, and where the candidate has no
repository those of its environment. -/
def hiddenRoom (candidate : Job) (db : DB) : Prop :=
  (candidate.environment ≠ "" → 0 < candidate.environmentConcurrency →
    repoIDForJob candidate = "" →
      (db.envRunning "" candidate.environment candidate.id : Int) < candidate.environmentConcurrency) ∧
  (candidate.concurrencyGroup ≠ "" → 0 < candidate.concurrencyLimit →
    (db.groupRunning (some (repoIDForJob candidate)) candidate.concurrencyGroup candidate.id +
      foreignRunning (repoIDForJob candidate) candidate.concurrencyGroup candidate.id db : Int) <
        candidate.concurrencyLimit)

/-- **When the prefilter agrees with the claim.**  For a candidate whose claim the
store admits, the environment and group clauses of `eligible` let it pass exactly
when the jobs only the prefilter counts leave room; otherwise `eligible` refuses
it. -/
theorem prefilter_agrees_with_claim (w : LeaseWalk) (candidate : Job) (tokenHash : List UInt8)
    (c : Call) (db db' : DB) (passes : Bool) (ran : w.slotsAdmit candidate db = .ok passes)
    (admits : acquireLeaseAtomic c (w.claimFor candidate tokenHash) db = .ok db') :
    (passes = true ↔ hiddenRoom candidate db) ∧
      (passes = false → w.eligible candidate db = .ok false) := by
  refine ⟨?_, fun refused => eligible_of_slots_refused (refused ▸ ran)⟩
  obtain ⟨_, _, row, checked, _⟩ := acquireLeaseAtomic_inv admits
  simp only [slotsAdmit, bind_ok_iff, pure_ok_iff] at ran
  obtain ⟨envRunning, env, groupRunning, group, rfl⟩ := ran
  rw [Bool.and_eq_true, hiddenRoom]
  refine and_congr ?_ ?_
  · rw [predicate_envAdmits]
    constructor
    · intro clause named limited repo
      rw [← repo, ← envRunningOf_eq env named limited]
      exact clause named limited
    · intro room named limited
      rw [envRunningOf_eq env named limited]
      by_cases repo : repoIDForJob candidate = ""
      · rw [repo]
        exact room named limited repo
      -- with a repository the claim has made the same comparison
      · have key : (w.claimFor candidate tokenHash).envKey ≠ "" := by
          apply LeaseClaim.envKey_ne_empty
          · simpa only [claimFor] using repo
          · simpa only [claimFor] using named
        have free := checked.envFree key
        simp only [claimFor] at free
        exact free limited
  · rw [predicate_groupAdmits]
    refine forall_congr' fun named => forall_congr' fun limited => ?_
    rw [groupRunningOf_eq group named limited, groupRunning_split db (repoIDForJob candidate)]
    push_cast
    exact Iff.rfl

/-! ## The runner-side predicates -/

theorem trimmed_of_canonicalRepoID
    (none : Auth.canonicalRepoID host full = "") : Text.trimSpace full = "" := by
  have folded : Auth.foldRepoFullName (Text.trimSpace full) = "" := by
    by_contra named
    have parts : (Auth.canonicalRepoParts host full).2 ≠ "" := by
      unfold Auth.canonicalRepoParts
      dsimp only
      rw [if_neg named]
      split
      · exact named
      · split
        · split
          · rename_i below
            rintro rfl
            rw [Bool.and_eq_true] at below
            cases below.2
          · exact named
        · exact named
    unfold Auth.canonicalRepoID at none
    dsimp only at none
    rw [if_neg parts] at none
    split at none
    · exact parts none
    · simp at none
  have chars := congrArg String.toList folded
  rw [Auth.foldRepoFullName, Text.toList_lower] at chars
  exact String.toList_eq_nil_iff.mp (List.map_eq_nil_iff.mp chars)

section Runner

variable {w : LeaseWalk} {candidate : Job} {tokenHash : List UInt8}

theorem repoFullName_of_unidentified (none : repoIDForJob candidate = "") :
    Text.trimSpace candidate.repoFullName = "" := by
  rw [repoIDForJob] at none
  split_ifs at none with policy
  · exact absurd none policy
  rw [repoIDFor] at none
  split_ifs at none with stored
  · exact absurd none stored
  by_contra named
  dsimp only at none
  rw [if_neg named] at none
  exact named (Text.trimSpace_trimSpace _ ▸ trimmed_of_canonicalRepoID none)

theorem repoIDForJob_claimFor
    (trimmed : Text.trimSpace (repoIDForJob candidate) = repoIDForJob candidate) :
    repoIDForJob (claimRepoIdentity (w.claimFor candidate tokenHash)) =
      repoIDForJob candidate := by
  have unfolded (j : Job) : repoIDForJob j = if Text.trimSpace j.policyRepoID ≠ "" then
      Text.trimSpace j.policyRepoID else repoIDFor j.repoID j.repoURL j.repoFullName := rfl
  have policy : (claimRepoIdentity (w.claimFor candidate tokenHash)).policyRepoID =
      repoIDForJob candidate := by simp only [claimRepoIdentity, claimFor]
  rw [unfolded (claimRepoIdentity _), policy, trimmed]
  split
  · rfl
  · rename_i none
    rw [not_not] at none
    simp only [claimRepoIdentity, claimFor]
    rw [none, repoIDFor, repoFullName_of_unidentified none]
    decide

end Runner

/-- **The predicate and the claim check agree.**  A candidate passes
`LeasePredicate.Allows` exactly when `ClaimAllowsRunner` accepts the claim built for
it, its policy grants the runtime, and its environment and group have room, which
the claim checks under its locks. -/
theorem allows_iff_claim_allows (w : LeaseWalk) (candidate : Job) (tokenHash : List UInt8)
    (envRunning groupRunning : Nat)
    (trimmed : Text.trimSpace (repoIDForJob candidate) = repoIDForJob candidate) :
    (w.predicate candidate envRunning groupRunning).allows = true ↔
      (claimAllowsRunner w.eff (w.claimFor candidate tokenHash) = true ∧
        policyRuntimeAllowed (leasePolicyRuntimes candidate).2 (leasePolicyRuntimes candidate).1
          (jobRuntime candidate) = true) ∧
      (candidate.environment ≠ "" → 0 < candidate.environmentConcurrency →
        (envRunning : Int) < candidate.environmentConcurrency) ∧
      (candidate.concurrencyGroup ≠ "" → 0 < candidate.concurrencyLimit →
        (groupRunning : Int) < candidate.concurrencyLimit) := by
  have repository : repoAllowed w.eff.allowedRepositories
      (claimRepoIdentity (w.claimFor candidate tokenHash)) =
        repoAllowed w.eff.allowedRepositories candidate := by
    rw [repoAllowed, repoAllowed, repoIDForJob_claimFor trimmed]
  have runner : claimAllowsRunner w.eff (w.claimFor candidate tokenHash) =
      runnerAdmits w.eff candidate.repoIdentityQuarantined candidate.executionSemantics
        candidate.requiredLabels candidate (jobRuntime candidate) candidate.placementRegions := by
    rw [claimAllowsRunner, runnerAdmits, runnerAdmits, repository]
    simp only [claimFor]
    rfl
  rw [LeasePredicate.allows, Bool.and_eq_true, Bool.and_eq_true, predicate_envAdmits,
    predicate_groupAdmits, and_assoc, runner, ← Bool.and_eq_true]
  simp only [LeasePredicate.runnerAdmits, predicate]

/-- A job of a cloned repository, in an environment with one slot. -/
def slotJob (repoURL : String) : Job :=
  { repoURL, repoFullName := "a/b", environment := "prod", environmentConcurrency := 1 }

/-- A runner kept to one repository. -/
def slotWalk : LeaseWalk :=
  { now := 0, runnerID := "r", eff := { capacity := 1, allowedRepositories := ["x/a/b"] } }

/-- What the predicate and the claim check say of the job. -/
def bothChecks (repoURL : String) (envRunning : Nat) : Bool × Bool :=
  ((slotWalk.predicate (slotJob repoURL) envRunning 0).allows,
    claimAllowsRunner slotWalk.eff (slotWalk.claimFor (slotJob repoURL) []))

/-- The runner takes the job while the slot is free. -/
theorem free_slot_allows :
    (slotWalk.predicate (slotJob "s://x") 0 0).allows = true := by
  rw [allows_iff_claim_allows slotWalk _ [] 0 0 (by decide +kernel)]
  decide +kernel

/-- With the slot taken the claim check alone accepts.  So it does for a host derived
with a blank in front, which the claim drops. -/
theorem claim_check_accepts_more :
    bothChecks "s://x" 1 = (false, true) ∧
      bothChecks "s://[[ x]:c]" 0 = (false, true) := by
  decide +kernel

/-! ## One group name, two repositories -/

namespace SharedName

/-- A job of the repository in the group `deploy`. -/
def job (id : JobID) (repoID : String) (limit : Int) : Job :=
  { id, runID := "000000000000000000000000000000ff", key := "deploy", status := .queued, repoID
    concurrencyGroup := "deploy", concurrencyLimit := limit }

def running (limit : Int) : Job := job "0000000000000000000000000000000a" "x.io/a/b" limit

def candidate (limit : Int) : Job := job "0000000000000000000000000000000b" "x.io/c/d" limit

def runnerID : RunnerID := "0000000000000000000000000000000f"

/-- The job of one repository runs; the job of the other is queued. -/
def store (limit : Int) : DB where
  runners := Table.empty.put runnerID { capacity := 2, payload := { capacity := 2 } }
  runs := Table.empty.put (candidate limit).runID { status := .running, payload := {} }
  jobs := (Table.empty.put (running limit).id
    { JobRow.write (running limit) with status := .running }).put (candidate limit).id
      (.write (candidate limit))

def walk : LeaseWalk := { now := 0, runnerID, eff := { capacity := 2 } }

/-- The store after the claim of the candidate. -/
def claimed (limit : Int) : Except StoreError DB :=
  acquireLeaseAtomic {} (walk.claimFor (candidate limit) []) (store limit)

end SharedName

open SharedName in
/-- The store admits the claim under the limit 1, and the prefilter refuses the
candidate for a job of another repository. -/
theorem other_repository_fills_the_group :
    (claimed 1).isOk = true ∧ walk.slotsAdmit (candidate 1) (store 1) = .ok false ∧
      walk.eligible (candidate 1) (store 1) = .ok false := by
  decide +kernel

open SharedName in
/-- Under the limit 2 both jobs fit, and the prefilter lets the candidate pass. -/
theorem roomy_group_passes : hiddenRoom (candidate 2) (store 2) := by
  have ran : walk.slotsAdmit (candidate 2) (store 2) = .ok true := by decide +kernel
  cases admits : claimed 2 with
  | error e =>
    have ok : (claimed 2).isOk = true := by decide +kernel
    rw [admits] at ok
    cases ok
  | ok db' =>
    rw [claimed] at admits
    exact (prefilter_agrees_with_claim walk (candidate 2) [] {} (store 2) db' true ran admits).1.mp rfl

/-!
Scheduler replicas over one store, and the lease generations they hand out.

A replica lists a queued candidate, decides on it later (`consider`) and sends
the claim later still (`AcquireLeaseAtomic`), while other replicas and the
recovery paths change the row.  Each of the three is one action here and any
interleaving of them with the store's other operations is a run.  Nothing bounds
the time between the read of a candidate and its claim.

The claimed generation is the one that was read, plus one, and the claim does
not compare it with the row: a claim whose read is older than the last claim of
the job repeats a generation (`stale_claim_repeats_generation`).  While every
claim carries on from the generation of the row, generations only grow
(`granted_generations_increase`).
-/

/-- The store, what the replicas hold, and the claims that succeeded so far. -/
structure Cluster where
  db : DB
  /-- Candidates a replica has read. -/
  candidates : List (Nat × Job) := []
  /-- Claims a replica has built and not sent. -/
  claims : List (Nat × LeaseClaim) := []
  /-- Job and generation of each successful claim, the latest first. -/
  granted : List (JobID × Int) := []

/-- One atomic action of a replica or of another client of the store. -/
inductive Action where
  | read (replica : Nat) (jobID : JobID)
  | consider (replica : Nat) (walk : LeaseWalk) (candidate : Job) (tokenHash : List UInt8)
  | acquire (replica : Nat) (c : Call) (claim : LeaseClaim)
  | store (op : Op)

/-- A candidate as the queue listing returns it. -/
def readCandidate (db : DB) (jobID : JobID) : Option Job :=
  (db.jobs.get? jobID).bind fun row => if row.status = .queued then row.job jobID else none

/-- The operations a replica's claim is not. -/
def notClaim : Op → Bool
  | .acquireLeaseAtomic _ _ => false
  | _ => true

/-- The cluster after an action; one that is not enabled does nothing. -/
def Cluster.step : Action → Cluster → Cluster
  | .read replica jobID, s =>
    match readCandidate s.db jobID with
    | some candidate => { s with candidates := (replica, candidate) :: s.candidates }
    | none => s
  | .consider replica walk candidate tokenHash, s =>
    if (replica, candidate) ∈ s.candidates then
      match walk.consider candidate tokenHash s.db with
      | .ok (.claim claim) => { s with claims := (replica, claim) :: s.claims }
      | _ => s
    else s
  | .acquire replica c claim, s =>
    if (replica, claim) ∈ s.claims then
      match acquireLeaseAtomic c claim s.db with
      | .ok db =>
        { s with
          db, claims := s.claims.erase (replica, claim)
          granted := (claim.jobID, claim.generation) :: s.granted }
      | .error _ => { s with claims := s.claims.erase (replica, claim) }
    else s
  | .store op, s => if notClaim op then { s with db := Storage.step op s.db } else s

/-- Of two claims of one job, the later has the larger generation. -/
def Increasing (granted : List (JobID × Int)) : Prop :=
  granted.Pairwise fun later earlier => later.1 = earlier.1 → earlier.2 < later.2

instance (granted : List (JobID × Int)) : Decidable (Increasing granted) :=
  inferInstanceAs (Decidable (List.Pairwise _ _))

/-! ## Claims that carry on from the row -/

/-- The generation the claim was built from is still that of the row. -/
def current : Action → Cluster → Bool
  | .acquire _ _ claim, s =>
    (s.db.jobs.get? claim.jobID).all fun row => claim.generation = row.leaseGeneration + 1
  | _, _ => true

/-- What was granted for a job is at most the generation of its row. -/
structure Cluster.Ordered (s : Cluster) : Prop where
  increasing : Increasing s.granted
  bounded : ∀ grant ∈ s.granted, ∃ row, s.db.jobs.get? grant.1 = some row ∧
    grant.2 ≤ row.leaseGeneration

/-- The bound survives every operation that evolves the rows. -/
theorem Cluster.Ordered.evolve {s : Cluster} {db : DB} (ordered : s.Ordered)
    (evolves : s.db.Evolves db) : { s with db }.Ordered where
  increasing := ordered.increasing
  bounded := fun grant member => by
    obtain ⟨row, found, bound⟩ := ordered.bounded grant member
    obtain ⟨row', there, moved⟩ := evolves.rows grant.1 row found
    exact ⟨row', there, by rw [moved.generation]; exact bound⟩

/-- A claim that carries on from the row is granted on top of everything before. -/
theorem Cluster.Ordered.grant {s : Cluster} {db : DB} (ordered : s.Ordered)
    (committed : ClaimCommitted c claim r effective row s.db db)
    (current : claim.generation = row.leaseGeneration + 1) :
    { s with db, granted := (claim.jobID, claim.generation) :: s.granted }.Ordered where
  increasing := by
    refine List.pairwise_cons.mpr ⟨fun earlier member same => ?_, ordered.increasing⟩
    obtain ⟨old, found, bound⟩ := ordered.bounded earlier member
    rw [← show claim.jobID = earlier.1 from same, committed.found] at found
    cases found
    show earlier.2 < claim.generation
    omega
  bounded := by
    intro grant member
    have written := committed.jobs
    by_cases same : grant.1 = claim.jobID
    · refine ⟨_, by simp only [written, same]; exact get?_put_self _ _ _, ?_⟩
      rcases List.mem_cons.mp member with rfl | earlier
      · exact le_refl _
      · obtain ⟨old, found, bound⟩ := ordered.bounded grant earlier
        rw [same, committed.found] at found
        cases found
        show grant.2 ≤ claim.generation
        omega
    · rcases List.mem_cons.mp member with rfl | earlier
      · exact absurd rfl same
      · obtain ⟨old, found, bound⟩ := ordered.bounded grant earlier
        exact ⟨old, by simp only [written, get?_put_ne _ _ same]; exact found, bound⟩

theorem Cluster.Ordered.frame {s s' : Cluster} (ordered : s.Ordered) (db : s'.db = s.db)
    (granted : s'.granted = s.granted) : s'.Ordered :=
  ⟨granted ▸ ordered.increasing, by rw [granted, db]; exact ordered.bounded⟩

theorem Cluster.step_ordered (action : Action) (s : Cluster) (fresh : current action s = true)
    (ordered : s.Ordered) : (Cluster.step action s).Ordered := by
  cases action with
  | read replica jobID =>
    simp only [Cluster.step]
    split
    · exact ordered.frame rfl rfl
    · exact ordered
  | consider replica walk candidate tokenHash =>
    simp only [Cluster.step]
    split
    · split
      · exact ordered.frame rfl rfl
      · exact ordered
    · exact ordered
  | acquire replica c claim =>
    simp only [Cluster.step]
    split
    · split
      · rename_i db ran
        obtain ⟨r, effective, row, _, committed⟩ := acquireLeaseAtomic_inv ran
        have carriesOn : claim.generation = row.leaseGeneration + 1 := by
          simpa [current, committed.found] using fresh
        exact (ordered.grant committed carriesOn).frame rfl rfl
      · exact ordered.frame rfl rfl
    · exact ordered
  | store op =>
    simp only [Cluster.step]
    split
    · rename_i other
      refine ordered.evolve ?_
      refine commit_rel DB.Evolves.refl fun db ran => ?_
      rcases Op.evolves ran with evolves | ⟨_, _, _, _, _, rfl, _⟩
      · exact evolves
      · exact absurd other (by simp [notClaim])
    · exact ordered

/-- **Lease generations never repeat while claims are current.**  In every
interleaving in which each claim carries on from the generation of the row it
claims, of two successful claims of a job the later has the larger generation. -/
theorem granted_generations_increase (start : DB) (actions : List Action)
    (fresh : Guarded Cluster.step (current · · = true) actions { db := start }) :
    Increasing (run Cluster.step actions { db := start }).granted :=
  (run_guarded Cluster.step_ordered actions fresh
    ⟨List.Pairwise.nil, fun _ member => absurd member List.not_mem_nil⟩).increasing

/-! ## One job, two replicas -/

namespace TwoReplicas

def job : Job :=
  { id := "00000000000000000000000000000001", runID := "0000000000000000000000000000000a"
    key := "build", status := .queued, maxInfraRetries := 3 }

def runnerID : RunnerID := "0000000000000000000000000000000f"

/-- The job queued, one idle runner, and a leader that may recover leases. -/
def start : Cluster where
  db :=
    { jobs := Table.empty.put job.id (.write job)
      runs := Table.empty.put job.runID { status := .queued, payload := { id := job.runID } }
      runners := Table.empty.put runnerID { capacity := 1, payload := { capacity := 1 } }
      leaderEpoch := some 1 }

def walk : LeaseWalk := { now := 0, runnerID, eff := { capacity := 1 } }

/-- A replica reads the job, and decides to claim what it read. -/
def decides (replica : Nat) (candidate : Job) : List Action :=
  [.read replica job.id, .consider replica walk candidate []]

/-- The first replica's claim, and the recovery of its lease once it has expired. -/
def leasedAndLost : List Action :=
  [.acquire 1 {} (walk.claimFor job []),
    .store (.recoverExpiredLease { now := 100000000, leaderEpoch := 1 } job.id 1)]

/-- The job as it is listed after that. -/
def relisted : Job :=
  (readCandidate (run Cluster.step (decides 1 job ++ leasedAndLost) start).db job.id).getD {}

/-- The second replica claims what it read before the first lease. -/
def staleRun : List Action :=
  decides 1 job ++ decides 2 job ++ leasedAndLost ++
    [.acquire 2 { now := 100000001 } (walk.claimFor job [])]

/-- The second replica claims what it reads after it. -/
def freshRun : List Action :=
  decides 1 job ++ leasedAndLost ++ decides 2 relisted ++
    [.acquire 2 { now := 100000001 } (walk.claimFor relisted [])]

end TwoReplicas

open TwoReplicas

/-- Both replicas decide on one read of the row.  The second claim comes after the
first lease was recovered, succeeds, and repeats the generation. -/
theorem stale_claim_repeats_generation :
    (run Cluster.step staleRun start).granted = [(job.id, 1), (job.id, 1)] ∧
      ¬Increasing (run Cluster.step staleRun start).granted := by
  decide +kernel

/-- Read again after the recovery, the job is claimed with the next generation. -/
theorem fresh_claims_increase :
    (run Cluster.step freshRun start).granted = [(job.id, 2), (job.id, 1)] ∧
      Increasing (run Cluster.step freshRun start).granted :=
  ⟨by decide +kernel, granted_generations_increase start.db freshRun (by decide +kernel)⟩

end KiwiCI.Scheduler
