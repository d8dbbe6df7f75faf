import KiwiCI.Storage.Propagation

/-!
The three records of a lease.

A lease is written down three times: in the job row, in the active set of its
runner and in the reservation ledger.  `leaseOf` reads the first; `Ledger` says
that the other two agree with it and that no runner holds more jobs than the
capacity its last claim was checked against.  Claims and endings move the three
records together.

Two calls move one record and not the others.  `ReleaseRunnerJob` is the release
half of an ending whose caller writes the job row: it takes the job out of the
active set and out of the ledger whatever the row says.  And the re-evaluation
of dependents rewrites a row by the status in its payload, which a claim leaves
at queued, so that it takes a running job for a waiting one.
-/

namespace KiwiCI.Storage

variable {ended : List (JobID × Status)}

variable {id : JobID} {row : JobRow}

open Table DB Option List

def DB.leaseOf (db : DB) (id : JobID) : Option (RunnerID × Int) :=
  (db.jobs.get? id).bind fun row =>
    if row.status = .running then some (row.leaseRunnerID, row.leaseGeneration) else none

/-- Active sets and reservations agree with the job rows. -/
structure DB.Ledger (capacity : RunnerID → Int) (db : DB) : Prop where
  leased : ∀ id r generation, db.leaseOf id = some (r, generation) →
    r ≠ "" ∧ (db.activeOf r).isSome = true
  active : ∀ r active, db.activeOf r = some active →
    active.Nodup ∧ (active.length : Int) ≤ capacity r ∧
      ∀ id, id ∈ active ↔ ∃ generation, db.leaseOf id = some (r, generation)
  reserved : ∀ id, (db.reservations.get? id).map (fun res => (res.runnerID, res.generation)) =
    db.leaseOf id

section Rows

variable {db db' : DB}

theorem DB.leaseOf_put (jobs : db'.jobs = db.jobs.put id row') (other : JobID) :
    db'.leaseOf other = if other = id then
      (if row'.status = .running then some (row'.leaseRunnerID, row'.leaseGeneration) else none)
    else db.leaseOf other := by
  rw [leaseOf, jobs, get?_put]
  split
  · rfl
  · rfl

theorem DB.leaseOf_eq_none_iff : db.leaseOf id = none ↔ db.statusOf id ≠ some .running := by
  rw [leaseOf, statusOf]
  cases db.jobs.get? id with
  | none => simp
  | some row =>
    by_cases running : row.status = .running
    · simp [running]
    · simp [running]

theorem Ends.leaseOf (ends : Ends id outcome row row' db db') (other : JobID) :
    db'.leaseOf other = if other = id then none else db.leaseOf other := by
  rw [leaseOf_put ends.jobs]
  have stopped : row'.status ≠ .running := ends.ended.stopped
  simp [stopped]

theorem DB.leaseOf_writeDependent (idle : db.leaseOf depID = none)
    (stopped : d.status ≠ .running) (other : JobID) :
    { db with jobs := db.jobs.put depID (row.writeDependent d) }.leaseOf other =
      db.leaseOf other := by
  rw [leaseOf_put rfl, if_neg (show (row.writeDependent d).status ≠ .running from stopped)]
  split <;> rename_i equal
  · rw [equal, idle]
  · rfl

/-- Re-evaluating jobs without a lease gives none and takes none. -/
theorem recomputes_leaseOf {dependents : List JobID}
    (idle : ∀ id ∈ dependents, db.leaseOf id = none)
    (ran : dependents.foldlM (recomputeDependentTx now) db = .ok db') (id : JobID) :
    db'.leaseOf id = db.leaseOf id := by
  induction ran using foldlM_ok_induction with
  | nil => rfl
  | cons head rest db mid first tail ih =>
    have same : ∀ other, mid.leaseOf other = db.leaseOf other := by
      intro other
      rcases recomputeDependentTx_inv first with
        ⟨rfl, _⟩ | ⟨row, outcome, found, _, waiting, _, rfl⟩
      · rfl
      · exact leaseOf_writeDependent (idle head (by simp)) (resolveDependent_not_running waiting)
          other
    have later := ih fun other member => by
      rw [same]
      exact idle other (mem_cons_of_mem _ member)
    rw [later, same]

end Rows

section Ledger

variable {capacity : RunnerID → Int} {db db' : DB}

theorem removeString_of_not_mem (absent : id ∉ active) :
    removeString active id = active := by
  refine filter_eq_self.mpr fun other member => decide_eq_true ?_
  rintro rfl
  exact absent member

variable (ledger : db.Ledger capacity)
include ledger

theorem DB.Ledger.congr
    (leases : ∀ id, db'.leaseOf id = db.leaseOf id) (active : ∀ r, db'.activeOf r = db.activeOf r)
    (reservations : ∀ id, db'.reservations.get? id = db.reservations.get? id) :
    db'.Ledger capacity := by
  refine ⟨fun id r generation held => ?_, fun r list held => ?_, fun id => ?_⟩
  · rw [leases] at held
    rw [active]
    exact ledger.leased id r generation held
  · rw [active] at held
    obtain ⟨nodup, bound, same⟩ := ledger.active r list held
    refine ⟨nodup, bound, fun id => ?_⟩
    rw [same, leases]
  · rw [reservations, leases]
    exact ledger.reserved id

theorem DB.Ledger.elsewhere (follows : db.Elsewhere db') : db'.Ledger capacity := by
  refine ledger.congr (fun id => ?_) follows.active fun id => ?_
  · rw [leaseOf, leaseOf, follows.jobs]
  · rw [follows.reservations]

/-- A runner that holds no lease of the job has no entry to remove. -/
theorem DB.Ledger.nothing_to_remove (free : ∀ generation, db.leaseOf id ≠ some (r, generation)) :
    (db.activeOf r).map (removeString · id) = db.activeOf r := by
  cases held : db.activeOf r with
  | none => rfl
  | some active =>
    have absent : id ∉ active := by
      intro member
      obtain ⟨generation, lease⟩ := ((ledger.active r active held).2.2 id).mp member
      exact free generation lease
    rw [map_some, removeString_of_not_mem absent]

/-- Where one job loses its lease and its reservation, and the active sets the
entry, the records agree again. -/
theorem DB.Ledger.drop
    (leases : ∀ other, db'.leaseOf other = if other = id then none else db.leaseOf other)
    (reservations : db'.reservations = db.reservations.delete id)
    (active : ∀ r, db'.activeOf r = (db.activeOf r).map (removeString · id)) :
    db'.Ledger capacity := by
  refine ⟨fun other r generation held => ?_, fun r list held => ?_, fun other => ?_⟩
  · rw [leases] at held
    split at held
    · cases held
    · obtain ⟨named, known⟩ := ledger.leased other r generation held
      rw [active, isSome_map]
      exact ⟨named, known⟩
  · rw [active, map_eq_some_iff] at held
    obtain ⟨before, there, rfl⟩ := held
    obtain ⟨nodup, bound, same⟩ := ledger.active r before there
    refine ⟨nodup.filter _, ?_, fun other => ?_⟩
    · have shorter : (removeString before id).length ≤ before.length := length_filter_le _ _
      omega
    · rw [removeString, mem_filter, same, leases]
      by_cases equal : other = id
      · simp [equal]
      · simp [equal]
  · rw [reservations, get?_delete, leases]
    split
    · rfl
    · exact ledger.reserved other

theorem DB.Ledger.ends (ends : Ends id outcome row row' db db') : db'.Ledger capacity := by
  refine ledger.drop ends.leaseOf ends.reservations fun r => ?_
  by_cases running : row.status = .running
  · have lease : db.leaseOf id = some (row.leaseRunnerID, row.leaseGeneration) := by
      rw [leaseOf, ends.found, bind_some, if_pos running]
    rw [ends.freed running (ledger.leased id _ _ lease).1]
    by_cases holder : r = row.leaseRunnerID
    · simp [holder]
    · rw [ledger.nothing_to_remove]
      · simp [holder]
      · intro generation held
        rw [lease] at held
        exact holder (congrArg Prod.fst (some.inj held)).symm
  · have idle : db.leaseOf id = none := by
      rw [leaseOf, ends.found, bind_some, if_neg running]
    rw [ends.held running, ledger.nothing_to_remove]
    simp [idle]

omit ledger in
theorem DB.Ledger.endsAll (all : EndsAll ended db db')
    (ledger : db.Ledger capacity) : db'.Ledger capacity := by
  induction all with
  | nil follows => exact ledger.elsewhere follows
  | cons ends _ ih => exact ih (ledger.ends ends)

/-- A claim writes the three records, checked against the capacity it read. -/
theorem DB.Ledger.claim {claim : LeaseClaim} (checked : ClaimChecked claim row db)
    (committed : ClaimCommitted c claim r effective row db db') :
    db'.Ledger fun id => if id = claim.runnerID then effective.capacity else capacity id := by
  have idle : db.leaseOf claim.jobID = none := by
    rw [leaseOf, committed.found, bind_some, committed.queued]
    rfl
  have leases : ∀ id, db'.leaseOf id =
      if id = claim.jobID then some (claim.runnerID, claim.generation) else db.leaseOf id :=
    fun id => leaseOf_put committed.jobs id
  have active : ∀ id, db'.activeOf id =
      if id = claim.runnerID then some (r.activeJobs ++ [claim.jobID]) else db.activeOf id := by
    intro id
    rw [activeOf, committed.runners, get?_put]
    split <;> rfl
  have held : db.activeOf claim.runnerID = some r.activeJobs := by
    rw [activeOf, committed.runner, map_some]
  obtain ⟨nodup, _, same⟩ := ledger.active claim.runnerID r.activeJobs held
  refine ⟨fun id holder generation lease => ?_, fun holder list there => ?_, fun id => ?_⟩
  · rw [leases] at lease
    rw [active]
    split at lease
    · cases lease
      exact ⟨checked.runnerID, by rw [if_pos rfl]; rfl⟩
    · obtain ⟨named, known⟩ := ledger.leased id holder generation lease
      refine ⟨named, ?_⟩
      split
      · rfl
      · exact known
  · rw [active] at there
    split at there <;> rename_i claimant
    · cases there
      refine ⟨?_, ?_, fun id => ?_⟩
      · refine Nodup.append nodup (nodup_singleton _) ?_
        rw [disjoint_singleton, same, idle]
        rintro ⟨_, lease⟩
        cases lease
      · have slot := committed.slot
        rw [if_pos claimant, length_append, length_singleton]
        omega
      · rw [mem_append, mem_singleton, same, leases, claimant]
        by_cases equal : id = claim.jobID
        · simp [equal]
        · simp [equal]
    · obtain ⟨others, bound, sameOther⟩ := ledger.active holder list there
      rw [if_neg claimant]
      refine ⟨others, bound, fun id => ?_⟩
      rw [sameOther, leases]
      by_cases equal : id = claim.jobID
      · rw [if_pos equal, equal, idle]
        simp [Ne.symm claimant]
      · rw [if_neg equal]
  · rw [committed.reservations, get?_put, leases]
    split
    · rfl
    · exact ledger.reserved id

/-- Releasing a job that does not run finds nothing to release. -/
theorem DB.Ledger.release (idle : db.leaseOf jobID = none)
    (ran : releaseRunnerJob c runnerID jobID status db = .ok (db', reported)) :
    db'.Ledger capacity := by
  have jobs : db'.jobs = db.jobs := releaseRunnerJob_jobs ran
  obtain ⟨freed, frees, rfl⟩ := releaseRunnerJob_inv ran
  obtain ⟨quota, only⟩ := releaseJobQuotaTx_only jobID freed
  rw [only] at jobs ⊢
  have leases : ∀ id, (releaseResourcesTx jobID { freed with quota }).leaseOf id = db.leaseOf id := by
    intro id
    rw [leaseOf, jobs, leaseOf]
  refine ledger.congr leases (fun r => ?_) fun id => ?_
  · have none : (db.activeOf r).map (removeString · jobID) = db.activeOf r :=
      ledger.nothing_to_remove (by simp [idle])
    refine (frees.active r).trans ?_
    by_cases releasing : r = runnerID
    · simpa [releasing] using releasing ▸ none
    · simp [releasing]
  · have absent : db.reservations.get? jobID = none := by
      have reserved := ledger.reserved jobID
      rwa [idle, map_eq_none_iff] at reserved
    rw [releaseResourcesTx, get?_delete]
    split <;> rename_i same
    · rw [same, absent]
    · rw [← frees.reservations]

end Ledger

/-! ## Calls and runs -/

/-- No running job is re-evaluated as a dependent, but for those the call itself
ends. -/
def Op.spares (op : Op) (db : DB) : Prop :=
  ∀ id ∈ (op.reevaluated db).flatMap db.dependentsOf, (op.endings db).lookup id = none →
    db.statusOf id ≠ some .running

instance (op : Op) (db : DB) : Decidable (op.spares db) :=
  inferInstanceAs (Decidable (∀ id ∈ (op.reevaluated db).flatMap db.dependentsOf, _))

/-- The calls that keep the three records together: claims, endings that
re-evaluate no running job, and releases of jobs that do not run. -/
def Op.keepsLedger (op : Op) (db : DB) : Prop :=
  match op with
  | .releaseRunnerJob _ _ jobID _ => db.statusOf jobID ≠ some .running
  | op => (op.isClaim || op.ending) = true ∧ op.spares db

instance (op : Op) (db : DB) : Decidable (op.keepsLedger db) :=
  match op with
  | .releaseRunnerJob _ _ jobID _ => inferInstanceAs (Decidable (db.statusOf jobID ≠ _))
  | .approveJob .. | .acquireLeaseAtomic .. | .heartbeatLease .. | .heartbeatLeaseWithTTL ..
  | .completeJob .. | .cancelRunJobs .. | .recoverExpiredLease .. | .revokeRunnerLeases ..
  | .expireQueuedJob .. | .insertCompiledRun .. | .insertGeneratedFragment ..
  | .reconcileResourceReservations .. => inferInstanceAs (Decidable (_ ∧ Op.spares _ db))

/-- Jobs leave, and the re-evaluated dependents have no lease when the loop
reaches them. -/
theorem DB.Ledger.settle {db' : DB} (ledger : db.Ledger capacity)
    (nodup : (ended.map Prod.fst).Nodup)
    (spared : ∀ id ∈ reevaluated.flatMap db.dependentsOf, ended.lookup id = none →
      db.statusOf id ≠ some .running)
    (settlement : Settlement now ended reevaluated db db') : db'.Ledger capacity := by
  obtain ⟨left, resolved, all, recomputed, follows⟩ := settlement
  have flat := all.flat recomputed
  have idle : ∀ id ∈ reevaluated.flatMap db.dependentsOf, left.leaseOf id = none := by
    intro id member
    have moved := all.get? nodup id
    cases listed : ended.lookup id with
    | none =>
      rw [listed] at moved
      rw [leaseOf_eq_none_iff, statusOf, show left.jobs.get? id = db.jobs.get? id from moved]
      exact spared id member listed
    | some outcome =>
      rw [listed] at moved
      obtain ⟨row, row', _, found, gone⟩ := moved
      rw [leaseOf_eq_none_iff, statusOf, found, map_some]
      intro running
      exact gone.stopped (some.inj running)
  have loop : resolved.Ledger capacity := by
    refine (ledger.endsAll all).congr (recomputes_leaseOf idle flat) (fun r => ?_) fun id => ?_
    · rw [recomputes_only flat]
      rfl
    · rw [recomputes_only flat]
  exact loop.elsewhere follows

/-- A store, with the capacity the last claim of each runner was checked
against. -/
structure Observed where
  db : DB
  capacity : RunnerID → Int := fun _ => 0

/-- The capacity a claim of runner `r` reads, if it succeeds. -/
def Op.capacitySeen (op : Op) (db : DB) (r : RunnerID) : Option Int :=
  match op with
  | .acquireLeaseAtomic c claim =>
    if claim.runnerID = r ∧ (Storage.acquireLeaseAtomic c claim db).isOk = true then
      (db.runners.get? r).bind fun row => (effectiveRunner db r row.snapshot).map (·.capacity)
    else none
  | _ => none

/-- A call, with the capacity it reads. -/
def Observed.step (op : Op) (s : Observed) : Observed where
  db := Storage.step op s.db
  capacity := fun r => (op.capacitySeen s.db r).getD (s.capacity r)

@[simp] theorem Observed.step_db (op : Op) (s : Observed) :
    (s.step op).db = Storage.step op s.db := rfl

@[simp] theorem Observed.step_capacity (op : Op) (s : Observed) (r : RunnerID) :
    (s.step op).capacity r = (op.capacitySeen s.db r).getD (s.capacity r) := rfl

theorem Op.capacitySeen_claim {claim : LeaseClaim}
    (ran : Storage.acquireLeaseAtomic c claim db = .ok db')
    (committed : ClaimCommitted c claim r effective row db db') (id : RunnerID) :
    (Op.acquireLeaseAtomic c claim).capacitySeen db id =
      if id = claim.runnerID then some effective.capacity else none := by
  have ok : (Storage.acquireLeaseAtomic c claim db).isOk = true := by rw [ran]; rfl
  by_cases same : id = claim.runnerID
  · subst same
    simp [Op.capacitySeen, ok, committed.runner, committed.resolved]
  · simp [Op.capacitySeen, same, Ne.symm same]

theorem Op.capacitySeen_other {op : Op}
    (other : op.isClaim = false ∨ ∃ e, op.exec db = .error e) (r : RunnerID) :
    op.capacitySeen db r = none := by
  cases op with
  | acquireLeaseAtomic c claim =>
    rcases other with other | ⟨e, failed⟩
    · cases other
    · have refused : (Storage.acquireLeaseAtomic c claim db).isOk = false := by
        rw [show Storage.acquireLeaseAtomic c claim db = .error e from failed]
        rfl
      simp [Op.capacitySeen, refused]
  | _ => rfl

theorem Observed.step_ledger (op : Op) (s : Observed) (keeps : op.keepsLedger s.db)
    (ledger : s.db.Ledger s.capacity) : (s.step op).db.Ledger (s.step op).capacity := by
  have unseen (other : op.isClaim = false ∨ ∃ e, op.exec s.db = .error e) :
      (s.step op).capacity = s.capacity := by
    funext r
    rw [Observed.step_capacity, Op.capacitySeen_other other, getD_none]
  cases ran : op.exec s.db with
  | error e =>
    rw [unseen (.inr ⟨e, ran⟩), Observed.step_db, Storage.step, ran, commit_error]
    exact ledger
  | ok db' =>
    have after : (s.step op).db = db' := by rw [Observed.step_db, Storage.step, ran, commit_ok]
    rw [after]
    have claimOrEnd (kind : (op.isClaim || op.ending) = true ∧ op.spares s.db) :
        db'.Ledger (s.step op).capacity := by
      obtain ⟨kind, spares⟩ := kind
      cases isClaim : op.isClaim with
      | true =>
        obtain ⟨c, claim, r, effective, row, rfl, checked, committed⟩ := Op.claim isClaim ran
        have seen : (s.step (.acquireLeaseAtomic c claim)).capacity =
            fun id => if id = claim.runnerID then effective.capacity else s.capacity id := by
          funext id
          rw [Observed.step_capacity, Op.capacitySeen_claim ran committed]
          split <;> rfl
        rw [seen]
        exact ledger.claim checked committed
      | false =>
        rw [unseen (.inl isClaim)]
        rw [isClaim, Bool.false_or] at kind
        rcases Op.settlement kind ran with rfl | ⟨now, settlement⟩
        · exact ledger
        · exact ledger.settle (op.nodup_endings s.db) spares settlement
    cases op with
    | releaseRunnerJob c runnerID jobID status =>
      rw [unseen (.inl rfl)]
      obtain ⟨⟨late, reported⟩, released, rfl⟩ := map_ok_iff.mp ran
      exact ledger.release (leaseOf_eq_none_iff.mpr keeps) released
    | _ => exact claimOrEnd keeps

/-- **The three records of every lease agree.**  From a store without leases,
after claims, endings that re-evaluate no running job and releases of jobs that
do not run: the active set of a runner lists, each once, the running jobs whose
lease names it, and is no longer than the capacity its last claim read; a
running job has one reservation, held by its runner under its generation, and no
other job has one. -/
theorem runner_ledger_consistent (base : DB) (idle : ∀ id, base.leaseOf id = none)
    (free : ∀ r active, base.activeOf r = some active → active = [])
    (unreserved : base.reservations = .empty) (ops : List Op)
    (keeps : Guarded Observed.step (fun op s => op.keepsLedger s.db) ops { db := base }) :
    let s := run Observed.step ops { db := base }
    (∀ r active, s.db.activeOf r = some active →
      active.Nodup ∧ (active.length : Int) ≤ s.capacity r ∧
        ∀ id, id ∈ active ↔ ∃ row, s.db.jobs.get? id = some row ∧ row.status = .running ∧
          row.leaseRunnerID = r) ∧
    (∀ id row, s.db.jobs.get? id = some row → row.status = .running →
      (s.db.activeOf row.leaseRunnerID).isSome = true ∧
        ∃ res, s.db.reservations.get? id = some res ∧ res.runnerID = row.leaseRunnerID ∧
          res.generation = row.leaseGeneration) ∧
    ∀ id res, s.db.reservations.get? id = some res →
      ∃ row, s.db.jobs.get? id = some row ∧ row.status = .running := by
  have first : base.Ledger fun _ => 0 := by
    refine ⟨fun id r generation held => ?_, fun r active held => ?_, fun id => ?_⟩
    · rw [idle] at held
      cases held
    · rw [free r active held]
      simp [idle]
    · rw [unreserved, idle]
      rfl
  intro s
  have ledger : s.db.Ledger s.capacity :=
    run_guarded (I := fun s : Observed => s.db.Ledger s.capacity)
      (fun op s met holds => s.step_ledger op met holds) ops keeps first
  have read : ∀ id r generation, s.db.leaseOf id = some (r, generation) ↔
      ∃ row, s.db.jobs.get? id = some row ∧ row.status = .running ∧ row.leaseRunnerID = r ∧
        row.leaseGeneration = generation := by
    intro id r generation
    rw [leaseOf, bind_eq_some_iff]
    simp
  refine ⟨fun r active held => ?_, fun id row found running => ?_, fun id res held => ?_⟩
  · obtain ⟨nodup, bound, same⟩ := ledger.active r active held
    refine ⟨nodup, bound, fun id => ?_⟩
    rw [same]
    constructor
    · rintro ⟨generation, lease⟩
      obtain ⟨row, found, running, holder, _⟩ := (read id r generation).mp lease
      exact ⟨row, found, running, holder⟩
    · rintro ⟨row, found, running, holder⟩
      exact ⟨row.leaseGeneration, (read id r _).mpr ⟨row, found, running, holder, rfl⟩⟩
  · have lease := (read id _ _).mpr ⟨row, found, running, rfl, rfl⟩
    refine ⟨(ledger.leased id _ _ lease).2, ?_⟩
    have reserved := ledger.reserved id
    rw [lease, map_eq_some_iff] at reserved
    obtain ⟨res, held, same⟩ := reserved
    exact ⟨res, held, congrArg Prod.fst same, congrArg Prod.snd same⟩
  · have reserved := ledger.reserved id
    rw [held, map_some] at reserved
    obtain ⟨row, found, running, _⟩ := (read id _ _).mp reserved.symm
    exact ⟨row, found, running⟩

namespace Chain

/-- The store with the queued jobs given. -/
def queued (jobs : List Job) : DB :=
  { base with jobs := jobs.foldl (fun t j => t.put j.id (.write j)) .empty }

/-- The first job is claimed. -/
def claimed : Op :=
  .acquireLeaseAtomic {} { jobID := a.id, runnerID, generation := 1, ttl := 10 }

/-- The first job is claimed and fails, and another is claimed. -/
def claimedNext : List Op :=
  fails ++ [.acquireLeaseAtomic { now := 2 } { jobID := c.id, runnerID, generation := 1, ttl := 10 }]

end Chain

open Chain in
/-- `ReleaseRunnerJob` called for a running job: the job still runs under its
lease, and neither its runner nor the ledger knows of it. -/
theorem released_job_still_runs :
    (run step [claimed, .releaseRunnerJob {} runnerID a.id .success] (queued [a])).leaseOf a.id =
        some (runnerID, 1) ∧
      (run step [claimed, .releaseRunnerJob {} runnerID a.id .success] (queued [a])).activeOf
        runnerID = some [] ∧
      (run step [claimed, .releaseRunnerJob {} runnerID a.id .success]
        (queued [a])).reservations.get? a.id = none := by
  decide +kernel

open Chain in
/-- The failed job is in no record, and the next claim takes the one slot. -/
theorem next_claim_takes_the_slot :
    (run step claimedNext (queued [a, c])).activeOf runnerID = some [c.id] ∧
      ∀ id res, (run Observed.step claimedNext { db := queued [a, c] }).db.reservations.get? id =
          some res →
        ∃ row, (run Observed.step claimedNext { db := queued [a, c] }).db.jobs.get? id = some row ∧
          row.status = .running := by
  have idle : ∀ id, (queued [a, c]).leaseOf id = none := by
    intro id
    rw [leaseOf_eq_none_iff, statusOf, queued, foldl_cons, foldl_cons,
      foldl_nil, get?_put, get?_put]
    split
    · decide
    · split
      · decide
      · simp
  have free : ∀ r active, (queued [a, c]).activeOf r = some active → active = [] := by
    intro r active held
    rw [activeOf, queued, base, get?_put] at held
    split at held
    · exact (some.inj held).symm
    · simp at held
  exact ⟨by decide +kernel, (runner_ledger_consistent (queued [a, c]) idle free rfl _
    (by decide +kernel)).2.2⟩

end KiwiCI.Storage
