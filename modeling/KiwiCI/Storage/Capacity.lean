import KiwiCI.Storage.Slots
import Mathlib.Algebra.Order.Group.Int

/-!
Reserved resources and declared capacity.

A claim checks the amount it requests against what the runner's live
reservations leave free, and reserves it.  A promoted leader rewrites the ledger
from the job rows, by a rule of its own: the request of the payload and its
service envelope (`Payload.requestAt`).  The bound survives that second writer
exactly as far as it writes no more than the claim did; `Covered` says so of
every running job, and `Within` is the bound.

The claim of a runner that bounds a job and its services in one cgroup reserves
the job's own request only, so it does not meet that condition when the job has
an envelope.
-/

namespace KiwiCI.Storage

variable {row : JobRow} {c : Call} {effective : Runner}
  {reservations : Table JobID ResourceReservation}

open Table DB Option

/-! ## Declared capacities -/

/-- The capacity the runner declares, its live profile over its registration. -/
def DB.declared (db : DB) (r : RunnerID) : Option ResourceCapacity :=
  (db.runners.get? r).bind fun row => (effectiveRunner db r row.snapshot).map (·.resourceCapacity)

theorem effectiveRunner_registered (db : DB) (r : RunnerID) (row : RunnerRow) :
    (effectiveRunner db r row.snapshot).map (·.resourceCapacity) =
      (effectiveRunner db r row.registered.snapshot).map (·.resourceCapacity) := by
  have serial : row.registered.snapshot.certSerial = row.snapshot.certSerial := rfl
  unfold effectiveRunner
  rw [serial]
  cases liveProfileBinding db r row.snapshot.certSerial with
  | none => rfl
  | some profileID =>
    dsimp only
    rw [map_map, map_map]
    rfl

theorem DB.SameConfig.declared {db : DB} (config : db.SameConfig db') (r : RunnerID) :
    db'.declared r = db.declared r := by
  have read : ∀ db : DB, db.declared r = ((db.runners.get? r).map (·.registered)).bind fun row =>
      (effectiveRunner db r row.snapshot).map (·.resourceCapacity) := by
    intro db
    rw [DB.declared]
    cases db.runners.get? r with
    | none => rfl
    | some row =>
      rw [bind_some, map_some, bind_some, effectiveRunner_registered]
  have effective : ∀ snapshot, effectiveRunner db' r snapshot = effectiveRunner db r snapshot := by
    intro snapshot
    simp only [effectiveRunner, liveProfileBinding, config.profiles, config.certProfileLinks,
      config.runnerProfileLinks]
  rw [read, read, config.runners]
  simp only [effective]

/-! ## The ledger and the rows -/

/-- The ledger row of a running job describes its lease and holds at least what a
reconciliation would write. -/
structure JobRow.CoveredBy (row : JobRow) (res : ResourceReservation) : Prop where
  runner : res.runnerID = row.leaseRunnerID
  generation : res.generation = row.leaseGeneration
  amount : ∀ d, row.payload.requestAt d ≤ res.amount.at d

/-- Every running job is covered. -/
def DB.Covered (db : DB) : Prop :=
  ∀ id row, db.jobs.get? id = some row → row.status = .running →
    row.leaseRunnerID ≠ "" ∧ ∃ res, db.reservations.get? id = some res ∧ row.CoveredBy res

/-- No runner has more reserved than it declares, in any dimension it declares. -/
def DB.Within (db : DB) : Prop :=
  ∀ r capacity d, db.declared r = some capacity → 0 < capacity.at d →
    db.reservedAt r "" d ≤ capacity.at d

/-- What one ledger row contributes. -/
def DB.share (db : DB) (r : RunnerID) (d : Dimension) (id : JobID) (res : ResourceReservation) : Int :=
  if res.runnerID = r ∧ db.liveReservation id res = true then res.amount.at d else 0

section Share

variable {db db' : DB} {r : RunnerID} {d : Dimension} {id : JobID}

theorem DB.reservedAt_total (db : DB) (r : RunnerID) (d : Dimension) :
    db.reservedAt r "" d = db.reservations.sum (db.share r d) := by
  simp only [reservedAt, true_or, true_and]
  rfl

theorem DB.liveReservation_iff :
    db.liveReservation id res = true ↔ ∃ row, db.jobs.get? id = some row ∧
      row.status = .running ∧ row.leaseRunnerID ≠ "" ∧ row.leaseGeneration = res.generation := by
  unfold liveReservation
  cases db.jobs.get? id with
  | none => simp
  | some row => simp [and_assoc]

theorem guarded_nonneg (limit : Option Int) (v : Int) : 0 ≤ guarded limit v := by
  unfold guarded
  split
  · omega
  · cases limit with
    | none => dsimp only; omega
    | some limit => dsimp only; split <;> omega

theorem Payload.requestAt_nonneg (p : Payload) (d : Dimension) : 0 ≤ p.requestAt d := by
  have own := guarded_nonneg (ledgerLimit d) (p.job.resourceRequest.at d)
  have envelope := guarded_nonneg (ledgerLimit d) (p.job.serviceEnvelopeRequest.at d)
  unfold Payload.requestAt
  dsimp only
  split
  · omega
  · split <;> omega

theorem DB.Covered.share_nonneg (covered : db.Covered) :
    0 ≤ (db.reservations.get? id).elim 0 (db.share r d id) := by
  cases held : db.reservations.get? id with
  | none => simp
  | some res =>
    simp only [elim_some, share]
    split <;> rename_i counted
    · obtain ⟨row, found, running, _⟩ := liveReservation_iff.mp counted.2
      obtain ⟨_, other, there, coveredBy⟩ := covered id row found running
      cases held.symm.trans there
      exact (row.payload.requestAt_nonneg d).trans (coveredBy.amount d)
    · exact le_rfl

end Share

/-! ## Releases -/

/-- Running jobs are the jobs that ran before, with their ledger rows. -/
def DB.OnlyReleases (db db' : DB) : Prop :=
  ∀ id row, db'.jobs.get? id = some row → row.status = .running →
    db.jobs.get? id = some row ∧ db'.reservations.get? id = db.reservations.get? id

section Releases

variable {db db' : DB}

theorem DB.OnlyReleases.trans {a c : DB} (first : a.OnlyReleases b) (second : b.OnlyReleases c) :
    a.OnlyReleases c := by
  intro id row found running
  obtain ⟨there, late⟩ := second id row found running
  obtain ⟨start, early⟩ := first id row there running
  exact ⟨start, late.trans early⟩

theorem DB.OnlyReleases.elsewhere (follows : db.Elsewhere db') : db.OnlyReleases db' := by
  intro id row found _
  rw [follows.jobs] at found
  exact ⟨found, by rw [follows.reservations]⟩

theorem DB.OnlyReleases.ends {id : JobID}
    (ends : Ends id outcome row row' db db') : db.OnlyReleases db' := by
  intro other late found running
  rw [ends.get?] at found
  split at found <;> rename_i same
  · cases found
    exact absurd running ends.ended.stopped
  · exact ⟨found, by rw [ends.reservations, get?_delete, if_neg same]⟩

theorem DB.OnlyReleases.writeDependent (stopped : d.status ≠ .running) :
    db.OnlyReleases { db with jobs := db.jobs.put depID (row.writeDependent d) } := by
  intro id late found running
  rw [get?_put] at found
  split at found
  · cases found
    exact absurd running stopped
  · exact ⟨found, rfl⟩

theorem DB.OnlyReleases.recompute
    (ran : recomputeDependentTx now db depID = .ok db') : db.OnlyReleases db' := by
  rcases recomputeDependentTx_inv ran with ⟨rfl, _⟩ | ⟨row, outcome, _, _, waiting, _, rfl⟩
  · exact fun id row found _ => ⟨found, rfl⟩
  · exact .writeDependent (resolveDependent_not_running waiting)

theorem Settlement.onlyReleases {now : Time}
    (settlement : Settlement now ended reevaluated db db') :
    db.OnlyReleases db' := by
  obtain ⟨left, resolved, all, recomputed, follows⟩ := settlement
  have leaves : db.OnlyReleases left := by
    induction all with
    | nil follows => exact .elsewhere follows
    | cons ends _ ih => exact (OnlyReleases.ends ends).trans (ih recomputed)
  have loop : left.OnlyReleases resolved :=
    foldlM_rel (r := OnlyReleases) (fun _ _ _ found _ => ⟨found, rfl⟩) OnlyReleases.trans _
      (fun _ _ _ _ each => .recompute each) (recomputeAll_flat recomputed)
  exact (leaves.trans loop).trans (.elsewhere follows)

end Releases

theorem JobRow.CoveredBy.share {db : DB} {id : JobID}
    (coveredBy : row.CoveredBy res) (found : db.jobs.get? id = some row)
    (running : row.status = .running) (leased : row.leaseRunnerID ≠ "") (d : Dimension) :
    db.share row.leaseRunnerID d id res = res.amount.at d := by
  have live : db.liveReservation id res = true :=
    liveReservation_iff.mpr ⟨row, found, running, leased, coveredBy.generation.symm⟩
  rw [DB.share, if_pos ⟨coveredBy.runner, live⟩]

/-- A running job that stays keeps its share, or has no larger one; the others have
none. -/
theorem DB.reservedAt_le {db db' : DB} (covered : db.Covered)
    (kept : ∀ id row res, db'.jobs.get? id = some row → row.status = .running →
      db'.reservations.get? id = some res → res.runnerID = r →
      (db.jobs.get? id = some row ∧ db.reservations.get? id = some res) ∨
        res.amount.at d ≤ (db.reservations.get? id).elim 0 (db.share r d id)) :
    db'.reservedAt r "" d ≤ db.reservedAt r "" d := by
  rw [reservedAt_total, reservedAt_total]
  apply sum_le_sum
  intro id
  have none : 0 ≤ (db.reservations.get? id).elim 0 (db.share r d id) := covered.share_nonneg
  cases held : db'.reservations.get? id with
  | none => exact none
  | some res =>
    simp only [elim_some]
    rw [share]
    split <;> rename_i counted
    · obtain ⟨row, found, running, _⟩ := liveReservation_iff.mp counted.2
      rcases kept id row res found running held counted.1 with ⟨there, same⟩ | smaller
      · obtain ⟨leased, _, reserved, coveredBy⟩ := covered id row there running
        cases same.symm.trans reserved
        rw [same, elim_some, ← counted.1, coveredBy.runner, coveredBy.share there running leased]
      · exact smaller
    · exact none

section Steps

variable {db db' : DB}

theorem DB.OnlyReleases.covered (releases : db.OnlyReleases db') (covered : db.Covered) :
    db'.Covered := by
  intro id row found running
  obtain ⟨there, same⟩ := releases id row found running
  rw [same]
  exact covered id row there running

theorem DB.OnlyReleases.within (releases : db.OnlyReleases db') (covered : db.Covered)
    (declared : ∀ r, db'.declared r = db.declared r) (within : db.Within) : db'.Within := by
  intro r capacity d declares positive
  refine le_trans (reservedAt_le covered fun id row res found running held _ => ?_)
    (within r capacity d (declared r ▸ declares) positive)
  obtain ⟨there, same⟩ := releases id row found running
  exact .inl ⟨there, same ▸ held⟩

/-! ## Claims -/

theorem DB.Covered.claim (covered : db.Covered) {claim : LeaseClaim}
    (checked : ClaimChecked claim row db)
    (committed : ClaimCommitted c claim r effective row db db')
    (covers : ∀ d, row.payload.requestAt d ≤ claim.requestedResources.at d) : db'.Covered := by
  intro id late found running
  rw [committed.jobs, get?_put] at found
  rw [committed.reservations, get?_put]
  split at found <;> rename_i same
  · cases found
    rw [if_pos same]
    exact ⟨checked.runnerID, _, rfl, rfl, rfl, covers⟩
  · rw [if_neg same]
    exact covered id late found running

/-- What the admission check read, and what is reserved on top of it. -/
theorem reservedAt_claim (checked : ClaimChecked claim row db)
    (committed : ClaimCommitted c claim r effective row db db') (d : Dimension) :
    db'.reservedAt claim.runnerID "" d =
      { db with jobs := db'.jobs }.reservedAt claim.runnerID claim.jobID d +
        claim.requestedResources.at d := by
  have named : claim.jobID ≠ "" := by
    intro empty
    have valid := checked.jobID
    rw [empty] at valid
    cases valid
  have fresh : db'.share claim.runnerID d claim.jobID
      { runnerID := claim.runnerID, generation := claim.generation
        amount := claim.requestedResources } = claim.requestedResources.at d := by
    have live : db'.liveReservation claim.jobID
        { runnerID := claim.runnerID, generation := claim.generation
          amount := claim.requestedResources } = true := by
      rw [liveReservation_iff, committed.jobs, get?_put_self]
      exact ⟨_, rfl, rfl, checked.runnerID, rfl⟩
    rw [share, if_pos ⟨rfl, live⟩]
  have others : { db with jobs := db'.jobs }.reservedAt claim.runnerID claim.jobID d =
      (db.reservations.delete claim.jobID).sum (db'.share claim.runnerID d) := by
    rw [reservedAt, sum_eq_add_delete _ claim.jobID]
    have own : (db.reservations.get? claim.jobID).elim 0 (fun res =>
        if res.runnerID = claim.runnerID ∧ (claim.jobID = "" ∨ claim.jobID ≠ claim.jobID) ∧
            { db with jobs := db'.jobs }.liveReservation claim.jobID res = true
        then res.amount.at d else 0) = 0 := by
      cases db.reservations.get? claim.jobID <;> simp [named]
    rw [own, zero_add]
    apply sum_congr
    intro id res found
    rw [get?_delete] at found
    split at found <;> rename_i same
    · cases found
    · simp only [named, same, ne_eq, not_false_eq_true, false_or, true_and]
      rfl
  rw [reservedAt_total, committed.reservations, sum_put, fresh, others, add_comm]

theorem DB.Within.claim (within : db.Within) (covered : db.Covered) {claim : LeaseClaim}
    (checked : ClaimChecked claim row db)
    (committed : ClaimCommitted c claim r effective row db db')
    (declared : ∀ r, db'.declared r = db.declared r) : db'.Within := by
  intro holder capacity d declares positive
  rw [declared] at declares
  by_cases claimant : holder = claim.runnerID
  · subst claimant
    rw [DB.declared, committed.runner, bind_some, committed.resolved, map_some] at declares
    cases declares
    have fits := resourceAdmissionAllows_iff.mp committed.fits d positive
    rw [runnerReservedExcluding_at] at fits
    rw [reservedAt_claim checked committed]
    exact fits
  · refine le_trans (reservedAt_le covered fun id late res found running held named => ?_)
      (within holder capacity d declares positive)
    rw [committed.reservations, get?_put] at held
    rw [committed.jobs, get?_put] at found
    split at held <;> rename_i same
    · cases held
      exact absurd named.symm claimant
    · rw [if_neg same] at found
      exact .inl ⟨found, held⟩

/-! ## Reconciliation -/

/-- The row a reconciliation writes for a running job. -/
def JobRow.reservation (row : JobRow) : ResourceReservation :=
  { runnerID := row.leaseRunnerID, generation := row.leaseGeneration
    amount := row.payload.requestSQL }

/-- A ledger on its way through the reconciliation: each entry is the one there
was, or dropped for want of a running job, or rewritten from the job row. -/
def DB.Rewrites (db : DB) (reservations : Table JobID ResourceReservation) : Prop :=
  ∀ id, reservations.get? id = db.reservations.get? id ∨
    (reservations.get? id = none ∧ ∀ row, db.jobs.get? id = some row → row.status ≠ .running) ∨
    ∃ row, db.jobs.get? id = some row ∧ row.status = .running ∧
      reservations.get? id = some row.reservation

theorem JobRow.coveredBy_reservation (row : JobRow) : row.CoveredBy row.reservation :=
  ⟨rfl, rfl, fun d => by rw [JobRow.reservation, Payload.requestSQL_at]⟩

theorem DB.Rewrites.coveredBy
    (rewrites : db.Rewrites reservations) (covered : db.Covered) {id : JobID}
    (found : db.jobs.get? id = some row) (running : row.status = .running) :
    ∃ res, reservations.get? id = some res ∧ row.CoveredBy res := by
  obtain ⟨_, held⟩ := covered id row found running
  rcases rewrites id with same | ⟨_, stopped⟩ | ⟨other, there, _, written⟩
  · rwa [same]
  · exact absurd running (stopped row found)
  · cases found.symm.trans there
    exact ⟨_, written, row.coveredBy_reservation⟩

theorem DB.Rewrites.deleteStale (rewrites : db.Rewrites reservations) (covered : db.Covered) :
    db.Rewrites (reservations.deleteWhere fun id res =>
      !{ db with reservations }.liveReservation id res) := by
  intro id
  by_cases running : ∃ row, db.jobs.get? id = some row ∧ row.status = .running
  · obtain ⟨row, found, running⟩ := running
    obtain ⟨res, held, coveredBy⟩ := rewrites.coveredBy covered found running
    have live : { db with reservations }.liveReservation id res = true :=
      liveReservation_iff.mpr
        ⟨row, found, running, (covered id row found running).1, coveredBy.generation.symm⟩
    have kept := (get?_deleteWhere_iff (fun id res =>
      !{ db with reservations }.liveReservation id res) id res reservations).mpr ⟨held, by simp [live]⟩
    rw [kept, ← held]
    exact rewrites id
  · push Not at running
    refine .inr (.inl ⟨eq_none_iff_forall_ne_some.mpr fun res held => ?_, running⟩)
    rw [get?_deleteWhere_iff, Bool.not_eq_false'] at held
    obtain ⟨row, found, alive, _⟩ := liveReservation_iff.mp held.2
    exact running row found alive

theorem DB.Rewrites.upsert
    (rewrites : db.Rewrites reservations) {entry : Sigma fun _ : JobID => JobRow}
    (listed : entry ∈ db.jobs.rows) : db.Rewrites (upsertReservation reservations entry) := by
  obtain ⟨id, row⟩ := entry
  have found : db.jobs.get? id = some row := mem_rows_iff.mp listed
  have put : row.status = .running → db.Rewrites (reservations.put id row.reservation) := by
    intro running other
    rw [get?_put]
    split <;> rename_i same
    · exact .inr (.inr ⟨row, same ▸ found, running, rfl⟩)
    · exact rewrites other
  unfold upsertReservation
  dsimp only
  split <;> rename_i leased
  · exact rewrites
  · push Not at leased
    split
    · split
      · exact put leased.1
      · exact rewrites
    · exact put leased.1

/-- A reconciliation keeps, drops or rewrites ledger rows. -/
theorem reconcile_rewrites (covered : db.Covered)
    (ran : reconcileResourceReservations c db = .ok db') :
    db' = { db with reservations := db'.reservations } ∧ db.Rewrites db'.reservations := by
  simp only [reconcileResourceReservations, bind_ok_iff, pure_ok_iff] at ran
  obtain ⟨_, -, rfl⟩ := ran
  refine ⟨rfl, ?_⟩
  have start : db.Rewrites db.reservations := fun _ => .inl rfl
  have first := start.deleteStale covered
  have loop : db.Rewrites (db.jobs.rows.foldl upsertReservation
      (deleteStaleReservationsTx db).reservations) :=
    List.foldlRecOn db.jobs.rows upsertReservation (motive := db.Rewrites) first
      fun reservations rewrites entry listed => rewrites.upsert listed
  exact loop.deleteStale covered

theorem DB.Covered.reconcile (covered : db.Covered)
    (ran : reconcileResourceReservations c db = .ok db') : db'.Covered := by
  obtain ⟨only, rewrites⟩ := reconcile_rewrites covered ran
  have jobs : db'.jobs = db.jobs := by rw [only]
  intro id row found running
  rw [jobs] at found
  exact ⟨(covered id row found running).1, rewrites.coveredBy covered found running⟩

theorem DB.Within.reconcile (within : db.Within) (covered : db.Covered)
    (ran : reconcileResourceReservations c db = .ok db') : db'.Within := by
  obtain ⟨only, rewrites⟩ := reconcile_rewrites covered ran
  have jobs : db'.jobs = db.jobs := by rw [only]
  intro r capacity d declares positive
  have declared : db'.declared r = db.declared r := by
    rw [only]
    rfl
  refine le_trans (reservedAt_le covered fun id row res found running held named => ?_)
    (within r capacity d (declared ▸ declares) positive)
  rw [jobs] at found
  rcases rewrites id with same | ⟨dropped, _⟩ | ⟨late, there, _, written⟩
  · exact .inl ⟨found, same ▸ held⟩
  · rw [dropped] at held
    cases held
  · cases found.symm.trans there
    rw [written] at held
    cases held
    obtain ⟨leased, other, reserved, coveredBy⟩ := covered id row found running
    refine .inr ?_
    rw [reserved, elim_some, ← named]
    change row.payload.requestSQL.at d ≤ db.share row.leaseRunnerID d id other
    rw [coveredBy.share found running leased, Payload.requestSQL_at]
    exact coveredBy.amount d

end Steps

/-! ## Calls and runs -/

/-- A claim requests at least what a reconciliation would write for the job. -/
def LeaseClaim.covers (claim : LeaseClaim) (db : DB) : Prop :=
  ∀ row ∈ db.jobs.get? claim.jobID, ∀ d ∈ [Dimension.cpu, .memory, .disk, .pids],
    row.payload.requestAt d ≤ claim.requestedResources.at d

instance (claim : LeaseClaim) (db : DB) : Decidable (claim.covers db) :=
  inferInstanceAs (Decidable (∀ row ∈ db.jobs.get? claim.jobID, _))

/-- Claims that cover their jobs, endings and reconciliations. -/
def Op.keepsWithin (op : Op) (db : DB) : Prop :=
  match op with
  | .acquireLeaseAtomic _ claim => claim.covers db
  | .reconcileResourceReservations _ => True
  | op => op.ending = true

instance (op : Op) (db : DB) : Decidable (op.keepsWithin db) :=
  match op with
  | .acquireLeaseAtomic _ claim => inferInstanceAs (Decidable (claim.covers db))
  | .reconcileResourceReservations _ => inferInstanceAs (Decidable True)
  | .releaseRunnerJob .. | .approveJob .. | .heartbeatLease .. | .heartbeatLeaseWithTTL ..
  | .completeJob .. | .cancelRunJobs .. | .recoverExpiredLease .. | .revokeRunnerLeases ..
  | .expireQueuedJob .. | .insertCompiledRun .. | .insertGeneratedFragment .. =>
    inferInstanceAs (Decidable (Op.ending _ = true))

theorem ClaimCommitted.declared {claim : LeaseClaim} {r : RunnerRow}
    (committed : ClaimCommitted c claim r effective row db db')
    (holder : RunnerID) : db'.declared holder = db.declared holder :=
  committed.config.declared holder

theorem step_within (op : Op) (db : DB) (keeps : op.keepsWithin db) (covered : db.Covered)
    (within : db.Within) : (∀ r, (step op db).declared r = db.declared r) ∧
      (step op db).Covered ∧ (step op db).Within := by
  cases ran : op.exec db with
  | error e =>
    rw [step, ran, commit_error]
    exact ⟨fun _ => rfl, covered, within⟩
  | ok db' =>
    rw [step, ran, commit_ok]
    have ends (ending : op.ending = true) :
        (∀ r, db'.declared r = db.declared r) ∧ db'.Covered ∧ db'.Within := by
      rcases Op.settlement ending ran with rfl | ⟨now, settlement⟩
      · exact ⟨fun _ => rfl, covered, within⟩
      · have releases := settlement.onlyReleases
        have declared := settlement.config.declared
        exact ⟨declared, releases.covered covered, releases.within covered declared within⟩
    cases op with
    | acquireLeaseAtomic c claim =>
      obtain ⟨r, effective, row, checked, committed⟩ := acquireLeaseAtomic_inv ran
      have covers : ∀ d, row.payload.requestAt d ≤ claim.requestedResources.at d := by
        intro d
        exact keeps row committed.found d (by cases d <;> simp)
      exact ⟨committed.declared, covered.claim checked committed covers,
        within.claim covered checked committed committed.declared⟩
    | reconcileResourceReservations c =>
      have declared (r : RunnerID) : db'.declared r = db.declared r := by
        rw [reconcileResourceReservations_only ran]
        rfl
      exact ⟨declared, covered.reconcile ran, within.reconcile covered ran⟩
    | _ => exact ends keeps

/-- **Reserved resources stay within the declared capacity.**  From a store
without leases and reservations, after claims that request at least what a
reconciliation would write for their job, endings and reconciliations: a runner
declares what it declared at the start, and in every dimension it declares its
live reservations add up to no more. -/
theorem reserved_within_declared (base : DB) (idle : ∀ id, base.leaseOf id = none)
    (unreserved : base.reservations = .empty) (ops : List Op)
    (keeps : Guarded step Op.keepsWithin ops base) (r : RunnerID) (capacity : ResourceCapacity)
    (declares : base.declared r = some capacity) :
    (run step ops base).declared r = some capacity ∧
      ∀ d, 0 < capacity.at d → (run step ops base).reservedAt r "" d ≤ capacity.at d := by
  have first : (∀ r, base.declared r = base.declared r) ∧ base.Covered ∧ base.Within := by
    refine ⟨fun _ => rfl, fun id row found running => ?_, fun r capacity d _ positive => ?_⟩
    · exact absurd (leaseOf_eq_none_iff.mp (idle id)) (by simp [statusOf, found, running])
    · rw [reservedAt_total, unreserved, sum_empty]
      omega
  have held := run_guarded
    (I := fun db : DB => (∀ r, db.declared r = base.declared r) ∧ db.Covered ∧ db.Within)
    (fun op db met holds => by
      obtain ⟨declared, covered, within⟩ := holds
      obtain ⟨same, covered, within⟩ := step_within op db met covered within
      exact ⟨fun r => (same r).trans (declared r), covered, within⟩) ops keeps first
  obtain ⟨declared, _, within⟩ := held
  have still : (run step ops base).declared r = some capacity := (declared r).trans declares
  exact ⟨still, fun d positive => within r capacity d still positive⟩

namespace Cgroup

open Chain (runnerID)

/-- A job and its services, six units of memory each. -/
def job : Job :=
  { Chain.a with resourceRequest := { memory := 6 }, serviceEnvelopeRequest := { memory := 6 } }

/-- A runner with the given memory, a led store and the queued job. -/
def store (memory : Int) : DB where
  runners := Table.empty.put runnerID
    { capacity := 1
      payload := { capacity := 1, jobCgroup := true, resourceCapacity := { memory } } }
  jobs := Table.empty.put job.id (.write job)
  leaderEpoch := some 1

/-- The job is claimed, and a promoted leader reconciles. -/
def history (ignoreServiceEnvelope : Bool) : List Op :=
  [.acquireLeaseAtomic {}
      { jobID := job.id, runnerID, generation := 1, ttl := 10, request := job.resourceRequest
        serviceEnvelopeRequest := job.serviceEnvelopeRequest, ignoreServiceEnvelope },
    .reconcileResourceReservations { leaderEpoch := 1 }]

end Cgroup

open Cgroup in
/-- The cgroup claim reserves six of ten units; the reconciliation rewrites the
reservation to twelve. -/
theorem reconciliation_exceeds_capacity :
    (store 10).declared Chain.runnerID = some { memory := 10 } ∧
      (run step (history true) (store 10)).statusOf job.id = some .running ∧
      (run step (history true) (store 10)).reservedAt Chain.runnerID "" .memory = 12 := by
  decide +kernel

open Cgroup in
/-- A claim of job and services, and the reconciliation, fit a runner of twelve. -/
theorem reconciled_claim_fits :
    (run step (history false) (store 12)).statusOf job.id = some .running ∧
      (run step (history false) (store 12)).reservedAt Chain.runnerID "" .memory ≤ 12 := by
  have idle : ∀ id, (store 12).leaseOf id = none := by
    intro id
    rw [leaseOf_eq_none_iff, statusOf, store, get?_put]
    split
    · decide
    · simp
  exact ⟨by decide +kernel, (reserved_within_declared (store 12) idle rfl (history false)
    (by decide +kernel) Chain.runnerID { memory := 12 } (by decide +kernel)).2 .memory (by decide)⟩

end KiwiCI.Storage
