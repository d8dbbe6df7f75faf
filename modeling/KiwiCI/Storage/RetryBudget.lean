import KiwiCI.Storage.Slots
import KiwiCI.Storage.Terminal

/-!
The infrastructure retry budget.

A lease is counted in `attempts` when it is taken.  `RecoverExpiredLease` and
`RevokeRunnerLeases` each compare that count with the budget of the job when
they take the lease away: within the budget the job goes back to the queue,
beyond it the job is over.  `JobRow.Rationed` is what both comparisons keep for
the row of one job, `Leasing` counts the leases that were taken, and
`retry_budget_exact` bounds them over whole runs.
-/

namespace KiwiCI.Storage

variable {db : DB} {id : JobID}

open Table Option JobRow

/-! ## What a re-evaluation does to one row -/

/-- A row that was re-evaluated: it keeps its status, or it is over now. -/
structure JobRow.Reviewed (old new : JobRow) : Prop where
  attempts : new.attempts = old.attempts
  spec : new.payload.job.spec = old.payload.job.spec
  decodes : new.payload.decodes = old.payload.decodes
  synced : new.Synced
  status : new.status = old.status ∨ (old.status.terminal = false ∧ new.status.terminal = true)

namespace JobRow.Reviewed

theorem refl {row : JobRow} (synced : row.Synced) : row.Reviewed row :=
  ⟨rfl, rfl, rfl, synced, .inl rfl⟩

theorem trans {a c : JobRow} (first : a.Reviewed b) (second : b.Reviewed c) : a.Reviewed c where
  attempts := second.attempts.trans first.attempts
  spec := second.spec.trans first.spec
  decodes := second.decodes.trans first.decodes
  synced := second.synced
  status := by
    rcases second.status with same | ⟨unsettled, isOver⟩
    · rw [same]
      exact first.status
    · rcases first.status with same | ⟨_, isOver'⟩
      · exact .inr ⟨same ▸ unsettled, isOver⟩
      · rw [unsettled] at isOver'
        cases isOver'

theorem idle {old : JobRow} (reviewed : old.Reviewed new) (stopped : old.status ≠ .running) :
    new.status ≠ .running := by
  intro running
  rcases reviewed.status with same | ⟨_, isOver⟩
  · exact stopped (same.symm.trans running)
  · rw [running] at isOver
    cases isOver

theorem settled {old : JobRow} (reviewed : old.Reviewed new)
    (isOver : old.status.terminal = true) : new.status = old.status := by
  rcases reviewed.status with same | ⟨unsettled, _⟩
  · exact same
  · rw [isOver] at unsettled
    cases unsettled

theorem writeDependent {row : JobRow} (now : Time) (outcome : Status) (synced : row.Synced)
    (stopped : row.status ≠ .running) (decodes : row.payload.decodes = true)
    (waiting : row.payload.job.status.waiting = true) :
    row.Reviewed (row.writeDependent (resolveDependent now row.payload.job outcome)) := by
  have kept : row.payload.job.status = row.status := by rwa [Synced, if_neg stopped] at synced
  have spec := resolveDependent_spec now row.payload.job outcome
  have idle : (resolveDependent now row.payload.job outcome).status ≠ .running :=
    resolveDependent_not_running waiting
  have status : (resolveDependent now row.payload.job outcome).status = row.status ∨
      (row.status.terminal = false ∧
        (resolveDependent now row.payload.job outcome).status.terminal = true) := by
    cases allows : dependencyConditionAllows row.payload.job outcome with
    | true =>
      rw [resolveDependent_allowed now allows]
      exact .inl kept
    | false =>
      exact .inr ⟨kept ▸ Status.not_terminal_of_waiting waiting, resolveDependent_rejected now allows⟩
  generalize resolveDependent now row.payload.job outcome = d at spec idle status
  exact ⟨rfl, spec, decodes.symm, row.synced_writeDependent idle, status⟩

end JobRow.Reviewed

/-- The loop over the dependents re-evaluates the row of a job, if it is among
them and nobody runs it. -/
theorem recomputes_reviewed {now : Time} {dependents : List JobID}
    (found : db.jobs.get? id = some row) (synced : row.Synced)
    (stopped : id ∈ dependents → row.status ≠ .running)
    (ran : dependents.foldlM (recomputeDependentTx now) db = .ok db') :
    ∃ row', db'.jobs.get? id = some row' ∧ row.Reviewed row' := by
  induction ran using foldlM_ok_induction generalizing row with
  | nil => exact ⟨row, found, .refl synced⟩
  | cons head rest db mid first tail ih =>
    have later : id ∈ rest → row.status ≠ .running := fun member =>
      stopped (List.mem_cons_of_mem _ member)
    rcases recomputeDependentTx_inv first with
      ⟨rfl, _⟩ | ⟨other, outcome, there, decodes, waiting, _, rfl⟩
    · exact ih found synced later
    by_cases same : id = head
    · subst same
      cases found.symm.trans there
      have reviewed := Reviewed.writeDependent now outcome synced
        (stopped (by simp)) decodes waiting
      obtain ⟨row', held, again⟩ := ih (get?_put_self _ _ _) reviewed.synced
        fun member => reviewed.idle (later member)
      exact ⟨row', held, reviewed.trans again⟩
    · exact ih (by rw [get?_put_ne _ _ same]; exact found) synced later

/-- What a call that ends jobs leaves of the row of one job. -/
theorem Settlement.row {ended : List (JobID × Status)}
    {row : JobRow} (nodup : (ended.map Prod.fst).Nodup)
    (spared : id ∈ reevaluated.flatMap db.dependentsOf → ended.lookup id = none →
      row.status ≠ .running)
    (found : db.jobs.get? id = some row) (decodes : row.payload.decodes = true)
    (synced : row.Synced) (settlement : Settlement now ended reevaluated db db') :
    ∃ row', db'.jobs.get? id = some row' ∧ (ended.lookup id).elim (row.Reviewed row') fun outcome =>
        ∃ left, row.Ended left outcome ∧ left.Reviewed row' := by
  obtain ⟨left, resolved, all, recomputed, follows⟩ := settlement
  have flat := all.flat recomputed
  have moved := all.get? nodup id
  rw [follows.jobs]
  cases listed : ended.lookup id with
  | none =>
    rw [listed] at moved
    exact recomputes_reviewed (Eq.trans moved found) synced (fun member => spared member listed) flat
  | some outcome =>
    rw [listed] at moved
    obtain ⟨other, there, same, held, gone⟩ := moved
    cases found.symm.trans same
    obtain ⟨row', held', reviewed⟩ := recomputes_reviewed held (gone.synced decodes)
      (fun _ => gone.stopped) flat
    exact ⟨row', held', there, gone, reviewed⟩

/-! ## The ration of one job -/

/-- The row of a job leased `leased` times, against its budget: one lease more
than the budget is the last one, and only a job within it waits for another. -/
structure JobRow.Rationed (budget : Int) (leased : Nat) (row : JobRow) : Prop where
  limit : effectiveMaxInfraRetries row.payload.job = budget
  counted : row.attempts = leased
  decodes : row.payload.decodes = true
  synced : row.Synced
  bounded : (leased : Int) ≤ max budget 0 + 1
  spare : row.status.terminal = false → row.status ≠ .running → (leased : Int) ≤ max budget 0

namespace JobRow.Rationed

variable {budget : Int} {leased : Nat} {row row' : JobRow}

theorem claim (rationed : row.Rationed budget leased) (queued : row.status = .queued) (now : Time)
    (claim : LeaseClaim) (interpreter : String) :
    (row.claim now claim interpreter).Rationed budget (leased + 1) where
  limit := rationed.limit
  counted := by
    change row.attempts + 1 = _
    rw [rationed.counted]
    rfl
  decodes := rationed.decodes
  synced := rationed.synced.claim queued now claim interpreter
  bounded := by
    have spare := rationed.spare (by rw [queued]; rfl) (by rw [queued]; decide)
    push_cast
    omega
  spare := fun _ idle => absurd rfl idle

theorem reviewed (rationed : row.Rationed budget leased) (reviewed : row.Reviewed row') :
    row'.Rationed budget leased where
  limit := (effectiveMaxInfraRetries_congr reviewed.spec).trans rationed.limit
  counted := reviewed.attempts.trans rationed.counted
  decodes := reviewed.decodes.trans rationed.decodes
  synced := reviewed.synced
  bounded := rationed.bounded
  spare := by
    intro unsettled idle
    rcases reviewed.status with same | ⟨_, isOver⟩
    · rw [same] at unsettled idle
      exact rationed.spare unsettled idle
    · rw [isOver] at unsettled
      cases unsettled

/-- A job leaves its lease; who goes back to the queue is within the budget. -/
theorem ended (rationed : row.Rationed budget leased)
    (ended : row.Ended row' outcome) (within : outcome = .queued → row.attempts ≤ budget) :
    row'.Rationed budget leased where
  limit := (effectiveMaxInfraRetries_congr ended.evolves.spec).trans rationed.limit
  counted := ended.attempts.trans rationed.counted
  decodes := ended.evolves.decodes.trans rationed.decodes
  synced := ended.synced rationed.decodes
  bounded := rationed.bounded
  spare := by
    intro unsettled _
    rw [ended.status] at unsettled
    rcases ended.isOver with isOver | ⟨requeued, _⟩
    · rw [isOver] at unsettled
      cases unsettled
    · have within := within requeued
      rw [rationed.counted] at within
      exact within.trans (le_max_left _ _)

end JobRow.Rationed

theorem JobRow.lostStatus_of_spent {row : JobRow}
    (spent : effectiveMaxInfraRetries row.payload.job < row.attempts) (final : Status) :
    row.lostStatus final = final := if_neg (by omega)

theorem JobRow.within_of_lostStatus {row : JobRow} (ends : final ≠ .queued)
    (requeued : row.lostStatus final = .queued) :
    row.attempts ≤ effectiveMaxInfraRetries row.payload.job := by
  by_contra spent
  rw [lostStatus, if_neg spent] at requeued
  exact ends requeued

/-- No call that ends jobs puts one back beyond its budget. -/
theorem Op.within_of_requeued {op : Op}
    (found : db.jobs.get? id = some row) (requeued : (op.endings db).lookup id = some .queued) :
    row.attempts ≤ effectiveMaxInfraRetries row.payload.job := by
  have single : ∀ (jobID : JobID) (outcome : Status),
      [(jobID, outcome)].lookup id = some .queued → id = jobID ∧ outcome = .queued := by
    intro jobID outcome listed
    by_cases same : id = jobID
    · exact ⟨same, by simpa [same] using listed⟩
    · simp [List.lookup_cons, beq_eq_false_iff_ne.mpr same] at listed
  cases op with
  | completeJob c jobID generation runnerID result receipt =>
    obtain ⟨_, ends⟩ := single _ _ requeued
    have isOver := completionStatus_terminal result.status
    rw [ends] at isOver
    cases isOver
  | cancelRunJobs c runID reason =>
    rw [Op.endings, lookup_map_pair] at requeued
    split at requeued <;> cases requeued
  | recoverExpiredLease c jobID generation =>
    obtain ⟨rfl, ends⟩ := single _ _ requeued
    rw [DB.recoveredStatus, found, elim_some, recoveredStatus] at ends
    split at ends
    · exact within_of_lostStatus (by decide) ends
    · cases ends
  | revokeRunnerLeases c runnerID reason =>
    rw [Op.endings, lookup_map_pair] at requeued
    split at requeued
    · rw [DB.revokedStatus, found, elim_some, some.injEq] at requeued
      exact within_of_lostStatus (by decide) requeued
    · cases requeued
  | expireQueuedJob c jobID observed => cases (single _ _ requeued).2
  | _ => cases requeued

/-! ## Calls and runs -/

/-- The row of job `id` keeps its ration. -/
def DB.Rationed (db : DB) (id : JobID) (budget : Int) (leased : Nat) : Prop :=
  ∃ row, db.jobs.get? id = some row ∧ row.Rationed budget leased

/-- Whether the call leases job `id`. -/
def Op.leases (op : Op) (db : DB) (id : JobID) : Bool :=
  match op with
  | .acquireLeaseAtomic c claim =>
    claim.jobID = id && (Storage.acquireLeaseAtomic c claim db).isOk
  | _ => false

/-- A store, with how often each job has been leased. -/
structure Leasing where
  db : DB
  leased : JobID → Nat := fun _ => 0

/-- A call, counted if it leases a job. -/
def Leasing.step (op : Op) (s : Leasing) : Leasing where
  db := Storage.step op s.db
  leased := fun id => s.leased id + (op.leases s.db id).toNat

/-- The calls the budget is kept under: claims, and endings that re-evaluate no
running job. -/
def Op.keepsBudget (op : Op) (db : DB) : Prop :=
  (op.isClaim || op.ending) = true ∧ op.spares db

instance (op : Op) (db : DB) : Decidable (op.keepsBudget db) :=
  inferInstanceAs (Decidable (_ ∧ Op.spares _ db))

/-- A job counted by `leases` was leased by a call that went through. -/
theorem Op.leases_eq_false {op : Op}
    (failed : ∀ c claim, op = .acquireLeaseAtomic c claim → claim.jobID = id →
      (op.exec db).isOk = false) : op.leases db id = false := by
  cases op with
  | acquireLeaseAtomic c claim =>
    simp only [Op.leases, Bool.and_eq_false_imp, decide_eq_true_eq]
    exact failed c claim rfl
  | _ => rfl

/-- What a call makes of a row: it leases a queued one, or leaves what an ending and
the re-evaluation after it make of it. -/
inductive JobRow.Moves (budget : Int) (row : JobRow) : Bool → JobRow → Prop where
  | lease {now : Time} {claim : LeaseClaim} {interpreter : String} :
    row.status = .queued → Moves budget row true (row.claim now claim interpreter)
  | review {row' : JobRow} : row.Reviewed row' → Moves budget row false row'
  | leave {left row' : JobRow} {outcome : Status} : row.Ended left outcome →
    (outcome = .queued → row.attempts ≤ budget) → left.Reviewed row' → Moves budget row false row'

/-- A call that keeps the budget moves a rationed row, and counts a lease of it. -/
theorem JobRow.Rationed.moves {op : Op} (rationed : row.Rationed budget leased)
    (kept : op.keepsBudget db) (found : db.jobs.get? id = some row) :
    ∃ row', (step op db).jobs.get? id = some row' ∧ row.Moves budget (op.leases db id) row' := by
  obtain ⟨kind, spares⟩ := kept
  have same : row.Moves budget false row := .review (.refl rationed.synced)
  cases ran : op.exec db with
  | error e =>
    rw [Op.leases_eq_false fun _ _ _ _ => by rw [ran]; rfl, step, ran, commit_error]
    exact ⟨row, found, same⟩
  | ok db' =>
    rw [step, ran, commit_ok]
    cases isClaim : op.isClaim with
    | true =>
      obtain ⟨c, claim, r, effective, claimed, rfl, checked, committed⟩ := Op.claim isClaim ran
      rw [committed.jobs, get?_put]
      by_cases own : id = claim.jobID
      · subst own
        cases found.symm.trans committed.found
        have leases : Op.leases (.acquireLeaseAtomic c claim) db claim.jobID = true := by
          rw [Op.leases, show acquireLeaseAtomic c claim db = .ok db' from ran, decide_eq_true rfl]
          rfl
        rw [leases, if_pos rfl]
        exact ⟨_, rfl, .lease committed.queued⟩
      · rw [if_neg own, Op.leases_eq_false fun _ _ named equal => by
          cases named
          exact absurd equal.symm own]
        exact ⟨row, found, same⟩
    | false =>
      rw [isClaim, Bool.false_or] at kind
      rw [Op.leases_eq_false fun _ _ named _ => by
        rw [named] at isClaim
        cases isClaim]
      rcases Op.settlement kind ran with rfl | ⟨now, settlement⟩
      · exact ⟨row, found, same⟩
      have spared : id ∈ (op.reevaluated db).flatMap db.dependentsOf →
          (op.endings db).lookup id = none → row.status ≠ .running := by
        intro member absent running
        refine spares id member absent ?_
        rw [DB.statusOf, found, map_some, running]
      obtain ⟨row', held, moved⟩ := settlement.row (op.nodup_endings db) spared found
        rationed.decodes rationed.synced
      refine ⟨row', held, ?_⟩
      cases listed : (op.endings db).lookup id with
      | none =>
        rw [listed] at moved
        exact .review moved
      | some outcome =>
        rw [listed] at moved
        obtain ⟨left, gone, reviewed⟩ := moved
        refine .leave gone (fun requeued => ?_) reviewed
        rw [← rationed.limit]
        exact Op.within_of_requeued found (requeued ▸ listed)

theorem JobRow.Moves.rationed {row row' : JobRow} (moves : row.Moves budget leases row')
    (rationed : row.Rationed budget leased) : row'.Rationed budget (leased + leases.toNat) := by
  cases moves with
  | lease queued => exact rationed.claim queued _ _ _
  | review reviewed => exact rationed.reviewed reviewed
  | leave gone within reviewed => exact (rationed.ended gone within).reviewed reviewed

theorem Leasing.step_rationed {budget : Int} (op : Op) (s : Leasing)
    (met : op.keepsBudget s.db) (rationed : s.db.Rationed id budget (s.leased id)) :
    (s.step op).db.Rationed id budget ((s.step op).leased id) := by
  obtain ⟨row, found, rationed⟩ := rationed
  obtain ⟨row', held, moves⟩ := rationed.moves met found
  exact ⟨row', held, moves.rationed rationed⟩

/-- Only a running job within its budget goes back to the queue. -/
theorem JobRow.Rationed.requeued {op : Op}
    (rationed : row.Rationed budget leased) (kept : op.keepsBudget db)
    (found : db.jobs.get? id = some row) (away : row.status ≠ .queued)
    (requeued : (step op db).statusOf id = some .queued) :
    row.status = .running ∧ row.attempts ≤ budget := by
  obtain ⟨row', held, moves⟩ := rationed.moves kept found
  rw [DB.statusOf, held, map_some, some.injEq] at requeued
  -- a re-evaluation puts no job into the queue
  have before {old : JobRow} (reviewed : old.Reviewed row') : old.status = .queued := by
    rcases reviewed.status with same | ⟨_, isOver⟩
    · exact same.symm.trans requeued
    · rw [requeued] at isOver
      cases isOver
  generalize op.leases db id = leases at moves
  cases moves with
  | lease queued => exact absurd queued away
  | review reviewed => exact absurd (before reviewed) away
  | leave gone within reviewed =>
    have back := gone.status.symm.trans (before reviewed)
    refine ⟨?_, within back⟩
    rcases gone.isOver with isOver | ⟨_, running⟩
    · rw [back] at isOver
      cases isOver
    · exact running

/-! ## Lost leases -/

/-- Whether the call takes the lease of job `id` away from its holder. -/
def Op.takes (op : Op) (id : JobID) (row : JobRow) : Prop :=
  match op with
  | .recoverExpiredLease c jobID generation =>
    jobID = id ∧ row.leaseGeneration = generation ∧ row.leaseExpiresAt.any (c.now < ·) = false
  | .revokeRunnerLeases _ runnerID _ => row.leaseRunnerID = runnerID
  | _ => False

/-- What a lost lease beyond the budget ends in. -/
def Op.lostOutcome : Op → Status
  | .recoverExpiredLease .. => .failure
  | _ => .cancelled

theorem Op.lostOutcome_terminal (op : Op) : op.lostOutcome.terminal = true := by
  cases op <;> rfl

/-- A recovery of the current, expired lease is no idle call. -/
theorem recoverExpiredLease_takes
    (found : db.jobs.get? jobID = some row) (running : row.status = .running)
    (decodes : row.payload.decodes = true) (expired : row.leaseExpiresAt.any (c.now < ·) = false)
    (ran : recoverExpiredLease c jobID row.leaseGeneration db = .ok db') :
    Settlement c.now [(jobID, row.recoveredStatus)] [jobID] db db' := by
  simp only [recoverExpiredLease, bind_ok_iff, orThrow_ok_iff] at ran
  obtain ⟨_, -, _, -, other, same, ran⟩ := ran
  cases found.symm.trans same
  rw [if_neg (by simp [running]), Payload.decode_eq_some.mpr ⟨decodes, rfl⟩] at ran
  dsimp only at ran
  rw [if_neg (by simp [expired])] at ran
  exact recoverLeaseTx_inv found running decodes (by rfl) (by rfl) (by rfl) ran

/-- Who takes a lease away ends the job as the budget says, and re-evaluates its
dependents. -/
theorem Op.settlement_of_takes {op : Op}
    (found : db.jobs.get? id = some row) (running : row.status = .running)
    (decodes : row.payload.decodes = true) (takes : op.takes id row) (ran : op.exec db = .ok db') :
    id ∈ op.reevaluated db ∧ (op.endings db).lookup id = some (row.lostStatus op.lostOutcome) ∧
      ∃ now, Settlement now (op.endings db) (op.reevaluated db) db db' := by
  cases op with
  | recoverExpiredLease c jobID generation =>
    obtain ⟨rfl, rfl, expired⟩ := takes
    have outcome : db.recoveredStatus jobID = row.lostStatus .failure := by
      rw [DB.recoveredStatus, found, elim_some, recoveredStatus, if_pos decodes]
    refine ⟨by simp [Op.reevaluated, Op.endings], ?_, c.now, ?_⟩
    · rw [Op.endings, List.lookup_cons_self, outcome]
      rfl
    · rw [Op.endings, outcome]
      have settled := recoverExpiredLease_takes found running decodes expired ran
      rwa [recoveredStatus, if_pos decodes] at settled
  | revokeRunnerLeases c runnerID reason =>
    have member : id ∈ db.leasedTo runnerID := mem_leasedTo.mpr ⟨row, found, running, takes⟩
    have names : Op.reevaluated db (.revokeRunnerLeases c runnerID reason) =
        db.leasedTo runnerID := by
      simp [Op.reevaluated, Op.endings, Function.comp_def]
    refine ⟨names ▸ member, ?_, c.now, ?_⟩
    · rw [Op.endings, lookup_map_pair, if_pos member, DB.revokedStatus, found, elim_some]
      rfl
    · rw [names]
      exact revokeRunnerLeases_inv ran
  | _ => cases takes

theorem JobRow.Rationed.stays {row : JobRow} {budget : Int}
    (rationed : row.Rationed budget leased) (found : db.jobs.get? id = some row)
    (isOver : row.status.terminal = true) (later : List Op) :
    (run step later db).statusOf id = some row.status := by
  obtain ⟨row', held, absorbs⟩ := (run_absorbs later db).rows id row found
  have stopped : row.status ≠ .running := by
    intro running
    rw [running] at isOver
    cases isOver
  have coherent : row.Coherent := by
    intro _ _
    have synced := rationed.synced
    rwa [Synced, if_neg stopped] at synced
  rw [DB.statusOf, held, map_some, absorbs.absorbing coherent isOver]

/-- **The retry budget is exact.**  From the insertion of a job on, under claims
and endings that re-evaluate no running job, the job is leased at most once more
than its budget; only a running job within the budget goes back to the queue; and
an expiry or a revocation that takes a lease beyond the budget ends the job for
good, in failure or cancelled, and re-evaluates its dependents. -/
theorem retry_budget_exact (j : Job) (base : DB)
    (inserted : base.jobs.get? j.id = some (.write j)) (fresh : j.attempts = 0)
    (idle : j.status ≠ .running) (ops : List Op)
    (met : Guarded Leasing.step (fun op s => op.keepsBudget s.db) ops { db := base }) :
    let s := run Leasing.step ops { db := base }
    (s.leased j.id : Int) ≤ max (effectiveMaxInfraRetries j) 0 + 1 ∧
    ∀ op, op.keepsBudget s.db →
      ((step op s.db).statusOf j.id = some .queued → s.db.statusOf j.id ≠ some .queued →
        ∃ row, s.db.jobs.get? j.id = some row ∧ row.status = .running ∧
          row.attempts = s.leased j.id ∧ row.attempts ≤ effectiveMaxInfraRetries j) ∧
      ∀ row db', s.db.jobs.get? j.id = some row → row.status = .running → op.takes j.id row →
        effectiveMaxInfraRetries j < row.attempts → op.exec s.db = .ok db' →
        (∀ later, (run step later db').statusOf j.id = some op.lostOutcome) ∧
        j.id ∈ op.reevaluated s.db ∧
        ∃ now, Settlement now (op.endings s.db) (op.reevaluated s.db) s.db db' := by
  have start : base.Rationed j.id (effectiveMaxInfraRetries j) 0 := by
    refine ⟨_, inserted, rfl, fresh, rfl, (if_neg idle).symm, ?_, fun _ _ => ?_⟩
    · have := le_max_right (effectiveMaxInfraRetries j) 0
      push_cast
      omega
    · exact le_max_right _ _
  intro s
  obtain ⟨row, found, rationed⟩ : s.db.Rationed j.id (effectiveMaxInfraRetries j) (s.leased j.id) :=
    run_guarded (I := fun s : Leasing =>
        s.db.Rationed j.id (effectiveMaxInfraRetries j) (s.leased j.id))
      (fun op s met holds => s.step_rationed op met holds) ops met start
  refine ⟨rationed.bounded, fun op kept => ⟨fun requeued away => ?_, ?_⟩⟩
  · have status : s.db.statusOf j.id = some row.status := by rw [DB.statusOf, found]; rfl
    obtain ⟨running, within⟩ := rationed.requeued kept found
      (fun queued => away (status.trans (congrArg some queued))) requeued
    exact ⟨row, found, running, rationed.counted, within⟩
  · intro _ db' there running takes spent ran
    cases found.symm.trans there
    obtain ⟨member, listed, now, settlement⟩ :=
      Op.settlement_of_takes found running rationed.decodes takes ran
    rw [lostStatus_of_spent (rationed.limit ▸ spent)] at listed
    obtain ⟨row', held, moved⟩ := settlement.row (op.nodup_endings s.db)
      (fun _ absent => by rw [listed] at absent; cases absent) found rationed.decodes
      rationed.synced
    rw [listed] at moved
    obtain ⟨left, gone, reviewed⟩ := moved
    have isOver : left.status.terminal = true := by
      rw [gone.status]
      exact op.lostOutcome_terminal
    have final : row'.status = op.lostOutcome := (reviewed.settled isOver).trans gone.status
    have kept : row'.Rationed (effectiveMaxInfraRetries j) (s.leased j.id) :=
      (rationed.ended gone fun requeued => by
        have ends := op.lostOutcome_terminal
        rw [requeued] at ends
        cases ends).reviewed reviewed
    refine ⟨fun later => ?_, member, now, settlement⟩
    rw [kept.stays held (final ▸ op.lostOutcome_terminal), final]

namespace Budget

/-- A job that may be retried once. -/
def once : Job :=
  { id := "0000000000000000000000000000000a", runID := "000000000000000000000000000000ff"
    key := "once", status := .queued, maxInfraRetries := 1 }

/-- A job that may not be retried. -/
def never : Job :=
  { once with id := "0000000000000000000000000000000b", key := "never", maxInfraRetries := 0 }

/-- Another such job, that needs the first. -/
def after : Job :=
  { never with id := "0000000000000000000000000000000c", key := "after", needs := [never.id] }

def runnerID : RunnerID := "0000000000000000000000000000000f"

/-- The jobs given, queued, and a runner with two slots. -/
def start (jobs : List Job) : DB where
  leaderEpoch := some 1
  runners := Table.empty.put runnerID { capacity := 2, payload := { capacity := 2 } }
  jobs := jobs.foldl (fun t j => t.put j.id (.write j)) .empty
  dependencies := jobs.flatMap fun j => j.needs.map (j.id, ·)

/-- A claim of the runner. -/
def claims (j : Job) (now : Time) (generation : Int) : Op :=
  .acquireLeaseAtomic { now } { jobID := j.id, runnerID, generation, ttl := 10 }

/-- The leader finds the lease expired. -/
def expires (now : Time) (generation : Int) : Op :=
  .recoverExpiredLease { now, leaderEpoch := 1 } once.id generation

/-- The first lease expires, and the job is leased again. -/
def retried : List Op := [claims once 0 1, expires 20 1, claims once 30 2]

/-- The dependent is claimed first, and again once the job it needs is done. -/
def early : List Op :=
  [claims after 0 1, claims never 0 1,
    .completeJob { now := 1 } never.id 1 runnerID { status := .success }
      { jobID := never.id, generation := 1, runnerID, resultHash := "d" },
    claims after 20 2]

end Budget

open Budget in
/-- A revoked lease beyond the budget ends its job cancelled, not failed; and a
job claimed before the one it needs is done is leased twice on no budget. -/
theorem revoked_lease_is_cancelled :
    (run step [claims never 0 1, .revokeRunnerLeases { now := 1 } runnerID "disabled"]
        (start [never])).statusOf never.id = some .cancelled ∧
      (run Leasing.step early { db := start [never, after] }).leased after.id = 2 := by
  decide +kernel

open Budget in
/-- The second lease is the last one: when it expires the job fails for good. -/
theorem second_expiry_fails :
    (run Leasing.step retried { db := start [once] }).leased once.id = 2 ∧
      ∀ later, (run step later (step (expires 50 2)
        (run Leasing.step retried { db := start [once] }).db)).statusOf once.id = some .failure := by
  have held : ((run Leasing.step retried { db := start [once] }).db.jobs.get? once.id).any
      (fun row => decide (row.status = .running ∧ row.leaseGeneration = 2 ∧
        row.leaseExpiresAt.any ((50 : Time) < ·) = false ∧
        effectiveMaxInfraRetries once < row.attempts)) = true := by
    decide +kernel
  simp only [any_eq_true, decide_eq_true_eq] at held
  obtain ⟨row, found, running, generation, expired, spent⟩ := held
  have ran := eq_ok_commit (t := (expires 50 2).exec
    (run Leasing.step retried { db := start [once] }).db) (by decide +kernel)
    (run Leasing.step retried { db := start [once] }).db
  have exact := retry_budget_exact once (start [once]) (by rfl) rfl (by decide) retried
    (by decide +kernel)
  obtain ⟨lost, _⟩ := (exact.2 (expires 50 2) (by decide +kernel)).2 row _ found running
    ⟨rfl, generation, expired⟩ spent ran
  exact ⟨by decide +kernel, lost⟩

end KiwiCI.Storage
