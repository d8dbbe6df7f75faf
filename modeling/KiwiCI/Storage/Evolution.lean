import KiwiCI.Storage.Settlement

/-!
What each operation of the store does to the job rows.

An operation other than a claim evolves the rows that are there and may add new
ones (`DB.Evolves`); a claim starts one queued job and leaves the other rows
alone (`acquireLeaseAtomic_inv`).  `Op.evolves` says so for every operation, so
that a fact about job rows is checked against two cases and not against the
thirteen transactions.
-/

namespace KiwiCI.Storage

section Rows

variable {jobID : JobID} {ended : List (JobID × Status)} {runnerID : RunnerID}

variable {db db' : DB} {row : JobRow} {now : Time} {c : Call} {generation : Int}
  {req : InsertCompiledRunRequest} {claim : LeaseClaim}

open Table

/-! ## Rows -/

/-- Every row that is there moves along `rel`, and every row that is added is
coherent. -/
structure DB.RowsMove (rel : JobRow → JobRow → Prop) (db db' : DB) : Prop where
  rows : ∀ id row, db.jobs.get? id = some row → ∃ row', db'.jobs.get? id = some row' ∧ rel row row'
  added : ∀ id row', db.jobs.get? id = none → db'.jobs.get? id = some row' → row'.Coherent

namespace DB.RowsMove

variable {rel : JobRow → JobRow → Prop} {db db' : DB} {id : JobID} {row row' : JobRow}

theorem ofJobs (refl : ∀ row, rel row row) (same : db'.jobs = db.jobs) : db.RowsMove rel db' where
  rows := fun id row found => ⟨row, same ▸ found, refl row⟩
  added := fun id row' absent found => by simp [same, absent] at found

theorem trans {a c : DB} (relTrans : ∀ {a b c}, rel a b → rel b c → rel a c)
    (coherent : ∀ {a b}, rel a b → a.Coherent → b.Coherent)
    (first : a.RowsMove rel b) (second : b.RowsMove rel c) : a.RowsMove rel c where
  rows := by
    intro id row found
    obtain ⟨middle, there, early⟩ := first.rows id row found
    obtain ⟨row', held, late⟩ := second.rows id middle there
    exact ⟨row', held, relTrans early late⟩
  added := by
    intro id row' absent found
    cases there : b.jobs.get? id with
    | none => exact second.added id row' there found
    | some middle =>
      obtain ⟨late, held, moved⟩ := second.rows id middle there
      cases held.symm.trans found
      exact coherent moved (first.added id middle absent there)

theorem ofPut (refl : ∀ row, rel row row) (found : db.jobs.get? id = some row)
    (moved : rel row row') (written : db'.jobs = db.jobs.put id row') : db.RowsMove rel db' where
  rows := by
    intro other held there
    rw [written, get?_put]
    split <;> rename_i same
    · subst same
      cases found.symm.trans there
      exact ⟨row', rfl, moved⟩
    · exact ⟨held, there, refl held⟩
  added := by
    intro other held absent there
    have differ : other ≠ id := by
      rintro rfl
      simp [found] at absent
    rw [written, get?_put_ne _ _ differ, absent] at there
    cases there

theorem ofFresh (refl : ∀ row, rel row row) (fresh : db.jobs.get? id = none)
    (coherent : row.Coherent) (written : db'.jobs = db.jobs.put id row) : db.RowsMove rel db' where
  rows := by
    intro other held there
    have differ : other ≠ id := by
      rintro rfl
      simp [fresh] at there
    exact ⟨held, by rw [written, get?_put_ne row _ differ]; exact there, refl held⟩
  added := by
    intro other held absent there
    rw [written, get?_put] at there
    split at there
    · cases there
      exact coherent
    · rw [absent] at there
      cases there

theorem mono (weaker : ∀ {a b}, rel a b → rel' a b)
    (moved : db.RowsMove rel db') : db.RowsMove rel' db' where
  rows := fun id row found => by
    obtain ⟨row', there, one⟩ := moved.rows id row found
    exact ⟨row', there, weaker one⟩
  added := moved.added

end DB.RowsMove

/-- The job rows evolve. -/
abbrev DB.Evolves (db db' : DB) : Prop := db.RowsMove JobRow.Evolves db'

namespace DB.Evolves

theorem ofJobs (same : db'.jobs = db.jobs) : db.Evolves db' :=
  DB.RowsMove.ofJobs .refl same

theorem refl (db : DB) : db.Evolves db := .ofJobs rfl

theorem trans {a c : DB} (first : a.Evolves b) (second : b.Evolves c) : a.Evolves c :=
  DB.RowsMove.trans .trans JobRow.Evolves.coherent first second

theorem foldlM {α : Type} {f : DB → α → Except StoreError DB} {items : List α}
    (each : ∀ a s s', f s a = .ok s' → s.Evolves s')
    (ran : items.foldlM f db = .ok db') : db.Evolves db' :=
  foldlM_rel refl trans items (fun a _ => each a) ran

theorem ofPut {id : JobID} (found : db.jobs.get? id = some row)
    (evolves : row.Evolves row') (written : db'.jobs = db.jobs.put id row') : db.Evolves db' :=
  DB.RowsMove.ofPut .refl found evolves written

theorem ofFresh {id : JobID} (fresh : db.jobs.get? id = none)
    (coherent : row.Coherent) (written : db'.jobs = db.jobs.put id row) : db.Evolves db' :=
  DB.RowsMove.ofFresh .refl fresh coherent written

end DB.Evolves

/-! ## Dependents -/

theorem resolveDependent_status (now : Time) (d : Job) (outcome : Status) :
    (resolveDependent now d outcome).status = d.status ∨
      (resolveDependent now d outcome).status = .skipped ∨
      (resolveDependent now d outcome).status = .blocked := by
  unfold resolveDependent
  dsimp only
  split
  · exact .inl rfl
  · split
    · exact .inr (.inl rfl)
    · exact .inr (.inr rfl)

theorem resolveDependent_spec (now : Time) (d : Job) (outcome : Status) :
    (resolveDependent now d outcome).spec = d.spec := by
  unfold resolveDependent
  dsimp only
  split
  · rfl
  · split <;> rfl

theorem resolveDependent_approvedBy (now : Time) (d : Job) (outcome : Status) :
    (resolveDependent now d outcome).approvedBy = d.approvedBy := by
  unfold resolveDependent
  dsimp only
  split
  · rfl
  · split <;> rfl

theorem resolveDependent_not_running
    (waiting : d.status.waiting = true) : (resolveDependent now d outcome).status ≠ .running := by
  intro running
  rcases resolveDependent_status now d outcome with same | same | same
  · exact absurd (same.symm.trans running) (Status.waiting_not_running waiting)
  · simp [running] at same
  · simp [running] at same

theorem JobRow.Evolves.writeDependent
    (decodes : row.payload.decodes = true) (waiting : row.payload.job.status.waiting = true)
    (same : d.spec = row.payload.job.spec) (stops : d.status ≠ .running) :
    row.Evolves (row.writeDependent d) where
  runID := rfl
  key := rfl
  generation := rfl
  spec := same
  decodes := decodes.symm
  envelopeKey := fun _ => rfl
  notStarted := fun running => absurd running stops
  coherent := fun _ _ _ => rfl
  absorbing := fun coherent isOver => by
    rw [coherent isOver decodes] at waiting
    simp [Status.not_terminal_of_waiting waiting] at isOver

/-- A re-evaluation rewrites a dependent whose payload is waiting and whose needs
have settled, or nothing. -/
theorem recomputeDependentTx_inv (ran : recomputeDependentTx now db depID = .ok db') :
    (db' = db ∧ ∀ row, db.jobs.get? depID = some row → row.payload.job.status.waiting = true →
      dependencyOutcome db.statusOf row.payload.job.needs = none) ∨
    ∃ row outcome, db.jobs.get? depID = some row ∧ row.payload.decodes = true ∧
      row.payload.job.status.waiting = true ∧
      dependencyOutcome db.statusOf row.payload.job.needs = some outcome ∧ db' = { db with
        jobs := db.jobs.put depID
          (row.writeDependent (resolveDependent now row.payload.job outcome)) } := by
  unfold recomputeDependentTx at ran
  split at ran
  · rename_i absent
    exact .inl ⟨(pure_ok_iff.mp ran).symm, fun row found => by simp [absent] at found⟩
  rename_i row found
  obtain ⟨d, decoded, ran⟩ := bind_ok_iff.mp ran
  rw [orThrow_ok_iff] at decoded
  obtain ⟨decodes, rfl⟩ := Payload.decode_eq_some.mp decoded
  split at ran
  · rename_i started
    refine .inl ⟨(pure_ok_iff.mp ran).symm, fun other same waiting => ?_⟩
    cases found.symm.trans same
    simp [started] at waiting
  rename_i waiting
  rw [Bool.not_eq_false] at waiting
  split at ran
  · rename_i unready
    refine .inl ⟨(pure_ok_iff.mp ran).symm, fun other same _ => ?_⟩
    cases found.symm.trans same
    exact unready
  rename_i outcome settled
  exact .inr ⟨row, outcome, found, decodes, waiting, settled, (pure_ok_iff.mp ran).symm⟩

theorem recomputeDependentTx_evolves
    (ran : recomputeDependentTx now db depID = .ok db') : db.Evolves db' := by
  rcases recomputeDependentTx_inv ran with
    ⟨rfl, _⟩ | ⟨row, outcome, found, decodes, waiting, _, rfl⟩
  · exact .refl _
  · exact .ofPut found (.writeDependent decodes waiting (resolveDependent_spec _ _ _)
      (resolveDependent_not_running waiting)) rfl

theorem recomputeDependentsTx_evolves
    (ran : recomputeDependentsTx now jobID db = .ok db') : db.Evolves db' :=
  .foldlM (fun _ _ _ each => recomputeDependentTx_evolves each) ran

/-! ## Settlements -/

theorem Ends.evolvesRows {id : JobID} {outcome : Status}
    (ends : Ends id outcome row row' db db') : db.Evolves db' :=
  .ofPut ends.found ends.ended.evolves ends.jobs

theorem EndsAll.evolvesRows (all : EndsAll ended db db') : db.Evolves db' := by
  induction all with
  | nil follows => exact .ofJobs follows.jobs
  | cons ends _ ih => exact ends.evolvesRows.trans ih

theorem recomputeAll_evolves {settled : List JobID}
    (ran : settled.foldlM (fun db id => recomputeDependentsTx now id db) db = .ok db') :
    db.Evolves db' :=
  .foldlM (fun _ _ _ each => recomputeDependentsTx_evolves each) ran

theorem Settlement.evolvesRows {settled : List JobID}
    (settlement : Settlement now ended settled db db') : db.Evolves db' := by
  obtain ⟨left, resolved, all, recomputed, follows⟩ := settlement
  exact (all.evolvesRows.trans (recomputeAll_evolves recomputed)).trans (.ofJobs follows.jobs)

theorem Cancels.evolvesRows {ended : List JobID}
    (loop : Cancels ids ended db db') : db.Evolves db' := loop.endsAll.evolvesRows

/-! ## Approval and heartbeats -/

/-- An approval moves a waiting job to the queue, or leaves its status alone. -/
theorem approveJob_inv (ran : approveJob c jobID actor db = .ok db') :
    db' = db ∨ ∃ row j, db.jobs.get? jobID = some row ∧ row.payload.decodes = true ∧
      row.status.terminal = false ∧ j.spec = row.payload.job.spec ∧
      (j.status = row.status ∨ (row.status = .waitingApproval ∧ j.status = .queued)) ∧
      db' = { db with
        jobs := db.jobs.put jobID { row with status := j.status, payload := .encode j } } := by
  simp only [approveJob, bind_ok_iff, orThrow_ok_iff, require_ok_iff] at ran
  obtain ⟨_, -, _, -, row, found, j, read, _, -, _, unsettled, ran⟩ := ran
  have merged := JobRow.merged_of_job read
  rw [merged.status] at unsettled
  split at ran
  · exact .inl (pure_ok_iff.mp ran).symm
  refine .inr ⟨row, approvedJob j actor, found, merged.decodes, unsettled, ?_, ?_,
    (pure_ok_iff.mp ran).symm⟩
  · rw [← merged.spec]
    unfold approvedJob
    split <;> rfl
  · unfold approvedJob
    rw [merged.status]
    split
    · rename_i held
      exact .inr ⟨held, rfl⟩
    · exact .inl rfl

theorem JobRow.Evolves.approve (decodes : row.payload.decodes = true)
    (unsettled : row.status.terminal = false) (same : j.spec = row.payload.job.spec)
    (moved : j.status = row.status ∨ (row.status = .waitingApproval ∧ j.status = .queued)) :
    row.Evolves { row with status := j.status, payload := .encode j } where
  runID := rfl
  key := rfl
  generation := rfl
  spec := same
  decodes := decodes.symm
  envelopeKey := fun _ => rfl
  notStarted := fun running => by
    rcases moved with stays | ⟨_, queued⟩
    · exact ⟨stays ▸ running, rfl⟩
    · exact absurd (queued.symm.trans running) (by decide)
  coherent := fun _ _ _ => rfl
  absorbing := fun _ isOver => by simp [unsettled] at isOver

/-- A heartbeat moves the deadline of the lease it names and nothing else. -/
theorem renewLease_inv
    (ran : renewLease c jobID runnerID generation expiresAt bounded db = .ok db') :
    ∃ row, db.jobs.get? jobID = some row ∧ row.renewable c.now runnerID generation = true ∧
      db' = { db with
        jobs := db.jobs.put jobID { row with leaseExpiresAt := some expiresAt } } := by
  unfold renewLease at ran
  split at ran
  · rename_i row found
    split at ran
    · rename_i admitted
      rw [Bool.and_eq_true] at admitted
      exact ⟨row, found, admitted.1, (pure_ok_iff.mp ran).symm⟩
    · cases ran
  · cases ran

theorem renewLease_evolves
    (ran : renewLease c jobID runnerID generation expiresAt bounded db = .ok db') :
    db.Evolves db' := by
  obtain ⟨row, found, _, rfl⟩ := renewLease_inv ran
  exact .ofPut found (.renew _) rfl

theorem heartbeatLease_inv
    (ran : heartbeatLease c jobID runnerID generation expiresAt db = .ok db') :
    ∃ bounded, renewLease c jobID runnerID generation expiresAt bounded db = .ok db' := by
  simp only [heartbeatLease, bind_ok_iff] at ran
  obtain ⟨_, -, _, -, renewed⟩ := ran
  exact ⟨_, renewed⟩

theorem heartbeatLeaseWithTTL_inv
    (ran : heartbeatLeaseWithTTL c jobID runnerID generation ttl db = .ok db') :
    renewLease c jobID runnerID generation (c.now + ttl) true db = .ok db' := by
  simp only [heartbeatLeaseWithTTL, bind_ok_iff] at ran
  obtain ⟨_, -, _, -, _, -, renewed⟩ := ran
  exact renewed

/-! ## Enqueueing -/

theorem insertJobRowTx_inv (ran : insertJobRowTx db j = .ok db') :
    db.jobs.get? j.id = none ∧ db' = { db with jobs := db.jobs.put j.id (.write j) } := by
  simp only [insertJobRowTx, bind_ok_iff, require_ok_iff] at ran
  obtain ⟨_, fresh, _, -, _, -, ran⟩ := ran
  exact ⟨fresh, (pure_ok_iff.mp ran).symm⟩

theorem insertJobRowTx_evolves (ran : insertJobRowTx db j = .ok db') :
    db.Evolves db' := by
  obtain ⟨fresh, rfl⟩ := insertJobRowTx_inv ran
  exact .ofFresh fresh (fun _ _ => rfl) rfl

theorem insertDependencyTx_inv (ran : insertDependencyTx jobID db dep = .ok db') :
    db' = { db with dependencies := db.dependencies ++ [(jobID, dep)] } := by
  simp only [insertDependencyTx, bind_ok_iff] at ran
  obtain ⟨_, -, _, -, ran⟩ := ran
  exact (pure_ok_iff.mp ran).symm

theorem replaceDependenciesTx_only (ran : replaceDependenciesTx db j = .ok db') :
    db' = { db with dependencies := db'.dependencies } := by
  have each := foldlM_rel (r := fun a b : DB => b = { a with dependencies := b.dependencies })
    (fun _ => rfl) (fun {a b c} first second => by rw [second, first]) j.needs
    (fun dep _ a b one => by rw [insertDependencyTx_inv one]) ran
  exact each

theorem insertContractsTx_evolves
    (ran : insertContractsTx db entry = .ok db') : db.Evolves db' := by
  obtain ⟨_, _, ran⟩ := bind_ok_iff.mp ran
  rw [pure_ok_iff] at ran
  subst ran
  cases found : db.jobs.get? entry.1 with
  | none => exact .ofJobs (modify_of_absent found _)
  | some row => exact .ofPut found (.annotate entry.2) (modify_of_get? found _)

/-- Only the claim tables of an enqueue are written. -/
def DB.WritesClaims (db db' : DB) : Prop :=
  ∃ downstreamLinks runIdempotency webhookDeliveries scheduleOccurrences,
    db' = { db with downstreamLinks, runIdempotency, webhookDeliveries, scheduleOccurrences }

theorem DB.WritesClaims.refl (db : DB) : db.WritesClaims db := ⟨_, _, _, _, rfl⟩

theorem DB.WritesClaims.trans {a c : DB} (first : a.WritesClaims b) (second : b.WritesClaims c) :
    a.WritesClaims c := by
  obtain ⟨_, _, _, _, rfl⟩ := first
  obtain ⟨_, _, _, _, rfl⟩ := second
  exact ⟨_, _, _, _, rfl⟩

theorem DB.WritesClaims.elsewhere (writes : db.WritesClaims db') : db.Elsewhere db' := by
  obtain ⟨_, _, _, _, rfl⟩ := writes
  exact ⟨rfl, rfl, rfl, fun _ => rfl, ⟨rfl, rfl, rfl, rfl, rfl, fun _ => rfl, fun _ => rfl⟩⟩

theorem DB.WritesClaims.runs (writes : db.WritesClaims db') : db'.runs = db.runs := by
  obtain ⟨_, _, _, _, rfl⟩ := writes
  rfl

theorem claimDownstreamLaunchTx_writes {claim : DownstreamLaunchClaim}
    (ran : claimDownstreamLaunchTx claim childRunID db = .ok db') :
    db.WritesClaims db' := by
  unfold claimDownstreamLaunchTx at ran
  split at ran
  · simp only [bind_ok_iff, pure_ok_iff] at ran
    obtain ⟨_, -, _, -, _, -, _, -, _, -, _, -, _, -, rfl⟩ := ran
    exact ⟨_, _, _, _, rfl⟩
  · cases ran

theorem claimRunIdempotencyTx_writes {claim : RunIdempotencyClaim}
    (ran : claimRunIdempotencyTx claim db = .ok db') : db.WritesClaims db' := by
  simp only [claimRunIdempotencyTx, bind_ok_iff] at ran
  obtain ⟨_, -, _, -, ran⟩ := ran
  split at ran
  · rw [← pure_ok_iff.mp ran]
    exact ⟨_, _, _, _, rfl⟩
  · split at ran <;> cases ran

theorem claimBeforeRun_writes (ran : claimBeforeRun c req db = .ok db') : db.WritesClaims db' := by
  simp only [claimBeforeRun, bind_ok_iff] at ran
  obtain ⟨_, -, mid, launch, key⟩ := ran
  exact (whenSome_rel (r := DB.WritesClaims) .refl (fun _ _ => claimDownstreamLaunchTx_writes) launch).trans
    (whenSome_rel (r := DB.WritesClaims) .refl (fun _ _ => claimRunIdempotencyTx_writes) key)

theorem insertWebhookClaimTx_writes {claim : WebhookClaim}
    (ran : insertWebhookClaimTx db claim = .ok db') : db.WritesClaims db' := by
  simp only [insertWebhookClaimTx, bind_ok_iff, pure_ok_iff] at ran
  obtain ⟨_, -, _, -, _, -, rfl⟩ := ran
  exact ⟨_, _, _, _, rfl⟩

theorem insertScheduleClaimTx_writes {claim : ScheduleClaim}
    (ran : insertScheduleClaimTx claim runID db = .ok db') : db.WritesClaims db' := by
  simp only [insertScheduleClaimTx, bind_ok_iff] at ran
  obtain ⟨_, -, ran⟩ := ran
  split at ran
  · rw [← pure_ok_iff.mp ran]
    exact ⟨_, _, _, _, rfl⟩
  · obtain ⟨_, _, ran⟩ := bind_ok_iff.mp ran
    rw [← pure_ok_iff.mp ran]
    exact .refl db

theorem reserveQuotaTx_only {q : Option QuotaReservation}
    (ran : reserveQuotaTx q db = .ok db') : ∃ quota, db' = { db with quota } := by
  unfold reserveQuotaTx at ran
  split at ran
  · exact ⟨_, (pure_ok_iff.mp ran).symm⟩
  · obtain ⟨_, _, ran⟩ := bind_ok_iff.mp ran
    exact ⟨_, (pure_ok_iff.mp ran).symm⟩

/-- What an enqueue does after the rows: it reserves the quota, and the claims it
writes lie elsewhere. -/
structure DB.Reserves (q : Option QuotaReservation) (db db' : DB) : Prop where
  jobs : db'.jobs = db.jobs
  runs : db'.runs = db.runs
  config : db.SameConfig db'
  quota : ∃ mid reserved, reserveQuotaTx q mid = .ok reserved ∧ mid.quota = db.quota ∧
    db'.quota = reserved.quota

theorem claimAfterRun_reserves (ran : claimAfterRun req db = .ok db') :
    db.Reserves req.quota db' := by
  simp only [claimAfterRun, bind_ok_iff] at ran
  obtain ⟨mid, deliveries, reserved, quota, schedule⟩ := ran
  obtain ⟨_, _, _, _, rfl⟩ := foldlM_rel (r := DB.WritesClaims) .refl .trans _
    (fun _ _ _ _ each => insertWebhookClaimTx_writes each) deliveries
  obtain ⟨_, _, _, _, rfl⟩ := whenSome_rel (r := DB.WritesClaims) .refl
    (fun _ _ => insertScheduleClaimTx_writes) schedule
  obtain ⟨_, rfl⟩ := reserveQuotaTx_only quota
  exact ⟨rfl, rfl, ⟨rfl, rfl, rfl, rfl, rfl, fun _ => rfl, fun _ => rfl⟩, _, _, quota, rfl, rfl⟩

theorem insertCompiledRows_evolves
    (ran : insertCompiledRows req db = .ok db') : db.Evolves db' := by
  simp only [insertCompiledRows, bind_ok_iff] at ran
  obtain ⟨withRun, run, _, -, withJobs, jobs, withEdges, edges, contracts⟩ := ran
  have first : db.Evolves withRun := by
    simp only [insertRunTx, bind_ok_iff, pure_ok_iff] at run
    obtain ⟨_, -, rfl⟩ := run
    exact .ofJobs rfl
  have second : withRun.Evolves withJobs :=
    .foldlM (fun _ _ _ each => by
      simp only [insertCompiledJob, bind_ok_iff] at each
      obtain ⟨_, -, _, -, row⟩ := each
      exact insertJobRowTx_evolves row) jobs
  have third : withJobs.Evolves withEdges :=
    .foldlM (fun _ _ _ each =>
      .ofJobs (by rw [replaceDependenciesTx_only each])) edges
  have fourth : withEdges.Evolves db' :=
    .foldlM (fun _ _ _ each => insertContractsTx_evolves each) contracts
  exact ((first.trans second).trans third).trans fourth

theorem cancelSupersededTx_evolves {ids : List JobID}
    (ran : cancelSupersededTx now ids newRunID db = .ok db') : db.Evolves db' := by
  obtain ⟨ended, left, resolved, loop, recomputed, follows⟩ := cancelSupersededTx_inv ran
  exact (loop.evolvesRows.trans (recomputeAll_evolves recomputed)).trans (.ofJobs follows.jobs)

theorem insertCompiledRun_evolves
    (ran : insertCompiledRun c req db = .ok db') : db.Evolves db' := by
  simp only [insertCompiledRun, supersedePrevious, bind_ok_iff] at ran
  obtain ⟨_, -, _, -, claimed, before, inserted, rows, superseded, ⟨policy, byPolicy, byName⟩,
    after⟩ := ran
  have claims : db.Evolves claimed := .ofJobs (claimBeforeRun_writes before).elsewhere.jobs
  have runs : inserted.Evolves policy := by
    cases asked : req.supersede with
    | none =>
      rw [asked] at byPolicy
      exact Except.ok.inj byPolicy ▸ .refl _
    | some p =>
      rw [asked] at byPolicy
      exact cancelSupersededTx_evolves byPolicy
  have tail : superseded.Evolves db' := .ofJobs (claimAfterRun_reserves after).jobs
  exact (((claims.trans (insertCompiledRows_evolves rows)).trans runs).trans
    (cancelSupersededTx_evolves byName)).trans tail

theorem insertGeneratedFragmentTx_evolves {req : GeneratedFragmentRequest}
    (ran : insertGeneratedFragmentTx c req verify db = .ok db') : db.Evolves db' := by
  simp only [insertGeneratedFragmentTx, bind_ok_iff] at ran
  obtain ⟨_, -, _, -, _, -, row, -, parent, -, _, -, ran⟩ := ran
  split at ran
  · obtain ⟨_, _, ran⟩ := bind_ok_iff.mp ran
    exact .ofJobs (by rw [← pure_ok_iff.mp ran])
  · simp only [bind_ok_iff, pure_ok_iff] at ran
    obtain ⟨_, -, _, -, withJobs, jobs, withEdges, edges, noted, contracts, rfl⟩ := ran
    have first : db.Evolves withJobs :=
      .foldlM (fun _ _ _ each => by
        obtain ⟨_, _, row⟩ := bind_ok_iff.mp each
        exact insertJobRowTx_evolves row) jobs
    have second : withJobs.Evolves withEdges :=
      .foldlM (fun _ _ _ each =>
        .ofJobs (by rw [replaceDependenciesTx_only each])) edges
    have third : withEdges.Evolves noted :=
      .foldlM (fun _ _ _ each => insertContractsTx_evolves each) contracts
    exact ((first.trans second).trans third).trans (.ofJobs rfl)

/-! ## Claims -/

/-- What the checks of a claim under its advisory locks establish. -/
structure ClaimChecked (claim : LeaseClaim) (row : JobRow) (db : DB) : Prop where
  jobID : validateID claim.jobID = .ok ()
  runnerID : claim.runnerID ≠ ""
  found : db.jobs.get? claim.jobID = some row
  queued : row.status = .queued
  envFree : claim.envFree db
  groupFree : claim.groupFree row db

theorem acquireCheck_inv
    (ran : acquireCheck c claim db = .ok ()) : ∃ row, ClaimChecked claim row db := by
  simp only [acquireCheck, bind_ok_iff, require_ok_iff, orThrow_ok_iff] at ran
  obtain ⟨_, jobID, _, runnerID, _, -, _, -, row, found, _, queued, _, -, _, envFree, groupFree⟩ := ran
  exact ⟨row, jobID, runnerID, found, queued, envFree, groupFree⟩

/-- What the writes of a claim rest on, and what they write. -/
structure ClaimCommitted (c : Call) (claim : LeaseClaim) (r : RunnerRow) (effective : Runner)
    (row : JobRow) (db db' : DB) : Prop where
  runner : db.runners.get? claim.runnerID = some r
  resolved : effectiveRunner db claim.runnerID r.snapshot = some effective
  allows : claimAllowsRunner effective claim = true
  found : db.jobs.get? claim.jobID = some row
  queued : row.status = .queued
  decodes : row.payload.decodes = true
  slot : r.activeJobs.length < effective.capacity
  jobs : db'.jobs = db.jobs.put claim.jobID (row.claim c.now claim
    (leaseInterpreterFor effective.supportedExecutionSemantics row.payload.job.executionSemantics))
  fits : resourceAdmissionAllows effective.resourceCapacity
    ({ db with jobs := db'.jobs }.runnerReservedExcluding claim.runnerID claim.jobID)
    claim.requestedResources = true
  reservations : db'.reservations = db.reservations.put claim.jobID
    { runnerID := claim.runnerID, generation := claim.generation
      amount := claim.requestedResources }
  quota : claimQuota (repoIDForJob row.payload.job) claim.repoConcurrency claim.teamConcurrency
    db.quota = .ok db'.quota
  runners : db'.runners = db.runners.put claim.runnerID (r.occupy claim.jobID)
  only : db' = { db with
    jobs := db'.jobs, reservations := db'.reservations, quota := db'.quota, runners := db'.runners }

theorem ClaimCommitted.config (committed : ClaimCommitted c claim r effective row db db') :
    db.SameConfig db' := by
  refine ⟨by rw [committed.only], by rw [committed.only], by rw [committed.only],
    by rw [committed.only], by rw [committed.only], fun id => ?_, fun id => by rw [committed.only]⟩
  rw [committed.runners, get?_put]
  split <;> rename_i same
  · rw [same, committed.runner]
    rfl
  · rfl

theorem acquireCommit_inv (ran : acquireCommit c claim db = .ok db') :
    ∃ r effective row, ClaimCommitted c claim r effective row db db' := by
  simp only [acquireCommit, reserveResourcesTx, claimQuotaTx, bind_ok_iff, require_ok_iff,
    orThrow_ok_iff, pure_ok_iff] at ran
  obtain ⟨r, runner, _, -, _, -, effective, resolved, _, allows, row, found, _, ⟨queued, -, -⟩, j,
    decoded, reserved, ⟨_, fits, rfl⟩, counted, ⟨quota, claimed, rfl⟩, _, ⟨-, slot⟩, rfl⟩ := ran
  obtain ⟨decodes, rfl⟩ := Payload.decode_eq_some.mp decoded
  exact ⟨r, effective, row, runner, resolved, allows, found, queued, decodes, slot, rfl, fits, rfl,
    claimed, rfl, rfl⟩

theorem acquireLeaseAtomic_inv (ran : acquireLeaseAtomic c claim db = .ok db') :
    ∃ r effective row, ClaimChecked claim row db ∧ ClaimCommitted c claim r effective row db db' := by
  obtain ⟨_, checked, committed⟩ := bind_ok_iff.mp ran
  obtain ⟨row, checks⟩ := acquireCheck_inv checked
  obtain ⟨r, effective, same, writes⟩ := acquireCommit_inv committed
  cases checks.found.symm.trans writes.found
  exact ⟨r, effective, row, checks, writes⟩

/-! ## Every operation -/

/-- `ReleaseRunnerJob` frees a slot, a quota slot and a reservation. -/
theorem releaseRunnerJob_inv
    (ran : releaseRunnerJob c runnerID jobID status db = .ok (db', reported)) :
    ∃ freed, FreesSlot runnerID jobID db freed ∧
      db' = releaseResourcesTx jobID (releaseJobQuotaTx jobID freed) := by
  simp only [releaseRunnerJob, bind_ok_iff] at ran
  obtain ⟨_, -, _, -, _, -, ran⟩ := ran
  split at ran
  · rename_i unknown
    refine ⟨db, ⟨rfl, rfl, rfl, fun r => ?_, .refl db⟩, congrArg Prod.fst (pure_ok_iff.mp ran).symm⟩
    by_cases same : r = runnerID
    · simp [DB.activeOf, same, unknown]
    · simp [same]
  · rename_i r found
    obtain ⟨_, _, ran⟩ := bind_ok_iff.mp ran
    exact ⟨_, putComplete_frees found, congrArg Prod.fst (pure_ok_iff.mp ran).symm⟩

theorem releaseJobQuotaTx_only (jobID : JobID) (db : DB) :
    ∃ quota, releaseJobQuotaTx jobID db = { db with quota } := by
  unfold releaseJobQuotaTx
  split
  · exact ⟨db.quota, rfl⟩
  · exact ⟨_, rfl⟩

theorem releaseRunnerJob_jobs
    (ran : releaseRunnerJob c runnerID jobID status db = .ok (db', reported)) :
    db'.jobs = db.jobs := by
  obtain ⟨freed, frees, rfl⟩ := releaseRunnerJob_inv ran
  obtain ⟨quota, only⟩ := releaseJobQuotaTx_only jobID freed
  rw [only]
  exact frees.jobs

theorem reconcileResourceReservations_only (ran : reconcileResourceReservations c db = .ok db') :
    db' = { db with reservations := db'.reservations } := by
  simp only [reconcileResourceReservations, bind_ok_iff, pure_ok_iff] at ran
  obtain ⟨_, -, rfl⟩ := ran
  rfl

end Rows

/-!
Which jobs an operation ends, read off the store before the call.

`Op.endings` lists the jobs that a completion, a cancellation, a recovery, a
revocation or an expiry takes out of their lease or the queue, with what becomes
of each; `Op.settlement` says that a call that commits does nothing or ends
exactly those.  `EndsAll.get?` reads the rows afterwards off that list.
-/

open Table List

/-! ## The list -/

/-- The operations that end jobs. -/
def Op.ending : Op → Bool
  | .completeJob .. | .cancelRunJobs .. | .recoverExpiredLease .. | .revokeRunnerLeases ..
  | .expireQueuedJob .. => true
  | _ => false

/-- The operation that starts jobs. -/
def Op.isClaim : Op → Bool
  | .acquireLeaseAtomic .. => true
  | _ => false

/-- What `RecoverExpiredLease` makes of the job `id`. -/
def DB.recoveredStatus (db : DB) (id : JobID) : Status :=
  (db.jobs.get? id).elim .failure (·.recoveredStatus)

/-- The jobs a call that takes effect ends, each with its new status. -/
def Op.endings (db : DB) : Op → List (JobID × Status)
  | .completeJob _ jobID _ _ result _ => [(jobID, completionStatus result.status)]
  | .cancelRunJobs _ runID _ => (db.openJobsOf runID).map (·, .cancelled)
  | .recoverExpiredLease _ jobID _ => [(jobID, db.recoveredStatus jobID)]
  | .revokeRunnerLeases _ runnerID _ =>
    (db.leasedTo runnerID).map fun id => (id, db.revokedStatus id)
  | .expireQueuedJob _ jobID _ => [(jobID, .cancelled)]
  | _ => []

/-- The jobs whose dependents the call re-evaluates: all it ends, but for
`CancelRunJobs`, which re-evaluates nothing. -/
def Op.reevaluated (db : DB) : Op → List JobID
  | .cancelRunJobs .. => []
  | op => (op.endings db).map Prod.fst

theorem mem_openJobsOf {db : DB} {runID : RunID} {id : JobID} :
    id ∈ db.openJobsOf runID ↔
      ∃ row, db.jobs.get? id = some row ∧ row.runID = runID ∧ row.status.terminal = false := by
  simp [DB.openJobsOf, mem_select]

theorem Cancels.ended_eq (loop : Cancels ids ended db db')
    (nodup : ids.Nodup) (opened : ∀ id ∈ ids, db.Open id) : ended = ids := by
  induction loop with
  | nil => rfl
  | skip isOver _ _ => exact absurd (opened _ (by simp)) isOver
  | cancel ends _ ih =>
    obtain ⟨fresh, nodup⟩ := nodup_cons.mp nodup
    rw [ih nodup fun id member => (ends.open_iff rfl id).mpr
      ⟨opened id (mem_cons_of_mem _ member), fun same => fresh (same ▸ member)⟩]

/-- The outcome a list with one entry per job gives a job. -/
theorem lookup_map_pair {f : JobID → Status} {ids : List JobID} {id : JobID} :
    (ids.map fun id => (id, f id)).lookup id = if id ∈ ids then some (f id) else none := by
  induction ids with
  | nil => rfl
  | cons head rest ih =>
    rw [map_cons, lookup_cons, ih]
    by_cases same : id = head
    · simp [same]
    · simp [same, beq_eq_false_iff_ne.mpr same]

theorem Op.nodup_endings (op : Op) (db : DB) : ((op.endings db).map Prod.fst).Nodup := by
  cases op with
  | cancelRunJobs c runID reason =>
    simp only [Op.endings, map_map, Function.comp_def, map_id']
    exact nodup_select _ _
  | revokeRunnerLeases c runnerID reason =>
    simp only [Op.endings, map_map, Function.comp_def, map_id']
    exact nodup_select _ _
  | _ => simp [Op.endings]

/-- A call that commits does nothing or ends the jobs of the list. -/
theorem Op.settlement {op : Op} (ending : op.ending = true) {db db' : DB}
    (ran : op.exec db = .ok db') :
    db' = db ∨ ∃ now, Settlement now (op.endings db) (op.reevaluated db) db db' := by
  cases op with
  | completeJob c jobID generation runnerID result receipt =>
    obtain ⟨_, _, same | ⟨_, _, _, _, settled⟩⟩ := completeJob_inv ran
    · exact .inl same
    · exact .inr ⟨c.now, settled⟩
  | cancelRunJobs c runID reason =>
    obtain ⟨ended, left, loop, follows⟩ := cancelRunJobs_inv ran
    have all : ended = db.openJobsOf runID := by
      refine loop.ended_eq (nodup_select _ _) fun id member => ?_
      obtain ⟨row, found, _, unsettled⟩ := mem_openJobsOf.mp member
      exact ⟨row, found, unsettled⟩
    subst all
    exact .inr ⟨c.now, left, left, loop.endsAll, rfl, follows⟩
  | recoverExpiredLease c jobID generation =>
    obtain ⟨row, found, same | ⟨_, _, settled⟩⟩ := recoverExpiredLease_inv ran
    · exact .inl same
    · refine .inr ⟨c.now, ?_⟩
      rw [Op.endings, DB.recoveredStatus, found]
      exact settled
  | revokeRunnerLeases c runnerID reason =>
    have settled := revokeRunnerLeases_inv ran
    refine .inr ⟨c.now, ?_⟩
    simpa only [Op.reevaluated, Op.endings, map_map, Function.comp_def, map_id'] using settled
  | expireQueuedJob c jobID observed =>
    obtain ⟨_, _, same | ⟨_, settled⟩⟩ := expireQueuedJob_inv ran
    · exact .inl same
    · exact .inr ⟨c.now, settled⟩
  | _ => cases ending

theorem Op.claim {op : Op} (isClaim : op.isClaim = true) {db db' : DB}
    (ran : op.exec db = .ok db') :
    ∃ c claim r effective row, op = .acquireLeaseAtomic c claim ∧ ClaimChecked claim row db ∧
      ClaimCommitted c claim r effective row db db' := by
  cases op with
  | acquireLeaseAtomic c claim =>
    obtain ⟨r, effective, row, checked, committed⟩ := acquireLeaseAtomic_inv ran
    exact ⟨c, claim, r, effective, row, rfl, checked, committed⟩
  | _ => cases isClaim

/-- An operation evolves the job rows, or it is a claim that started one. -/
theorem Op.evolves {op : Op} (ran : op.exec db = .ok db') :
    db.Evolves db' ∨ ∃ c claim r effective row, op = .acquireLeaseAtomic c claim ∧
      ClaimChecked claim row db ∧ ClaimCommitted c claim r effective row db db' := by
  have settles (ending : op.ending = true) : db.Evolves db' := by
    rcases Op.settlement ending ran with rfl | ⟨now, settlement⟩
    · exact .refl _
    · exact settlement.evolvesRows
  cases op with
  | acquireLeaseAtomic => exact .inr (Op.claim rfl ran)
  | completeJob | cancelRunJobs | recoverExpiredLease | revokeRunnerLeases | expireQueuedJob =>
    exact .inl (settles rfl)
  | approveJob c jobID actor =>
    rcases approveJob_inv ran with rfl | ⟨row, j, found, decodes, unsettled, same, moved, rfl⟩
    · exact .inl (.refl _)
    · exact .inl (.ofPut found (.approve decodes unsettled same moved) rfl)
  | heartbeatLease c jobID runnerID generation expiresAt =>
    obtain ⟨_, renewed⟩ := heartbeatLease_inv ran
    exact .inl (renewLease_evolves renewed)
  | heartbeatLeaseWithTTL c jobID runnerID generation ttl =>
    exact .inl (renewLease_evolves (heartbeatLeaseWithTTL_inv ran))
  | insertCompiledRun c req => exact .inl (insertCompiledRun_evolves ran)
  | insertGeneratedFragment c req verify => exact .inl (insertGeneratedFragmentTx_evolves ran)
  | releaseRunnerJob c runnerID jobID status =>
    obtain ⟨⟨_, reported⟩, released, rfl⟩ := map_ok_iff.mp ran
    exact .inl (.ofJobs (releaseRunnerJob_jobs released))
  | reconcileResourceReservations c =>
    exact .inl (.ofJobs (by rw [reconcileResourceReservations_only ran]))

/-! ## The rows afterwards -/

theorem EndsAll.config (all : EndsAll ended db db') :
    db.SameConfig db' := by
  induction all with
  | nil follows => exact follows.config
  | cons ends _ ih => exact ends.config.trans ih

/-- Who is not on the list stays, who is leaves with its outcome. -/
theorem EndsAll.get? (all : EndsAll ended db db')
    (nodup : (ended.map Prod.fst).Nodup) (id : JobID) :
    (ended.lookup id).elim (db'.jobs.get? id = db.jobs.get? id) fun outcome =>
      ∃ row row', db.jobs.get? id = some row ∧ db'.jobs.get? id = some row' ∧
        row.Ended row' outcome := by
  induction all with
  | nil follows => exact congrArg (·.get? id) follows.jobs
  | @cons head outcome rest row row' db mid db' ends tail ih =>
    rw [map_cons, nodup_cons] at nodup
    obtain ⟨fresh, nodup⟩ := nodup
    have later := ih nodup
    rw [lookup_cons]
    by_cases same : id = head
    · subst same
      have absent : rest.lookup id = none := by
        refine lookup_eq_none_iff.mpr fun entry member => ?_
        simp only [bne_iff_ne, ne_eq]
        rintro rfl
        exact fresh (mem_map.mpr ⟨entry, member, rfl⟩)
      rw [absent] at later
      rw [beq_self_eq_true]
      refine ⟨row, row', ends.found, ?_, ends.ended⟩
      rw [later, ends.get?, if_pos rfl]
    · rw [beq_eq_false_iff_ne.mpr same]
      have untouched : mid.jobs.get? id = db.jobs.get? id := by rw [ends.get?, if_neg same]
      rw [untouched] at later
      exact later

/-- What the payload of a row says once the listed jobs have left. -/
def JobRow.payloadAfter (ended : List (JobID × Status)) (id : JobID) (row : JobRow) : Status :=
  (ended.lookup id).getD row.payload.job.status

def DB.statusAfter (db : DB) (ended : List (JobID × Status)) (id : JobID) : Option Status :=
  (db.jobs.get? id).map fun row => (ended.lookup id).getD row.status

section Left

variable {ended : List (JobID × Status)} {db left : DB}

structure LeftRow (ended : List (JobID × Status)) (id : JobID) (row row' : JobRow) : Prop where
  spec : row'.payload.job.spec = row.payload.job.spec
  status : row'.status = (ended.lookup id).getD row.status
  copy : row'.payload.job.status = row.payloadAfter ended id

variable (all : EndsAll ended db left) (nodup : (ended.map Prod.fst).Nodup)
  (decodes : ∀ id row, db.jobs.get? id = some row → row.payload.decodes = true)

include all nodup decodes

/-- The rows after the listed jobs have left, each with the one it was. -/
theorem EndsAll.leftRow {id : JobID} (found : left.jobs.get? id = some row') :
    ∃ row, db.jobs.get? id = some row ∧ LeftRow ended id row row' ∧
      (row' = row ∨ ∃ outcome, row.Ended row' outcome) := by
  have moved := all.get? nodup id
  cases listed : ended.lookup id with
  | none =>
    rw [listed] at moved
    refine ⟨row', moved.symm.trans found, ⟨rfl, ?_, ?_⟩, .inl rfl⟩
    · rw [listed, Option.getD_none]
    · rw [JobRow.payloadAfter, listed, Option.getD_none]
  | some outcome =>
    rw [listed] at moved
    obtain ⟨row, other, there, held, ended'⟩ := moved
    cases held.symm.trans found
    refine ⟨row, there, ⟨ended'.evolves.spec, ?_, ?_⟩, .inr ⟨outcome, ended'⟩⟩
    · rw [listed, Option.getD_some, ended'.status]
    · rw [JobRow.payloadAfter, listed, Option.getD_some, ended'.copy (decodes id row there)]

theorem EndsAll.statusOf : left.statusOf = db.statusAfter ended := by
  funext id
  have moved := all.get? nodup id
  rw [DB.statusOf, DB.statusAfter]
  cases found : left.jobs.get? id with
  | some row' =>
    obtain ⟨row, there, leftRow, _⟩ := all.leftRow nodup decodes found
    rw [there, Option.map_some, Option.map_some, leftRow.status]
  | none =>
    cases listed : ended.lookup id with
    | none =>
      rw [listed] at moved
      rw [← show left.jobs.get? id = db.jobs.get? id from moved, found]
      rfl
    | some outcome =>
      rw [listed] at moved
      obtain ⟨_, _, _, held, _⟩ := moved
      simp [found] at held

end Left

end KiwiCI.Storage
