import KiwiCI.Storage.Evolution

/-!
A job that is over stays as it is.

The status of a job lives in a column and in the payload, and the re-evaluation
of a dependent trusts the payload.  As long as the two agree for the jobs that
are over (`DB.Coherent`), no operation moves a job that is over; every operation
keeps that agreement, so it is enough that it holds at the start.  A completion
that changes its job's row ends the job, so it is the last that does.
-/

namespace KiwiCI.Storage

open Table

/-- What every operation, claims included, does to a row. -/
structure JobRow.Absorbs (old new : JobRow) : Prop where
  coherent : old.Coherent → new.Coherent
  absorbing : old.Coherent → old.status.terminal = true → new.status = old.status

namespace JobRow.Absorbs

theorem refl (row : JobRow) : row.Absorbs row := ⟨id, fun _ _ => rfl⟩

theorem trans {a c : JobRow} (first : a.Absorbs b) (second : b.Absorbs c) : a.Absorbs c where
  coherent := second.coherent ∘ first.coherent
  absorbing := fun coherent isOver =>
    have middle := first.absorbing coherent isOver
    (second.absorbing (first.coherent coherent) (middle ▸ isOver)).trans middle

theorem ofEvolves {old : JobRow} (evolves : old.Evolves new) : old.Absorbs new :=
  ⟨evolves.coherent, evolves.absorbing⟩

theorem claim {row : JobRow} (queued : row.status = .queued) (now : Time) (claim : LeaseClaim)
    (interpreter : String) : row.Absorbs (row.claim now claim interpreter) where
  coherent := fun _ isOver => absurd isOver (by simp [JobRow.claim, Status.terminal])
  absorbing := fun _ isOver => absurd isOver (by simp [queued, Status.terminal])

end JobRow.Absorbs

/-- The payload of every job that is over says so. -/
def DB.Coherent (db : DB) : Prop := ∀ id row, db.jobs.get? id = some row → row.Coherent

/-- Rows only move where jobs that are over stay. -/
def DB.Absorbs (db db' : DB) : Prop := db.RowsMove JobRow.Absorbs db'

theorem DB.Absorbs.refl (db : DB) : db.Absorbs db := DB.RowsMove.ofJobs .refl rfl

theorem DB.Absorbs.trans {a c : DB} (first : a.Absorbs b) (second : b.Absorbs c) : a.Absorbs c :=
  DB.RowsMove.trans .trans JobRow.Absorbs.coherent first second

/-- The row is that of the job that was submitted, and if it was over it has its status. -/
structure JobRow.Persists (old new : JobRow) : Prop extends old.Absorbs new where
  runID : new.runID = old.runID
  key : new.key = old.key
  spec : new.payload.job.spec = old.payload.job.spec

theorem JobRow.Persists.refl (row : JobRow) : row.Persists row := ⟨.refl row, rfl, rfl, rfl⟩

theorem JobRow.Persists.trans {a c : JobRow} (first : a.Persists b) (second : b.Persists c) :
    a.Persists c :=
  ⟨first.toAbsorbs.trans second.toAbsorbs, second.runID.trans first.runID,
    second.key.trans first.key, second.spec.trans first.spec⟩

theorem step_persists (op : Op) (db : DB) : db.RowsMove JobRow.Persists (step op db) := by
  refine commit_rel (fun _ => .ofJobs .refl rfl) fun db' ran => ?_
  rcases Op.evolves ran with evolves | ⟨c, claim, _, _, row, _, _, committed⟩
  · exact evolves.mono fun moved => ⟨.ofEvolves moved, moved.runID, moved.key, moved.spec⟩
  · refine .ofPut .refl committed.found ⟨.claim committed.queued _ _ _, rfl, rfl, ?_⟩ committed.jobs
    rfl

theorem step_absorbs (op : Op) (db : DB) : db.Absorbs (step op db) :=
  (step_persists op db).mono JobRow.Persists.toAbsorbs

theorem run_absorbs (ops : List Op) (db : DB) : db.Absorbs (run step ops db) :=
  foldl_rel DB.Absorbs.refl DB.Absorbs.trans ops (fun op _ db => step_absorbs op db) db

theorem DB.Absorbs.coherent {db : DB} (moved : db.Absorbs db') (coherent : db.Coherent) :
    db'.Coherent := by
  intro id row' found
  cases there : db.jobs.get? id with
  | none => exact moved.added id row' there found
  | some row =>
    obtain ⟨late, held, absorbs⟩ := moved.rows id row there
    cases held.symm.trans found
    exact absorbs.coherent (coherent id row there)

theorem DB.Absorbs.statusOf {db : DB} (moved : db.Absorbs db') (coherent : db.Coherent)
    {id : JobID} (isOver : status.terminal = true)
    (held : db.statusOf id = some status) : db'.statusOf id = some status := by
  obtain ⟨row, found, rfl⟩ := Option.map_eq_some_iff.mp held
  obtain ⟨row', there, absorbs⟩ := moved.rows id row found
  rw [DB.statusOf, there, Option.map_some, absorbs.absorbing (coherent id row found) isOver]

/-! ## Completions -/

/-- A job that left with a terminal outcome has that status afterwards, whatever
the re-evaluation of dependents did. -/
theorem Settlement.statusOf {now : Time} {id : JobID} {outcome : Status}
    (settlement : Settlement now ended settled db db') (nodup : (ended.map Prod.fst).Nodup)
    (listed : ended.lookup id = some outcome) (coherent : db.Coherent)
    (isOver : outcome.terminal = true) :
    db'.statusOf id = some outcome := by
  obtain ⟨left, resolved, all, recomputed, follows⟩ := settlement
  have leftCoherent : left.Coherent :=
    DB.Absorbs.coherent (all.evolvesRows.mono .ofEvolves) coherent
  have absorbed : left.Absorbs db' :=
    ((recomputeAll_evolves recomputed).trans (.ofJobs follows.jobs)).mono .ofEvolves
  refine absorbed.statusOf leftCoherent isOver ?_
  have moved := all.get? nodup id
  rw [listed] at moved
  obtain ⟨_, _, _, there, gone⟩ := moved
  rw [DB.statusOf, there, Option.map_some, gone.status]

/-- A completion that is accepted changes nothing, or takes its job from running
to over. -/
theorem completeJob_settles {c : Call} {jobID : JobID} {db db' : DB} (coherent : db.Coherent)
    (ran : completeJob c jobID generation runnerID result receipt db = .ok db') :
    db' = db ∨ (db.statusOf jobID = some .running ∧
      db'.statusOf jobID = some (completionStatus result.status)) := by
  obtain ⟨row, found, same | ⟨running, _, _, _, settled⟩⟩ := completeJob_inv ran
  · exact .inl same
  · exact .inr ⟨by rw [DB.statusOf, found, Option.map_some, running],
      settled.statusOf (by simp) (by simp) coherent (completionStatus_terminal _)⟩

/-- **Terminal states are absorbing and a job has at most one completion.**  From
a store whose payloads agree with the status columns, after any operations `ops`:
whatever is done next, a job that is over keeps its status; an accepted
`CompleteJob` that leaves its job's row alone leaves the whole store alone; and
once one has changed the row, every later accepted one leaves the store alone. -/
theorem terminal_absorbing_and_completed_once (db : DB)
    (agree : ∀ id row, db.jobs.get? id = some row → row.payload.job.status = row.status)
    (ops : List Op) :
    (∀ id status, status.terminal = true → (run step ops db).statusOf id = some status →
      ∀ later, (run step (ops ++ later) db).statusOf id = some status) ∧
    (∀ c jobID generation runnerID result receipt db',
      completeJob c jobID generation runnerID result receipt (run step ops db) = .ok db' →
        (db'.jobs.get? jobID = (run step ops db).jobs.get? jobID → db' = run step ops db) ∧
        (db'.jobs.get? jobID ≠ (run step ops db).jobs.get? jobID →
          ∀ later c₂ generation₂ runnerID₂ result₂ receipt₂ db₂,
            completeJob c₂ jobID generation₂ runnerID₂ result₂ receipt₂ (run step later db') =
              .ok db₂ → db₂ = run step later db')) := by
  have start : db.Coherent := fun id row found _ _ => agree id row found
  have reached : (run step ops db).Coherent := (run_absorbs ops db).coherent start
  refine ⟨fun id status isOver held later => ?_,
    fun c jobID generation runnerID result receipt db' ran => ⟨fun same => ?_, fun changed => ?_⟩⟩
  · rw [run_append]
    exact (run_absorbs later _).statusOf reached isOver held
  · rcases completeJob_settles reached ran with unchanged | ⟨running, isOver⟩
    · exact unchanged
    · -- the row cannot be the one it was: it was running and is over
      rw [DB.statusOf, same, ← DB.statusOf, running] at isOver
      have terminal := completionStatus_terminal result.status
      rw [← Option.some.inj isOver] at terminal
      exact absurd terminal (by decide)
  · intro later c₂ generation₂ runnerID₂ result₂ receipt₂ db₂ second
    rcases completeJob_settles reached ran with rfl | ⟨_, isOver⟩
    · exact absurd rfl changed
    have moved : (run step ops db).Absorbs db' := by
      simpa [step, Op.exec, ran] using
        step_absorbs (.completeJob c jobID generation runnerID result receipt) (run step ops db)
    have coherent : db'.Coherent := moved.coherent reached
    have stays := (run_absorbs later db').statusOf coherent (completionStatus_terminal _) isOver
    rcases completeJob_settles ((run_absorbs later db').coherent coherent) second with
      unchanged | ⟨running, _⟩
    · exact unchanged
    · rw [stays] at running
      have terminal := completionStatus_terminal result.status
      rw [Option.some.inj running] at terminal
      exact absurd terminal (by decide)

namespace OneLease

def jobID : JobID := "00000000000000000000000000000001"

def runnerID : RunnerID := "0000000000000000000000000000000f"

/-- A running job under its first lease. -/
def start : DB where
  jobs := Table.empty.put jobID (.write
    { id := jobID, runID := "0000000000000000000000000000000a", status := .running
      leaseRunnerID := runnerID, leaseGeneration := 1, leaseExpiresAt := some 10 })

def completion : Op :=
  .completeJob {} jobID 1 runnerID { status := .success }
    { jobID, generation := 1, runnerID, resultHash := "d" }

end OneLease

open OneLease in
/-- The completed job is a success, and stays one whatever comes later. -/
theorem completed_job_stays :
    (run step [completion] start).statusOf jobID = some .success ∧
      ∀ later, (run step ([completion] ++ later) start).statusOf jobID = some .success := by
  have isOver : (run step [completion] start).statusOf jobID = some .success := by decide +kernel
  have agree : ∀ id row, start.jobs.get? id = some row → row.payload.job.status = row.status := by
    intro id row found
    rw [start, get?_put] at found
    split at found
    · cases found
      rfl
    · cases found
  exact ⟨isOver,
    (terminal_absorbing_and_completed_once start agree [completion]).1 jobID .success rfl isOver⟩

/-- **A cancelled run stays over.**  Once `CancelRunJobs` has committed, every job the run had
is over for good: those that were open are cancelled, and the others are what they were. -/
theorem cancelled_run_stays_over {c : Call} {db : DB} (coherent : db.Coherent)
    (accepted : (cancelRunJobs c runID reason db).isOk = true) {id : JobID}
    (found : db.jobs.get? id = some row) (ofRun : row.runID = runID) (later : List Op) :
    (run step (.cancelRunJobs c runID reason :: later) db).statusOf id =
      some (if row.status.terminal then row.status else .cancelled) := by
  have ran := eq_ok_commit accepted db
  change (run step later (commit (cancelRunJobs c runID reason db) db)).statusOf id = _
  generalize commit _ db = db' at ran ⊢
  obtain ⟨ended, left, loop, follows⟩ := cancelRunJobs_inv ran
  have settled : Settlement c.now (ended.map (·, .cancelled)) [] db db' :=
    ⟨left, left, loop.endsAll, rfl, follows⟩
  have absorbs : db.Absorbs db' := settled.evolvesRows.mono .ofEvolves
  cases unsettled : row.status.terminal with
  | true =>
    refine (absorbs.trans (run_absorbs later db')).statusOf coherent unsettled ?_
    rw [DB.statusOf, found, Option.map_some, if_pos rfl]
  | false =>
    have listed : id ∈ ended := (loop.mem_iff id).mpr
      ⟨mem_openJobsOf.mpr ⟨row, found, ofRun, unsettled⟩, row, found, unsettled⟩
    refine (run_absorbs later db').statusOf (absorbs.coherent coherent) rfl
      (settled.statusOf ?_ ?_ coherent rfl)
    · simpa [Function.comp_def] using loop.nodup
    · rw [lookup_map_pair, if_pos listed]
      rfl

open OneLease in
/-- The run of the job is cancelled, and a late completion does not bring the job back. -/
theorem cancelled_job_stays :
    (run step [.cancelRunJobs {} "0000000000000000000000000000000a" "stop", completion]
      start).statusOf jobID = some .cancelled := by
  have coherent : start.Coherent := by
    intro id row found _ _
    rw [start, get?_put] at found
    split at found <;> cases found
    rfl
  exact cancelled_run_stays_over coherent (by decide +kernel) (get?_put_self _ _ _) rfl [completion]

/-!
Stale lease holders.

A runner that lost its lease may still call: its heartbeat or its completion is
in flight while the lease expires, is recovered, or is claimed again.  `stale`
says that the lease a caller names is not the live lease of the job.  Such a
caller cannot renew, and its completion is at most acknowledged a second time:
`CompleteJob` looks for the receipt of the attempt before it looks at the lease.

A receipt is recognised under the version it was written with, so that a receipt
of an older binary still matches a retry that carries the digest of a newer one.
-/

/-- The named lease is not the live lease of the job: the job is not running, it
runs under another runner or generation, or the deadline has passed. -/
def DB.stale (db : DB) (now : Time) (jobID : JobID) (runnerID : RunnerID) (generation : Int) : Bool :=
  (db.jobs.get? jobID).all fun row =>
    row.status ≠ .running || row.leaseRunnerID ≠ runnerID || row.leaseGeneration ≠ generation ||
      !row.leaseExpiresAt.any (now < ·)

section Stale

variable {db db' : DB} {c : Call} {jobID : JobID} {runnerID : RunnerID} {generation : Int}

theorem DB.not_live_of_stale (stale : db.stale now jobID runnerID generation = true)
    (found : db.jobs.get? jobID = some row) (running : row.status = .running)
    (holder : row.leaseRunnerID = runnerID) (current : row.leaseGeneration = generation) :
    row.leaseExpiresAt.any (now < ·) = false := by
  rw [DB.stale, found, Option.all_some] at stale
  simpa [running, holder, current] using stale

/-! ## Heartbeats -/

theorem renewLease_of_stale (stale : db.stale c.now jobID runnerID generation = true) :
    renewLease c jobID runnerID generation expiresAt bounded db ≠ .ok db' := by
  intro ran
  obtain ⟨row, found, renewable, _⟩ := renewLease_inv ran
  simp only [JobRow.renewable, Bool.and_eq_true, decide_eq_true_eq] at renewable
  obtain ⟨⟨⟨⟨running, _⟩, holder⟩, current⟩, unexpired⟩ := renewable
  rw [DB.not_live_of_stale stale found running holder current] at unexpired
  cases unexpired

/-! ## Completions -/

/-- A stale completion that is accepted is a replay, and writes nothing. -/
theorem completeJob_of_stale (stale : db.stale c.now jobID runnerID generation = true)
    (ran : completeJob c jobID generation runnerID result receipt db = .ok db') :
    db' = db ∧ ∃ stored, db.liveReceipt c.now (jobID, generation, runnerID) = some stored ∧
      (stored.resultHash = receipt.resultHash ∨
        stored.resultHash = result.digestUnder stored.resultHashVersion) := by
  simp only [completeJob, bind_ok_iff, require_ok_iff, orThrow_ok_iff] at ran
  obtain ⟨_, -, _, -, _, ⟨rfl, rfl, rfl⟩, _, -, row, found, ran⟩ := ran
  split at ran
  · obtain ⟨same, stored, live, recognised⟩ := replayCompletion_inv ran
    exact ⟨same, stored, live, digest_of_replayMatches recognised⟩
  · -- the lease is the caller's and runs, so it can only have expired
    rename_i current
    push Not at current
    obtain ⟨generation, holder, running⟩ := current
    obtain ⟨unexpired, _⟩ := completeActive_inv found running holder ran
    rw [DB.not_live_of_stale stale found running holder generation] at unexpired
    cases unexpired

end Stale

/-! ## Both calls -/

theorem step_of_not_ok (refused : ∀ db', op.exec db ≠ .ok db') : step op db = db :=
  commit_elim (P := (· = db)) rfl fun db' ran => absurd ran (refused db')

/-- **Stale lease holders are inert.**  A caller whose lease is not the live
lease of the job cannot renew it, and whatever it calls leaves the whole store
as it was.  Its completion is accepted only as the replay of one that left a
receipt for the same job, generation and runner, whose digest is the one the
caller presents or that of the reported result under the receipt's version. -/
theorem stale_holder_is_inert (db : DB) (c : Call) (jobID : JobID) (runnerID : RunnerID)
    (generation : Int) (stale : db.stale c.now jobID runnerID generation = true) :
    (∀ expiresAt, (∀ db', heartbeatLease c jobID runnerID generation expiresAt db ≠ .ok db') ∧
      step (.heartbeatLease c jobID runnerID generation expiresAt) db = db) ∧
    (∀ ttl, (∀ db', heartbeatLeaseWithTTL c jobID runnerID generation ttl db ≠ .ok db') ∧
      step (.heartbeatLeaseWithTTL c jobID runnerID generation ttl) db = db) ∧
    ∀ result receipt, step (.completeJob c jobID generation runnerID result receipt) db = db ∧
      ∀ db', completeJob c jobID generation runnerID result receipt db = .ok db' →
        ∃ stored, db.liveReceipt c.now (jobID, generation, runnerID) = some stored ∧
          (stored.resultHash = receipt.resultHash ∨
            stored.resultHash = result.digestUnder stored.resultHashVersion) := by
  refine ⟨fun expiresAt => ?_, fun ttl => ?_, fun result receipt => ?_⟩
  · have refused : ∀ db', heartbeatLease c jobID runnerID generation expiresAt db ≠ .ok db' :=
      fun _ ran => (heartbeatLease_inv ran).elim fun _ => renewLease_of_stale stale
    exact ⟨refused, step_of_not_ok refused⟩
  · have refused : ∀ db', heartbeatLeaseWithTTL c jobID runnerID generation ttl db ≠ .ok db' :=
      fun _ ran => renewLease_of_stale stale (heartbeatLeaseWithTTL_inv ran)
    exact ⟨refused, step_of_not_ok refused⟩
  · constructor
    · exact commit_elim (P := (· = db)) rfl fun db' ran => (completeJob_of_stale stale ran).1
    · intro db' ran
      exact (completeJob_of_stale stale ran).2

namespace Upgrade

open OneLease

/-- What the runner reports. -/
def result : CompletionResult := { status := .success }

/-- The completion as an older binary records it. -/
def before : CompletionReceipt :=
  { jobID, generation := 1, runnerID, resultHash := result.digestUnder 2, resultHashVersion := 2 }

/-- The retry, hashed by the current binary. -/
def retry : CompletionReceipt :=
  { before with resultHash := result.digestUnder 3, resultHashVersion := 3 }

/-- The store after the first completion. -/
def completed : DB := step (.completeJob {} jobID 1 runnerID result before) start

end Upgrade

open OneLease Upgrade in
/-- The retry is acknowledged although the receipt holds another digest than the
one it presents. -/
theorem retry_acknowledged_across_versions :
    completed.stale 1 jobID runnerID 1 = true ∧
      (completeJob { now := 1 } jobID 1 runnerID result retry completed).isOk = true ∧
      (completed.liveReceipt 1 (jobID, 1, runnerID)).any
        (fun stored => stored.resultHash ≠ retry.resultHash) = true := by
  decide +kernel

open OneLease Upgrade in
/-- The completed attempt is stale, and a contradictory completion of it changes
nothing. -/
theorem completed_attempt_is_inert :
    completed.stale 1 jobID runnerID 1 = true ∧
      step (.completeJob { now := 1 } jobID 1 runnerID { status := .failure }
        { retry with resultHash := "d" }) completed = completed := by
  have stale : completed.stale 1 jobID runnerID 1 = true := by decide +kernel
  exact ⟨stale, ((stale_holder_is_inert completed { now := 1 } jobID runnerID 1 stale).2.2 _ _).1⟩

end KiwiCI.Storage
