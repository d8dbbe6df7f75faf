import KiwiCI.Server.Schedule
import KiwiCI.Storage.Insertion
import KiwiCI.Storage.Resolution

/-!
How far the failure of a job reaches.

In memory a worklist pass settles everything below a job that ended.  The store
re-evaluates the direct dependents only, so the end of a job reaches the jobs
below a dependent it blocks or skips only when there are none.
`DB.Propagated` is the state in which nothing is left to settle; a call keeps it
as long as the jobs it blocks or skips have no live dependents of their own
(`Contained`), and then the store is a fixpoint of the in-memory pass.
-/

namespace KiwiCI.Storage

open Table Server JobRow Option DB

/-! ## Rows in order -/

/-- The ref of a run, as the pass reads it. -/
def DB.refOf (db : DB) (runID : RunID) : String :=
  ((db.runs.get? runID).map (·.payload.ref)).getD ""

/-- A row as enqueueing and the lifecycle operations leave it: its payload
decodes and follows the status column, its needs are edges, and while it is live
its ref may deploy and it waits for an approval exactly when one is missing. -/
structure JobRow.InOrder (pathMatch : String → String → Bool) (edges : List (JobID × JobID))
    (refOf : RunID → String) (id : JobID) (row : JobRow) : Prop where
  decodes : row.payload.decodes = true
  synced : row.Synced
  edges : ∀ need ∈ row.payload.job.needs, (id, need) ∈ edges
  gated : row.status.terminal = false →
    refRejected pathMatch (refOf row.runID) row.payload.job = false ∧
      approvalMissing row.payload.job = decide (row.status = .waitingApproval)

namespace JobRow.InOrder

variable {pathMatch : String → String → Bool} {edges : List (JobID × JobID)}
  {refOf : RunID → String} {id : JobID} {row row' : JobRow}
  (inOrder : row.InOrder pathMatch edges refOf id)
include inOrder

/-- A rewritten row is in order when its status is one the gates admit. -/
theorem rewrite
    (decodes : row'.payload.decodes = true) (spec : row'.payload.job.spec = row.payload.job.spec)
    (approval : row'.payload.job.approvedBy = row.payload.job.approvedBy)
    (runID : row'.runID = row.runID) (synced : row'.Synced)
    (unsettled : row'.status.terminal = false → row.status.terminal = false ∧
      decide (row'.status = .waitingApproval) = decide (row.status = .waitingApproval)) :
    row'.InOrder pathMatch edges refOf id := by
  obtain ⟨needs, _, _, _, branches, required⟩ := Job.fields_of_spec spec
  refine ⟨decodes, synced, by rw [needs]; exact inOrder.edges, fun live => ?_⟩
  obtain ⟨was, same⟩ := unsettled live
  obtain ⟨ref, approvalOf⟩ := inOrder.gated was
  rw [runID, same, ← approvalOf, refRejected, approvalMissing, approvalMissing, branches, required,
    approval]
  exact ⟨ref, rfl⟩

theorem ended (ended : row.Ended row' outcome) : row'.InOrder pathMatch edges refOf id := by
  refine inOrder.rewrite (ended.evolves.decodes.trans inOrder.decodes) ended.evolves.spec
    ended.approval ended.evolves.runID (ended.synced inOrder.decodes)
    fun live => ⟨ended.unsettled, ?_⟩
  rw [ended.status] at live ⊢
  rcases ended.isOver with isOver | ⟨rfl, running⟩
  · rw [isOver] at live
    cases live
  · rw [running]
    rfl

theorem claim (queued : row.status = .queued)
    (now : Time) (claim : LeaseClaim) (interpreter : String) :
    (row.claim now claim interpreter).InOrder pathMatch edges refOf id := by
  refine inOrder.rewrite inOrder.decodes rfl rfl rfl (inOrder.synced.claim queued _ _ _) fun _ => ?_
  rw [queued]
  exact ⟨rfl, rfl⟩

/-- A dependent is written back with its payload's status, or settled. -/
theorem writeDependent
    (waiting : row.payload.job.status.waiting = true) (spec : d.spec = row.payload.job.spec)
    (approval : d.approvedBy = row.payload.job.approvedBy)
    (moved : d.status = row.payload.job.status ∨ d.status = .skipped ∨ d.status = .blocked) :
    (row.writeDependent d).InOrder pathMatch edges refOf id := by
  have stops : d.status ≠ .running := by
    rcases moved with same | same | same <;> rw [same]
    · exact Status.waiting_not_running waiting
    · decide
    · decide
  refine inOrder.rewrite rfl spec approval rfl (row.synced_writeDependent stops) fun live => ?_
  refine ⟨inOrder.synced.unsettled waiting, ?_⟩
  change d.status.terminal = false at live
  change decide (d.status = .waitingApproval) = _
  rcases moved with same | same | same
  · rw [same, inOrder.synced]
    split <;> rename_i running
    · rw [running]
      rfl
    · rfl
  · rw [same] at live
    cases live
  · rw [same] at live
    cases live

theorem resolved (now : Time) (statusOf : JobID → Option Status) :
    (row.resolved now statusOf).InOrder pathMatch edges refOf id := by
  unfold JobRow.resolved
  split <;> rename_i waiting
  · cases dependencyOutcome statusOf row.payload.job.needs with
    | none => exact inOrder
    | some outcome =>
      exact inOrder.writeDependent waiting (resolveDependent_spec now _ outcome)
        (resolveDependent_approvedBy now _ outcome) (resolveDependent_status now _ outcome)
  · exact inOrder

end JobRow.InOrder

/-! ## Nothing left to settle -/

/-- Every row is in order, and no job that may still be offered a lease is
rejected by how its needs ended.  A running job counts: its lease may be lost. -/
structure DB.Propagated (pathMatch : String → String → Bool) (db : DB) : Prop where
  rows : ∀ id row, db.jobs.get? id = some row →
    row.InOrder pathMatch db.dependencies db.refOf id
  accepted : ∀ id row, db.jobs.get? id = some row → ¬row.Rejected db.statusOf

theorem DB.SameConfig.refOf {db db' : DB} (config : db.SameConfig db') : db'.refOf = db.refOf := by
  funext runID
  rw [DB.refOf, DB.refOf, config.refs]

/-- Once the listed jobs have left, the condition of `id` rejects how its needs
ended. -/
def DB.rejectedAfter (db : DB) (ended : List (JobID × Status)) (id : JobID) : Bool :=
  (db.jobs.get? id).any fun row =>
    (row.payloadAfter ended id).waiting &&
      (dependencyOutcome (db.statusAfter ended) row.payload.job.needs).any fun outcome =>
        !dependencyConditionAllows row.payload.job outcome

/-- The end of the listed jobs reaches no further than their direct dependents:
a live job needs none of the dependents that are blocked or skipped, and none of
the jobs whose dependents are not re-evaluated. -/
def DB.Contained (db : DB) (ended : List (JobID × Status)) (reevaluated : List JobID) : Prop :=
  ∀ e ∈ db.jobs.rows, (JobRow.payloadAfter ended e.1 e.2).waiting = true →
    ∀ need ∈ e.2.payload.job.needs,
      (need ∈ reevaluated.flatMap db.dependentsOf → db.rejectedAfter ended need = false) ∧
      ((ended.lookup need).any Status.terminal = true → need ∈ reevaluated)

instance (db : DB) (ended : List (JobID × Status)) (reevaluated : List JobID) :
    Decidable (db.Contained ended reevaluated) :=
  inferInstanceAs (Decidable (∀ e ∈ db.jobs.rows, _))

section Settle

variable {pathMatch : String → String → Bool} {now : Time} {ended : List (JobID × Status)}
  {reevaluated : List JobID} {db left db' : DB}

theorem DB.Propagated.decodes (propagated : db.Propagated pathMatch) :
    ∀ id row, db.jobs.get? id = some row → row.payload.decodes = true :=
  fun id row found => (propagated.rows id row found).decodes

theorem JobRow.Rejected.after {id : JobID} (there : db.jobs.get? id = some row)
    (leftRow : LeftRow ended id row row') (rejected : row'.Rejected (db.statusAfter ended)) :
    db.rejectedAfter ended id = true := by
  obtain ⟨waiting, outcome, settled, rejects⟩ := rejected
  rw [dependencyConditionAllows_congr leftRow.spec] at rejects
  rw [(Job.fields_of_spec leftRow.spec).1] at settled
  rw [leftRow.copy] at waiting
  simp [rejectedAfter, there, waiting, settled, rejects]

variable (propagated : db.Propagated pathMatch) (all : EndsAll ended db left)
  (nodup : (ended.map Prod.fst).Nodup) (contained : db.Contained ended reevaluated)

include propagated all nodup in
theorem EndsAll.inOrder {id : JobID} (found : left.jobs.get? id = some row') :
    row'.InOrder pathMatch db.dependencies db.refOf id := by
  obtain ⟨row, there, _, rfl | ⟨_, ended'⟩⟩ := all.leftRow nodup propagated.decodes found
  · exact propagated.rows id row' there
  · exact (propagated.rows id row there).ended ended'

include propagated all nodup contained in
/-- What a live job needs is not rejected by the re-evaluation, and is
re-evaluated itself when it just ended. -/
theorem EndsAll.reach {id : JobID} (found : left.jobs.get? id = some row')
    (waiting : row'.payload.job.status.waiting = true)
    (needed : need ∈ row'.payload.job.needs) :
    (need ∈ reevaluated.flatMap db.dependentsOf → db.rejectedAfter ended need = false) ∧
      ((ended.lookup need).any Status.terminal = true → need ∈ reevaluated) := by
  obtain ⟨row, there, leftRow, _⟩ := all.leftRow nodup propagated.decodes found
  rw [leftRow.copy] at waiting
  rw [(Job.fields_of_spec leftRow.spec).1] at needed
  exact contained ⟨id, row⟩ (mem_rows_iff.mpr there) waiting need needed

include propagated all nodup contained in
/-- A job the loop does not look at is not rejected when the loop begins. -/
theorem EndsAll.accepted {id : JobID} {row' : JobRow} (found : left.jobs.get? id = some row')
    (outside : id ∉ reevaluated.flatMap db.dependentsOf) : ¬row'.Rejected left.statusOf := by
  rintro ⟨waiting, outcome, settled, rejects⟩
  have decodes := propagated.decodes
  obtain ⟨row, there, leftRow, _⟩ := all.leftRow nodup decodes found
  have inOrder := propagated.rows id row there
  have needs := (Job.fields_of_spec leftRow.spec).1
  -- the needs read as they did before anything left
  have same : dependencyOutcome left.statusOf row'.payload.job.needs =
      dependencyOutcome db.statusOf row'.payload.job.needs := by
    refine dependencyOutcome_congr fun need needed => ?_
    rw [all.statusOf nodup decodes, DB.statusAfter, DB.statusOf]
    cases held : db.jobs.get? need with
    | none => exact .inl rfl
    | some other =>
      cases listed : ended.lookup need with
      | none => exact .inl rfl
      | some result =>
        have unsettled : other.status.terminal = false := by
          obtain ⟨otherRow, _, there', _, ended'⟩ := listed ▸ all.get? nodup need
          cases held.symm.trans there'
          exact ended'.unsettled
        refine .inr ⟨result, other.status, rfl, rfl, ?_, unsettled⟩
        by_contra isOver
        rw [Bool.not_eq_false] at isOver
        have member := (all.reach propagated nodup contained found waiting needed).2
          (by rw [listed]; exact isOver)
        refine outside (List.mem_flatMap.mpr ⟨need, member, mem_dependentsOf.mpr ?_⟩)
        exact inOrder.edges need (needs ▸ needed)
  -- so the job was rejected before, queued or under its lost lease
  refine propagated.accepted id row there ⟨?_, outcome, ?_, ?_⟩
  · rw [leftRow.copy, payloadAfter] at waiting
    cases listed : ended.lookup id with
    | none => rwa [listed, getD_none] at waiting
    | some result =>
      obtain ⟨otherRow, _, there', _, ended'⟩ := listed ▸ all.get? nodup id
      cases there.symm.trans there'
      rw [listed, getD_some] at waiting
      rcases ended'.isOver with isOver | ⟨_, running⟩
      · rw [Status.not_terminal_of_waiting waiting] at isOver
        cases isOver
      · rw [inOrder.synced, if_pos running]
        rfl
  · rw [← needs, ← same, settled]
  · rw [← dependencyConditionAllows_congr leftRow.spec, rejects]

include propagated nodup contained in
/-- An operation whose endings are contained leaves nothing to settle. -/
theorem DB.Propagated.settle (settlement : Settlement now ended reevaluated db db') :
    db'.Propagated pathMatch := by
  have config := settlement.config
  obtain ⟨left, resolved, all, recomputed, follows⟩ := settlement
  have flat := all.flat recomputed
  have inOrder : ∀ id row', left.jobs.get? id = some row' →
      row'.InOrder pathMatch db.dependencies db.refOf id :=
    fun id row' found => all.inOrder propagated nodup found
  have synced : ∀ id row', left.jobs.get? id = some row' → row'.Synced :=
    fun id row' found => (inOrder id row' found).synced
  have isolated : left.Isolated (reevaluated.flatMap db.dependentsOf) := by
    intro id member row' found rejected other row'' found' waiting needed
    have decodes := propagated.decodes
    obtain ⟨row, there, leftRow, _⟩ := all.leftRow nodup decodes found
    rw [all.statusOf nodup decodes] at rejected
    have kept := (all.reach propagated nodup contained found' waiting needed).1 member
    rw [rejected.after there leftRow] at kept
    cases kept
  have resolving := recomputes_resolve synced isolated flat
  have statuses : db'.statusOf = resolved.statusOf := by
    funext id
    rw [statusOf, statusOf, follows.jobs]
  refine ⟨fun id row'' found => ?_, fun id row'' found rejected => ?_⟩
  · rw [config.dependencies, config.refOf]
    rw [follows.jobs, resolving id] at found
    split at found
    · obtain ⟨row', there, rfl⟩ := map_eq_some_iff.mp found
      exact (inOrder id row' there).resolved now _
    · exact inOrder id row'' found
  · rw [statuses] at rejected
    obtain ⟨waiting, outcome, settled, rejects⟩ := rejected
    rw [follows.jobs, resolving id] at found
    have outcomes : ∀ row', left.jobs.get? id = some row' →
        row'.payload.job.status.waiting = true →
        dependencyOutcome resolved.statusOf row'.payload.job.needs =
          dependencyOutcome left.statusOf row'.payload.job.needs :=
      fun row' there => resolving.outcome synced isolated (fun _ member => member) there
    split at found <;> rename_i seen
    · obtain ⟨row', there, rfl⟩ := map_eq_some_iff.mp found
      have live := waiting_of_resolved now waiting
      rw [resolved_needs, outcomes row' there live] at settled
      rw [dependencyConditionAllows_congr (row'.resolved_spec now)] at rejects
      exact accepted_of_resolved now waiting ⟨live, outcome, settled, rejects⟩
    · rw [outcomes row'' found waiting] at settled
      exact all.accepted propagated nodup contained found seen ⟨waiting, outcome, settled, rejects⟩

end Settle

/-! ## Calls and runs -/

section Run

variable {pathMatch : String → String → Bool} {db db' : DB}

/-- A claim settles nothing: a queued job starts running. -/
theorem DB.Propagated.claim (propagated : db.Propagated pathMatch) {c : Call} {claim : LeaseClaim}
    {r : RunnerRow} {effective : Runner} {row : JobRow}
    (committed : ClaimCommitted c claim r effective row db db') : db'.Propagated pathMatch := by
  have edges : db'.dependencies = db.dependencies := by rw [committed.only]
  have refs : db'.refOf = db.refOf := by rw [committed.only]; rfl
  have inOrder := propagated.rows claim.jobID row committed.found
  have agree : ∀ id, Status.Agree (db'.statusOf id) (db.statusOf id) := by
    intro id
    rw [statusOf, committed.jobs, get?_put, statusOf]
    split <;> rename_i same
    · rw [same, committed.found]
      exact .inr ⟨.running, row.status, rfl, rfl, rfl, by rw [committed.queued]; rfl⟩
    · exact .inl rfl
  refine ⟨fun id row' found => ?_, fun id row' found rejected => ?_⟩
  · rw [edges, refs]
    rw [committed.jobs, get?_put] at found
    split at found <;> rename_i same
    · cases found
      exact same ▸ inOrder.claim committed.queued _ _ _
    · exact propagated.rows id row' found
  · obtain ⟨waiting, outcome, settled, rejects⟩ := rejected
    rw [dependencyOutcome_congr fun need _ => agree need] at settled
    rw [committed.jobs, get?_put] at found
    split at found
    · cases found
      exact propagated.accepted claim.jobID row committed.found ⟨waiting, outcome, settled, rejects⟩
    · exact propagated.accepted id row' found ⟨waiting, outcome, settled, rejects⟩

/-- A claim, or a call that ends jobs within the reach of its re-evaluation. -/
def Op.contained (op : Op) (db : DB) : Prop :=
  (op.isClaim = true ∨ op.ending = true) ∧ db.Contained (op.endings db) (op.reevaluated db)

instance (op : Op) (db : DB) : Decidable (op.contained db) := inferInstanceAs (Decidable (_ ∧ _))

theorem step_propagated (op : Op) (db : DB) (contained : op.contained db)
    (propagated : db.Propagated pathMatch) : (step op db).Propagated pathMatch := by
  refine commit_elim (P := DB.Propagated pathMatch) propagated fun db' ran => ?_
  obtain ⟨isClaim | ending, contained⟩ := contained
  · obtain ⟨_, _, _, _, _, _, _, committed⟩ := Op.claim isClaim ran
    exact propagated.claim committed
  · rcases Op.settlement ending ran with rfl | ⟨now, settlement⟩
    · exact propagated
    · exact propagated.settle (op.nodup_endings db) contained settlement

end Run

/-! ## The enqueued run -/

/-- The request `enqueueDB` makes of the compiled jobs `created`: they are queued
jobs of the run, gated up front. -/
structure InsertCompiledRunRequest.Enqueued (pathMatch : String → String → Bool) (now : Time)
    (created : List (JobID × Job)) (req : InsertCompiledRunRequest) : Prop where
  queued : ∀ entry ∈ created, entry.2.runID = req.run.id ∧ entry.2.status = .queued
  jobs : req.jobs = created.map fun entry => (entry.1, enqueueGate pathMatch req.run now entry.2)
  cancelPrevious : req.cancelPrevious = []

def InsertCompiledRunRequest.statusOf (req : InsertCompiledRunRequest) (id : JobID) :
    Option Status :=
  (req.items.find? fun j => j.id = id).map (·.status)

/-- No inserted job is rejected as it is: where its needs are over on arrival,
its condition allows their outcome. -/
def InsertCompiledRunRequest.Accepted (req : InsertCompiledRunRequest) : Prop :=
  ∀ j ∈ req.items, j.status.waiting = true →
    (dependencyOutcome req.statusOf j.needs).all (dependencyConditionAllows j) = true

instance (req : InsertCompiledRunRequest) : Decidable req.Accepted :=
  inferInstanceAs (Decidable (∀ j ∈ req.items, _))

section Enqueue

variable {pathMatch : String → String → Bool} {now : Time} {created : List (JobID × Job)}
  {req : InsertCompiledRunRequest}

/-- What `enqueueDB` makes of a queued job. -/
theorem enqueueGate_gated (pathMatch : String → String → Bool) (run : Run) (now : Time)
    (queued : j.status = .queued) :
    let gated := enqueueGate pathMatch run now j
    gated.runID = j.runID ∧ gated.status ≠ .running ∧ (gated.status.terminal = false →
      refRejected pathMatch run.ref gated = false ∧
        approvalMissing gated = decide (gated.status = .waitingApproval)) := by
  unfold enqueueGate
  dsimp only
  split <;> rename_i rejected
  · exact ⟨rfl, nofun, nofun⟩
  · rw [Bool.not_eq_true] at rejected
    split <;> rename_i missing
    · exact ⟨rfl, nofun, fun _ => ⟨rejected, missing⟩⟩
    · rw [Bool.not_eq_true] at missing
      rw [queued]
      exact ⟨rfl, nofun, fun _ => ⟨rejected, missing⟩⟩

theorem InsertCompiledRunRequest.Enqueued.item (enqueued : req.Enqueued pathMatch now created)
    (member : j ∈ req.items) :
    j.runID = req.run.id ∧ j.status ≠ .running ∧ (j.status.terminal = false →
      refRejected pathMatch req.run.ref j = false ∧
        approvalMissing j = decide (j.status = .waitingApproval)) := by
  obtain ⟨entry, inside, rfl⟩ := List.mem_map.mp member
  rw [enqueued.jobs] at inside
  obtain ⟨original, compiled, rfl⟩ := List.mem_map.mp inside
  obtain ⟨own, queued⟩ := enqueued.queued original compiled
  obtain ⟨runID, started, gated⟩ := enqueueGate_gated pathMatch req.run now queued
  exact ⟨runID.trans own, started, gated⟩

/-- In a store that held no jobs, the statuses are those of the request. -/
theorem Inserts.statusOf (empty : db.jobs = .empty)
    (inserts : Inserts req.items db db') : db'.statusOf = req.statusOf := by
  funext id
  rw [DB.statusOf, InsertCompiledRunRequest.statusOf]
  cases listed : req.items.find? fun j => j.id = id with
  | some j =>
    have named : j.id = id := by simpa using List.find?_some listed
    obtain ⟨row, found, plain⟩ := inserts.added j (List.mem_of_find?_eq_some listed)
    rw [← named, found, map_some, map_some, (plain_write plain).2.1]
  | none =>
    cases found : db'.jobs.get? id with
    | none => rfl
    | some row =>
      rcases inserts.only id row found with ⟨_, held, _⟩ | ⟨j, member, named, _⟩
      · simp [empty] at held
      · have apart := List.find?_eq_none.mp listed j member
        simp [named] at apart

/-- An accepted enqueue into a store without jobs leaves nothing to settle. -/
theorem DB.Propagated.enqueue {c : Call} {base start : DB} (empty : base.jobs = .empty)
    (enqueued : req.Enqueued pathMatch now created) (accepted : req.Accepted)
    (ran : insertCompiledRun c req base = .ok start) : start.Propagated pathMatch := by
  obtain ⟨claimed, inserted, superseded, before, rows, previous, after⟩ := insertCompiledRun_inv ran
  obtain ⟨_, inserts, only⟩ := insertCompiledRows_inv rows
  have noJobs : claimed.jobs = .empty := before.elsewhere.jobs.trans empty
  have written : ∀ id row, inserted.jobs.get? id = some row →
      ∃ j ∈ req.items, j.id = id ∧ row.plain = write j := by
    intro id row found
    rcases inserts.only id row found with ⟨_, held, _⟩ | new
    · simp [noJobs] at held
    · exact new
  have own : ∀ id row, inserted.jobs.get? id = some row → row.runID = req.run.id := by
    intro id row found
    obtain ⟨j, member, _, plain⟩ := written id row found
    exact (plain_write plain).1.trans (enqueued.item member).1
  cases supersedePrevious_none own enqueued.cancelPrevious previous
  have statuses : start.statusOf = req.statusOf := by
    rw [← inserts.statusOf noJobs]
    funext id
    rw [statusOf, statusOf, after.jobs]
  have ref : inserted.refOf req.run.id = req.run.ref := by
    rw [refOf, only, get?_put_self]
    rfl
  refine ⟨fun id row found => ?_, fun id row found rejected => ?_⟩ <;> rw [after.jobs] at found <;>
    obtain ⟨j, member, named, plain⟩ := written id row found <;>
    obtain ⟨runID, status, job, decodes⟩ := plain_write plain
  · obtain ⟨run, started, gated⟩ := enqueued.item member
    rw [after.config.dependencies, after.config.refOf]
    refine ⟨decodes, ?_, ?_, fun live => ?_⟩
    · rw [Synced, status, job]
      exact (if_neg started).symm
    · rw [job, ← named]
      exact inserts.edges j member
    · rw [status] at live ⊢
      rw [own id row found, ref, job]
      exact gated live
  · obtain ⟨waiting, outcome, settled, rejects⟩ := rejected
    rw [job] at waiting settled rejects
    rw [statuses] at settled
    have allows := accepted j member waiting
    rw [show dependencyOutcome req.statusOf j.needs = some outcome from settled, all_some]
      at allows
    rw [show dependencyConditionAllows j outcome = false from rejects] at allows
    cases allows

end Enqueue

/-! ## The in-memory pass on the same jobs -/

/-- The jobs of the store as the server would hold them in memory. -/
def DB.memJobs (db : DB) : Table JobID Job :=
  db.jobs.map fun id row => (row.job id).getD row.payload.job

/-- The pass over the runs of the store. -/
def DB.pass (db : DB) (pathMatch : String → String → Bool) (now : Time) : Pass :=
  { pathMatch, refOf := db.refOf, now }

section Fixpoint

variable {pathMatch : String → String → Bool} {db : DB}

theorem DB.get?_memJobs (decodes : ∀ id row, db.jobs.get? id = some row → row.payload.decodes = true)
    (id : JobID) : db.memJobs.get? id = (db.jobs.get? id).bind (·.job id) := by
  rw [memJobs, get?_map]
  cases found : db.jobs.get? id with
  | none => rfl
  | some row =>
    rw [map_some, bind_some, job, Payload.decode, if_pos (decodes id row found)]
    rfl

theorem DB.statusIn_memJobs
    (decodes : ∀ id row, db.jobs.get? id = some row → row.payload.decodes = true) :
    statusIn db.memJobs = db.statusOf := by
  funext id
  rw [statusIn, get?_memJobs decodes, statusOf]
  cases found : db.jobs.get? id with
  | none => rfl
  | some row =>
    rw [bind_some, job, Payload.decode, if_pos (decodes id row found)]
    rfl

/-- With nothing left to settle, the pass has nothing to do. -/
theorem DB.Propagated.fixpoint (propagated : db.Propagated pathMatch) (now : Time)
    (seeded : ∀ id, id ∈ seed ↔ ∃ j, db.memJobs.get? id = some j ∧ j.status.waiting = true)
    (id : JobID) :
    statusIn ((db.pass pathMatch now).scheduleState seed db.memJobs) id = db.statusOf id := by
  have decodes := propagated.decodes
  rw [← statusIn_memJobs decodes]
  refine ((db.pass pathMatch now).scheduleState_fixpoint_iff seeded).mpr ?_ id
  intro id j held waiting outcome settled
  rw [get?_memJobs decodes, bind_eq_some_iff] at held
  obtain ⟨row, found, read⟩ := held
  have merged := merged_of_job read
  have inOrder := propagated.rows id row found
  have runID : j.runID = row.runID := by
    obtain ⟨_, _, rfl⟩ := map_eq_some_iff.mp read
    rfl
  obtain ⟨needs, _, _, _, branches, required⟩ := Job.fields_of_spec merged.spec
  rw [statusIn_memJobs decodes, needs] at settled
  rw [merged.status] at waiting
  have copy : row.payload.job.status.waiting = true := by
    rw [inOrder.synced, if_neg (Status.waiting_not_running waiting)]
    exact waiting
  obtain ⟨ref, approval⟩ := inOrder.gated (Status.not_terminal_of_waiting waiting)
  refine ⟨?_, ?_, ?_⟩
  · by_contra rejects
    rw [Bool.not_eq_true, dependencyConditionAllows_congr merged.spec] at rejects
    exact propagated.accepted id row found ⟨copy, outcome, settled, rejects⟩
  · rw [runID, refRejected, branches]
    exact ref
  · rw [merged.status, ← approval, approvalMissing, required, merged.approval]
    rfl

end Fixpoint

namespace Chain

def a : Job :=
  { id := "0000000000000000000000000000000a", runID := "000000000000000000000000000000ff"
    key := "a", status := .queued }

def b : Job := { a with id := "0000000000000000000000000000000b", key := "b", needs := [a.id] }

def c : Job := { a with id := "0000000000000000000000000000000c", key := "c", needs := [b.id] }

def runnerID : RunnerID := "0000000000000000000000000000000f"

/-- One idle runner and no jobs. -/
def base : DB where
  runners := Table.empty.put runnerID { capacity := 1, payload := { capacity := 1 } }

def newRun : Run := { id := a.runID, status := .queued }

def request (jobs : List Job) : InsertCompiledRunRequest :=
  { run := newRun, jobs := jobs.map fun j => (j.id, j) }

/-- The store after the enqueue. -/
def start (jobs : List Job) : DB := step (.insertCompiledRun {} (request jobs)) base

/-- The first job is claimed and fails. -/
def fails : List Op :=
  [.acquireLeaseAtomic {} { jobID := a.id, runnerID, generation := 1, ttl := 10 },
    .completeJob { now := 1 } a.id 1 runnerID { status := .failure }
      { jobID := a.id, generation := 1, runnerID, resultHash := "d" }]

end Chain

open Chain

end KiwiCI.Storage
