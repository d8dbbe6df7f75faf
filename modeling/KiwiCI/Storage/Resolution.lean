import KiwiCI.Storage.Evolution

/-!
What re-evaluating dependents adds up to.

The loop of `recomputeDependentsTx` looks at one dependent after the other, and
each look sees the writes of those before.  As long as no job it settles is
needed by a waiting one, the order plays no part: every dependent ends as
the statuses before the loop decide (`JobRow.resolved`, `recomputes_resolve`).
-/

namespace KiwiCI.Storage

variable {statusOf statusOf' : JobID → Option Status}

variable {row : JobRow}

open Table JobRow Option

/-! ## The loop as a list of dependents -/

theorem recomputes_only {dependents : List JobID}
    (ran : dependents.foldlM (recomputeDependentTx now) db = .ok db') :
    db' = { db with jobs := db'.jobs } := by
  refine foldlM_rel (r := fun db db' : DB => db' = { db with jobs := db'.jobs }) (fun _ => rfl) ?_
    _ (fun _ _ _ _ each => ?_) ran
  · intro a b c first second
    rw [second, first]
  · rcases recomputeDependentTx_inv each with ⟨rfl, _⟩ | ⟨_, _, _, _, _, _, rfl⟩ <;> rfl

/-- The dependents of several jobs are re-evaluated as one list. -/
theorem recomputeAll_flat {settled : List JobID}
    (ran : settled.foldlM (fun db id => recomputeDependentsTx now id db) db = .ok db') :
    (settled.flatMap db.dependentsOf).foldlM (recomputeDependentTx now) db = .ok db' := by
  induction ran using foldlM_ok_induction with
  | nil => rfl
  | cons id rest db mid first tail ih =>
    have edges : mid.dependentsOf = db.dependentsOf := by
      rw [recomputes_only first]
      rfl
    rw [List.flatMap_cons, List.foldlM_append, bind_ok_iff]
    exact ⟨mid, first, edges ▸ ih⟩

/-- After endings the dependents are still those of before. -/
theorem EndsAll.flat {ended : List (JobID × Status)} {settled : List JobID}
    (all : EndsAll ended db left)
    (ran : settled.foldlM (fun db id => recomputeDependentsTx now id db) left = .ok db') :
    (settled.flatMap db.dependentsOf).foldlM (recomputeDependentTx now) left = .ok db' := by
  have edges : left.dependentsOf = db.dependentsOf := by
    funext id
    rw [DB.dependentsOf, DB.dependentsOf, all.config.dependencies]
  exact edges ▸ recomputeAll_flat ran

theorem Settlement.config {ended : List (JobID × Status)}
    (settlement : Settlement now ended settled db db') : db.SameConfig db' := by
  obtain ⟨left, resolved, all, recomputed, follows⟩ := settlement
  have loop : left.SameConfig resolved := by
    rw [recomputes_only (recomputeAll_flat recomputed)]
    exact ⟨rfl, rfl, rfl, rfl, rfl, fun _ => rfl, fun _ => rfl⟩
  exact (all.config.trans loop).trans follows.config

theorem mem_dependentsOf {db : DB} {id dependent : JobID} :
    dependent ∈ db.dependentsOf id ↔ (dependent, id) ∈ db.dependencies := by
  simp [DB.dependentsOf]

/-! ## All dependents at once -/

/-- What the statuses make of a dependent. -/
def JobRow.resolved (now : Time) (statusOf : JobID → Option Status) (row : JobRow) : JobRow :=
  if row.payload.job.status.waiting then
    (dependencyOutcome statusOf row.payload.job.needs).elim row fun outcome =>
      row.writeDependent (resolveDependent now row.payload.job outcome)
  else row

/-- The statuses reject the job: its needs have settled and its condition does
not allow their outcome. -/
def JobRow.Rejected (statusOf : JobID → Option Status) (row : JobRow) : Prop :=
  row.payload.job.status.waiting = true ∧
    ∃ outcome, dependencyOutcome statusOf row.payload.job.needs = some outcome ∧
      dependencyConditionAllows row.payload.job outcome = false

/-- The status column says what the payload says, but for a running job, whose
claim moved the column of a queued job alone. -/
def JobRow.Synced (row : JobRow) : Prop :=
  row.payload.job.status = if row.status = .running then .queued else row.status

theorem JobRow.Synced.unsettled (synced : row.Synced)
    (waiting : row.payload.job.status.waiting = true) : row.status.terminal = false := by
  rw [synced] at waiting
  split at waiting <;> rename_i running
  · rw [running]
    rfl
  · exact Status.not_terminal_of_waiting waiting

theorem JobRow.Ended.stopped (ended : row.Ended row' outcome) : row'.status ≠ .running := by
  rw [ended.status]
  rintro rfl
  simpa [Status.terminal] using ended.isOver

theorem JobRow.Ended.synced (ended : row.Ended row' outcome)
    (decodes : row.payload.decodes = true) : row'.Synced := by
  rw [Synced, if_neg ended.stopped, ended.status, ended.copy decodes]

theorem JobRow.Synced.claim (synced : row.Synced) (queued : row.status = .queued)
    (now : Time) (claim : LeaseClaim) (interpreter : String) :
    (row.claim now claim interpreter).Synced := by
  rw [Synced, queued, if_neg (by decide)] at synced
  exact synced.trans (if_pos rfl).symm

theorem JobRow.synced_writeDependent (row : JobRow) (stops : d.status ≠ .running) :
    (row.writeDependent d).Synced := (if_neg stops).symm

section Resolved

variable (now : Time) {statusOf : JobID → Option Status} {row : JobRow}

theorem resolveDependent_allowed (allows : dependencyConditionAllows d outcome = true) :
    resolveDependent now d outcome = { d with dependencyStatus := some outcome } := by
  unfold resolveDependent
  exact if_pos allows

theorem resolveDependent_rejected (rejects : dependencyConditionAllows d outcome = false) :
    (resolveDependent now d outcome).status.terminal = true := by
  have rejects' : ¬dependencyConditionAllows { d with dependencyStatus := some outcome } outcome =
      true := by simpa [dependencyConditionAllows] using rejects
  unfold resolveDependent
  dsimp only
  rw [if_neg rejects']
  split <;> rfl

/-- A job that is not rejected keeps its payload's status, and its column takes
it. -/
theorem JobRow.resolved_of_not_rejected (accepted : ¬row.Rejected statusOf) :
    row.resolved now statusOf = row ∨
      (row.payload.job.status.waiting = true ∧
        (row.resolved now statusOf).status = row.payload.job.status) := by
  unfold resolved
  split <;> rename_i waiting
  · cases settled : dependencyOutcome statusOf row.payload.job.needs with
    | none => exact .inl rfl
    | some outcome =>
      refine .inr ⟨waiting, ?_⟩
      have allows : dependencyConditionAllows row.payload.job outcome = true := by
        by_contra rejects
        exact accepted ⟨waiting, outcome, settled, by simpa using rejects⟩
      rw [elim_some, resolveDependent_allowed now allows]
      rfl
  · exact .inl rfl

/-- For the outcomes of others, a job that is not rejected stays as it was. -/
theorem JobRow.agree_resolved (synced : row.Synced) (accepted : ¬row.Rejected statusOf) :
    Status.Agree (some (row.resolved now statusOf).status) (some row.status) := by
  rcases resolved_of_not_rejected now accepted with same | ⟨waiting, status⟩
  · rw [same]
    exact .inl rfl
  · rw [status]
    exact .inr ⟨_, _, rfl, rfl, Status.not_terminal_of_waiting waiting, synced.unsettled waiting⟩

theorem JobRow.resolved_idem (row : JobRow) :
    (row.resolved now statusOf).resolved now statusOf = row.resolved now statusOf := by
  cases waiting : row.payload.job.status.waiting with
  | false => simp [resolved, waiting]
  | true =>
    cases settled : dependencyOutcome statusOf row.payload.job.needs with
    | none => simp [resolved, waiting, settled]
    | some outcome =>
      have once : row.resolved now statusOf =
          row.writeDependent (resolveDependent now row.payload.job outcome) := by
        rw [resolved, if_pos waiting, settled, elim_some]
      rw [once]
      cases allows : dependencyConditionAllows row.payload.job outcome with
      | true =>
        rw [resolveDependent_allowed now allows]
        unfold resolved writeDependent Payload.encode
        dsimp only
        rw [if_pos waiting, settled, elim_some, resolveDependent_allowed (d := {
          row.payload.job with dependencyStatus := some outcome }) now allows]
      | false =>
        have isOver := resolveDependent_rejected now allows
        have started : ¬(row.writeDependent (resolveDependent now row.payload.job
            outcome)).payload.job.status.waiting = true := by
          intro stillWaiting
          have unsettled := Status.not_terminal_of_waiting stillWaiting
          change (resolveDependent now row.payload.job outcome).status.terminal = false at unsettled
          rw [isOver] at unsettled
          cases unsettled
        rw [resolved, if_neg started]

theorem JobRow.resolved_spec (row : JobRow) :
    (row.resolved now statusOf).payload.job.spec = row.payload.job.spec := by
  unfold resolved
  split
  · cases dependencyOutcome statusOf row.payload.job.needs with
    | none => rfl
    | some outcome =>
      rw [elim_some]
      generalize written : resolveDependent now row.payload.job outcome = d
      have same : d.spec = row.payload.job.spec := written ▸ resolveDependent_spec now _ outcome
      exact same
  · rfl

theorem JobRow.resolved_needs (row : JobRow) :
    (row.resolved now statusOf).payload.job.needs = row.payload.job.needs :=
  (Job.fields_of_spec (row.resolved_spec now)).1

theorem JobRow.waiting_of_resolved
    (waiting : (row.resolved now statusOf).payload.job.status.waiting = true) :
    row.payload.job.status.waiting = true := by
  by_contra started
  rw [resolved, if_neg started] at waiting
  exact started waiting

theorem JobRow.resolved_decodes (decodes : row.payload.decodes = true) :
    (row.resolved now statusOf).payload.decodes = true := by
  unfold resolved
  split
  · cases dependencyOutcome statusOf row.payload.job.needs with
    | none => exact decodes
    | some outcome => rfl
  · exact decodes

theorem JobRow.synced_resolved (synced : row.Synced) : (row.resolved now statusOf).Synced := by
  unfold resolved
  split <;> rename_i waiting
  · cases dependencyOutcome statusOf row.payload.job.needs with
    | none => exact synced
    | some outcome => exact row.synced_writeDependent (resolveDependent_not_running waiting)
  · exact synced

/-- A job whose needs let it run, and that no claim has started, keeps its
status. -/
theorem JobRow.resolved_status (synced : row.Synced)
    (quiet : row.payload.job.status.waiting = true → ∀ outcome,
      dependencyOutcome statusOf row.payload.job.needs = some outcome →
        dependencyConditionAllows row.payload.job outcome = true ∧ row.status ≠ .running) :
    (row.resolved now statusOf).status = row.status := by
  unfold resolved
  split <;> rename_i waiting
  · cases settled : dependencyOutcome statusOf row.payload.job.needs with
    | none => rfl
    | some outcome =>
      obtain ⟨allows, idle⟩ := quiet waiting outcome settled
      rw [Synced, if_neg idle] at synced
      rw [elim_some, resolveDependent_allowed now allows]
      exact synced
  · rfl

theorem JobRow.accepted_of_resolved
    (waiting : (row.resolved now statusOf).payload.job.status.waiting = true) :
    ¬row.Rejected statusOf := by
  rintro ⟨live, outcome, settled, rejects⟩
  have isOver := resolveDependent_rejected now rejects
  rw [resolved, if_pos live, settled, elim_some] at waiting
  generalize resolveDependent now row.payload.job outcome = d at waiting isOver
  change d.status.waiting = true at waiting
  rw [Status.not_terminal_of_waiting waiting] at isOver
  cases isOver

end Resolved

/-- No job of the list that the statuses reject is needed by a waiting job. -/
def DB.Isolated (db : DB) (dependents : List JobID) : Prop :=
  ∀ id ∈ dependents, ∀ row, db.jobs.get? id = some row → row.Rejected db.statusOf →
    ∀ other row', db.jobs.get? other = some row' →
      row'.payload.job.status.waiting = true → id ∉ row'.payload.job.needs

/-- The jobs of `done` have been looked at, the others are as in `left`. -/
def Resolving (now : Time) (left : DB) (done : List JobID) (db : DB) : Prop :=
  ∀ id, db.jobs.get? id =
    if id ∈ done then (left.jobs.get? id).map (·.resolved now left.statusOf)
    else left.jobs.get? id

section Loop

variable {now : Time} {left db db' : DB} {dependents done : List JobID}
  (synced : ∀ id row, left.jobs.get? id = some row → row.Synced)
  (isolated : left.Isolated dependents) (within : ∀ id ∈ done, id ∈ dependents)

include synced isolated within in
/-- On the way through the loop the needs of a waiting job read as before it. -/
theorem Resolving.outcome (resolving : Resolving now left done db) {id : JobID}
    (found : left.jobs.get? id = some row) (waiting : row.payload.job.status.waiting = true) :
    dependencyOutcome db.statusOf row.payload.job.needs =
      dependencyOutcome left.statusOf row.payload.job.needs := by
  refine dependencyOutcome_congr fun need needed => ?_
  rw [DB.statusOf, resolving need, DB.statusOf]
  split <;> rename_i seen
  · cases there : left.jobs.get? need with
    | none => exact .inl rfl
    | some other =>
      refine agree_resolved now (synced need other there) fun rejected => ?_
      exact isolated need (within need seen) other there rejected id row found waiting needed
  · exact .inl rfl

include synced isolated within in
theorem Resolving.step (resolving : Resolving now left done db) {id : JobID}
    (ran : recomputeDependentTx now db id = .ok db') :
    Resolving now left (id :: done) db' := by
  -- the row the loop finds is resolved already or still the one of `left`
  have here : (left.jobs.get? id).map (·.resolved now left.statusOf) =
      (db.jobs.get? id).map (·.resolved now left.statusOf) := by
    rw [resolving id]
    split
    · simp [Function.comp_def, resolved_idem]
    · rfl
  have outcome : ∀ row, db.jobs.get? id = some row → row.payload.job.status.waiting = true →
      dependencyOutcome db.statusOf row.payload.job.needs =
        dependencyOutcome left.statusOf row.payload.job.needs := by
    intro row found waiting
    rw [resolving id] at found
    split at found
    · obtain ⟨early, there, rfl⟩ := map_eq_some_iff.mp found
      rw [resolved_needs]
      exact resolving.outcome synced isolated within there (waiting_of_resolved now waiting)
    · exact resolving.outcome synced isolated within found waiting
  have settled : db'.jobs.get? id = (db.jobs.get? id).map (·.resolved now left.statusOf) ∧
      ∀ other, other ≠ id → db'.jobs.get? other = db.jobs.get? other := by
    rcases recomputeDependentTx_inv ran with
      ⟨rfl, unready⟩ | ⟨row, result, found, _, waiting, ready, rfl⟩
    · refine ⟨?_, fun _ _ => rfl⟩
      cases found : db'.jobs.get? id with
      | none => rfl
      | some row =>
        rw [map_some, resolved]
        split <;> rename_i waiting
        · rw [← outcome row found waiting, unready row found waiting, elim_none]
        · rfl
    · refine ⟨?_, fun other differ => get?_put_ne _ _ differ⟩
      rw [get?_put_self, found, map_some, resolved, if_pos waiting,
        ← outcome row found waiting, ready, elim_some]
  intro other
  by_cases same : other = id
  · rw [same, if_pos (by simp), here, settled.1]
  · rw [settled.2 other same, resolving other]
    simp [same]

include synced isolated in
/-- The loop leaves every dependent as the statuses before it decide. -/
theorem recomputes_resolve (ran : dependents.foldlM (recomputeDependentTx now) left = .ok db') :
    Resolving now left dependents db' := by
  have loop : ∀ (todo done : List JobID) (db : DB), (∀ id ∈ todo, id ∈ dependents) →
      (∀ id ∈ done, id ∈ dependents) → Resolving now left done db →
      todo.foldlM (recomputeDependentTx now) db = .ok db' →
      Resolving now left (todo.reverse ++ done) db' := by
    intro todo
    induction todo with
    | nil =>
      intro done db _ _ resolving ran
      rw [List.foldlM_nil, pure_ok_iff] at ran
      exact ran ▸ resolving
    | cons id rest ih =>
      intro done db inside within resolving ran
      obtain ⟨mid, first, tail⟩ := foldlM_cons_ok_iff.mp ran
      have member : id ∈ dependents := inside id (by simp)
      have later := ih (id :: done) mid (fun id member => inside id (List.mem_cons_of_mem _ member))
        (by
          intro other seen
          rcases List.mem_cons.mp seen with rfl | seen
          · exact member
          · exact within other seen)
        (resolving.step synced isolated within first) tail
      simpa using later
  have start : Resolving now left [] left := fun id => by simp
  have all := loop dependents [] left (fun _ member => member) (by simp) start ran
  intro id
  have read := all id
  simpa using read

end Loop

end KiwiCI.Storage
