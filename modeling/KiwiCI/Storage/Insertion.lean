import KiwiCI.Storage.Evolution

/-!
What an enqueue leaves in the store.

`Inserts items db db'` says that the rows of `items` are new, each under its own
id and with its needs as edges, and that the rows that were there stay; only the
contracts noted in a payload may differ.  `insertCompiledRows` and
`insertGeneratedFragmentTx` are of that shape.
-/

namespace KiwiCI.Storage

variable {contracts : List (JobID × List ArtifactContract)}

variable {db db' : DB} {req : InsertCompiledRunRequest}

open Table List

/-- A row without the contracts noted in its payload. -/
def JobRow.plain (row : JobRow) : JobRow :=
  { row with payload := { row.payload with artifactContracts := [] } }

theorem JobRow.plain_eq {row row' : JobRow} (same : row'.plain = row.plain) :
    row'.runID = row.runID ∧ row'.status = row.status ∧ row'.payload.job = row.payload.job ∧
      row'.payload.decodes = row.payload.decodes := by
  have read {β : Type} (f : JobRow → β) : f row'.plain = f row.plain := congrArg f same
  exact ⟨read JobRow.runID, read JobRow.status, read (·.payload.job), read (·.payload.decodes)⟩

/-- A row that holds what a job wrote, but for its contracts. -/
theorem JobRow.plain_write {row : JobRow} (same : row.plain = .write j) :
    row.runID = j.runID ∧ row.status = j.status ∧ row.payload.job = j ∧
      row.payload.decodes = true :=
  JobRow.plain_eq (show row.plain = (JobRow.write j).plain from same)

/-- The jobs of `items` are inserted. -/
structure Inserts (items : List Job) (db db' : DB) : Prop where
  fresh : ∀ j ∈ items, db.jobs.get? j.id = none
  nodup : (items.map (·.id)).Nodup
  kept : ∀ id row, db.jobs.get? id = some row →
    ∃ row', db'.jobs.get? id = some row' ∧ row'.plain = row.plain
  added : ∀ j ∈ items, ∃ row', db'.jobs.get? j.id = some row' ∧ row'.plain = .write j
  only : ∀ id row', db'.jobs.get? id = some row' →
    (∃ row, db.jobs.get? id = some row ∧ row'.plain = row.plain) ∨
      ∃ j ∈ items, j.id = id ∧ row'.plain = .write j
  edges : ∀ j ∈ items, ∀ need ∈ j.needs, (j.id, need) ∈ db'.dependencies
  onlyEdges : ∀ edge ∈ db'.dependencies,
    edge ∈ db.dependencies ∨ ∃ j ∈ items, edge.1 = j.id ∧ edge.2 ∈ j.needs
  count : ∀ p : JobID → JobRow → Bool, (∀ id row, p id row.plain = p id row) →
    db'.jobs.count p = db.jobs.count p + items.countP fun j => p j.id (.write j)

/-! ## The three loops -/

theorem insertJobRows_inv {items : List Job} (ran : items.foldlM insertJobRowTx db = .ok db') :
    db' = { db with jobs := db'.jobs } ∧ (∀ j ∈ items, db.jobs.get? j.id = none) ∧
      (items.map (·.id)).Nodup ∧
      ∀ id row, db'.jobs.get? id = some row ↔
        db.jobs.get? id = some row ∨ ∃ j ∈ items, j.id = id ∧ row = .write j := by
  induction ran using foldlM_ok_induction with
  | nil => simp
  | cons head rest db mid first tail ih =>
    obtain ⟨absent, rfl⟩ := insertJobRowTx_inv first
    obtain ⟨only, fresh, nodup, rows⟩ := ih
    have differ : ∀ j ∈ rest, j.id ≠ head.id := by
      intro j member same
      have unseen := fresh j member
      rw [same, get?_put_self] at unseen
      cases unseen
    refine ⟨only, ?_, ?_, fun id row => ?_⟩
    · intro j member
      rcases mem_cons.mp member with rfl | member
      · exact absent
      · have unseen := fresh j member
        rwa [get?_put_ne _ _ (differ j member)] at unseen
    · rw [map_cons, nodup_cons]
      refine ⟨fun member => ?_, nodup⟩
      obtain ⟨j, inside, same⟩ := mem_map.mp member
      exact differ j inside same
    · rw [rows, get?_put]
      by_cases same : id = head.id
      · subst same
        rw [if_pos rfl, absent]
        constructor
        · rintro (held | ⟨j, member, equal, _⟩)
          · exact .inr ⟨head, by simp, rfl, (Option.some.inj held).symm⟩
          · exact absurd equal (differ j member)
        · rintro (held | ⟨j, member, equal, rfl⟩)
          · cases held
          · rcases mem_cons.mp member with rfl | member
            · exact .inl rfl
            · exact absurd equal (differ j member)
      · rw [if_neg same]
        refine or_congr_right ⟨?_, ?_⟩
        · rintro ⟨j, member, equal, written⟩
          exact ⟨j, mem_cons_of_mem _ member, equal, written⟩
        · rintro ⟨j, member, equal, written⟩
          rcases mem_cons.mp member with rfl | member
          · exact absurd equal.symm same
          · exact ⟨j, member, equal, written⟩

theorem insertJobRows_count {items : List Job}
    (ran : items.foldlM insertJobRowTx db = .ok db') (p : JobID → JobRow → Bool) :
    db'.jobs.count p = db.jobs.count p + items.countP fun j => p j.id (.write j) := by
  induction ran using foldlM_ok_induction with
  | nil => simp
  | cons head rest db mid first tail ih =>
    obtain ⟨absent, rfl⟩ := insertJobRowTx_inv first
    rw [count_put_of_absent absent] at ih
    rw [ih, countP_cons]
    omega

theorem insertDependencies_inv {needs : List JobID}
    (ran : needs.foldlM (insertDependencyTx jobID) db = .ok db') :
    db'.dependencies = db.dependencies ++ needs.map (jobID, ·) := by
  induction ran using foldlM_ok_induction with
  | nil => simp
  | cons head rest db mid first tail ih =>
    rw [ih, insertDependencyTx_inv first]
    simp

theorem mem_replaceDependencies
    (ran : replaceDependenciesTx db j = .ok db') (edge : JobID × JobID) : edge ∈ db'.dependencies ↔
      (edge ∈ db.dependencies ∧ edge.1 ≠ j.id) ∨ (edge.1 = j.id ∧ edge.2 ∈ j.needs) := by
  rw [insertDependencies_inv ran]
  simp only [mem_append, mem_filter, mem_map, decide_eq_true_eq]
  refine or_congr_right ⟨?_, ?_⟩
  · rintro ⟨need, member, rfl⟩
    exact ⟨rfl, member⟩
  · rintro ⟨same, member⟩
    exact ⟨edge.2, member, by rw [← same]⟩

theorem replaceAllDependencies_inv {items : List Job}
    (nodup : (items.map (·.id)).Nodup) (ran : items.foldlM replaceDependenciesTx db = .ok db') :
    db' = { db with dependencies := db'.dependencies } ∧
      ∀ edge, edge ∈ db'.dependencies ↔
        (edge ∈ db.dependencies ∧ ∀ j ∈ items, edge.1 ≠ j.id) ∨
          ∃ j ∈ items, edge.1 = j.id ∧ edge.2 ∈ j.needs := by
  induction ran using foldlM_ok_induction with
  | nil => simp
  | cons head rest db mid first tail ih =>
    rw [map_cons, nodup_cons] at nodup
    obtain ⟨distinct, nodup⟩ := nodup
    obtain ⟨only, edges⟩ := ih nodup
    have differ : ∀ j ∈ rest, head.id ≠ j.id := fun j member same =>
      distinct (mem_map.mpr ⟨j, member, same.symm⟩)
    refine ⟨by rw [only, replaceDependenciesTx_only first], fun edge => ?_⟩
    rw [edges, mem_replaceDependencies first]
    simp only [mem_cons, forall_eq_or_imp, exists_eq_or_imp]
    constructor
    · rintro (⟨⟨member, apart⟩ | own, others⟩ | ⟨j, member, own⟩)
      · exact .inl ⟨member, apart, others⟩
      · exact .inr (.inl own)
      · exact .inr (.inr ⟨j, member, own⟩)
    · rintro (⟨member, apart, others⟩ | own | ⟨j, member, own⟩)
      · exact .inl ⟨.inl ⟨member, apart⟩, others⟩
      · refine .inl ⟨.inr own, fun j member => ?_⟩
        rw [own.1]
        exact differ j member
      · exact .inr ⟨j, member, own⟩

theorem insertContracts_plain
    (ran : contracts.foldlM insertContractsTx db = .ok db') : db' = { db with jobs := db'.jobs } ∧
      ∀ id, (db'.jobs.get? id).map JobRow.plain = (db.jobs.get? id).map JobRow.plain := by
  refine foldlM_rel (r := fun db db' : DB => db' = { db with jobs := db'.jobs } ∧
    ∀ id, (db'.jobs.get? id).map JobRow.plain = (db.jobs.get? id).map JobRow.plain)
    (fun _ => ⟨rfl, fun _ => rfl⟩) ?_ contracts ?_ ran
  · rintro a b c ⟨first, early⟩ ⟨second, late⟩
    exact ⟨by rw [second, first], fun id => (late id).trans (early id)⟩
  · intro entry _ db db' noted
    obtain ⟨_, _, noted⟩ := bind_ok_iff.mp noted
    rw [pure_ok_iff] at noted
    subst noted
    refine ⟨rfl, fun id => ?_⟩
    simp only [get?_modify]
    split <;> rename_i same
    · rw [same, Option.map_map]
      rfl
    · rfl

theorem Inserts.ofLoops {items : List Job} (jobs : items.foldlM insertJobRowTx db = .ok withJobs)
    (edges : items.foldlM replaceDependenciesTx withJobs = .ok withEdges)
    (noted : contracts.foldlM insertContractsTx withEdges = .ok db') : Inserts items db db' ∧
      db' = { db with jobs := db'.jobs, dependencies := db'.dependencies } := by
  obtain ⟨onlyJobs, fresh, nodup, rows⟩ := insertJobRows_inv jobs
  obtain ⟨onlyEdges, edgeIff⟩ := replaceAllDependencies_inv nodup edges
  obtain ⟨onlyNotes, plain⟩ := insertContracts_plain noted
  have sameEdges : db'.dependencies = withEdges.dependencies := by rw [onlyNotes]
  have sameJobs : withEdges.jobs = withJobs.jobs := by rw [onlyEdges]
  have startEdges : withJobs.dependencies = db.dependencies := by rw [onlyJobs]
  have noted : ∀ id row, withJobs.jobs.get? id = some row →
      ∃ row', db'.jobs.get? id = some row' ∧ row'.plain = row.plain := by
    intro id row found
    have same := plain id
    rw [sameJobs, found, Option.map_some] at same
    exact Option.map_eq_some_iff.mp same
  refine ⟨⟨fresh, nodup, fun id row found => ?_, fun j member => ?_, fun id row' found => ?_,
    fun j member need inside => ?_, fun edge member => ?_, fun p reads => ?_⟩, ?_⟩
  · exact noted id row ((rows id row).mpr (.inl found))
  · exact noted j.id (.write j) ((rows j.id _).mpr (.inr ⟨j, member, rfl, rfl⟩))
  · have same := plain id
    rw [found, sameJobs, Option.map_some] at same
    obtain ⟨row, there, equal⟩ := Option.map_eq_some_iff.mp same.symm
    rcases (rows id row).mp there with held | ⟨j, member, named, rfl⟩
    · exact .inl ⟨row, held, equal.symm⟩
    · exact .inr ⟨j, member, named, equal.symm⟩
  · rw [sameEdges, edgeIff]
    exact .inr ⟨j, member, rfl, inside⟩
  · rw [sameEdges, edgeIff, startEdges] at member
    exact member.imp_left And.left
  · rw [← insertJobRows_count jobs, ← sameJobs]
    have read : ∀ t : Table JobID JobRow,
        t.count p = t.sum fun id row => if p id row.plain then 1 else 0 := by
      intro t
      apply sum_congr
      intro id row _
      rw [reads]
    rw [read, read]
    exact sum_ext_map (g := fun _ => JobRow.plain) (f := fun id row => if p id row then 1 else 0) plain
  · rw [onlyNotes, onlyEdges, onlyJobs]

/-! ## The two enqueues -/

/-- The jobs `InsertCompiledRun` writes, with the needs the request settles on. -/
def InsertCompiledRunRequest.items (req : InsertCompiledRunRequest) : List Job :=
  req.jobs.map fun entry => { entry.2 with needs := effectiveNeeds entry.1 entry.2 req.deps }

theorem insertCompiledRows_inv (ran : insertCompiledRows req db = .ok db') :
    db.runs.get? req.run.id = none ∧ Inserts req.items db db' ∧ db' = { db with
        jobs := db'.jobs, dependencies := db'.dependencies
        runs := db.runs.put req.run.id
          { status := req.run.status, startedAt := req.run.startedAt
            finishedAt := req.run.finishedAt, createdAt := req.run.createdAt, payload := req.run } } := by
  simp only [insertCompiledRows, insertRunTx, bind_ok_iff, require_ok_iff, pure_ok_iff] at ran
  obtain ⟨withRun, ⟨_, fresh, written⟩, _, -, withJobs, jobs, withEdges, edges, contracts⟩ := ran
  have rows : req.items.foldlM insertJobRowTx withRun = .ok withJobs := by
    refine foldlM_map_of (fun entry s s' one => ?_) jobs
    simp only [insertCompiledJob, bind_ok_iff] at one
    obtain ⟨_, -, _, -, row⟩ := one
    exact row
  have needs : req.items.foldlM replaceDependenciesTx withJobs = .ok withEdges := by
    rw [InsertCompiledRunRequest.items, foldlM_map]
    exact edges
  obtain ⟨inserts, only⟩ := Inserts.ofLoops rows needs contracts
  subst written
  exact ⟨fresh, ⟨inserts.fresh, inserts.nodup, inserts.kept, inserts.added, inserts.only,
    inserts.edges, inserts.onlyEdges, inserts.count⟩, only⟩

/-- The stages of `InsertCompiledRun`: claims, rows, supersession, quota. -/
theorem insertCompiledRun_inv (ran : insertCompiledRun c req db = .ok db') :
    ∃ claimed inserted superseded, db.WritesClaims claimed ∧
      insertCompiledRows req claimed = .ok inserted ∧
      supersedePrevious c req inserted = .ok superseded ∧ superseded.Reserves req.quota db' := by
  simp only [insertCompiledRun, bind_ok_iff] at ran
  obtain ⟨_, -, _, -, claimed, before, inserted, rows, superseded, previous, after⟩ := ran
  exact ⟨claimed, inserted, superseded, claimBeforeRun_writes before, rows, previous,
    claimAfterRun_reserves after⟩

theorem mem_supersededRuns :
    runID ∈ db.supersededRuns repoID group newRunID ↔
      ∃ run, db.runs.get? runID = some run ∧ runID ≠ newRunID ∧
        runRepoIDSQL run.payload = repoID ∧ run.payload.concurrencyGroup = group ∧
        run.status.terminal = false := by
  simp only [DB.supersededRuns, mem_map, mem_insertionSort, mem_filter,
    Bool.and_eq_true, decide_eq_true_eq, Bool.not_eq_true']
  constructor
  · rintro ⟨⟨id, run⟩, ⟨member, ⟨⟨other, repo⟩, grouped⟩, unsettled⟩, rfl⟩
    exact ⟨run, mem_rows_iff.mp member, other, repo, grouped, unsettled⟩
  · rintro ⟨run, found, other, repo, grouped, unsettled⟩
    exact ⟨⟨runID, run⟩, ⟨mem_rows_iff.mpr found, ⟨⟨other, repo⟩, grouped⟩, unsettled⟩, rfl⟩

/-- The superseded jobs are the open jobs of the superseded runs. -/
theorem mem_supersededJobIDsTx {id : JobID} :
    id ∈ supersededJobIDsTx p newRunID db ↔
      (Text.trimSpace p.repoID ≠ "" ∧ Text.trimSpace p.concurrencyGroup ≠ "") ∧
        ∃ row, db.jobs.get? id = some row ∧ row.status.terminal = false ∧
          row.runID ∈ db.supersededRuns (Text.trimSpace p.repoID)
            (Text.trimSpace p.concurrencyGroup) newRunID := by
  unfold supersededJobIDsTx
  dsimp only
  split <;> rename_i asked
  · simp only [Bool.or_eq_true, decide_eq_true_eq] at asked
    constructor
    · intro member
      exact absurd member not_mem_nil
    · rintro ⟨⟨repo, grouped⟩, _⟩
      exact absurd asked (by simp [repo, grouped])
  · simp only [Bool.or_eq_true, decide_eq_true_eq, not_or] at asked
    rw [mem_flatMap]
    constructor
    · rintro ⟨runID, listed, opened⟩
      obtain ⟨row, found, rfl, unsettled⟩ := mem_openJobsOf.mp opened
      exact ⟨asked, row, found, unsettled, listed⟩
    · rintro ⟨_, row, found, unsettled, listed⟩
      exact ⟨row.runID, listed, mem_openJobsOf.mpr ⟨row, found, rfl, unsettled⟩⟩

/-- Nobody is superseded where all jobs belong to the new run. -/
theorem supersedePrevious_none (own : ∀ id row, db.jobs.get? id = some row → row.runID = req.run.id)
    (none : req.cancelPrevious = []) (ran : supersedePrevious c req db = .ok db') : db' = db := by
  have nobody : ∀ db : DB, cancelSupersededTx c.now [] req.run.id db = .ok db := fun _ => rfl
  have jobs : ∀ p, supersededJobIDsTx p req.run.id db = [] := by
    intro p
    refine eq_nil_iff_forall_not_mem.mpr fun id member => ?_
    obtain ⟨_, row, found, _, listed⟩ := mem_supersededJobIDsTx.mp member
    obtain ⟨_, _, other, _⟩ := mem_supersededRuns.mp listed
    exact other (own id row found)
  simp only [supersedePrevious, bind_ok_iff, none, nobody] at ran
  obtain ⟨mid, byPolicy, last⟩ := ran
  cases Except.ok.inj last
  cases asked : req.supersede with
  | none =>
    rw [asked] at byPolicy
    exact (Except.ok.inj byPolicy).symm
  | some p =>
    rw [asked, whenSome, jobs, nobody] at byPolicy
    exact (Except.ok.inj byPolicy).symm

end KiwiCI.Storage
