import KiwiCI.Memory.Enqueue
import KiwiCI.Storage.Supersession

/-!
Supersession in the two stores.

PostgreSQL matches the runs of a policy by the identity expression over the
payload, which takes the checkout repository and folds its path; the in-memory
store by `RepoIDForRun`, which takes the policy repository first and folds
nothing.  They select the same jobs exactly where the two identities agree on
the policy's repository, for the runs that have jobs to cancel.
-/

namespace KiwiCI.Memory

variable {req : InsertCompiledRunRequest}

open Storage Table Attempt List

/-! ## Selection -/

/-- The superseded jobs are the open jobs of the superseded runs. -/
theorem mem_supersededJobIDsLocked {id : JobID} :
    id ∈ supersededJobIDsLocked p newRunID m ↔
      p.Active ∧ ∃ j run, m.jobs.get? id = some j ∧ j.status.terminal = false ∧
        m.runs.get? j.runID = some run ∧ Rival p newRunID j.runID run.status run ∧
          repoIDForRun run = Text.trimSpace p.repoID := by
  unfold supersededJobIDsLocked SupersedePolicy.Active
  dsimp only
  split <;> rename_i asked
  · simp only [Bool.or_eq_true, decide_eq_true_eq] at asked
    constructor
    · intro member
      exact absurd member not_mem_nil
    · rintro ⟨⟨repo, grouped⟩, _⟩
      exact absurd asked (by simp [repo, grouped])
  · simp only [Bool.or_eq_true, decide_eq_true_eq, not_or] at asked
    simp only [mem_insertionSort, mem_flatMap, mem_select, Bool.and_eq_true,
      decide_eq_true_eq, Bool.not_eq_true']
    constructor
    · rintro ⟨_, ⟨run, found, ⟨⟨other, unsettled⟩, repo⟩, grouped⟩, j, held, rfl, opened⟩
      exact ⟨asked, j, run, held, opened, found, ⟨other, unsettled, grouped⟩, repo⟩
    · rintro ⟨_, j, run, held, opened, found, rival, repo⟩
      exact ⟨j.runID, ⟨run, found, ⟨⟨rival.other, rival.unsettled⟩, repo⟩, rival.grouped⟩, j, held,
        rfl, opened⟩

def jobRecord (id : JobID) (row : JobRow) : Job :=
  (row.job id).getD { row.payload.job with id, runID := row.runID, status := row.status }

def runRecord (id : RunID) (row : RunRow) : Run :=
  { row.payload with
    id, status := row.status, startedAt := row.startedAt, finishedAt := row.finishedAt
    createdAt := row.createdAt }

/-- The runs and jobs of the database as the in-memory store holds them. -/
def records (db : DB) : Tables where
  runs := db.runs.map runRecord
  jobs := db.jobs.map jobRecord

theorem jobRecord_columns (id : JobID) (row : JobRow) :
    (jobRecord id row).runID = row.runID ∧ (jobRecord id row).status = row.status := by
  unfold jobRecord JobRow.job
  cases row.payload.decode <;> exact ⟨rfl, rfl⟩

theorem repoIDForRun_record (id : RunID) (row : RunRow) :
    repoIDForRun (runRecord id row) = repoIDForRun row.payload := by
  unfold repoIDForRun
  rfl

/-- The open job `id` belongs to a rival run of the policy that `matched` admits. -/
def OpenRival (p : SupersedePolicy) (newRunID : RunID) (db : DB) (matched : Run → Prop) (id : JobID) :
    Prop :=
  ∃ row run, db.jobs.get? id = some row ∧ row.status.terminal = false ∧
    db.runs.get? row.runID = some run ∧ Rival p newRunID row.runID run.status run.payload ∧
      matched run.payload

section Selection

variable {p : SupersedePolicy} {newRunID : RunID} {db : DB} {id : JobID}

theorem mem_supersededJobIDsTx_iff : id ∈ supersededJobIDsTx p newRunID db ↔ p.Active ∧
    OpenRival p newRunID db (fun run => runRepoIDSQL run = Text.trimSpace p.repoID) id := by
  rw [mem_supersededJobIDsTx]
  refine and_congr_right fun _ => ?_
  constructor
  · rintro ⟨row, found, opened, listed⟩
    obtain ⟨run, there, other, repo, grouped, unsettled⟩ := mem_supersededRuns.mp listed
    exact ⟨row, run, found, opened, there, ⟨other, unsettled, grouped⟩, repo⟩
  · rintro ⟨row, run, found, opened, there, rival, repo⟩
    exact ⟨row, found, opened, mem_supersededRuns.mpr
      ⟨run, there, rival.other, repo, rival.grouped, rival.unsettled⟩⟩

theorem mem_supersededJobIDsLocked_records : id ∈ supersededJobIDsLocked p newRunID (records db) ↔
    p.Active ∧ OpenRival p newRunID db (fun run => repoIDForRun run = Text.trimSpace p.repoID) id := by
  rw [mem_supersededJobIDsLocked]
  refine and_congr_right fun _ => ?_
  simp only [records, get?_map, Option.map_eq_some_iff]
  constructor
  · rintro ⟨_, _, ⟨row, found, rfl⟩, opened, ⟨run, there, rfl⟩, rival, repo⟩
    obtain ⟨sameRun, sameStatus⟩ := jobRecord_columns id row
    rw [sameRun] at there rival
    rw [sameStatus] at opened
    exact ⟨row, run, found, opened, there, ⟨rival.other, rival.unsettled, rival.grouped⟩,
      (repoIDForRun_record _ run).symm.trans repo⟩
  · rintro ⟨row, run, found, opened, there, rival, repo⟩
    obtain ⟨sameRun, sameStatus⟩ := jobRecord_columns id row
    have record := repoIDForRun_record row.runID run
    refine ⟨jobRecord id row, runRecord row.runID run, ⟨row, found, rfl⟩, ?_, ⟨run, ?_, ?_⟩, ?_,
      record.trans repo⟩
    · rw [sameStatus]
      exact opened
    · rw [sameRun]
      exact there
    · rw [sameRun]
    · rw [sameRun]
      exact ⟨rival.other, rival.unsettled, rival.grouped⟩

/-- The two stores select the same jobs exactly where the identities agree. -/
theorem selection_agrees_iff :
    (∀ id, id ∈ supersededJobIDsTx p newRunID db ↔
        id ∈ supersededJobIDsLocked p newRunID (records db)) ↔
      db.IdentitiesAgree p newRunID := by
  simp only [mem_supersededJobIDsTx_iff, mem_supersededJobIDsLocked_records, and_congr_right_iff]
  constructor
  · rintro same active runID run id row there rival found rfl opened
    constructor
    · intro repo
      obtain ⟨late, other, held, _, run', _, repo'⟩ :=
        (same id active).mp ⟨row, run, found, opened, there, rival, repo⟩
      cases found.symm.trans held
      cases there.symm.trans run'
      exact repo'
    · intro repo
      obtain ⟨late, other, held, _, run', _, repo'⟩ :=
        (same id active).mpr ⟨row, run, found, opened, there, rival, repo⟩
      cases found.symm.trans held
      cases there.symm.trans run'
      exact repo'
  · intro agree id active
    refine exists_congr fun row => exists_congr fun run => and_congr_right fun found =>
      and_congr_right fun opened => and_congr_right fun there => and_congr_right fun rival => ?_
    exact agree active row.runID run id row there rival found rfl opened

end Selection

/-! ## The in-memory enqueue -/

/-- Open jobs were open before, in the same run; runs that are not over are as they
were. -/
structure Tables.Narrows (m m' : Tables) : Prop where
  jobs : ∀ id j', m'.jobs.get? id = some j' → j'.status.terminal = false →
    ∃ j, m.jobs.get? id = some j ∧ j.status.terminal = false ∧ j.runID = j'.runID
  runs : ∀ id run, m'.runs.get? id = some run → run.status.terminal = false →
    m.runs.get? id = some run

namespace Tables.Narrows

variable {m m' : Tables} {now : Time}

theorem ofTables (jobs : m'.jobs = m.jobs) (runs : m'.runs = m.runs) : m.Narrows m' where
  jobs := fun _ j' found opened => ⟨j', jobs ▸ found, opened, rfl⟩
  runs := fun _ _ found _ => runs ▸ found

theorem refl (m : Tables) : m.Narrows m := .ofTables rfl rfl

theorem trans {a c : Tables} (first : a.Narrows b) (second : b.Narrows c) : a.Narrows c where
  jobs := by
    intro id j' found opened
    obtain ⟨middle, there, unsettled, late⟩ := second.jobs id j' found opened
    obtain ⟨j, start, begun, early⟩ := first.jobs id middle there unsettled
    exact ⟨j, start, begun, early.trans late⟩
  runs := fun id run found unsettled => first.runs id run (second.runs id run found unsettled) unsettled

theorem recompute (cancelled : List JobID) (id : JobID) :
    m.Narrows (recomputeDependentLocked cancelled now m id) := by
  unfold recomputeDependentLocked
  split
  · exact .refl m
  · rename_i j found
    split
    · exact .refl m
    · rename_i waits
      split
      · exact .refl m
      · rename_i outcome _
        refine ⟨fun other j' there opened => ?_, fun _ _ there _ => there⟩
        rw [get?_put] at there
        split at there <;> rename_i same
        · obtain rfl := Option.some.inj there
          simp only [not_or, Bool.not_eq_false] at waits
          have runID : (resolveDependent now j outcome).runID = j.runID := by
            unfold resolveDependent
            dsimp only
            split
            · rfl
            · split <;> rfl
          exact ⟨j, same ▸ found, Status.not_terminal_of_waiting waits.1, runID.symm⟩
        · exact ⟨j', there, opened, rfl⟩

theorem recomputeAll (now : Time) (cancelled : List JobID) :
    m.Narrows (recomputeDependentsLocked cancelled now m) := by
  unfold recomputeDependentsLocked
  split
  · exact .refl m
  · exact foldl_rel (r := Tables.Narrows) .refl .trans _ (fun id _ _ => .recompute cancelled id) m

theorem cancelRun (runID : RunID) : m.Narrows (commitCancelledRun now m runID) := by
  refine ⟨fun id j' found opened => ⟨j', found, opened, rfl⟩, fun id run found unsettled => ?_⟩
  simp only [commitCancelledRun, get?_modify] at found
  split at found <;> rename_i same
  · obtain ⟨old, there, rfl⟩ := Option.map_eq_some_iff.mp found
    split at unsettled
    · simp_all
    · cases unsettled
  · exact found

end Tables.Narrows

/-- The writes of a superseded job put it in its place and nothing else into the
jobs. -/
theorem commitCancel_tables (now : Time) (m : Tables) (stage : CancelStage) :
    (commitCancel now m stage).jobs = m.jobs.put stage.id stage.job ∧
      (commitCancel now m stage).runs = m.runs := by
  unfold commitCancel
  split
  · split <;> exact ⟨rfl, rfl⟩
  · exact ⟨rfl, rfl⟩

theorem commitCancels_narrows (now : Time) {cancels : List CancelStage}
    (isOver : ∀ stage ∈ cancels, stage.job.status.terminal = true) :
    m.Narrows (cancels.foldl (commitCancel now) m) ∧
      ∀ stage ∈ cancels, ∀ j, (cancels.foldl (commitCancel now) m).jobs.get? stage.id = some j →
        j.status.terminal = true := by
  induction cancels generalizing m with
  | nil => exact ⟨.refl m, by simp⟩
  | cons head rest ih =>
    obtain ⟨jobs, runs⟩ := commitCancel_tables now m head
    have closed := isOver head (by simp)
    have first : m.Narrows (commitCancel now m head) := by
      refine ⟨fun id j' found opened => ?_, fun _ _ found _ => runs ▸ found⟩
      rw [jobs, get?_put] at found
      split at found
      · cases found
        rw [closed] at opened
        cases opened
      · exact ⟨j', found, opened, rfl⟩
    obtain ⟨later, settled⟩ :=
      ih (m := commitCancel now m head) fun stage member => isOver stage (mem_cons_of_mem _ member)
    refine ⟨first.trans later, fun stage member j found => ?_⟩
    rcases mem_cons.mp member with rfl | member
    · by_contra unsettled
      rw [Bool.not_eq_true] at unsettled
      obtain ⟨early, there, opened, _⟩ := later.jobs _ j found unsettled
      rw [jobs, get?_put_self] at there
      cases there
      rw [closed] at opened
      cases opened
    · exact settled stage member j found

/-! ## What was staged -/

/-- The staged cancellations: one for each open job of the list, and all of them
over. -/
theorem stageCancels_inv {ids : List JobID} {s s' : Store}
    (ran : ids.foldlM (stageCancel runID now) acc s = .ok acc' s')
    (isOver : ∀ stage ∈ acc.1, stage.job.status.terminal = true) :
    (∀ stage ∈ acc.1, stage ∈ acc'.1) ∧ (∀ stage ∈ acc'.1, stage.job.status.terminal = true) ∧
      ∀ id ∈ ids, ∀ j, s.jobs.get? id = some j → j.status.terminal = false →
        ∃ stage ∈ acc'.1, stage.id = id := by
  induction ids generalizing acc s with
  | nil =>
    rw [foldlM_nil] at ran
    obtain ⟨rfl, rfl⟩ := pure_ok.mp ran
    exact ⟨fun _ member => member, isOver, by simp⟩
  | cons head rest ih =>
    rw [foldlM_cons] at ran
    obtain ⟨mid, s₁, first, tail⟩ := bind_ok.mp ran
    have same : s₁.toTables = s.toTables := (stageCancel_frames _ _ _ _).ok _ _ _ first
    have step : (∀ stage ∈ acc.1, stage ∈ mid.1) ∧
        (∀ stage ∈ mid.1, stage.job.status.terminal = true) ∧
        ∀ j, s.jobs.get? head = some j → j.status.terminal = false →
          ∃ stage ∈ mid.1, stage.id = head := by
      obtain ⟨m, before, read, body⟩ := bind_ok.mp first
      obtain ⟨rfl, rfl⟩ := get_ok.mp read
      cases found : before.jobs.get? head with
      | none =>
        simp only [found] at body
        obtain ⟨rfl, _⟩ := pure_ok.mp body
        exact ⟨fun _ member => member, isOver, fun j there => by cases there⟩
      | some job =>
        simp only [found] at body
        split at body <;> rename_i closed
        · obtain ⟨rfl, _⟩ := pure_ok.mp body
          refine ⟨fun _ member => member, isOver, fun j there opened => ?_⟩
          cases there
          simp [closed] at opened
        · obtain ⟨_, _, _, body⟩ := bind_ok.mp body
          obtain ⟨rfl, _⟩ := pure_ok.mp body
          refine ⟨fun _ member => mem_append_left _ member, fun stage member => ?_, fun _ _ _ => ?_⟩
          · rcases mem_append.mp member with earlier | new
            · exact isOver stage earlier
            · rw [mem_singleton.mp new]
              rfl
          · exact ⟨_, mem_append_right _ (mem_singleton.mpr rfl), rfl⟩
    obtain ⟨kept, closed, staged⟩ := step
    obtain ⟨later, settled, others⟩ := ih tail closed
    refine ⟨fun stage member => later stage (kept stage member), settled, fun id member j there opened => ?_⟩
    rcases mem_cons.mp member with rfl | member
    · obtain ⟨stage, listed, named⟩ := staged j there opened
      exact ⟨stage, later stage listed, named⟩
    · exact others id member j (same ▸ there) opened

theorem stageJobs_inv {entries : List (JobID × Job)}
    (ran : entries.foldlM (stageJob deps) acc s = .ok acc' s') :
    ∀ e ∈ acc'.1, e ∈ acc.1 ∨ ∃ entry ∈ entries, e.2.runID = entry.2.runID := by
  induction entries generalizing acc s with
  | nil =>
    rw [foldlM_nil] at ran
    obtain ⟨rfl, rfl⟩ := pure_ok.mp ran
    exact fun _ member => .inl member
  | cons head rest ih =>
    rw [foldlM_cons] at ran
    obtain ⟨mid, s₁, first, tail⟩ := bind_ok.mp ran
    obtain ⟨_, _, _, noted⟩ := bind_ok.mp first
    obtain ⟨rfl, _⟩ := pure_ok.mp noted
    intro e member
    rcases ih tail e member with early | ⟨entry, listed, same⟩
    · rcases mem_append.mp early with earlier | new
      · exact .inl earlier
      · rw [mem_singleton.mp new]
        exact .inr ⟨head, by simp, rfl⟩
    · exact .inr ⟨entry, mem_cons_of_mem _ listed, same⟩

/-- What an enqueue staged. -/
structure StagedFor (req : InsertCompiledRunRequest) (staged : Staged) (m : Tables) : Prop where
  isOver : ∀ stage ∈ staged.cancels, stage.job.status.terminal = true
  all : ∀ id ∈ cancelIDs req m, ∀ j, m.jobs.get? id = some j → j.status.terminal = false →
    ∃ stage ∈ staged.cancels, stage.id = id
  jobs : ∀ e ∈ staged.jobs, ∃ entry ∈ req.jobs, e.2.runID = entry.2.runID

theorem stageEnqueue_inv {staged : Staged} {s' : Store}
    (ran : stageEnqueue now req s = .ok staged s') : StagedFor req staged s.toTables := by
  obtain ⟨m, before, read, rest⟩ := bind_ok.mp ran
  obtain ⟨rfl, rfl⟩ := get_ok.mp read
  obtain ⟨_, _, admitted, rest⟩ := bind_ok.mp rest
  obtain ⟨_, rfl⟩ := lift_ok.mp admitted
  obtain ⟨_, _, cancels, rest⟩ := bind_ok.mp rest
  obtain ⟨_, _, jobs, rest⟩ := bind_ok.mp rest
  obtain ⟨_, _, _, done⟩ := bind_ok.mp rest
  obtain ⟨rfl, _⟩ := pure_ok.mp done
  obtain ⟨_, isOver, all⟩ := stageCancels_inv cancels (by simp)
  exact ⟨isOver, all, fun e member => by simpa using stageJobs_inv jobs e member⟩

/-- No rival of the policy's repository has an open job. -/
def Tables.Superseded (p : SupersedePolicy) (newRunID : RunID) (m : Tables) : Prop :=
  p.Active → ∀ runID run id j, m.runs.get? runID = some run → Rival p newRunID runID run.status run →
    repoIDForRun run = Text.trimSpace p.repoID → m.jobs.get? id = some j → j.runID = runID →
      j.status.terminal = true

theorem commitRun_inv (req : InsertCompiledRunRequest) (jobs : List (JobID × Job)) (m : Tables) :
    (commitRun req jobs m).runs = m.runs.put req.run.id req.run ∧
      ∀ id j, (commitRun req jobs m).jobs.get? id = some j →
        m.jobs.get? id = some j ∨ ∃ e ∈ jobs, e.2 = j := by
  refine ⟨foldlRecOn (motive := fun m' : Tables => m'.runs = _) jobs (commitJob req.contracts) rfl
    fun _ same _ _ => same, fun id j found => ?_⟩
  have rows (m : Tables) : jobs.foldl (fun t e => t.put e.1 e.2) m.jobs =
      (jobs.foldl (commitJob req.contracts) m).jobs := foldl_hom Tables.jobs fun _ _ => rfl
  rw [commitRun, ← rows] at found
  exact (get?_foldl_put found).imp_right fun member => ⟨(id, j), member, rfl⟩

/-- The in-memory `InsertCompiledRun` supersedes the rivals. -/
theorem insertCompiledRun_superseded {now : Time}
    {p : SupersedePolicy} (asked : req.supersede = some p)
    (own : ∀ entry ∈ req.jobs, entry.2.runID = req.run.id)
    (ran : insertCompiledRun now req s = .ok u s') : s'.toTables.Superseded p req.run.id := by
  obtain ⟨staged, mid, stage, write⟩ := bind_ok.mp ran
  have same := (stageEnqueue_frames now req).ok _ _ _ stage
  have stagedFor := stageEnqueue_inv stage
  rw [modify_ok.mp write]
  rintro active runID run id j there rival repo found rfl
  by_contra unsettled
  rw [Bool.not_eq_true] at unsettled
  -- the stages of the writes
  obtain ⟨early, closed⟩ := commitCancels_narrows now
    (m := commitReservations staged mid.toTables) stagedFor.isOver
  have late : (staged.cancels.foldl (commitCancel now) (commitReservations staged mid.toTables)).Narrows
      (commitSupersession now staged.cancels (commitReservations staged mid.toTables)) := by
    refine Tables.Narrows.trans (.recomputeAll now (staged.cancels.map (·.id))) ?_
    exact foldl_rel (r := Tables.Narrows) .refl .trans _ (fun runID _ _ => .cancelRun runID) _
  obtain ⟨runs, jobs⟩ := commitRun_inv req staged.jobs
    (commitSupersession now staged.cancels (commitReservations staged mid.toTables))
  have oldRun := there
  change (commitRun req staged.jobs _).runs.get? _ = _ at oldRun
  rw [runs, get?_put, if_neg rival.other] at oldRun
  rcases jobs id j found with old | ⟨e, member, rfl⟩
  · obtain ⟨middle, held, opened, sameMiddle⟩ := late.jobs id j old unsettled
    obtain ⟨start, begun, begunOpen, sameStart⟩ := early.jobs id middle held opened
    have firstRun := (early.trans late).runs _ run oldRun rival.unsettled
    have sameRun : start.runID = j.runID := sameStart.trans sameMiddle
    have byPolicy : id ∈ supersededJobIDsLocked p req.run.id s.toTables := by
      rw [mem_supersededJobIDsLocked]
      refine ⟨active, start, run, ?_, begunOpen, ?_, sameRun ▸ rival, repo⟩
      · exact same ▸ begun
      · rw [sameRun, ← same]
        exact firstRun
    have selected : id ∈ cancelIDs req s.toTables := by
      rw [cancelIDs, asked, mem_eraseDups, mem_append, Option.elim_some]
      exact .inr byPolicy
    obtain ⟨stage, listed, rfl⟩ := stagedFor.all id selected start (same ▸ begun) begunOpen
    rw [closed stage listed middle held] at opened
    cases opened
  · obtain ⟨entry, listed, sameRun⟩ := stagedFor.jobs e member
    exact rival.other (sameRun.trans (own entry listed))

/-! ## Both stores -/

/-- **When the two stores supersede the same jobs.**  For a coherent database, an
in-memory store with the same runs and jobs, and a request of a run with its own
jobs under a policy: the stores select the same jobs and both leave no rival of
the policy's repository with an open job, exactly when for every rival with an
open job the identity in SQL is the policy's repository just when `RepoIDForRun`
is. -/
theorem supersession_agrees_iff (c : Call) (now : Time) (req : InsertCompiledRunRequest)
    (p : SupersedePolicy) (db : DB) (m : Store) (coherent : db.Coherent)
    (runs : m.runs = (records db).runs) (jobs : m.jobs = (records db).jobs)
    (asked : req.supersede = some p) (own : ∀ entry ∈ req.jobs, entry.2.runID = req.run.id) :
    ((∀ id, id ∈ supersededJobIDsTx p req.run.id db ↔
        id ∈ supersededJobIDsLocked p req.run.id m.toTables) ∧
      (∀ db', Storage.insertCompiledRun c req db = .ok db' → db'.Superseded p req.run.id) ∧
      ∀ u m', insertCompiledRun now req m = .ok u m' → m'.toTables.Superseded p req.run.id) ↔
    db.IdentitiesAgree p req.run.id := by
  have same : supersededJobIDsLocked p req.run.id m.toTables =
      supersededJobIDsLocked p req.run.id (records db) := by
    unfold supersededJobIDsLocked
    rw [runs, jobs]
  rw [same]
  constructor
  · rintro ⟨selected, _⟩
    exact selection_agrees_iff.mp selected
  · intro agree
    refine ⟨selection_agrees_iff.mpr agree, fun db' ran => ?_, fun u m' ran => ?_⟩
    · exact Storage.insertCompiledRun_superseded coherent asked own agree ran
    · exact insertCompiledRun_superseded asked own ran

namespace Fork

/-- A run of the pull request, in the group `g`, its policy repository apart from
the one it is checked out from. -/
def newRun (id : RunID) (repoID policyRepoID : String) : Run :=
  { id, repoID, policyRepoID, status := .running, concurrencyGroup := "g" }

def oldID : RunID := "000000000000000000000000000000aa"

def newID : RunID := "000000000000000000000000000000bb"

def job : Job :=
  { id := "0000000000000000000000000000000a", runID := oldID, key := "build", status := .queued }

/-- One run with a queued job. -/
def store (repoID policyRepoID : String) : DB where
  runs := Table.empty.put oldID
    { status := .running, payload := newRun oldID repoID policyRepoID }
  jobs := Table.empty.put job.id (.write job)

/-- The next run of the pull request. -/
def request (repoID policyRepoID : String) : InsertCompiledRunRequest :=
  { run := newRun newID repoID policyRepoID
    supersede := some
      { repoID := repoIDForRun (newRun newID repoID policyRepoID), concurrencyGroup := "g" } }

/-- The status of the job after the enqueue in PostgreSQL. -/
def statusAfter (repoID policyRepoID : String) : Option Status :=
  (commit (Storage.insertCompiledRun {} (request repoID policyRepoID) (store repoID policyRepoID))
    (store repoID policyRepoID)).statusOf job.id

end Fork

open Fork in
/-- A pull request from a fork: the in-memory store cancels the job of the earlier
run, PostgreSQL matches the fork's own repository and leaves it queued. -/
theorem fork_run_is_not_superseded :
    (Storage.insertCompiledRun {} (request "x.io/fork/r" "x.io/base/r")
        (store "x.io/fork/r" "x.io/base/r")).isOk = true ∧
      supersededJobIDsTx { repoID := "x.io/base/r", concurrencyGroup := "g" } newID
        (store "x.io/fork/r" "x.io/base/r") = [] ∧
      supersededJobIDsLocked { repoID := "x.io/base/r", concurrencyGroup := "g" } newID
        (records (store "x.io/fork/r" "x.io/base/r")) = [job.id] ∧
      statusAfter "x.io/fork/r" "x.io/base/r" = some .queued := by
  decide +kernel

open Fork in
/-- Within one repository both stores cancel it. -/
theorem own_run_is_superseded :
    job.id ∈ supersededJobIDsTx { repoID := "x.io/base/r", concurrencyGroup := "g" } newID
      (store "x.io/base/r" "") ∧ statusAfter "x.io/base/r" "" = some .cancelled := by
  have coherent : (store "x.io/base/r" "").Coherent := by
    intro id row found
    rw [store, get?_put] at found
    split at found
    · cases found
      exact fun _ _ => rfl
    · cases found
  have both : IdentityAgrees { repoID := "x.io/base/r", concurrencyGroup := "g" }
      (newRun oldID "x.io/base/r" "") := by
    unfold IdentityAgrees
    decide +kernel
  have agree : (store "x.io/base/r" "").IdentitiesAgree
      { repoID := "x.io/base/r", concurrencyGroup := "g" } newID := by
    intro _ runID run id row found _ _ _ _
    rw [store, get?_put] at found
    split at found
    · cases found
      exact both
    · cases found
  have same := ((supersession_agrees_iff {} 0 (request "x.io/base/r" "")
    { repoID := "x.io/base/r", concurrencyGroup := "g" } (store "x.io/base/r" "")
    { toTables := records (store "x.io/base/r" "") } coherent rfl rfl (by decide +kernel)
    (by simp [request])).mpr agree).1 job.id
  exact ⟨same.mpr (by decide +kernel), by decide +kernel⟩

end KiwiCI.Memory
