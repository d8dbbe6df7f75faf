import KiwiCI.Storage.Fragments
import KiwiCI.Storage.Propagation

/-!
Conservation of the quota counters.

Every repository and team has a row that counts its queued and its running jobs.
The counters are moved by hand: an enqueue reserves a queued slot per job, a
claim turns one into a running slot, and a job that leaves gives its slot back.
`Balanced` says that they agree with the job rows; each move is checked against
the row it accompanies (`Balanced.ends`, `Balanced.claim`, `Balanced.enqueue`).

Two writers of job rows move no counter: the re-evaluation of dependents, and
the insertion of a generated fragment.  `Quiet` is the condition under which the
first changes no status.
-/

namespace KiwiCI.Storage

variable {quota quota' : Table String QuotaRow} {q : QuotaReservation} {row row' : JobRow}

open Table DB Bool

/-! ## The counter updates -/

/-- The counters under `key`. -/
def counters (quota : Table String QuotaRow) (key : String) : QuotaRow := (quota.get? key).getD {}

theorem get?_adjustQuota {keys : List String} (nodup : keys.Nodup) (dr dq : Int)
    (quota : Table String QuotaRow) (key : String) :
    (keys.foldl (adjustQuotaKey dr dq) quota).get? key =
      if key ∈ keys then (quota.get? key).map fun q =>
        { running := max (q.running + dr) 0, queued := max (q.queued + dq) 0 }
      else quota.get? key := by
  induction keys generalizing quota with
  | nil => simp
  | cons head rest ih =>
    obtain ⟨fresh, nodup⟩ := List.nodup_cons.mp nodup
    rw [List.foldl_cons, ih nodup, adjustQuotaKey, get?_modify]
    by_cases same : key = head
    · subst same
      simp [fresh]
    · simp [same]

/-- What the counters of an existing row become; one that is missing counts
nothing and stays missing. -/
theorem counters_adjustQuota {keys : List String} (nodup : keys.Nodup) (dr dq : Int)
    (quota : Table String QuotaRow)
    (present : key ∈ keys → 0 < (counters quota key).running ∨ 0 < (counters quota key).queued) :
    counters (keys.foldl (adjustQuotaKey dr dq) quota) key =
      if key ∈ keys then
        { running := max ((counters quota key).running + dr) 0
          queued := max ((counters quota key).queued + dq) 0 }
      else counters quota key := by
  unfold counters at present ⊢
  rw [get?_adjustQuota nodup]
  by_cases member : key ∈ keys
  · have counted := present member
    cases found : quota.get? key with
    | none => simp [found] at counted
    | some q => simp [member]
  · simp [member]

theorem counters_foldlM {f : Table String QuotaRow → String → Except StoreError (Table String QuotaRow)}
    {g : QuotaRow → QuotaRow} (each : ∀ quota key quota', f quota key = .ok quota' →
      quota' = quota.put key (g (counters quota key))) {keys : List String} (nodup : keys.Nodup)
    (ran : keys.foldlM f quota = .ok quota') (key : String) :
    counters quota' key = if key ∈ keys then g (counters quota key) else counters quota key := by
  induction ran using foldlM_ok_induction with
  | nil => simp
  | cons head rest quota mid first tail ih =>
    obtain ⟨fresh, nodup⟩ := List.nodup_cons.mp nodup
    have later := ih nodup
    rw [each quota head mid first] at later
    rw [later]
    by_cases same : key = head
    · subst same
      simp [fresh, counters]
    · simp [same, counters, get?_put_ne]

theorem claimQuota_counters {repoID : String} {repoLimit : Int}
    (ran : claimQuota repoID repoLimit teamLimit quota = .ok quota') (key : String) :
    counters quota' key = if key ∈ quotaKeys repoID then
        { running := (counters quota key).running + 1
          queued := max ((counters quota key).queued - 1) 0 }
      else counters quota key := by
  have each : ∀ reason scope limit quota key quota',
      claimQuotaKey reason scope limit quota key = .ok quota' →
      quota' = quota.put key
        { running := (counters quota key).running + 1
          queued := max ((counters quota key).queued - 1) 0 } := by
    intro reason scope limit quota key quota' one
    simp only [claimQuotaKey, bind_ok_iff, pure_ok_iff] at one
    obtain ⟨_, -, rfl⟩ := one
    rfl
  have nodup := quotaKeys_nodup repoID
  unfold claimQuota at ran
  cases keys : quotaKeys repoID with
  | nil =>
    rw [keys, pure_ok_iff] at ran
    simp [ran]
  | cons repo teams =>
    rw [keys] at ran nodup
    obtain ⟨mid, first, tail⟩ := bind_ok_iff.mp ran
    obtain ⟨fresh, nodup⟩ := List.nodup_cons.mp nodup
    have later := counters_foldlM (g := fun row =>
      { running := row.running + 1, queued := max (row.queued - 1) 0 })
      (each "TEAM_QUOTA" "team" teamLimit) nodup tail key
    rw [each _ _ _ _ _ _ first] at later
    rw [later]
    by_cases same : key = repo
    · subst same
      simp [fresh, counters]
    · simp [same, counters, get?_put_ne]

theorem reserveQuota_counters
    (ran : q.keys.foldlM (reserveQuotaKey q) quota = .ok quota') (key : String) :
    counters quota' key = if key ∈ q.keys then
        { counters quota key with queued := (counters quota key).queued + max q.jobCount 0 }
      else counters quota key := by
  have nodup : q.keys.Nodup := by
    unfold QuotaReservation.keys
    split <;> rename_i both
    · simp only [and_eq_true, decide_eq_true_eq] at both
      simpa using both.2.symm
    · simp
  refine counters_foldlM (g := fun row => { row with queued := row.queued + max q.jobCount 0 })
    (fun quota key quota' one => ?_) nodup ran key
  simp only [reserveQuotaKey] at one
  split at one <;> simp only [bind_ok_iff, pure_ok_iff] at one <;> obtain ⟨_, -, rfl⟩ := one <;> rfl

/-! ## Counters and rows -/

/-- The job is one of the repository or team `key`. -/
def JobRow.chargedTo (key : String) (row : JobRow) : Bool :=
  key ∈ quotaKeys (repoIDForJob row.payload.job)

/-- How many of its jobs, among those `p` admits, have a status `q` admits. -/
def DB.jobsOf (db : DB) (p : JobID → Bool) (q : Status → Bool) (key : String) : Nat :=
  db.jobs.count fun id row => p id && (q row.status && row.chargedTo key)

/-- The counters agree with the rows `p` admits. -/
def Balanced (p : JobID → Bool) (db : DB) : Prop :=
  ∀ key, (counters db.quota key).queued = db.jobsOf p Status.waiting key ∧
    (counters db.quota key).running = db.jobsOf p Status.isRunning key

/-- A row as enqueueing, claims and endings leave it. -/
structure JobRow.Accounted (row : JobRow) : Prop where
  decodes : row.payload.decodes = true
  synced : row.Synced
  entered : row.status ≠ .pending

/-- Every row is accounted. -/
def DB.Accounted (db : DB) : Prop := ∀ id row, db.jobs.get? id = some row → row.Accounted

theorem JobRow.chargedTo_congr (key : String)
    (spec : row'.payload.job.spec = row.payload.job.spec) :
    row'.chargedTo key = row.chargedTo key := by
  rw [JobRow.chargedTo, JobRow.chargedTo, repoIDForJob_congr spec]

/-- Rewriting one row moves the number of jobs by that row. -/
theorem DB.jobsOf_put {db db' : DB} {id : JobID}
    (found : db.jobs.get? id = some row) (jobs : db'.jobs = db.jobs.put id row')
    (spec : row'.payload.job.spec = row.payload.job.spec) (p : JobID → Bool) (q : Status → Bool)
    (key : String) :
    db'.jobsOf p q key + (if p id && (q row.status && row.chargedTo key) then 1 else 0) =
      db.jobsOf p q key + if p id && (q row'.status && row.chargedTo key) then 1 else 0 := by
  rw [jobsOf, jobsOf, jobs, ← JobRow.chargedTo_congr key spec]
  have moved := count_put_of_get? (p := fun id row => p id && (q row.status && row.chargedTo key))
    found row'
  rw [JobRow.chargedTo_congr key spec] at moved ⊢
  exact moved

theorem DB.jobsOf_pos {db : DB} {id : JobID} (found : db.jobs.get? id = some row)
    (admitted : p id = true) {q : Status → Bool} (held : q row.status = true)
    (charged : row.chargedTo key = true) : 0 < db.jobsOf p q key :=
  count_pos found (by simp [admitted, held, charged])

/-- What the number of jobs reads of a row. -/
def JobRow.seen (row : JobRow) : Status × Job := (row.status, row.payload.job.spec)

/-- The number of jobs only reads the statuses and repositories of the rows it
admits. -/
theorem DB.jobsOf_congr {db db' : DB} {p : JobID → Bool}
    (same : ∀ id, (db'.jobs.get? id).map (fun row => if p id then some row.seen else none) =
      (db.jobs.get? id).map fun row => if p id then some row.seen else none)
    (q : Status → Bool) (key : String) : db'.jobsOf p q key = db.jobsOf p q key := by
  have read : ∀ db : DB, db.jobsOf p q key = db.jobs.sum fun id row =>
      if (if p id then some row.seen else none).any
        (fun seen => q seen.1 && decide (key ∈ quotaKeys (repoIDForJob seen.2))) then 1 else 0 := by
    intro db
    rw [jobsOf, count]
    apply sum_congr
    intro id row _
    cases p id with
    | false => rfl
    | true =>
      rw [JobRow.chargedTo,
        repoIDForJob_congr (j := row.payload.job) (k := row.payload.job.spec) rfl]
      rfl
  rw [read, read]
  exact sum_ext_map (g := fun id (row : JobRow) => if p id then some row.seen else none)
    (f := fun _ (seen : Option (Status × Job)) => if seen.any
      (fun seen => q seen.1 && decide (key ∈ quotaKeys (repoIDForJob seen.2))) then 1 else 0) same

section Ends

variable {p : JobID → Bool} {db db' : DB}

theorem JobRow.Accounted.ended (accounted : row.Accounted)
    (ended : row.Ended row' outcome) : row'.Accounted := by
  refine ⟨ended.evolves.decodes.trans accounted.decodes, ended.synced accounted.decodes, ?_⟩
  rw [ended.status]
  rcases ended.isOver with isOver | ⟨rfl, _⟩
  · rintro rfl
    cases isOver
  · decide

/-- The deltas of a job that leaves are what its row shows. -/
theorem deltas_of_statuses (unsettled : old.terminal = false) (entered : old ≠ .pending)
    (isOver : new.terminal = true ∨ (new = .queued ∧ old = .running)) :
    queuedDelta old new =
        ((if new.waiting then 1 else 0 : Nat) : Int) - (if old.waiting then 1 else 0 : Nat) ∧
      runningDelta old =
        ((if new.isRunning then 1 else 0 : Nat) : Int) - (if old.isRunning then 1 else 0 : Nat) ∧
      (old.isRunning = true ∨ old.waiting = true) := by
  revert unsettled entered isOver
  cases old <;> cases new <;> decide

theorem Balanced.ends (balanced : Balanced p db) {id : JobID} {outcome : Status}
    (ends : Ends id outcome row row' db db') (accounted : row.Accounted) (counted : p id = true) :
    Balanced p db' := by
  intro key
  obtain ⟨queued, running⟩ := balanced key
  obtain ⟨repoID, identity, quota⟩ := ends.quota
  rw [identity accounted.decodes] at quota
  have spec := ends.ended.evolves.spec
  have queuedMoved := jobsOf_put ends.found ends.jobs spec p Status.waiting key
  have runningMoved := jobsOf_put ends.found ends.jobs spec p Status.isRunning key
  obtain ⟨dq, dr, live⟩ := deltas_of_statuses ends.ended.unsettled accounted.entered ends.ended.isOver
  rw [counted, ends.ended.status, Bool.true_and, Bool.true_and] at queuedMoved runningMoved
  have present : key ∈ quotaKeys (repoIDForJob row.payload.job) →
      0 < (counters db.quota key).running ∨ 0 < (counters db.quota key).queued := by
    intro member
    have charged : row.chargedTo key = true := decide_eq_true member
    rcases live with isRunning | waiting
    · have slot := jobsOf_pos ends.found counted (q := Status.isRunning) isRunning charged
      omega
    · have slot := jobsOf_pos ends.found counted (q := Status.waiting) waiting charged
      omega
  rw [quota, counters_adjustQuota (quotaKeys_nodup _) _ _ _ present, dq, dr]
  by_cases member : key ∈ quotaKeys (repoIDForJob row.payload.job)
  · have charged : row.chargedTo key = true := decide_eq_true member
    rw [charged, Bool.and_true, Bool.and_true] at queuedMoved runningMoved
    rw [if_pos member]
    constructor <;> dsimp only <;> omega
  · have free : row.chargedTo key = false := decide_eq_false member
    rw [free, Bool.and_false, Bool.and_false] at queuedMoved runningMoved
    rw [if_neg member]
    omega

theorem Balanced.endsAll (all : EndsAll ended db db')
    (balanced : Balanced p db) (accounted : db.Accounted)
    (counted : ∀ entry ∈ ended, p entry.1 = true) : Balanced p db' ∧ db'.Accounted := by
  induction all with
  | @nil db db' follows =>
    constructor
    · intro key
      rw [follows.quota, jobsOf, jobsOf, follows.jobs]
      exact balanced key
    · intro id row found
      rw [follows.jobs] at found
      exact accounted id row found
  | @cons id outcome rest row row' db mid db' ends tail ih =>
    have here := accounted id row ends.found
    apply ih
    · exact balanced.ends ends here (counted (id, outcome) (by simp))
    · intro other late found
      rw [ends.get?] at found
      split at found
      · cases found
        exact here.ended ends.ended
      · exact accounted other late found
    · intro entry member
      exact counted entry (List.mem_cons_of_mem _ member)

end Ends

/-! ## Quiet re-evaluations -/

/-- The re-evaluation moves no status: where the needs of a dependent settle,
its condition allows their outcome and no claim has started it. -/
def DB.Quiet (db : DB) (ended : List (JobID × Status)) (reevaluated : List JobID) : Prop :=
  ∀ id ∈ reevaluated.flatMap db.dependentsOf, ∀ row ∈ db.jobs.get? id,
    (row.payloadAfter ended id).waiting = true →
      (dependencyOutcome (db.statusAfter ended) row.payload.job.needs).all (fun outcome =>
        dependencyConditionAllows row.payload.job outcome &&
          decide ((ended.lookup id).getD row.status ≠ .running)) = true

instance (db : DB) (ended : List (JobID × Status)) (reevaluated : List JobID) :
    Decidable (db.Quiet ended reevaluated) :=
  inferInstanceAs (Decidable (∀ id ∈ reevaluated.flatMap db.dependentsOf, _))

section Settle

variable {p : JobID → Bool} {now : Time} {ended : List (JobID × Status)} {reevaluated : List JobID}
  {db left resolved db' : DB}

theorem DB.Quiet.calm (quiet : db.Quiet ended reevaluated) (accounted : db.Accounted)
    (all : EndsAll ended db left) (nodup : (ended.map Prod.fst).Nodup) {id : JobID}
    (member : id ∈ reevaluated.flatMap db.dependentsOf) (found : left.jobs.get? id = some row')
    (waiting : row'.payload.job.status.waiting = true)
    (settled : dependencyOutcome left.statusOf row'.payload.job.needs = some outcome) :
    dependencyConditionAllows row'.payload.job outcome = true ∧ row'.status ≠ .running := by
  have decodes : ∀ id row, db.jobs.get? id = some row → row.payload.decodes = true :=
    fun id row found => (accounted id row found).decodes
  obtain ⟨row, there, leftRow, _⟩ := all.leftRow nodup decodes found
  rw [leftRow.copy] at waiting
  rw [all.statusOf nodup decodes, (Job.fields_of_spec leftRow.spec).1] at settled
  have calm := quiet id member row there waiting
  rw [settled, Option.all_some, and_eq_true, decide_eq_true_eq] at calm
  rw [dependencyConditionAllows_congr leftRow.spec, leftRow.status]
  exact calm

theorem JobRow.Accounted.reevaluate (accounted : row.Accounted) (now : Time)
    {statusOf : JobID → Option Status} (same : (row.resolved now statusOf).status = row.status) :
    (row.resolved now statusOf).Accounted :=
  ⟨JobRow.resolved_decodes now accounted.decodes, JobRow.synced_resolved now accounted.synced,
    same ▸ accounted.entered⟩

/-- A quiet re-evaluation changes nothing that is counted. -/
theorem recomputes_quiet (accounted : db.Accounted) (all : EndsAll ended db left)
    (leftAccounted : left.Accounted) (nodup : (ended.map Prod.fst).Nodup)
    (quiet : db.Quiet ended reevaluated)
    (recomputed : reevaluated.foldlM (fun db id => recomputeDependentsTx now id db) left =
      .ok resolved) :
    resolved.quota = left.quota ∧ resolved.Accounted ∧
      ∀ id, (resolved.jobs.get? id).map JobRow.seen = (left.jobs.get? id).map JobRow.seen := by
  have flat := all.flat recomputed
  have synced : ∀ id row', left.jobs.get? id = some row' → row'.Synced :=
    fun id row' found => (leftAccounted id row' found).synced
  have calm : ∀ id ∈ reevaluated.flatMap db.dependentsOf, ∀ row', left.jobs.get? id = some row' →
      row'.payload.job.status.waiting = true → ∀ outcome,
      dependencyOutcome left.statusOf row'.payload.job.needs = some outcome →
        dependencyConditionAllows row'.payload.job outcome = true ∧ row'.status ≠ .running := by
    intro id member row' found waiting outcome settled
    exact quiet.calm accounted all nodup member found waiting settled
  have isolated : left.Isolated (reevaluated.flatMap db.dependentsOf) := by
    intro id member row' found rejected
    obtain ⟨waiting, outcome, settled, rejects⟩ := rejected
    rw [(calm id member row' found waiting outcome settled).1] at rejects
    cases rejects
  have resolving := recomputes_resolve synced isolated flat
  have stays : ∀ id ∈ reevaluated.flatMap db.dependentsOf, ∀ row', left.jobs.get? id = some row' →
      (row'.resolved now left.statusOf).status = row'.status := by
    intro id member row' found
    exact JobRow.resolved_status now (synced id row' found) (calm id member row' found)
  refine ⟨by rw [recomputes_only flat], ?_, fun id => ?_⟩
  · intro id row'' found
    rw [resolving id] at found
    split at found <;> rename_i member
    · obtain ⟨row', there, rfl⟩ := Option.map_eq_some_iff.mp found
      exact (leftAccounted id row' there).reevaluate now (stays id member row' there)
    · exact leftAccounted id row'' found
  · rw [resolving id]
    split <;> rename_i member
    · cases found : left.jobs.get? id with
      | none => rfl
      | some row' =>
        simp [JobRow.seen, stays id member row' found, JobRow.resolved_spec now row']
    · rfl

/-- The end of jobs whose dependents stay quiet keeps the balance, and the jobs
it does not end keep what is counted of them. -/
theorem Balanced.settle (balanced : Balanced p db) (accounted : db.Accounted)
    (nodup : (ended.map Prod.fst).Nodup) (counted : ∀ entry ∈ ended, p entry.1 = true)
    (quiet : db.Quiet ended reevaluated) (settlement : Settlement now ended reevaluated db db') :
    Balanced p db' ∧ db'.Accounted ∧
      ∀ q key, db'.jobsOf (fun id => !p id) q key = db.jobsOf (fun id => !p id) q key := by
  obtain ⟨left, resolved, all, recomputed, follows⟩ := settlement
  obtain ⟨leftBalanced, leftAccounted⟩ := Balanced.endsAll all balanced accounted counted
  obtain ⟨quota, resolvedAccounted, seen⟩ :=
    recomputes_quiet accounted all leftAccounted nodup quiet recomputed
  have jobs : db'.jobs = resolved.jobs := follows.jobs
  have same : ∀ (r : JobID → Bool) q key, db'.jobsOf r q key = left.jobsOf r q key := by
    intro r q key
    apply jobsOf_congr
    intro id
    have shown := seen id
    rw [jobs]
    cases before : left.jobs.get? id <;> cases after : resolved.jobs.get? id <;> simp_all
  refine ⟨fun key => ?_, fun id row found => ?_, fun q key => ?_⟩
  · rw [follows.quota, quota, same, same]
    exact leftBalanced key
  · rw [jobs] at found
    exact resolvedAccounted id row found
  · rw [same]
    apply jobsOf_congr
    intro id
    have moved := all.get? nodup id
    cases listed : ended.lookup id with
    | none =>
      rw [listed] at moved
      rw [show left.jobs.get? id = db.jobs.get? id from moved]
    | some outcome =>
      rw [listed] at moved
      obtain ⟨row, row', there, held, _⟩ := moved
      have member : (id, outcome) ∈ ended := by
        obtain ⟨l₁, l₂, shape, _⟩ := List.lookup_eq_some_iff.mp listed
        simp [shape]
      simp [there, held, counted (id, outcome) member]

end Settle

/-! ## Claims -/

section Claim

variable {p : JobID → Bool} {db db' : DB}

theorem Balanced.claim (balanced : Balanced p db) {c : Call} {claim : LeaseClaim} {r : RunnerRow}
    (committed : ClaimCommitted c claim r effective row db db')
    (counted : p claim.jobID = true) : Balanced p db' := by
  intro key
  obtain ⟨queued, running⟩ := balanced key
  have queuedMoved := jobsOf_put committed.found committed.jobs rfl p Status.waiting key
  have runningMoved := jobsOf_put committed.found committed.jobs rfl p Status.isRunning key
  have started : ∀ interpreter, (row.claim c.now claim interpreter).status = .running :=
    fun _ => rfl
  rw [counted, Bool.true_and, Bool.true_and, started, committed.queued] at queuedMoved runningMoved
  rw [claimQuota_counters committed.quota]
  by_cases member : key ∈ quotaKeys (repoIDForJob row.payload.job)
  · have charged : row.chargedTo key = true := decide_eq_true member
    have slot := jobsOf_pos committed.found counted (q := Status.waiting)
      (by rw [committed.queued]; rfl) charged
    simp [charged, Status.waiting, Status.isRunning] at queuedMoved runningMoved
    rw [if_pos member]
    constructor <;> dsimp only <;> omega
  · have free : row.chargedTo key = false := decide_eq_false member
    simp [free] at queuedMoved runningMoved
    rw [if_neg member]
    omega

theorem DB.Accounted.claim (accounted : db.Accounted) {claim : LeaseClaim}
    (committed : ClaimCommitted c claim r effective row db db') :
    db'.Accounted := by
  have here := accounted claim.jobID row committed.found
  intro id late found
  rw [committed.jobs, get?_put] at found
  split at found
  · cases found
    refine ⟨here.decodes, here.synced.claim committed.queued _ _ _, ?_⟩
    intro pending
    cases pending
  · exact accounted id late found

end Claim

/-! ## Enqueues -/

/-- Both ends of every edge are there and belong to one run. -/
def DB.RunEdges (db : DB) : Prop :=
  ∀ edge ∈ db.dependencies, ∃ row row', db.jobs.get? edge.1 = some row ∧
    db.jobs.get? edge.2 = some row' ∧ row.runID = row'.runID

/-- What every call below keeps. -/
structure DB.Charged (db : DB) : Prop where
  balanced : Balanced (fun _ => true) db
  accounted : db.Accounted
  runEdges : db.RunEdges

/-- An edge stays within a run where the rows stay in theirs. -/
theorem DB.RunEdges.kept {db db' : DB} (runEdges : db.RunEdges)
    (kept : ∀ id row, db.jobs.get? id = some row →
      ∃ row', db'.jobs.get? id = some row' ∧ row'.runID = row.runID) :
    ∀ edge ∈ db.dependencies, ∃ row row', db'.jobs.get? edge.1 = some row ∧
      db'.jobs.get? edge.2 = some row' ∧ row.runID = row'.runID := by
  intro edge member
  obtain ⟨row, other, found, there, same⟩ := runEdges edge member
  obtain ⟨row', found', run⟩ := kept _ row found
  obtain ⟨other', there', runOther⟩ := kept _ other there
  exact ⟨row', other', found', there', by rw [run, runOther, same]⟩

theorem DB.RunEdges.evolve {db : DB} (runEdges : db.RunEdges)
    (edges : db'.dependencies = db.dependencies) (evolves : db.Evolves db') : db'.RunEdges := by
  rw [DB.RunEdges, edges]
  refine runEdges.kept fun id row found => ?_
  obtain ⟨row', found', moved⟩ := evolves.rows id row found
  exact ⟨row', found', moved.runID⟩

def needsAmong (items : List Job) (j : Job) : Bool :=
  j.needs.all fun need => items.any fun other => other.id = need && other.runID = j.runID

theorem needsAmong_iff : needsAmong items j = true ↔
    ∀ need ∈ j.needs, ∃ other ∈ items, other.id = need ∧ other.runID = j.runID := by
  simp [needsAmong]

/-- The request charges what it inserts: one queued slot per job, under the keys
its jobs are charged to.  The jobs belong to the run, wait, and need each other
only. -/
def InsertCompiledRunRequest.charges (req : InsertCompiledRunRequest) : Bool :=
  req.cancelPrevious.isEmpty && req.quota.any fun q =>
    decide (q.jobCount = (req.items.length : Int)) && req.items.all fun j =>
      decide (j.runID = req.run.id) && j.status.waiting &&
        decide (quotaKeys (repoIDForJob j) = q.keys) && needsAmong req.items j

/-- The same, read. -/
structure InsertCompiledRunRequest.Charges (req : InsertCompiledRunRequest)
    (q : QuotaReservation) : Prop where
  quota : req.quota = some q
  jobCount : q.jobCount = req.items.length
  cancelPrevious : req.cancelPrevious = []
  own : ∀ j ∈ req.items, j.runID = req.run.id
  waiting : ∀ j ∈ req.items, j.status.waiting = true
  keys : ∀ j ∈ req.items, quotaKeys (repoIDForJob j) = q.keys
  needs : ∀ j ∈ req.items, needsAmong req.items j = true

theorem InsertCompiledRunRequest.charges_iff {req : InsertCompiledRunRequest} :
    req.charges = true ↔ ∃ q, req.Charges q := by
  constructor
  · intro charges
    simp only [InsertCompiledRunRequest.charges, and_eq_true, List.isEmpty_iff,
      Option.any_eq_true, List.all_eq_true, decide_eq_true_eq] at charges
    obtain ⟨cancelPrevious, q, quota, jobCount, items⟩ := charges
    exact ⟨q, quota, jobCount, cancelPrevious, fun j member => (items j member).1.1.1,
      fun j member => (items j member).1.1.2, fun j member => (items j member).1.2,
      fun j member => (items j member).2⟩
  · rintro ⟨q, charges⟩
    simp only [InsertCompiledRunRequest.charges, and_eq_true, List.isEmpty_iff,
      Option.any_eq_true, List.all_eq_true, decide_eq_true_eq]
    exact ⟨charges.cancelPrevious, q, charges.quota, charges.jobCount, fun j member =>
      ⟨⟨⟨charges.own j member, charges.waiting j member⟩, charges.keys j member⟩,
        charges.needs j member⟩⟩

section Enqueue

variable {req : InsertCompiledRunRequest}

variable {p : JobID → Bool} {db db' : DB}

/-- Runs are superseded whole, so no dependent of a superseded job is left to
re-evaluate. -/
theorem DB.RunEdges.quiet_superseded (runEdges : db.RunEdges) (accounted : db.Accounted)
    (listed : ∀ id, id ∈ ended ↔ id ∈ supersededJobIDsTx policy newRunID db) :
    db.Quiet (ended.map (·, .cancelled)) ended := by
  intro id reached row found waiting
  obtain ⟨first, endedFirst, edge⟩ := List.mem_flatMap.mp reached
  rw [Option.mem_def] at found
  rw [JobRow.payloadAfter, lookup_map_pair] at waiting
  by_cases endedToo : id ∈ ended
  · rw [if_pos endedToo] at waiting
    cases waiting
  · rw [if_neg endedToo, Option.getD_none] at waiting
    have unsettled := (accounted id row found).synced.unsettled waiting
    obtain ⟨row', other, found', there, same⟩ := runEdges _ (mem_dependentsOf.mp edge)
    cases found.symm.trans found'
    obtain ⟨asked, otherRow, there', _, run⟩ :=
      mem_supersededJobIDsTx.mp ((listed first).mp endedFirst)
    cases there.symm.trans there'
    refine absurd ((listed id).mpr (mem_supersededJobIDsTx.mpr ?_)) endedToo
    exact ⟨asked, row, found, unsettled, same ▸ run⟩

/-- Superseding gives back the slots of the superseded jobs. -/
theorem Balanced.supersede (balanced : Balanced p db) (accounted : db.Accounted)
    (runEdges : db.RunEdges) {now : Time} {policy : SupersedePolicy}
    (counted : ∀ id row, db.jobs.get? id = some row → row.runID ≠ newRunID → p id = true)
    (ran : cancelSupersededTx now (supersededJobIDsTx policy newRunID db) newRunID db = .ok db') :
    (Balanced p db' ∧ db'.Accounted ∧
      ∀ q key, db'.jobsOf (fun id => !p id) q key = db.jobsOf (fun id => !p id) q key) ∧
      db'.RunEdges := by
  obtain ⟨ended, left, resolved, loop, recomputed, follows⟩ := cancelSupersededTx_inv ran
  have settlement : Settlement now (ended.map (·, .cancelled)) ended db db' :=
    ⟨left, resolved, loop.endsAll, recomputed, follows⟩
  have listed : ∀ id, id ∈ ended ↔ id ∈ supersededJobIDsTx policy newRunID db := by
    intro id
    rw [loop.mem_iff]
    refine and_iff_left_of_imp fun member => ?_
    obtain ⟨_, row, found, unsettled, _⟩ := mem_supersededJobIDsTx.mp member
    exact ⟨row, found, unsettled⟩
  refine ⟨balanced.settle accounted ?_ ?_ (runEdges.quiet_superseded accounted listed) settlement,
    runEdges.evolve settlement.config.dependencies settlement.evolvesRows⟩
  · rw [List.map_map]
    exact (List.map_id ended).symm ▸ loop.nodup
  · intro entry member
    obtain ⟨id, inside, rfl⟩ := List.mem_map.mp member
    obtain ⟨_, row, found, _, run⟩ := mem_supersededJobIDsTx.mp ((listed id).mp inside)
    obtain ⟨_, _, other, _⟩ := mem_supersededRuns.mp run
    exact counted id row found other

/-- The same for the whole stage, which no job is named to. -/
theorem Balanced.supersedePrevious (balanced : Balanced p db) (accounted : db.Accounted)
    (runEdges : db.RunEdges)
    (counted : ∀ id row, db.jobs.get? id = some row → row.runID ≠ req.run.id → p id = true)
    (unnamed : req.cancelPrevious = []) (ran : Storage.supersedePrevious c req db = .ok db') :
    (Balanced p db' ∧ db'.Accounted ∧
      ∀ q key, db'.jobsOf (fun id => !p id) q key = db.jobsOf (fun id => !p id) q key) ∧
      db'.RunEdges := by
  simp only [Storage.supersedePrevious, bind_ok_iff, unnamed] at ran
  obtain ⟨mid, byPolicy, last⟩ := ran
  have same : mid = db' := Except.ok.inj last
  subst same
  cases asked : req.supersede with
  | none =>
    rw [asked] at byPolicy
    cases Except.ok.inj byPolicy
    exact ⟨⟨balanced, accounted, fun _ _ => rfl⟩, runEdges⟩
  | some policy =>
    rw [asked] at byPolicy
    exact balanced.supersede accounted runEdges counted byPolicy

/-- Not a job of the request. -/
def outside (items : List Job) (id : JobID) : Bool := items.all fun j => decide (j.id ≠ id)

theorem jobsOf_split (db : DB) (p : JobID → Bool) (q : Status → Bool) (key : String) :
    db.jobsOf (fun _ => true) q key = db.jobsOf p q key + db.jobsOf (fun id => !p id) q key := by
  rw [jobsOf, count_split fun id _ => p id]
  rfl

variable {items : List Job}

theorem Inserts.outside_of_get? (inserts : Inserts items db db') {id : JobID}
    (found : db.jobs.get? id = some row) : outside items id = true := by
  refine List.all_eq_true.mpr fun j member => decide_eq_true ?_
  rintro rfl
  rw [inserts.fresh j member] at found
  cases found

/-- The rows that were there are all that is counted until the reservation. -/
theorem Balanced.inserts (balanced : Balanced (fun _ => true) db) (inserts : Inserts items db db')
    (quota : db'.quota = db.quota) : Balanced (outside items) db' := by
  have same : ∀ q key, db'.jobsOf (outside items) q key = db.jobsOf (fun _ => true) q key := by
    intro q key
    rw [jobsOf, inserts.count _ fun _ _ => rfl]
    have none : (items.countP fun j => outside items j.id &&
        (q (JobRow.write j).status && (JobRow.write j).chargedTo key)) = 0 := by
      rw [List.countP_eq_zero]
      intro j member admitted
      rw [and_eq_true, outside, List.all_eq_true] at admitted
      exact of_decide_eq_true (admitted.1 j member) rfl
    rw [none, Nat.add_zero]
    apply count_congr
    intro id row found
    rw [inserts.outside_of_get? found]
  intro key
  rw [quota, same, same]
  exact balanced key

theorem Inserts.jobsOf_new (inserts : Inserts items db db') (q : Status → Bool) (key : String) :
    db'.jobsOf (fun id => !outside items id) q key =
      items.countP fun j => q j.status && decide (key ∈ quotaKeys (repoIDForJob j)) := by
  rw [jobsOf, inserts.count _ fun _ _ => rfl]
  have old : (db.jobs.count fun id row =>
      !outside items id && (q row.status && row.chargedTo key)) = 0 := by
    apply count_eq_zero
    intro id row found
    rw [inserts.outside_of_get? found]
    rfl
  rw [old, Nat.zero_add]
  apply List.countP_congr
  intro j member
  have inside : outside items j.id = false := by
    rw [outside, List.all_eq_false]
    exact ⟨j, member, by simp⟩
  rw [inside]
  rfl

theorem DB.Accounted.inserts (accounted : db.Accounted) (inserts : Inserts items db db')
    (waiting : ∀ j ∈ items, j.status.waiting = true) : db'.Accounted := by
  intro id row' found
  rcases inserts.only id row' found with ⟨row, held, plain⟩ | ⟨j, member, _, plain⟩
  · have before := accounted id row held
    obtain ⟨_, status, job, decodes⟩ := JobRow.plain_eq plain
    refine ⟨decodes.trans before.decodes, ?_, status ▸ before.entered⟩
    rw [JobRow.Synced, status, job]
    exact before.synced
  · obtain ⟨_, status, job, decodes⟩ := JobRow.plain_write plain
    have live : j.status.waiting = true := waiting j member
    refine ⟨decodes, ?_, ?_⟩
    · rw [JobRow.Synced, status, job]
      exact (if_neg (Status.waiting_not_running live)).symm
    · rw [status]
      intro pending
      rw [pending] at live
      cases live

theorem DB.RunEdges.inserts (runEdges : db.RunEdges) (inserts : Inserts items db db')
    (needs : ∀ j ∈ items, ∀ need ∈ j.needs, ∃ other ∈ items, other.id = need ∧
      other.runID = j.runID) : db'.RunEdges := by
  have written : ∀ j ∈ items, ∃ row', db'.jobs.get? j.id = some row' ∧ row'.runID = j.runID := by
    intro j member
    obtain ⟨row', found, plain⟩ := inserts.added j member
    exact ⟨row', found, (JobRow.plain_write plain).1⟩
  rintro ⟨dependent, need⟩ edge
  rcases inserts.onlyEdges _ edge with held | ⟨j, member, named, needed⟩
  · refine runEdges.kept (fun id row found => ?_) _ held
    obtain ⟨row', found', plain⟩ := inserts.kept id row found
    exact ⟨row', found', (JobRow.plain_eq plain).1⟩
  · obtain ⟨other, inside, rfl, oneRun⟩ := needs j member need needed
    obtain ⟨row', found', run⟩ := written j member
    obtain ⟨other', there', runOther⟩ := written other inside
    exact ⟨row', other', named ▸ found', there', by rw [run, runOther, oneRun]⟩

/-- What a charging request adds to the rows is what it reserves. -/
theorem InsertCompiledRunRequest.Charges.count (charges : req.Charges q) (key : String) :
    ((req.items.countP fun j => j.status.waiting && decide (key ∈ quotaKeys (repoIDForJob j)) : Nat)
        : Int) = (if key ∈ q.keys then max q.jobCount 0 else 0) ∧ (req.items.countP fun j =>
        j.status.isRunning && decide (key ∈ quotaKeys (repoIDForJob j))) = 0 := by
  constructor
  · by_cases member : key ∈ q.keys
    · have all : (req.items.countP fun j =>
          j.status.waiting && decide (key ∈ quotaKeys (repoIDForJob j))) = req.items.length := by
        refine List.countP_eq_length.mpr fun j inside => ?_
        simp [charges.waiting j inside, charges.keys j inside, member]
      rw [all, if_pos member, charges.jobCount]
      omega
    · have none : (req.items.countP fun j =>
          j.status.waiting && decide (key ∈ quotaKeys (repoIDForJob j))) = 0 := by
        refine List.countP_eq_zero.mpr fun j inside => ?_
        simp [charges.keys j inside, member]
      rw [none, if_neg member]
      rfl
  · refine List.countP_eq_zero.mpr fun j inside => ?_
    have idle := Status.waiting_not_running (charges.waiting j inside)
    simp [Status.isRunning, idle]

/-- An enqueue that charges what it inserts keeps the books. -/
theorem DB.Charged.enqueue (charged : db.Charged) {c : Call} (charges : req.Charges q)
    (ran : insertCompiledRun c req db = .ok db') :
    db'.Charged := by
  obtain ⟨claimed, inserted, superseded, before, rows, previous, after⟩ := insertCompiledRun_inv ran
  replace before := before.elsewhere
  obtain ⟨_, inserts, only⟩ := insertCompiledRows_inv rows
  have claimedBalanced : Balanced (fun _ => true) claimed := by
    intro key
    rw [before.quota, jobsOf, jobsOf, before.jobs]
    exact charged.balanced key
  have claimedAccounted : claimed.Accounted := fun id row found =>
    charged.accounted id row (before.jobs ▸ found)
  have claimedEdges : claimed.RunEdges :=
    charged.runEdges.evolve before.config.dependencies (.ofJobs before.jobs)
  -- until the reservation the counters speak of the old jobs only
  have insertedBalanced : Balanced (outside req.items) inserted :=
    claimedBalanced.inserts inserts (by rw [only])
  have oldJobs : ∀ id row, inserted.jobs.get? id = some row → row.runID ≠ req.run.id →
      outside req.items id = true := by
    intro id row found other
    rcases inserts.only id row found with ⟨old, held, _⟩ | ⟨j, member, _, plain⟩
    · exact inserts.outside_of_get? held
    · exact absurd ((JobRow.plain_write plain).1.trans (charges.own j member)) other
  obtain ⟨⟨balanced, accounted, same⟩, runEdges⟩ := insertedBalanced.supersedePrevious
    (claimedAccounted.inserts inserts charges.waiting)
    (claimedEdges.inserts inserts fun j member => needsAmong_iff.mp (charges.needs j member))
    oldJobs charges.cancelPrevious previous
  refine ⟨fun key => ?_, fun id row found => accounted id row (after.jobs ▸ found),
    runEdges.evolve after.config.dependencies (.ofJobs after.jobs)⟩
  obtain ⟨queued, running⟩ := balanced key
  obtain ⟨added, started⟩ := charges.count key
  obtain ⟨mid, reserved, quota, books, last⟩ := after.quota
  rw [charges.quota] at quota
  obtain ⟨table, loop, written⟩ := bind_ok_iff.mp quota
  have counted := reserveQuota_counters loop key
  rw [← pure_ok_iff.mp written] at last
  have total : ∀ r, db'.jobsOf (fun _ => true) r key = superseded.jobsOf (outside req.items) r key +
      req.items.countP fun j => r j.status && decide (key ∈ quotaKeys (repoIDForJob j)) := by
    intro r
    rw [jobsOf_split db' (outside req.items), jobsOf, jobsOf, after.jobs, ← inserts.jobsOf_new,
      ← same]
    rfl
  rw [books] at counted
  rw [last, counted, total, total, started, Int.natCast_add, added, Nat.add_zero]
  split
  · exact ⟨by rw [queued], running⟩
  · exact ⟨by rw [queued, Int.add_zero], running⟩

end Enqueue

/-! ## Calls and runs -/

/-- The children of the fragment belong to no repository, so that the quota they
do not reserve is not missed; they wait, and need each other only. -/
def GeneratedFragmentRequest.uncharged (req : GeneratedFragmentRequest) : Bool :=
  req.jobs.all fun entry => (quotaKeys (repoIDForJob entry.2)).isEmpty &&
    entry.2.status.waiting && needsAmong (req.jobs.map Prod.snd) entry.2

section Run

variable {db db' : DB}

theorem DB.Charged.settle (charged : db.Charged) {now : Time} {ended : List (JobID × Status)}
    (nodup : (ended.map Prod.fst).Nodup)
    (quiet : db.Quiet ended reevaluated) (settlement : Settlement now ended reevaluated db db') :
    db'.Charged := by
  obtain ⟨balanced, accounted, _⟩ :=
    charged.balanced.settle charged.accounted nodup (fun _ _ => rfl) quiet settlement
  exact ⟨balanced, accounted,
    charged.runEdges.evolve settlement.config.dependencies settlement.evolvesRows⟩

theorem DB.Charged.claim (charged : db.Charged) {claim : LeaseClaim}
    (committed : ClaimCommitted c claim r effective row db db') :
    db'.Charged := by
  have edges : db'.dependencies = db.dependencies := by rw [committed.only]
  refine ⟨charged.balanced.claim committed rfl, charged.accounted.claim committed, ?_⟩
  rw [DB.RunEdges, edges]
  refine charged.runEdges.kept fun id held found => ?_
  rw [committed.jobs, get?_put]
  split <;> rename_i same
  · subst same
    cases found.symm.trans committed.found
    exact ⟨_, rfl, rfl⟩
  · exact ⟨held, found, rfl⟩

theorem DB.Charged.fragment (charged : db.Charged) {c : Call} (uncharged : req.uncharged = true)
    (ran : insertGeneratedFragmentTx c req verify db = .ok db') : db'.Charged := by
  obtain ⟨_, _, _, ⟨_, rfl⟩ | filled⟩ := insertGeneratedFragmentTx_cases ran
  · exact charged
  have inserts := filled.inserts
  have children : ∀ j ∈ req.items, quotaKeys (repoIDForJob j) = [] ∧
      j.status.waiting = true ∧ needsAmong req.items j = true := by
    intro j member
    obtain ⟨entry, inside, rfl⟩ := List.mem_map.mp member
    have child := List.all_eq_true.mp uncharged entry inside
    simp only [and_eq_true, List.isEmpty_iff] at child
    exact ⟨child.1.1, child.1.2, child.2⟩
  refine ⟨fun key => ?_, charged.accounted.inserts inserts fun j member => (children j member).2.1,
    charged.runEdges.inserts inserts fun j member =>
      needsAmong_iff.mp (children j member).2.2⟩
  have none : ∀ q, db'.jobsOf (fun id => !outside req.items id) q key = 0 := by
    intro q
    rw [inserts.jobsOf_new, List.countP_eq_zero]
    intro j member
    simp [(children j member).1]
  rw [jobsOf_split db' (outside req.items), jobsOf_split db' (outside req.items), none, none]
  exact charged.balanced.inserts inserts (by rw [filled.only]) key

/-- What the call inserts is charged; it may also claim or end jobs. -/
def Op.insertsCharged : Op → Bool
  | .insertCompiledRun _ req => req.charges
  | .insertGeneratedFragment _ req _ => req.uncharged
  | op => op.isClaim || op.ending

/-- The call moves a counter with every status it moves. -/
def Op.charges (op : Op) (db : DB) : Prop :=
  op.insertsCharged = true ∧ (op.ending = true → db.Quiet (op.endings db) (op.reevaluated db))

instance (op : Op) (db : DB) : Decidable (op.charges db) := inferInstanceAs (Decidable (_ ∧ _))

theorem step_charged (op : Op) (db : DB) (charges : op.charges db) (charged : db.Charged) :
    (step op db).Charged := by
  refine commit_elim (P := DB.Charged) charged fun db' ran => ?_
  obtain ⟨inserted, quiet⟩ := charges
  have claimOrEnd (kind : (op.isClaim || op.ending) = true) : db'.Charged := by
    rcases or_eq_true_iff.mp kind with isClaim | ending
    · obtain ⟨_, _, _, _, _, _, _, committed⟩ := Op.claim isClaim ran
      exact charged.claim committed
    · rcases Op.settlement ending ran with rfl | ⟨now, settlement⟩
      · exact charged
      · exact charged.settle (op.nodup_endings db) (quiet ending) settlement
  cases op with
  | insertCompiledRun c req =>
    obtain ⟨q, charges⟩ := InsertCompiledRunRequest.charges_iff.mp inserted
    exact charged.enqueue charges ran
  | insertGeneratedFragment c req verify => exact charged.fragment inserted ran
  | _ => exact claimOrEnd inserted

end Run

/-- **The quota counters count jobs.**  From a store without jobs and counters,
after enqueues that charge what they insert, fragments outside every quota,
claims, and endings that settle no dependent: the queued counter of each key is
the number of its queued and waiting jobs, the running counter that of its
running jobs, and once all its jobs are over no queued slot is held. -/
theorem quota_counters_conserved (base : DB) (noJobs : base.jobs = .empty)
    (noEdges : base.dependencies = []) (noQuota : base.quota = .empty) (ops : List Op)
    (charges : Guarded step Op.charges ops base) (key : String) :
    ((counters (run step ops base).quota key).queued =
        (run step ops base).jobsOf (fun _ => true) Status.waiting key ∧
      (counters (run step ops base).quota key).running =
        (run step ops base).jobsOf (fun _ => true) Status.isRunning key) ∧
    ((∀ id row, (run step ops base).jobs.get? id = some row → row.chargedTo key = true →
        row.status.terminal = true) → (counters (run step ops base).quota key).queued = 0) := by
  have first : base.Charged := by
    refine ⟨fun key => ?_, fun id row found => ?_, fun edge member => ?_⟩
    · rw [noQuota, jobsOf, jobsOf, noJobs]
      exact ⟨rfl, rfl⟩
    · simp [noJobs] at found
    · simp [noEdges] at member
  have charged : (run step ops base).Charged :=
    run_guarded (fun op db met holds => step_charged op db met holds) ops charges first
  refine ⟨charged.balanced key, fun isOver => ?_⟩
  have none : (run step ops base).jobsOf (fun _ => true) Status.waiting key = 0 := by
    apply count_eq_zero
    intro id row found
    by_contra counted
    simp only [Bool.true_and, Bool.not_eq_false, Bool.and_eq_true] at counted
    have unsettled := Status.not_terminal_of_waiting counted.1
    rw [isOver id row found counted.2] at unsettled
    cases unsettled
  rw [(charged.balanced key).1, none]
  rfl

namespace Metered

open Chain (runnerID)

def repoKey : String := "x.io/a/b"

def a : Job := { Chain.a with policyRepoID := repoKey }

def b : Job := { Chain.b with policyRepoID := repoKey }

/-- A run of the two jobs, with a slot reserved for each; the first is claimed
and ends. -/
def history (status : Status) : List Op :=
  [.insertCompiledRun {}
      { run := Chain.newRun, jobs := [(a.id, a), (b.id, b)]
        quota := some { repoKey, teamKey := repoTeamKey repoKey, jobCount := 2 } },
    .acquireLeaseAtomic {} { jobID := a.id, runnerID, generation := 1, ttl := 10 },
    .completeJob { now := 1 } a.id 1 runnerID { status }
      { jobID := a.id, generation := 1, runnerID, resultHash := "d" }]

end Metered

open Metered in
/-- The first job fails and the second is blocked: both are over, and the slot
of the second stays charged. -/
theorem blocked_job_keeps_its_slot :
    (run step (history .failure) Chain.base).statusOf a.id = some .failure ∧
      (run step (history .failure) Chain.base).statusOf b.id = some .blocked ∧
      (counters (run step (history .failure) Chain.base).quota repoKey).queued = 1 ∧
      (run step (history .failure) Chain.base).jobsOf (fun _ => true) Status.waiting repoKey = 0 := by
  decide +kernel

open Metered in
/-- Where the first job succeeds, the second holds the one slot that is left. -/
theorem queued_job_holds_its_slot :
    (run step (history .success) Chain.base).statusOf b.id = some .queued ∧
      (counters (run step (history .success) Chain.base).quota repoKey).queued =
        (run step (history .success) Chain.base).jobsOf (fun _ => true) Status.waiting repoKey ∧
      (run step (history .success) Chain.base).jobsOf (fun _ => true) Status.waiting repoKey = 1 :=
  ⟨by decide +kernel,
    (quota_counters_conserved Chain.base rfl rfl rfl _ (by decide +kernel) repoKey).1.1,
    by decide +kernel⟩

end KiwiCI.Storage
