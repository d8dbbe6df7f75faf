import KiwiCI.Scheduler
import KiwiCI.Storage.Capacity

/-!
Concurrency limits when claims interleave.

A claim reserves a slot of its environment and of its concurrency group.  It
takes an advisory lock per key, counts the running jobs of the key in SQL,
compares the count with its own limit and keeps the locks until it commits, so
that between its check and its writes any other call may run except a claim that
needs one of its locks.  `Admissions` is that system: claims between check and
commit, and the store.

The lock is keyed by the repository the claim names, which the scheduler resolves
in Go, and the count by the repository the rows show in SQL.  A key is protected
as long as the claims of its jobs name it and the two resolutions agree on them.
-/

namespace KiwiCI.Storage

variable {claim : LeaseClaim}

open Table List

/-! ## Keys -/

/-- What a limit is counted by: an environment or a concurrency group of a
repository. -/
inductive SlotKey where
  | environment (repoID name : String)
  | group (repoID name : String)
  deriving DecidableEq, Repr

namespace SlotKey

/-- The job belongs to the key, under its canonical repository. -/
def holds : SlotKey → Job → Bool
  | environment repoID name, j => repoIDForJob j = repoID && j.environment = name
  | group repoID name, j => repoIDForJob j = repoID && j.concurrencyGroup = name

/-- The job is counted under the key by the claim's SQL. -/
def counted : SlotKey → Job → Bool
  | environment repoID name, j => jobRepoIDSQL j = repoID && j.environment = name
  | group repoID name, j => jobRepoIDSQL j = repoID && j.concurrencyGroup = name

def lock : SlotKey → String × String
  | environment repoID name => ("kiwi-env", repoID ++ unitSeparator ++ name)
  | group repoID name =>
    ("kiwi-group", (if repoID = "" then "noid" else repoID) ++ unitSeparator ++ name)

/-- The limit a claim of the row enforces under the key; zero where it enforces
none. -/
def limit (k : SlotKey) (claim : LeaseClaim) (row : JobRow) : Int :=
  match k with
  | environment repoID name =>
    if claim.canonRepoID = repoID ∧ claim.environment = name ∧ repoID ≠ "" ∧ name ≠ "" then
      claim.environmentConcurrency
    else 0
  | group repoID name =>
    if claim.canonRepoID = repoID ∧ (claim.effectiveGroup row).1 = name ∧ name ≠ "" ∧
        claim.concurrencyScope ≠ "global" then
      (claim.effectiveGroup row).2
    else 0

end SlotKey

def LeaseClaim.locks (claim : LeaseClaim) (row : JobRow) : List (String × String) :=
  let effective := claim.effectiveGroup row
  (if claim.envKey ≠ "" ∧ 0 < claim.environmentConcurrency then [("kiwi-env", claim.envKey)] else []) ++
    if claim.groupKeyOf effective.1 ≠ "" ∧ 0 < effective.2 then
      [("kiwi-group", claim.groupKeyOf effective.1)]
    else []

/-- How many jobs of the key are running. -/
def DB.runningIn (db : DB) (k : SlotKey) : Nat :=
  db.jobs.count fun _ row => row.status = .running && k.holds row.payload.job

section Keys

variable {k : SlotKey}

theorem SlotKey.holds_congr (same : j.spec = j'.spec) : k.holds j = k.holds j' := by
  have read (j : Job) : k.holds j.spec = k.holds j := by cases k <;> rfl
  rw [← read j, same, read j']

theorem SlotKey.counted_congr (same : j.spec = j'.spec) :
    k.counted j = k.counted j' := by
  have read (j : Job) : k.counted j.spec = k.counted j := by cases k <;> rfl
  rw [← read j, same, read j']

/-- A claim that enforces a limit under the key holds its lock. -/
theorem SlotKey.lock_mem (enforced : 0 < k.limit claim row) :
    k.lock ∈ claim.locks row := by
  cases k with
  | environment repoID name =>
    rw [SlotKey.limit] at enforced
    split at enforced
    · rename_i named
      obtain ⟨rfl, rfl, repo, env⟩ := named
      have key : claim.envKey = claim.canonRepoID ++ unitSeparator ++ claim.environment := by
        simp [LeaseClaim.envKey, repo, env]
      refine mem_append_left _ ?_
      rw [key, if_pos ⟨append_separator_ne_empty _ _, enforced⟩]
      exact mem_singleton.mpr rfl
    · exact absurd enforced (lt_irrefl 0)
  | group repoID name =>
    rw [SlotKey.limit] at enforced
    split at enforced
    · rename_i named
      obtain ⟨rfl, rfl, group, scope⟩ := named
      have key : claim.groupKeyOf (claim.effectiveGroup row).1 =
          (if claim.canonRepoID = "" then "noid" else claim.canonRepoID) ++ unitSeparator ++
            (claim.effectiveGroup row).1 := by
        rw [LeaseClaim.groupKeyOf, if_neg group, if_neg scope]
        split <;> rfl
      refine mem_append_right _ ?_
      rw [key, if_pos ⟨append_separator_ne_empty _ _, enforced⟩]
      exact mem_singleton.mpr rfl
    · exact absurd enforced (lt_irrefl 0)

/-- A checked claim counted fewer running jobs under the key than its limit, so
there are fewer where the count sees all of them. -/
theorem ClaimChecked.room (checked : ClaimChecked claim row db) (enforced : 0 < k.limit claim row)
    (seen : ∀ id row, db.jobs.get? id = some row → row.status = .running →
      k.holds row.payload.job = true → k.counted row.payload.job = true) :
    (db.runningIn k : Int) < k.limit claim row := by
  -- the claimed job is queued, so the count leaves nobody out
  have others : ∀ id late, db.jobs.get? id = some late → late.status = .running →
      id ≠ claim.jobID := by
    rintro id late found running rfl
    rw [checked.found] at found
    cases found
    rw [checked.queued] at running
    cases running
  have within (counts : JobID → JobRow → Bool) (sees : ∀ id late, late.status = .running →
      k.counted late.payload.job = true → id ≠ claim.jobID → counts id late = true) :
      db.runningIn k ≤ db.jobs.count counts := by
    refine count_le_count fun id late found running => ?_
    simp only [Bool.and_eq_true, decide_eq_true_eq] at running
    exact ⟨late, found, sees id late running.1 (seen id late found running.1 running.2)
      (others id late found running.1)⟩
  cases k with
  | environment repoID name =>
    rw [SlotKey.limit] at enforced ⊢
    split at enforced
    · rename_i named
      rw [if_pos named]
      obtain ⟨rfl, rfl, repo, env⟩ := named
      have free := checked.envFree (LeaseClaim.envKey_ne_empty repo env) enforced
      refine lt_of_le_of_lt (Int.ofNat_le.mpr (within _ fun id late running counted other => ?_)) free
      simp only [SlotKey.counted, Bool.and_eq_true, decide_eq_true_eq] at counted
      simp [running, counted, other]
    · exact absurd enforced (lt_irrefl 0)
  | group repoID name =>
    rw [SlotKey.limit] at enforced ⊢
    split at enforced
    · rename_i named
      rw [if_pos named]
      obtain ⟨rfl, rfl, group, scope⟩ := named
      have free : (db.groupRunning claim.groupScope (claim.effectiveGroup row).1 claim.jobID : Int) <
          (claim.effectiveGroup row).2 :=
        checked.groupFree (LeaseClaim.groupKeyOf_ne_empty group) enforced
      rw [LeaseClaim.groupScope, if_neg scope] at free
      refine lt_of_le_of_lt (Int.ofNat_le.mpr (within _ fun id late running counted other => ?_)) free
      simp only [SlotKey.counted, Bool.and_eq_true, decide_eq_true_eq] at counted
      simp [running, counted, other]
    · exact absurd enforced (lt_irrefl 0)

end Keys

/-! ## Claims in flight -/

/-- A claim between its check and its commit, with the row it was checked on. -/
structure Flight where
  claim : LeaseClaim
  row : JobRow

/-- The store, the claims in flight, and for each admitted claim of the observed
key the count it led to and its limit. -/
structure Admissions where
  db : DB
  flights : List Flight
  admitted : List (Nat × Int)

inductive Admissions.Event where
  /-- A claim takes its locks and passes its checks. -/
  | check (c : Call) (claim : LeaseClaim)
  /-- The claim at the position writes and commits, or fails. -/
  | finish (c : Call) (position : Nat)
  /-- The claim at the position is rolled back. -/
  | abandon (position : Nat)
  /-- A call that is no claim. -/
  | call (op : Op)

namespace Admissions

/-- None of the claim's locks is held; a claim that finds one held waits. -/
def unlocked (claim : LeaseClaim) (row : JobRow) (flights : List Flight) : Prop :=
  ∀ flight ∈ flights, ∀ lock ∈ claim.locks row, lock ∉ flight.claim.locks flight.row

instance (claim : LeaseClaim) (row : JobRow) (flights : List Flight) :
    Decidable (unlocked claim row flights) := by
  unfold unlocked; infer_instance

def step (k : SlotKey) (event : Event) (s : Admissions) : Admissions :=
  match event with
  | .check c claim =>
    match s.db.jobs.get? claim.jobID with
    | none => s
    | some row =>
      if acquireCheck c claim s.db = .ok () ∧ unlocked claim row s.flights then
        { s with flights := ⟨claim, row⟩ :: s.flights }
      else s
  | .finish c position =>
    match s.flights[position]? with
    | none => s
    | some flight =>
      match acquireCommit c flight.claim s.db with
      | .error _ => { s with flights := s.flights.eraseIdx position }
      | .ok db =>
        { db
          flights := s.flights.eraseIdx position
          admitted := if k.holds flight.row.payload.job then
            (db.runningIn k, k.limit flight.claim flight.row) :: s.admitted else s.admitted }
  | .abandon position => { s with flights := s.flights.eraseIdx position }
  | .call op => { s with db := Storage.step op s.db }

/-- A claim on a job of the key enforces a positive limit under it, and its count
sees the job under it; the other calls end jobs. -/
def Event.protects (k : SlotKey) (event : Event) (s : Admissions) : Prop :=
  match event with
  | .check _ claim => ∀ row, s.db.jobs.get? claim.jobID = some row →
      k.holds row.payload.job = true → k.counted row.payload.job = true ∧ 0 < k.limit claim row
  | .call op => op.ending = true
  | _ => True

instance (k : SlotKey) (event : Event) (s : Admissions) : Decidable (event.protects k s) := by
  unfold Event.protects
  cases event with
  | check c claim =>
    exact inferInstanceAs (Decidable (∀ row ∈ s.db.jobs.get? claim.jobID,
      k.holds row.payload.job = true → k.counted row.payload.job = true ∧ 0 < k.limit claim row))
  | finish c position => exact inferInstanceAs (Decidable True)
  | abandon position => exact inferInstanceAs (Decidable True)
  | call op => exact inferInstanceAs (Decidable (op.ending = true))

/-- What protects the key while claims are in flight. -/
structure Safe (k : SlotKey) (s : Admissions) : Prop where
  /-- The count sees the running jobs of the key. -/
  seen : ∀ id row, s.db.jobs.get? id = some row → row.status = .running →
    k.holds row.payload.job = true → k.counted row.payload.job = true
  /-- A claim on a job of the key still finds room under its limit. -/
  room : ∀ flight ∈ s.flights, k.holds flight.row.payload.job = true →
    k.counted flight.row.payload.job = true ∧
      (s.db.runningIn k : Int) < k.limit flight.claim flight.row
  /-- The row a claim was checked on keeps what its job was submitted as. -/
  kept : ∀ flight ∈ s.flights, ∃ row, s.db.jobs.get? flight.claim.jobID = some row ∧
    row.payload.job.spec = flight.row.payload.job.spec
  /-- Claims in flight hold different locks. -/
  locks : s.flights.Pairwise fun a b =>
    ∀ lock ∈ a.claim.locks a.row, lock ∉ b.claim.locks b.row
  /-- No admitted claim led to a count above its limit. -/
  bounded : ∀ n limit, (n, limit) ∈ s.admitted → (n : Int) ≤ limit
  /-- An admitted claim led to each level the count stands at or above. -/
  reached : ∀ n, 0 < n → n ≤ s.db.runningIn k → ∃ limit, (n, limit) ∈ s.admitted

section Steps

variable {k : SlotKey} {s : Admissions}

/-- Jobs that leave `running` only make room. -/
theorem Safe.releases (safe : s.Safe k) (releases : s.db.OnlyReleases db')
    (evolves : s.db.Evolves db') : ({ s with db := db' } : Admissions).Safe k := by
  have fewer : db'.runningIn k ≤ s.db.runningIn k := by
    refine count_le_count fun id row found counted => ?_
    simp only [Bool.and_eq_true, decide_eq_true_eq] at counted
    exact ⟨row, (releases id row found counted.1).1, by simpa using counted⟩
  refine ⟨fun id row found running => ?_, fun flight mem holds => ?_, fun flight mem => ?_,
    safe.locks, safe.bounded, fun n positive below => safe.reached n positive (below.trans fewer)⟩
  · exact safe.seen id row (releases id row found running).1 running
  · obtain ⟨counted, room⟩ := safe.room flight mem holds
    exact ⟨counted, lt_of_le_of_lt (Int.ofNat_le.mpr fewer) room⟩
  · obtain ⟨row, found, spec⟩ := safe.kept flight mem
    obtain ⟨row', found', evolved⟩ := evolves.rows _ row found
    exact ⟨row', found', evolved.spec.trans spec⟩

theorem Safe.leave (safe : s.Safe k) (position : Nat) :
    ({ s with flights := s.flights.eraseIdx position } : Admissions).Safe k where
  seen := safe.seen
  room := fun flight mem => safe.room flight (mem_of_mem_eraseIdx mem)
  kept := fun flight mem => safe.kept flight (mem_of_mem_eraseIdx mem)
  locks := safe.locks.sublist (eraseIdx_sublist _ _)
  bounded := safe.bounded
  reached := safe.reached

/-- A claim that passes its checks finds room under every limit it enforces. -/
theorem Safe.enter (safe : s.Safe k)
    (found : s.db.jobs.get? claim.jobID = some row) (ran : acquireCheck c claim s.db = .ok ())
    (free : unlocked claim row s.flights) (protects : k.holds row.payload.job = true →
      k.counted row.payload.job = true ∧ 0 < k.limit claim row) :
    ({ s with flights := ⟨claim, row⟩ :: s.flights } : Admissions).Safe k := by
  refine ⟨safe.seen, fun flight mem holds => ?_, fun flight mem => ?_, ?_, safe.bounded,
    safe.reached⟩
  · rcases mem_cons.mp mem with rfl | mem
    · obtain ⟨counted, enforced⟩ := protects holds
      obtain ⟨read, checked⟩ := acquireCheck_inv ran
      have same : read = row := Option.some.inj (checked.found.symm.trans found)
      subst same
      exact ⟨counted, checked.room enforced safe.seen⟩
    · exact safe.room flight mem holds
  · rcases mem_cons.mp mem with rfl | mem
    · exact ⟨row, found, rfl⟩
    · exact safe.kept flight mem
  · exact pairwise_cons.mpr ⟨fun flight mem lock held => free flight mem lock held, safe.locks⟩

/-- Two claims on jobs of the key are not in flight together: both would hold its
lock. -/
theorem Safe.alone (safe : s.Safe k)
    (here : s.flights[position]? = some flight) (mem : other ∈ s.flights.eraseIdx position)
    (holds : k.holds flight.row.payload.job = true) : k.holds other.row.payload.job = false := by
  by_contra also
  rw [Bool.not_eq_false] at also
  have held : ∀ f ∈ s.flights, k.holds f.row.payload.job = true → k.lock ∈ f.claim.locks f.row := by
    intro f mem holds
    obtain ⟨_, room⟩ := safe.room f mem holds
    exact SlotKey.lock_mem (by omega)
  have mine := held flight (mem_of_getElem? here) holds
  have theirs := held other (mem_of_mem_eraseIdx mem) also
  obtain ⟨at', apart, there⟩ := mem_eraseIdx_iff_getElem?.mp mem
  obtain ⟨low, rfl⟩ := List.getElem?_eq_some_iff.mp here
  obtain ⟨high, rfl⟩ := List.getElem?_eq_some_iff.mp there
  have apart' := pairwise_iff_getElem.mp safe.locks
  rcases Nat.lt_or_gt_of_ne apart with before | after
  · exact apart' at' position high low before _ theirs mine
  · exact apart' position at' low high after _ mine theirs

theorem JobRow.claim_spec (row : JobRow) (now : Time) (claim : LeaseClaim) (interpreter : String) :
    (row.claim now claim interpreter).payload.job.spec = row.payload.job.spec := rfl

theorem runningIn_claim {c : Call} {r : RunnerRow} {effective : Runner}
    {row : JobRow} {db db' : DB} (committed : ClaimCommitted c claim r effective row db db') :
    db'.runningIn k = db.runningIn k + if k.holds row.payload.job then 1 else 0 := by
  have moved := count_put_of_get? (p := fun _ row => row.status = .running && k.holds row.payload.job)
    committed.found (row.claim c.now claim
      (leaseInterpreterFor effective.supportedExecutionSemantics row.payload.job.executionSemantics))
  rw [SlotKey.holds_congr (JobRow.claim_spec row _ _ _)] at moved
  simpa [DB.runningIn, committed.jobs, committed.queued, JobRow.claim] using moved

/-- A claim that commits takes the room its check found. -/
theorem Safe.admit (safe : s.Safe k) (here : s.flights[position]? = some flight)
    (ran : acquireCommit c flight.claim s.db = .ok db') :
    Safe k
      { db := db'
        flights := s.flights.eraseIdx position
        admitted := if k.holds flight.row.payload.job then
          (db'.runningIn k, k.limit flight.claim flight.row) :: s.admitted else s.admitted } := by
  obtain ⟨r, effective, row, committed⟩ := acquireCommit_inv ran
  have mem := mem_of_getElem? here
  obtain ⟨read, found, spec⟩ := safe.kept flight mem
  obtain rfl : read = row := Option.some.inj (found.symm.trans committed.found)
  have count := runningIn_claim (k := k) committed
  rw [SlotKey.holds_congr spec] at count
  refine ⟨fun id late late_found running holds => ?_, fun other inside holds => ?_,
    fun other inside => ?_, safe.locks.sublist (eraseIdx_sublist _ _), fun n limit admitted => ?_,
    fun n positive below => ?_⟩
  · rw [committed.jobs, get?_put] at late_found
    split at late_found
    · cases late_found
      have same (interpreter : String) :=
        (JobRow.claim_spec read c.now flight.claim interpreter).trans spec
      rw [SlotKey.holds_congr (same _)] at holds
      rw [SlotKey.counted_congr (same _)]
      exact (safe.room flight mem holds).1
    · exact safe.seen id late late_found running holds
  · have mine : k.holds flight.row.payload.job = false := by
      by_contra also
      rw [Bool.not_eq_false] at also
      rw [safe.alone here inside also] at holds
      cases holds
    rw [mine] at count
    obtain ⟨counted, room⟩ := safe.room other (mem_of_mem_eraseIdx inside) holds
    refine ⟨counted, ?_⟩
    simp only [count]
    simpa using room
  · obtain ⟨theirs, there, same⟩ := safe.kept other (mem_of_mem_eraseIdx inside)
    simp only [committed.jobs, get?_put]
    split
    · rename_i key
      rw [key, committed.found] at there
      cases there
      exact ⟨_, rfl, same⟩
    · exact ⟨theirs, there, same⟩
  · by_cases holds : k.holds flight.row.payload.job = true
    · rw [if_pos holds] at count admitted
      rcases mem_cons.mp admitted with pair | earlier
      · cases pair
        have room := (safe.room flight mem holds).2
        omega
      · exact safe.bounded n limit earlier
    · rw [if_neg holds] at admitted
      exact safe.bounded n limit admitted
  · by_cases holds : k.holds flight.row.payload.job = true
    · simp only [if_pos holds] at count below ⊢
      by_cases top : n = db'.runningIn k
      · exact ⟨_, mem_cons.mpr (.inl (by rw [top]))⟩
      · obtain ⟨limit, earlier⟩ := safe.reached n positive (by omega)
        exact ⟨limit, mem_cons_of_mem _ earlier⟩
    · simp only [if_neg holds] at count below ⊢
      exact safe.reached n positive (by omega)

theorem Safe.step (safe : s.Safe k) (event : Event) (protects : event.protects k s) :
    (s.step k event).Safe k := by
  cases event with
  | check c claim =>
    cases found : s.db.jobs.get? claim.jobID with
    | none => simpa only [Admissions.step, found] using safe
    | some row =>
      simp only [Admissions.step, found]
      split <;> rename_i passes
      · exact safe.enter found passes.1 passes.2 (protects row found)
      · exact safe
  | finish c position =>
    cases here : s.flights[position]? with
    | none => simpa only [Admissions.step, here] using safe
    | some flight =>
      cases ran : acquireCommit c flight.claim s.db with
      | error e => simpa only [Admissions.step, here, ran] using safe.leave position
      | ok db' => simpa only [Admissions.step, here, ran] using safe.admit here ran
  | abandon position => exact safe.leave position
  | call op =>
    refine commit_elim (P := fun db => Admissions.Safe k { s with db }) safe fun db' ran => ?_
    rcases Op.settlement protects ran with rfl | ⟨now, settlement⟩
    · exact safe
    · exact safe.releases settlement.onlyReleases settlement.evolvesRows

end Steps

end Admissions

/-! ## The limits -/

/-- **Concurrency limits hold under every interleaving.**  From a store without
leases, over claims whose counts see the jobs of the key they enforce a limit
for, and calls that end jobs: no admitted claim led to more running jobs of the
key than its limit, and for the number of jobs of the key now running there is
an admitted claim that led to it. -/
theorem limits_hold_under_interleaving (k : SlotKey) (base : DB)
    (idle : ∀ id, base.leaseOf id = none) (events : List Admissions.Event)
    (protects : Guarded (Admissions.step k) (Admissions.Event.protects k) events ⟨base, [], []⟩) :
    let s := run (Admissions.step k) events ⟨base, [], []⟩
    (∀ n limit, (n, limit) ∈ s.admitted → (n : Int) ≤ limit) ∧
      (0 < s.db.runningIn k → ∃ limit, (s.db.runningIn k, limit) ∈ s.admitted) := by
  have empty : base.runningIn k = 0 := by
    refine count_eq_zero fun id row found => ?_
    have stopped := DB.leaseOf_eq_none_iff.mp (idle id)
    simp only [DB.statusOf, found, Option.map_some, ne_eq, Option.some.injEq] at stopped
    simp [stopped]
  have first : Admissions.Safe k ⟨base, [], []⟩ := by
    refine ⟨fun id row found running => ?_, by simp, by simp, .nil, by simp, fun n positive below => ?_⟩
    · exact absurd (DB.leaseOf_eq_none_iff.mp (idle id)) (by simp [DB.statusOf, found, running])
    · rw [empty] at below
      omega
  intro s
  have safe : s.Safe k :=
    run_guarded (I := Admissions.Safe k) (fun event s met holds => holds.step event met) events
      protects first
  exact ⟨safe.bounded, fun positive => safe.reached _ positive le_rfl⟩

/-! ## One environment -/

namespace Deploy

/-- A deployment of the repository to an environment that takes one job at a time. -/
def job (id : JobID) (repoID : String) : Job :=
  { id, runID := "000000000000000000000000000000ff", key := "deploy", status := .queued, repoID
    environment := "prod", environmentConcurrency := 1 }

def first (repoID : String) : Job := job "0000000000000000000000000000000a" repoID

def second (repoID : String) : Job := job "0000000000000000000000000000000b" repoID

def runnerID : RunnerID := "0000000000000000000000000000000f"

/-- Two queued deployments and a runner for both. -/
def store (repoID : String) : DB where
  runners := Table.empty.put runnerID { capacity := 2, payload := { capacity := 2 } }
  jobs := (Table.empty.put (first repoID).id (.write (first repoID))).put (second repoID).id
    (.write (second repoID))

def walk : Scheduler.LeaseWalk := { now := 0, runnerID, eff := { capacity := 2 } }

/-- The scheduler claims one deployment, then the other. -/
def bothClaimed (repoID : String) : List Admissions.Event :=
  [.check {} (walk.claimFor (first repoID) []), .finish {} 0,
    .check {} (walk.claimFor (second repoID) []), .finish {} 0]

theorem idle (repoID : String) (id : JobID) : (store repoID).leaseOf id = none := by
  rw [DB.leaseOf_eq_none_iff, DB.statusOf, store, get?_put, get?_put]
  split
  · simp [JobRow.write, second, job]
  · split
    · simp [JobRow.write, first, job]
    · simp

end Deploy

open Deploy in
/-- The repository id has capitals.  The count folds them and compares with the id
the claim spells as stored, so it sees neither deployment: both run at once. -/
theorem mixed_case_repository_overfills :
    ((run (Admissions.step (.environment "github.com/Acme/API" "prod"))
        (bothClaimed "github.com/Acme/API") ⟨store "github.com/Acme/API", [], []⟩).admitted =
      [(2, 1), (1, 1)]) ∧
    (run (Admissions.step (.environment "github.com/Acme/API" "prod"))
        (bothClaimed "github.com/Acme/API") ⟨store "github.com/Acme/API", [], []⟩).db.runningIn
      (.environment "github.com/Acme/API" "prod") = 2 := by
  decide +kernel

open Deploy in
/-- In lower case the second deployment waits. -/
theorem folded_repository_admits_one :
    (run (Admissions.step (.environment "github.com/acme/api" "prod"))
        (bothClaimed "github.com/acme/api") ⟨store "github.com/acme/api", [], []⟩).db.runningIn
      (.environment "github.com/acme/api" "prod") = 1 ∧
    ∀ n limit, (n, limit) ∈ (run (Admissions.step (.environment "github.com/acme/api" "prod"))
        (bothClaimed "github.com/acme/api") ⟨store "github.com/acme/api", [], []⟩).admitted →
      (n : Int) ≤ limit :=
  ⟨by decide +kernel, (limits_hold_under_interleaving (.environment "github.com/acme/api" "prod")
    (store "github.com/acme/api") (idle _) (bothClaimed "github.com/acme/api")
    (by decide +kernel)).1⟩

end KiwiCI.Storage
