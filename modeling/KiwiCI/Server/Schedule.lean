import KiwiCI.Lib.Machine
import KiwiCI.Storage.Dependents

/-!
The in-memory scheduler pass, `scheduleStateLocked` of `internal/server/server.go`,
and the gates `enqueueDB` applies up front in its place.

The pass takes the queued and waiting jobs one at a time.  A job whose needs have
settled is skipped or blocked when its condition rejects their outcome, blocked
when its ref may not deploy to its environment, and otherwise moved to or out of
waiting for an approval.  A job that is over that way puts its dependents back in
the queue.  `scheduleState_fixpoint_iff` says when the pass finds nothing to do.

`path.Match` is a parameter, and so is the order in which Go iterates the jobs.
-/

namespace KiwiCI.Server

variable {j : Job} {jobs : Table JobID Job}

open Storage Table Option

def environmentBranchAllowed (pathMatch : String → String → Bool) (ref : String)
    (patterns : List String) : Bool :=
  let branch := Text.trimPrefix "refs/" (Text.trimPrefix "refs/heads/" ref)
  patterns.any fun pattern =>
    let pattern := Text.trimSpace pattern
    pattern ≠ "" && (pattern = branch || pattern = ref || pathMatch pattern branch)

/-- The job names deployment branches and `ref` is none of them. -/
def refRejected (pathMatch : String → String → Bool) (ref : String) (j : Job) : Bool :=
  j.environmentBranches ≠ [] && !environmentBranchAllowed pathMatch ref j.environmentBranches

/-- The job still waits for somebody's approval. -/
def approvalMissing (j : Job) : Bool := j.approvalRequired && j.approvedBy = ""

/-- A job blocked because its ref may not deploy. -/
def blockRef (now : Time) (j : Job) : Job :=
  { j with
    status := .blocked, error := "ref is not allowed to deploy to environment " ++ j.environment
    finishedAt := some now }

/-- A job put to wait for an approval. -/
def awaitApproval (now : Time) (j : Job) : Job :=
  { j with status := .waitingApproval, waitingSince := j.waitingSince.or (some now) }

/-- The gates of `enqueueDB` for one created job. -/
def enqueueGate (pathMatch : String → String → Bool) (run : Run) (now : Time) (j : Job) : Job :=
  if refRejected pathMatch run.ref j then blockRef now j
  else if approvalMissing j then awaitApproval now j
  else j

/-- What a pass reads besides the jobs: `path.Match`, the refs of the runs and
the time. -/
structure Pass where
  pathMatch : String → String → Bool
  refOf : RunID → String
  now : Time

/-- The gates of `scheduleStateLocked` for a job its condition lets through. -/
def Pass.gate (p : Pass) (j : Job) : Job :=
  if refRejected p.pathMatch (p.refOf j.runID) j then blockRef p.now j
  else if approvalMissing j then
    if j.status ≠ .waitingApproval then awaitApproval p.now j else j
  else if j.status = .waitingApproval then { j with status := .queued }
  else j

/-- A queued or waiting job whose needs have settled on `outcome`. -/
def Pass.scheduleJob (p : Pass) (outcome : Status) (j : Job) : Job :=
  if dependencyConditionAllows j outcome then p.gate { j with dependencyStatus := some outcome }
  else resolveDependent p.now j outcome

def statusIn (jobs : Table JobID Job) (id : JobID) : Option Status := (jobs.get? id).map (·.status)

/-- The dependents of `id` that `push` takes: those queued or waiting. -/
def pushed (jobs : Table JobID Job) (id : JobID) : List JobID :=
  jobs.select fun _ d => d.status.waiting && d.needs.contains id

/-- One iteration of the loop of `scheduleStateLocked`. -/
def Pass.visit (p : Pass) (id : JobID) (jobs : Table JobID Job) : Table JobID Job × List JobID :=
  match jobs.get? id with
  | none => (jobs, [])
  | some j =>
    if j.status.waiting = false then (jobs, [])
    else
      match dependencyOutcome (statusIn jobs) j.needs with
      | none => (jobs, [])
      | some outcome =>
        let j := p.scheduleJob outcome j
        let jobs := jobs.put id j
        (jobs, if j.status.terminal then pushed jobs id else [])

/-! ## The pass ends -/

/-- What the pass reads of a job: its status and what no visit changes. -/
def visible (j : Job) : Job :=
  { j.spec with status := j.status, runID := j.runID, approvedBy := j.approvedBy }

/-- The steps a job may still make: out of the queue, and before that into the
kind of waiting its approval calls for. -/
def stepsLeft (j : Job) : Nat :=
  if j.status.waiting = false then 0
  else if approvalMissing j = decide (j.status = .waitingApproval) then 1
  else 2

theorem visible_eq_iff : visible j = visible k ↔
    j.status = k.status ∧ j.runID = k.runID ∧ j.approvedBy = k.approvedBy ∧ j.spec = k.spec := by
  constructor
  · intro same
    have read {β : Type} (f : Job → β) : f (visible j) = f (visible k) := congrArg f same
    exact ⟨read Job.status, read Job.runID, read Job.approvedBy, read Job.spec⟩
  · rintro ⟨status, runID, approvedBy, spec⟩
    rw [visible, visible, status, runID, approvedBy, spec]

theorem stepsLeft_congr (same : visible j = visible k) : stepsLeft j = stepsLeft k := by
  obtain ⟨status, _, approvedBy, spec⟩ := visible_eq_iff.mp same
  obtain ⟨_, _, _, _, _, required⟩ := Job.fields_of_spec spec
  rw [stepsLeft, stepsLeft, approvalMissing, approvalMissing, status, required, approvedBy]

/-- A visit keeps what enqueueing fixed and the approval. -/
theorem Pass.scheduleJob_fixed (p : Pass) (outcome : Status) (j : Job) :
    (p.scheduleJob outcome j).runID = j.runID ∧
      (p.scheduleJob outcome j).approvedBy = j.approvedBy ∧
      (p.scheduleJob outcome j).spec = j.spec := by
  unfold Pass.scheduleJob Pass.gate resolveDependent
  dsimp only
  split_ifs <;> exact ⟨rfl, rfl, rfl⟩

theorem Pass.scheduleJob_status (p : Pass) (outcome : Status) (j : Job) :
    (p.scheduleJob outcome j).status =
      if dependencyConditionAllows j outcome then
        if refRejected p.pathMatch (p.refOf j.runID) j then .blocked
        else if approvalMissing j then .waitingApproval
        else if j.status = .waitingApproval then .queued
        else j.status
      else if outcome = .success then .skipped
      else .blocked := by
  have read : dependencyConditionAllows { j with dependencyStatus := some outcome } outcome =
      dependencyConditionAllows j outcome := rfl
  unfold Pass.scheduleJob
  split <;> rename_i allows
  · have gates : ∀ k : Job, refRejected p.pathMatch (p.refOf k.runID)
        { k with dependencyStatus := some outcome } = refRejected p.pathMatch (p.refOf k.runID) k :=
      fun _ => rfl
    unfold Pass.gate
    dsimp only
    rw [gates]
    split
    · rfl
    · have missing : approvalMissing { j with dependencyStatus := some outcome } =
          approvalMissing j := rfl
      rw [missing]
      split
      · split <;> rename_i waits
        · rfl
        · exact not_not.mp waits
      · split <;> rfl
  · unfold resolveDependent
    dsimp only
    rw [read, if_neg allows]
    split <;> rfl

/-- The decision table of a visit: the status stays, or a step is taken. -/
theorem decision_moves (allows rejected missing success : Bool) (waiting : held.waiting = true) :
    let next : Status :=
      if allows then
        if rejected then .blocked
        else if missing then .waitingApproval
        else if held = .waitingApproval then .queued
        else held
      else if success then .skipped
      else .blocked
    (next = held ∧ next.terminal = false) ∨
      (if next.waiting = false then 0
        else if missing = decide (next = .waitingApproval) then 1 else 2) <
      (if held.waiting = false then 0
        else if missing = decide (held = .waitingApproval) then 1 else 2) := by
  revert waiting
  cases allows <;> cases rejected <;> cases missing <;> cases success <;> cases held <;> decide

theorem Pass.scheduleJob_moves (p : Pass) (outcome : Status) (waiting : j.status.waiting = true) :
    ((p.scheduleJob outcome j).status = j.status ∧
        (p.scheduleJob outcome j).status.terminal = false) ∨
      stepsLeft (p.scheduleJob outcome j) < stepsLeft j := by
  obtain ⟨_, approvedBy, spec⟩ := p.scheduleJob_fixed outcome j
  obtain ⟨_, _, _, _, _, required⟩ := Job.fields_of_spec spec
  have missing : approvalMissing (p.scheduleJob outcome j) = approvalMissing j := by
    rw [approvalMissing, approvalMissing, required, approvedBy]
  unfold stepsLeft
  rw [missing, p.scheduleJob_status outcome j]
  have table := decision_moves (dependencyConditionAllows j outcome)
    (refRejected p.pathMatch (p.refOf j.runID) j) (approvalMissing j) (decide (outcome = .success))
    waiting
  simpa only [decide_eq_true_eq] using table

/-- What a visit makes of the job it takes. -/
def Pass.next (p : Pass) (statusOf : JobID → Option Status) (j : Job) : Job :=
  if j.status.waiting then
    (dependencyOutcome statusOf j.needs).elim j fun outcome => p.scheduleJob outcome j
  else j

theorem Pass.visible_next_congr (p : Pass) (statusOf : JobID → Option Status)
    (same : visible j = visible k) : visible (p.next statusOf j) = visible (p.next statusOf k) := by
  obtain ⟨status, runID, approvedBy, spec⟩ := visible_eq_iff.mp same
  obtain ⟨needs, _, _, _, branches, required⟩ := Job.fields_of_spec spec
  unfold Pass.next
  rw [status, needs]
  split
  · cases dependencyOutcome statusOf k.needs with
    | none => exact same
    | some outcome =>
      obtain ⟨runJ, approvedJ, specJ⟩ := p.scheduleJob_fixed outcome j
      obtain ⟨runK, approvedK, specK⟩ := p.scheduleJob_fixed outcome k
      refine visible_eq_iff.mpr ⟨?_, by simp [runJ, runK, runID], by simp [approvedJ, approvedK, approvedBy],
        by simp [specJ, specK, spec]⟩
      simp only [elim_some, p.scheduleJob_status, refRejected, approvalMissing,
        dependencyConditionAllows_congr spec, status, runID, approvedBy, branches, required]
      rfl
  · exact same

/-- What the pass reads of all jobs. -/
def viewOf (jobs : Table JobID Job) (id : JobID) : Option Job := (jobs.get? id).map visible

theorem statusIn_eq_viewOf (jobs : Table JobID Job) (id : JobID) :
    statusIn jobs id = (viewOf jobs id).map (·.status) := by
  rw [statusIn, viewOf, map_map]
  rfl

theorem sum_stepsLeft_congr (same : viewOf jobs = viewOf jobs') :
    jobs.sum (fun _ => stepsLeft) = jobs'.sum fun _ => stepsLeft := by
  have read : ∀ t : Table JobID Job,
      t.sum (fun _ => stepsLeft) = (t.map fun _ => visible).sum fun _ => stepsLeft := by
    intro t
    rw [sum_map]
    exact sum_congr fun _ _ _ => stepsLeft_congr rfl
  rw [read jobs, read jobs']
  refine sum_ext fun id => ?_
  rw [get?_map, get?_map]
  exact congrFun same id

theorem Pass.get?_visit_ne (p : Pass) {id other : JobID} (differ : other ≠ id)
    (jobs : Table JobID Job) : (p.visit id jobs).1.get? other = jobs.get? other := by
  unfold Pass.visit
  split
  · rfl
  · split
    · rfl
    · split
      · rfl
      · exact get?_put_ne _ _ differ

theorem Pass.get?_visit_self (p : Pass) (id : JobID) (jobs : Table JobID Job) :
    (p.visit id jobs).1.get? id = (jobs.get? id).map (p.next (statusIn jobs)) := by
  unfold Pass.visit
  cases found : jobs.get? id with
  | none => exact found
  | some j =>
    rw [map_some, Pass.next]
    dsimp only
    cases j.status.waiting with
    | false => simpa using found
    | true =>
      cases dependencyOutcome (statusIn jobs) j.needs with
      | none => simpa using found
      | some outcome => simp

theorem Pass.viewOf_visit_congr (p : Pass) (id : JobID) (same : viewOf jobs = viewOf jobs') :
    viewOf (p.visit id jobs).1 = viewOf (p.visit id jobs').1 := by
  have statuses : statusIn jobs = statusIn jobs' := by
    funext other
    rw [statusIn_eq_viewOf, statusIn_eq_viewOf, same]
  funext other
  by_cases here : other = id
  · subst here
    have seen := congrFun same other
    rw [viewOf, viewOf, p.get?_visit_self, p.get?_visit_self, statuses]
    unfold viewOf at seen
    cases left : jobs.get? other with
    | none =>
      rw [left] at seen
      rw [map_eq_none_iff.mp seen.symm]
    | some j =>
      rw [left] at seen
      obtain ⟨k, right, equal⟩ := map_eq_some_iff.mp seen.symm
      rw [right]
      exact congrArg some (p.visible_next_congr _ equal.symm)
  · rw [viewOf, viewOf, p.get?_visit_ne here, p.get?_visit_ne here]
    exact congrFun same other

theorem Pass.visit_moves (p : Pass) (id : JobID) (jobs : Table JobID Job) :
    (viewOf (p.visit id jobs).1 = viewOf jobs ∧ (p.visit id jobs).2 = []) ∨
      (p.visit id jobs).1.sum (fun _ => stepsLeft) < jobs.sum fun _ => stepsLeft := by
  unfold Pass.visit
  split
  · exact .inl ⟨rfl, rfl⟩
  rename_i j found
  split
  · exact .inl ⟨rfl, rfl⟩
  rename_i waiting
  rw [Bool.not_eq_false] at waiting
  split
  · exact .inl ⟨rfl, rfl⟩
  rename_i outcome _
  dsimp only
  rcases p.scheduleJob_moves outcome waiting with ⟨status, unsettled⟩ | lower
  · refine .inl ⟨?_, by rw [unsettled]; rfl⟩
    obtain ⟨runID, approvedBy, spec⟩ := p.scheduleJob_fixed outcome j
    funext other
    rw [viewOf, viewOf, get?_put]
    split <;> rename_i here
    · rw [here, found]
      exact congrArg some (visible_eq_iff.mpr ⟨status, runID, approvedBy, spec⟩)
    · rfl
  · have total := sum_put_of_get? (fun _ => stepsLeft) found (p.scheduleJob outcome j)
    exact .inr (by omega)

/-- `scheduleStateLocked` as a worklist pass. -/
def Pass.worklist (p : Pass) : Worklist (Table JobID Job) (JobID → Option Job) JobID where
  visit := p.visit
  view := viewOf
  rank := fun jobs => jobs.sum fun _ => stepsLeft
  reads := fun id _ _ same => p.viewOf_visit_congr id same
  ranked := fun _ _ same => sum_stepsLeft_congr same
  moves := p.visit_moves

/-- `scheduleStateLocked`, as far as the jobs; `seed` is the queued and waiting
ones in the order the iteration finds them. -/
def Pass.scheduleState (p : Pass) (seed : List JobID) (jobs : Table JobID Job) : Table JobID Job :=
  p.worklist.run seed jobs

/-! ## Fixpoints -/

/-- The pass has nothing to do for a queued or waiting job: should its needs have
settled, its condition allows their outcome, its ref may deploy, and it waits for
an approval exactly when one is missing. -/
def Pass.Settled (p : Pass) (statusOf : JobID → Option Status) (j : Job) : Prop :=
  ∀ outcome, dependencyOutcome statusOf j.needs = some outcome →
    dependencyConditionAllows j outcome = true ∧
      refRejected p.pathMatch (p.refOf j.runID) j = false ∧
      approvalMissing j = decide (j.status = .waitingApproval)

theorem Pass.scheduleJob_status_iff (p : Pass) (outcome : Status)
    (waiting : j.status.waiting = true) : (p.scheduleJob outcome j).status = j.status ↔
      dependencyConditionAllows j outcome = true ∧
        refRejected p.pathMatch (p.refOf j.runID) j = false ∧
        approvalMissing j = decide (j.status = .waitingApproval) := by
  have held : j.status = .queued ∨ j.status = .waitingApproval := by
    simpa [Status.waiting] using waiting
  rw [p.scheduleJob_status]
  generalize dependencyConditionAllows j outcome = allows
  generalize refRejected p.pathMatch (p.refOf j.runID) j = rejected
  generalize approvalMissing j = missing
  rcases held with held | held <;> rw [held] <;> cases allows <;> cases rejected <;>
    cases missing <;> simp <;> split <;> simp

theorem Pass.visible_next_iff (p : Pass) (statusOf : JobID → Option Status)
    (waiting : j.status.waiting = true) :
    visible (p.next statusOf j) = visible j ↔ p.Settled statusOf j := by
  unfold Pass.next Pass.Settled
  rw [if_pos waiting]
  cases dependencyOutcome statusOf j.needs with
  | none => simp
  | some outcome =>
    obtain ⟨runID, approvedBy, spec⟩ := p.scheduleJob_fixed outcome j
    rw [elim_some, visible_eq_iff, p.scheduleJob_status_iff outcome waiting]
    simp [runID, approvedBy, spec]

theorem Pass.viewOf_visit_iff (p : Pass) {id : JobID}
    (found : jobs.get? id = some j) (waiting : j.status.waiting = true) :
    viewOf (p.visit id jobs).1 = viewOf jobs ↔ p.Settled (statusIn jobs) j := by
  rw [← p.visible_next_iff _ waiting]
  have here : viewOf (p.visit id jobs).1 id = some (visible (p.next (statusIn jobs) j)) := by
    rw [viewOf, p.get?_visit_self, found]
    rfl
  have there : viewOf jobs id = some (visible j) := by rw [viewOf, found]; rfl
  constructor
  · intro same
    rw [same, there] at here
    exact (some.inj here).symm
  · intro same
    funext other
    by_cases equal : other = id
    · rw [equal, here, there, same]
    · rw [viewOf, viewOf, p.get?_visit_ne equal]

/-- What no visit changes of a job. -/
def fixed (j : Job) : Job := { visible j with status := .pending }

theorem visible_eq_iff_fixed :
    visible j = visible k ↔ j.status = k.status ∧ fixed j = fixed k := by
  constructor
  · intro same
    exact ⟨(visible_eq_iff.mp same).1, by rw [fixed, fixed, same]⟩
  · rintro ⟨status, same⟩
    have read {β : Type} (f : Job → β) : f (fixed j) = f (fixed k) := congrArg f same
    exact visible_eq_iff.mpr ⟨status, read Job.runID, read Job.approvedBy, read Job.spec⟩

theorem Pass.fixed_scheduleState (p : Pass) (seed : List JobID) (jobs : Table JobID Job)
    (id : JobID) :
    ((p.scheduleState seed jobs).get? id).map fixed = (jobs.get? id).map fixed := by
  refine p.worklist.run_invariant (fun t => (t.get? id).map fixed = (jobs.get? id).map fixed)
    (fun visited t kept => ?_) seed jobs rfl
  change ((p.visit visited t).1.get? id).map fixed = _
  rw [← kept]
  by_cases here : id = visited
  · subst here
    rw [p.get?_visit_self, map_map]
    refine congrArg (Option.map · (t.get? id)) (funext fun j => ?_)
    change fixed (p.next (statusIn t) j) = fixed j
    unfold Pass.next
    split
    · cases dependencyOutcome (statusIn t) j.needs with
      | none => rfl
      | some outcome =>
        obtain ⟨runID, approvedBy, spec⟩ := p.scheduleJob_fixed outcome j
        rw [elim_some, fixed, fixed, visible, visible, runID, approvedBy, spec]
    · rfl
  · rw [p.get?_visit_ne here]

/-- The pass leaves all statuses alone exactly when it has nothing to do for any
queued or waiting job. -/
theorem Pass.scheduleState_fixpoint_iff (p : Pass)
    (seeded : ∀ id, id ∈ seed ↔ ∃ j, jobs.get? id = some j ∧ j.status.waiting = true) :
    (∀ id, statusIn (p.scheduleState seed jobs) id = statusIn jobs id) ↔
      ∀ id j, jobs.get? id = some j → j.status.waiting = true → p.Settled (statusIn jobs) j := by
  have visits : viewOf (p.scheduleState seed jobs) = viewOf jobs ↔
      ∀ id ∈ seed, viewOf (p.visit id jobs).1 = viewOf jobs := p.worklist.run_view_iff seed jobs
  have statuses : (∀ id, statusIn (p.scheduleState seed jobs) id = statusIn jobs id) ↔
      viewOf (p.scheduleState seed jobs) = viewOf jobs := by
    constructor
    · intro same
      funext id
      have status := same id
      have kept := p.fixed_scheduleState seed jobs id
      unfold statusIn at status
      unfold viewOf
      cases after : (p.scheduleState seed jobs).get? id with
      | none => cases before : jobs.get? id <;> simp_all
      | some j =>
        cases before : jobs.get? id with
        | none => simp_all
        | some k =>
          rw [after, before] at status kept
          exact congrArg some (visible_eq_iff_fixed.mpr
            ⟨some.inj status, some.inj kept⟩)
    · intro same id
      rw [statusIn_eq_viewOf, statusIn_eq_viewOf, same]
  rw [statuses, visits]
  constructor
  · intro idle id j found waiting
    exact (p.viewOf_visit_iff found waiting).mp (idle id ((seeded id).mpr ⟨j, found, waiting⟩))
  · intro settled id member
    obtain ⟨j, found, waiting⟩ := (seeded id).mp member
    exact (p.viewOf_visit_iff found waiting).mpr (settled id j found waiting)

end KiwiCI.Server
