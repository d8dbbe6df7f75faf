import KiwiCI.Scheduler
import KiwiCI.Server.Schedule

/-!
The dependency gate of the executor, `depsOutcome` and the loop of `Run` in
`internal/executor/executor.go`, against the gate of the control plane.

Both ask `ConditionAllows`, but in different contexts: the control plane leaves
the environment empty, and the runner derives the branch from the ref in its own
way.  `conditionReads` lists what a condition looks up there, and `evalFuel_congr`
says that nothing else matters.
-/

namespace KiwiCI.Pipeline

variable {c c' : EvalContext}

open Text List

/-! ## What a condition looks up -/

/-- A value the control plane and the executor may see differently. -/
inductive Lookup where
  | branch
  | env (name : String)
  deriving DecidableEq, Repr

/-- What `resolveConditionValue` looks up. -/
def valueReads (v : List Char) : List Lookup :=
  let v := trimBy isSpace v
  if v = "event".toList then []
  else if v = "branch".toList then [.branch]
  else if v = "status".toList then []
  else if "env.".toList.isPrefixOf v then [.env (String.ofList (v.drop 4))]
  else []

/-- What `evalAtom` looks up. -/
def atomReads (expr : List Char) : List Lookup :=
  match branchMatchCall expr with
  | some _ => [.branch]
  | none => (comparison expr).elim [] fun (left, _, _) => valueReads left

/-- What `evalFuel` looks up, whatever the operands before decide. -/
def readsFuel : Nat → List Char → List Lookup
  | 0, _ => []
  | fuel + 1, expr =>
    let expr := stripOuterParens expr
    if expr.head? = some '!' then
      readsFuel fuel (stripOuterParens (stripBangs expr.length expr).2)
    else
      match splitLogical expr "||".toList with
      | first :: second :: rest => (first :: second :: rest).flatMap (readsFuel fuel)
      | _ =>
        match splitLogical expr "&&".toList with
        | first :: second :: rest => (first :: second :: rest).flatMap (readsFuel fuel)
        | _ => atomReads expr

/-- What a condition looks up. -/
def conditionReads (expr : String) : List Lookup :=
  readsFuel ((trimSpace expr).toList.length + 1) (trimSpace expr).toList

/-- Two contexts give every value of `reads` the same. -/
structure EvalContext.AgreeOn (reads : List Lookup) (c c' : EvalContext) : Prop where
  status : c.status = c'.status
  event : c.event = c'.event
  branch : .branch ∈ reads → c.branch = c'.branch
  env : ∀ name, .env name ∈ reads → (c.env.lookup name).getD "" = (c'.env.lookup name).getD ""

theorem EvalContext.AgreeOn.mono
    (agree : c.AgreeOn reads c') (sub : ∀ r ∈ reads', r ∈ reads) : c.AgreeOn reads' c' where
  status := agree.status
  event := agree.event
  branch := fun member => agree.branch (sub _ member)
  env := fun name member => agree.env name (sub _ member)

theorem resolveConditionValue_congr
    (agree : c.AgreeOn (valueReads v) c') : resolveConditionValue v c = resolveConditionValue v c' := by
  unfold valueReads at agree
  unfold resolveConditionValue
  dsimp only at agree ⊢
  by_cases event : trimBy isSpace v = "event".toList
  · rw [if_pos event, if_pos event, agree.event]
  rw [if_neg event] at agree
  rw [if_neg event, if_neg event]
  by_cases branch : trimBy isSpace v = "branch".toList
  · rw [if_pos branch] at agree
    rw [if_pos branch, if_pos branch, agree.branch mem_cons_self]
  rw [if_neg branch] at agree
  rw [if_neg branch, if_neg branch]
  by_cases status : trimBy isSpace v = "status".toList
  · rw [if_pos status, if_pos status, agree.status]
  rw [if_neg status] at agree
  rw [if_neg status, if_neg status]
  by_cases env : "env.".toList.isPrefixOf (trimBy isSpace v) = true
  · rw [if_pos env] at agree
    rw [if_pos env, if_pos env, agree.env _ mem_cons_self]
  · rw [if_neg env, if_neg env]

theorem evalAtom_congr
    (agree : c.AgreeOn (atomReads expr) c') : evalAtom expr c = evalAtom expr c' := by
  unfold atomReads at agree
  unfold evalAtom
  rw [agree.status]
  cases glob : branchMatchCall expr with
  | some pattern =>
    rw [glob] at agree
    dsimp only
    rw [agree.branch mem_cons_self]
  | none =>
    rw [glob] at agree
    cases sides : comparison expr with
    | none => rfl
    | some parts =>
      rw [sides] at agree
      obtain ⟨left, equal, right⟩ := parts
      dsimp only
      rw [resolveConditionValue_congr agree]

theorem evalPieces_congr {f g : List Char → Option Bool}
    (same : ∀ p ∈ pieces, f p = g p) : evalPieces f stop pieces = evalPieces g stop pieces := by
  induction pieces with
  | nil => rfl
  | cons first rest ih =>
    rw [evalPieces, evalPieces, same first mem_cons_self,
      ih fun p member => same p (mem_cons_of_mem _ member)]

/-- The evaluation depends on nothing but what it looks up. -/
theorem evalFuel_congr (fuel : Nat)
    (agree : c.AgreeOn (readsFuel fuel expr) c') : evalFuel fuel expr c = evalFuel fuel expr c' := by
  induction fuel generalizing expr with
  | zero => rfl
  | succ fuel ih =>
    unfold readsFuel at agree
    unfold evalFuel
    dsimp only at agree ⊢
    by_cases negated : (stripOuterParens expr).head? = some '!'
    · rw [if_pos negated] at agree
      rw [if_pos negated, if_pos negated, ih agree]
    rw [if_neg negated] at agree
    rw [if_neg negated, if_neg negated]
    have pieces {first second : List Char} {rest : List (List Char)} (stop : Bool)
        (agree : c.AgreeOn ((first :: second :: rest).flatMap (readsFuel fuel)) c') :
        evalPieces (evalFuel fuel · c) stop (first :: second :: rest) =
          evalPieces (evalFuel fuel · c') stop (first :: second :: rest) :=
      evalPieces_congr fun p member =>
        ih (agree.mono fun r inside => mem_flatMap.mpr ⟨p, member, inside⟩)
    split
    · rfl
    split
    · rfl
    generalize splitLogical (stripOuterParens expr) "||".toList = ors at agree ⊢
    generalize splitLogical (stripOuterParens expr) "&&".toList = ands at agree ⊢
    rcases ors with _ | ⟨first, _ | ⟨second, rest⟩⟩
    · rcases ands with _ | ⟨first, _ | ⟨second, rest⟩⟩
      · exact evalAtom_congr agree
      · exact evalAtom_congr agree
      · exact pieces false agree
    · rcases ands with _ | ⟨first, _ | ⟨second, rest⟩⟩
      · exact evalAtom_congr agree
      · exact evalAtom_congr agree
      · exact pieces false agree
    · exact pieces true agree

theorem conditionAllows_congr
    (agree : c.AgreeOn (conditionReads expr) c') : conditionAllows expr c = conditionAllows expr c' := by
  unfold conditionAllows
  dsimp only
  by_cases empty : trimSpace expr = ""
  · rw [if_pos empty]
    have plain (c : EvalContext) : eval "success()" c =
        some (c.status ≠ Status.failure.text && c.status ≠ Status.cancelled.text &&
          c.status ≠ Status.blocked.text) := by
      rfl
    rw [plain, plain, agree.status]
  · rw [if_neg empty]
    unfold eval
    split
    · rfl
    · rw [evalFuel_congr _ agree]

end KiwiCI.Pipeline

namespace KiwiCI.Executor

variable {statusOf : JobID → Option Status}

open Storage

/-! ## The gates -/

/-- `depsOutcome` with the outcome so far; `none` is "not ready". -/
def depsOutcomeFrom (statuses : JobID → Option Status) (outcome : Status) :
    List JobID → Option Status
  | [] => some outcome
  | d :: needs =>
    match statuses d with
    | none => none
    | some st =>
      if st.terminal = false then none
      else
        depsOutcomeFrom statuses
          (match st with
            | .failure | .blocked => .failure
            | .cancelled => if outcome ≠ .failure then .cancelled else outcome
            | _ => outcome)
          needs

def depsOutcome (needs : List JobID) (statuses : JobID → Option Status) : Option Status :=
  depsOutcomeFrom statuses .success needs

/-- `dependencyConditionAllows` of the executor. -/
def dependencyConditionAllows (expr branch event : String) (status : Status)
    (env : List (String × String)) : Bool :=
  Pipeline.conditionAllows expr { status := status.text, branch, event, env }

/-- `branchFromRef` of the runner, the branch in the options of its executor. -/
def branchFromRef (ref : String) : String :=
  Text.trimPrefix "refs/" (Text.trimPrefix "refs/heads/" ref)

/-- What a gate decides about a job. -/
inductive Verdict where
  | wait
  | run
  | skipped
  | blocked
  deriving DecidableEq, Repr

/-- The gate in the loop of `Run`. -/
def gate (branch event : String) (statuses : JobID → Option Status) (needs : List JobID)
    (condition : String) (env : List (String × String)) : Verdict :=
  match depsOutcome needs statuses with
  | none => .wait
  | some depStatus =>
    if dependencyConditionAllows condition branch event depStatus env then .run
    else if depStatus = .success then .skipped
    else .blocked

/-- The verdict of `Run`, which records the status of the jobs that are over. -/
def runGate (statusOf : JobID → Option Status) (j : Job) (env : List (String × String)) : Verdict :=
  gate (branchFromRef j.ref) j.event (fun id => (statusOf id).filter Status.terminal) j.needs
    j.condition env

def controlGate (statusOf : JobID → Option Status) (j : Job) : Verdict :=
  match dependencyOutcome statusOf j.needs with
  | none => .wait
  | some outcome =>
    if Storage.dependencyConditionAllows j outcome then .run
    else if outcome = .success then .skipped
    else .blocked

/-- What a verdict makes of the status of a job. -/
def Verdict.status (held : Status) : Verdict → Status
  | .wait | .run => held
  | .skipped => .skipped
  | .blocked => .blocked

theorem depsOutcomeFrom_eq
    (known : ∀ need ∈ needs, (statusOf need).isSome = true) (outcome : Status) :
    depsOutcomeFrom (fun id => (statusOf id).filter Status.terminal) outcome needs =
      dependencyOutcomeFrom statusOf outcome needs := by
  induction needs generalizing outcome with
  | nil => rfl
  | cons need rest ih =>
    obtain ⟨st, found⟩ := Option.isSome_iff_exists.mp (known need List.mem_cons_self)
    have tail := fun o => ih (fun id member => known id (List.mem_cons_of_mem _ member)) o
    rw [depsOutcomeFrom, dependencyOutcomeFrom, found]
    cases settled : st.terminal with
    | false =>
      have gone : (some st).filter Status.terminal = none := by simp [Option.filter, settled]
      simp [gone, settled]
    | true =>
      have kept : (some st).filter Status.terminal = some st := by simp [Option.filter, settled]
      simp only [kept, settled, Bool.true_eq_false, if_false]
      exact tail _

/-- The verdict of the executor, where both sides look up the same. -/
theorem controlGate_eq_runGate (known : ∀ need ∈ j.needs, (statusOf need).isSome = true)
    (sameBranch : .branch ∈ Pipeline.conditionReads j.condition →
      branchFromRef j.ref = Pipeline.conditionBranchFromRef j.ref)
    (unset : ∀ name, .env name ∈ Pipeline.conditionReads j.condition →
      (env.lookup name).getD "" = "") : controlGate statusOf j = runGate statusOf j env := by
  have outcomes : depsOutcome j.needs (fun id => (statusOf id).filter Status.terminal) =
      dependencyOutcome statusOf j.needs := depsOutcomeFrom_eq known .success
  have allows (outcome : Status) : Storage.dependencyConditionAllows j outcome =
      dependencyConditionAllows j.condition (branchFromRef j.ref) j.event outcome env :=
    Pipeline.conditionAllows_congr
      ⟨rfl, rfl, fun reads => (sameBranch reads).symm, fun name reads => (unset name reads).symm⟩
  rw [controlGate, runGate, gate, outcomes]
  cases dependencyOutcome statusOf j.needs with
  | none => rfl
  | some outcome =>
    dsimp only
    rw [allows]

/-! ## The call sites of the control plane -/

/-- Once the needs have settled, the verdict is about the condition. -/
theorem controlGate_of_ready
    (ready : dependencyOutcome statusOf j.needs = some outcome) : controlGate statusOf j =
      if Storage.dependencyConditionAllows j outcome then .run
      else if outcome = .success then .skipped else .blocked := by
  rw [controlGate, ready]

theorem controlGate_of_unready
    (unready : dependencyOutcome statusOf j.needs = none) : controlGate statusOf j = .wait := by
  rw [controlGate, unready]

/-- A settled dependent carries out the verdict on its condition. -/
theorem resolveDependent_gated (now : Time) (j : Job) (outcome : Status) :
    (resolveDependent now j outcome).status =
      (if Storage.dependencyConditionAllows j outcome then Verdict.run
        else if outcome = .success then .skipped
        else .blocked).status j.status := by
  have read : Storage.dependencyConditionAllows { j with dependencyStatus := some outcome } outcome =
      Storage.dependencyConditionAllows j outcome := Storage.dependencyConditionAllows_congr rfl outcome
  unfold resolveDependent
  dsimp only
  rw [read]
  generalize Storage.dependencyConditionAllows j outcome = allows
  cases allows with
  | true => rfl
  | false =>
    by_cases green : outcome = .success
    · simp only [green]
      rfl
    · simp only [green, if_false]
      rfl

/-- `recomputeDependentTx` carries out the verdict. -/
theorem recomputeDependentTx_gated
    (found : db.jobs.get? depID = some row) (decodes : row.payload.decode = some j)
    (waiting : j.status.waiting = true) :
    ∃ db', recomputeDependentTx now db depID = .ok db' ∧
      (controlGate db.statusOf j = .wait → db' = db) ∧
      (controlGate db.statusOf j ≠ .wait →
        db'.statusOf depID = some ((controlGate db.statusOf j).status j.status)) := by
  have waits : ¬j.status.waiting = false := by rw [waiting]; decide
  unfold recomputeDependentTx
  rw [found]
  cases ready : dependencyOutcome db.statusOf j.needs with
  | none =>
    refine ⟨db, bind_ok_iff.mpr ⟨j, orThrow_ok_iff.mpr decodes, ?_⟩, fun _ => rfl,
      fun moved => absurd (controlGate_of_unready ready) moved⟩
    rw [if_neg waits, ready]
    rfl
  | some outcome =>
    refine ⟨{ db with
        jobs := db.jobs.put depID (row.writeDependent (resolveDependent now j outcome)) },
      bind_ok_iff.mpr ⟨j, orThrow_ok_iff.mpr decodes, ?_⟩, fun unmoved => ?_, fun _ => ?_⟩
    · rw [if_neg waits, ready]
      rfl
    · rw [controlGate_of_ready ready] at unmoved
      split at unmoved
      · cases unmoved
      · split at unmoved <;> cases unmoved
    · have written (d : Job) : (row.writeDependent d).status = d.status := rfl
      rw [DB.statusOf, Table.get?_put_self, Option.map_some, written, resolveDependent_gated,
        controlGate_of_ready ready]

/-- A visit of `scheduleStateLocked` carries out the verdict; a job that may run
still has its ref and approval gates ahead. -/
theorem visit_gated (p : Server.Pass) {id : JobID}
    (found : jobs.get? id = some j) (waiting : j.status.waiting = true) :
    (controlGate (Server.statusIn jobs) j = .wait → (p.visit id jobs).1 = jobs) ∧
      (controlGate (Server.statusIn jobs) j = .run → ∃ outcome,
        (p.visit id jobs).1.get? id = some (p.gate { j with dependencyStatus := some outcome })) ∧
      (controlGate (Server.statusIn jobs) j = .skipped ∨
          controlGate (Server.statusIn jobs) j = .blocked →
        Server.statusIn (p.visit id jobs).1 id =
          some ((controlGate (Server.statusIn jobs) j).status j.status)) := by
  have waits : ¬j.status.waiting = false := by rw [waiting]; decide
  unfold Server.Pass.visit
  rw [found]
  dsimp only
  rw [if_neg waits]
  cases ready : dependencyOutcome (Server.statusIn jobs) j.needs with
  | none =>
    rw [controlGate_of_unready ready]
    exact ⟨fun _ => rfl, nofun, by rintro (wait | wait) <;> cases wait⟩
  | some outcome =>
    rw [controlGate_of_ready ready]
    dsimp only
    refine ⟨fun unmoved => ?_, fun runs => ⟨outcome, ?_⟩, fun rejected => ?_⟩
    · split at unmoved
      · cases unmoved
      · split at unmoved <;> cases unmoved
    · have allows : Storage.dependencyConditionAllows j outcome = true := by
        by_contra rejects
        rw [if_neg rejects] at runs
        split at runs <;> cases runs
      rw [Table.get?_put_self, Server.Pass.scheduleJob, if_pos allows]
    · have rejects : ¬Storage.dependencyConditionAllows j outcome = true := by
        intro allows
        rw [if_pos allows] at rejected
        rcases rejected with run | run <;> cases run
      rw [Server.statusIn, Table.get?_put_self, Option.map_some, Server.Pass.scheduleJob,
        if_neg rejects, resolveDependent_gated]

/-- `eligible` offers exactly the jobs that may run, among those the lease
predicate admits. -/
theorem eligible_gated (w : Scheduler.LeaseWalk)
    (env : Scheduler.envRunningOf j db = .ok envRunning)
    (group : Scheduler.groupRunningOf j db = .ok groupRunning)
    (admits : (w.predicate j envRunning groupRunning).allows = true)
    (listed : Scheduler.listJobs (fun row => row.runID = j.runID) db = .ok jobs) :
    w.eligible j db = .ok (controlGate
      (fun id => (jobs.find? fun j => j.id = id).map (·.status)) j = .run) := by
  have admitted : ¬(w.predicate j envRunning groupRunning).allows = false := by rw [admits]; decide
  unfold Scheduler.LeaseWalk.eligible
  refine bind_ok_iff.mpr ⟨envRunning, env, bind_ok_iff.mpr ⟨groupRunning, group, ?_⟩⟩
  rw [if_neg admitted]
  refine bind_ok_iff.mpr ⟨jobs, listed, ?_⟩
  dsimp only
  cases ready : dependencyOutcome (fun id => (jobs.find? fun j => j.id = id).map (·.status)) j.needs with
  | none =>
    rw [controlGate_of_unready ready]
    rfl
  | some outcome =>
    rw [controlGate_of_ready ready]
    dsimp only
    generalize Storage.dependencyConditionAllows j outcome = allows
    cases allows with
    | true => rfl
    | false => by_cases green : outcome = .success <;> simp [green, pure_ok_iff]

end KiwiCI.Executor
