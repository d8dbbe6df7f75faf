import KiwiCI.Executor.Gate
import KiwiCI.Pipeline.Spec

/-!
The local execution of a compiled graph: `Run` in `internal/executor/executor.go`.

The loop of `Run` and the goroutines it starts are one machine (`step`): the loop takes a
step, or a goroutine gives its slot back, or sends what it came to.  `turn` is what the
loop decides about a job it takes off its queue.  Whatever the order, the statuses come to
be the only ones that agree with `turn` everywhere (`Explains`).
-/

namespace KiwiCI.Executor

variable {f : String → Option Status} {needs : List String}

/-! ## The plan -/

/-- The options `Run` reads. -/
structure Options where
  maxParallel : Nat
  onlyJob : String := ""
  branch : String := ""
  event : String := ""
  runnerLabels : List String := []
  runnerRegions : List String := []

/-- `model.JobResult` of a job that is over: every return of `runJob` sets a terminal
status. -/
structure JobResult where
  jobID : String
  status : Status
  error : String := ""
  outputs : Table String String := .empty
  settled : status.terminal = true := by rfl

/-- The outputs of the needs of a job, by their names. -/
abbrev NeedsOutputs := Table String (Table String String)

/-- What `Run` is given: the jobs of the graph, the options, what running a job comes to,
and the order in which the loops over the map of jobs meet them. -/
structure Plan where
  jobs : Table String Pipeline.CompiledJob
  opt : Options
  runJob : Pipeline.CompiledJob → Status → NeedsOutputs → JobResult
  order : List String

def placementMismatch (opt : Options) (cj : Pipeline.CompiledJob) : String :=
  match (cj.job.runner ++ cj.job.placement.labels).find? fun l =>
      l ≠ "" && !opt.runnerLabels.contains l with
  | some l => "no runner with required label " ++ l
  | none =>
    match cj.job.placement.regions.find? fun r => r ≠ "" && !opt.runnerRegions.contains r with
    | some r => "no runner in required region " ++ r
    | none => ""

/-- `collectNeedsOutputs`: by id, and by base id where only one need has it. -/
def collectNeedsOutputs (needs : List String) (jobs : Table String Pipeline.CompiledJob)
    (results : Table String JobResult) : NeedsOutputs :=
  let baseCount (base : String) : Nat :=
    (needs.filterMap jobs.get?).countP fun cj => cj.baseID = base
  needs.foldl (fun out id =>
    match results.get? id with
    | none => out
    | some res =>
      if res.outputs.rows.isEmpty then out
      else
        let out := out.put id res.outputs
        match jobs.get? id with
        | some cj => if baseCount cj.baseID = 1 then out.put cj.baseID res.outputs else out
        | none => out) .empty

/-- The reverse edges `Run` builds. -/
def Plan.dependents (p : Plan) (of : String) : List String :=
  p.order.flatMap fun id =>
    (((p.jobs.get? id).map (·.needs)).getD []).filterMap fun dep =>
      if dep = of then some id else none

/-! ## The loop -/

/-- What the loop does with a job it takes off its queue. -/
inductive Turn where
  /-- The job is over without running. -/
  | settle (status : Status) (result : Option JobResult)
  /-- Some need is not over. -/
  | wait
  /-- The job is started, and comes to the result. -/
  | launch (result : JobResult)

/-- The body of the inner loop of `Run`, for a pending job. -/
def Plan.turn (p : Plan) (id : String) (cj : Pipeline.CompiledJob)
    (statuses : Table String Status) (results : Table String JobResult) : Turn :=
  if p.opt.onlyJob ≠ "" ∧ cj.baseID ≠ p.opt.onlyJob ∧ cj.id ≠ p.opt.onlyJob then
    .settle .skipped none
  else if placementMismatch p.opt cj ≠ "" then
    .settle .skipped (some
      { jobID := id, status := .skipped, error := placementMismatch p.opt cj })
  else
    match depsOutcome cj.needs statuses.get? with
    | none => .wait
    | some depStatus =>
      if dependencyConditionAllows cj.job.condition p.opt.branch p.opt.event depStatus
          (cj.job.env.rows.map fun row => (row.1, row.2)) then
        .launch (p.runJob cj depStatus (collectNeedsOutputs cj.needs p.jobs results))
      else if depStatus = .success then
        .settle .skipped (some
          { jobID := id, status := .skipped, error := "condition not satisfied" })
      else
        .settle .blocked (some { jobID := id, status := .blocked, error := "dependency failed" })

/-- Where the goroutine of `Run` stands. -/
inductive Control where
  /-- At the condition of the outer loop. -/
  | head
  /-- At the condition of the inner loop. -/
  | drain
  /-- Waiting for a slot for the job, which will come to the result. -/
  | acquire (id : String) (result : JobResult)
  /-- After the inner loop. -/
  | receive
  | returned (deadlock : Bool)

/-- A job that was started, with the statuses at that time. -/
structure Start where
  id : String
  statuses : Table String Status

/-- What `Run` keeps about the jobs. -/
structure Books where
  statuses : Table String Status := .empty
  results : Table String JobResult := .empty
  pending : List String
  queue : List String
  queued : List String
  running : Nat := 0
  started : List Start := []

/-- The variables of `Run`, with the goroutines it started: those in `runJob`, which hold a
slot, those that gave it back, and what was sent. -/
structure State extends Books where
  scheduled : Bool := false
  control : Control := .head
  working : List (String × JobResult) := []
  released : List (String × JobResult) := []
  done : List (String × JobResult) := []

/-- One round of `pushDeps`. -/
def Books.push (b : Books) (id : String) : Books :=
  if b.pending.contains id && !b.queued.contains id then
    { b with queued := id :: b.queued, queue := b.queue ++ [id] }
  else b

def Books.pushDeps (p : Plan) (of : String) (b : Books) : Books :=
  (p.dependents of).foldl Books.push b

/-- The status and the result of a job are recorded, and its dependents looked at again. -/
def Books.record (p : Plan) (id : String) (status : Status) (result : Option JobResult)
    (b : Books) : Books :=
  Books.pushDeps p id { b with
    statuses := b.statuses.put id status
    results := (result.map fun r => b.results.put id r).getD b.results }

/-- The first of the queue is taken off it. -/
def Books.pop (id : String) (queue : List String) (b : Books) : Books :=
  { b with queue := queue, queued := b.queued.filter (· ≠ id) }

/-- A job is no longer pending. -/
def Books.leave (id : String) (b : Books) : Books :=
  { b with pending := b.pending.filter (· ≠ id) }

/-- A job is started. -/
def Books.launch (id : String) (b : Books) : Books :=
  { b.leave id with running := b.running + 1, started := ⟨id, b.statuses⟩ :: b.started }

/-- A pending job that was taken off the queue has its turn. -/
def State.take (p : Plan) (id : String) (cj : Pipeline.CompiledJob) (s : State) : State :=
  match p.turn id cj s.statuses s.results with
  | .settle status result => { s with toBooks := (s.leave id).record p id status result }
  | .wait => s
  | .launch result =>
    { s with toBooks := s.launch id, scheduled := true, control := .acquire cj.id result }

/-- A step of the goroutine of `Run`; `none` when it has to wait. -/
def State.advance (p : Plan) (s : State) : Option State :=
  match s.control with
  | .head =>
    if s.pending ≠ [] ∨ 0 < s.running then some { s with scheduled := false, control := .drain }
    else some { s with control := .returned false }
  | .drain =>
    match s.queue with
    | [] => some { s with control := .receive }
    | id :: queue =>
      let s := { s with toBooks := s.pop id queue }
      if s.pending.contains id then some (s.take p id ((p.jobs.get? id).getD {})) else some s
  | .acquire id result =>
    if s.working.length < p.opt.maxParallel then
      some { s with working := s.working ++ [(id, result)], control := .drain }
    else none
  | .receive =>
    if 0 < s.running then
      match s.done with
      | [] => none
      | c :: done =>
        some { s with
          toBooks := Books.record p c.1 c.2.status (some c.2)
            { s.toBooks with running := s.running - 1 }
          done := done
          control := .head }
    else if !s.scheduled ∧ s.pending ≠ [] then some { s with control := .returned true }
    else some { s with control := .head }
  | .returned _ => none

/-- Who takes the next step. -/
inductive Event where
  | main
  /-- The goroutine at the position in `working` is back from `runJob`. -/
  | release (position : Nat)
  /-- The goroutine at the position in `released` sends its completion. -/
  | send (position : Nat)

/-- One step of the loop or of a goroutine. -/
def step (p : Plan) (event : Event) (s : State) : Option State :=
  match event with
  | .main => s.advance p
  | .release i =>
    s.working[i]?.map fun c =>
      { s with working := s.working.eraseIdx i, released := s.released ++ [c] }
  | .send i =>
    s.released[i]?.map fun c =>
      { s with released := s.released.eraseIdx i, done := s.done ++ [c] }

/-- `Run` before its first round. -/
def Plan.start (p : Plan) : State where
  pending := p.order
  queue := p.jobs.sorted.map Prod.fst
  queued := p.jobs.sorted.map Prod.fst

/-! ## What a turn depends on -/

theorem depsOutcomeFrom_congr (same : ∀ need ∈ needs, f need = g need) (outcome : Status) :
    depsOutcomeFrom f outcome needs = depsOutcomeFrom g outcome needs := by
  induction needs generalizing outcome with
  | nil => rfl
  | cons need rest ih =>
    rw [depsOutcomeFrom, depsOutcomeFrom, same need List.mem_cons_self]
    have tail := fun o => ih (fun n member => same n (List.mem_cons_of_mem _ member)) o
    cases g need with
    | none => rfl
    | some st => simp only [tail]

theorem depsOutcomeFrom_some (ready : depsOutcomeFrom f outcome needs = some result) :
    ∀ need ∈ needs, ∃ st, f need = some st ∧ st.terminal = true := by
  induction needs generalizing outcome with
  | nil => exact fun _ none => by cases none
  | cons need rest ih =>
    rw [depsOutcomeFrom] at ready
    cases found : f need with
    | none =>
      rw [found] at ready
      cases ready
    | some st =>
      rw [found] at ready
      dsimp only at ready
      split at ready
      · cases ready
      · rename_i ended
        intro n member
        rcases List.mem_cons.mp member with rfl | later
        · exact ⟨st, found, by simpa using ended⟩
        · exact ih ready n later

/-- A job that is not ready has a need that is not over. -/
theorem depsOutcomeFrom_none (unready : depsOutcomeFrom f outcome needs = none) :
    ∃ need ∈ needs, ∀ st, f need = some st → st.terminal = false := by
  induction needs generalizing outcome with
  | nil => cases unready
  | cons need rest ih =>
    rw [depsOutcomeFrom] at unready
    cases found : f need with
    | none => exact ⟨need, List.mem_cons_self, fun st held => by rw [found] at held; cases held⟩
    | some st =>
      rw [found] at unready
      dsimp only at unready
      split at unready
      · rename_i going
        refine ⟨need, List.mem_cons_self, fun st' held => ?_⟩
        rw [found] at held
        cases held
        exact going
      · obtain ⟨later, member, going⟩ := ih unready
        exact ⟨later, List.mem_cons_of_mem _ member, going⟩

section Turn

variable {p : Plan} {id : String} {cj : Pipeline.CompiledJob}
  {statuses statuses' : Table String Status} {results results' : Table String JobResult}

theorem turn_congr (same : ∀ need ∈ cj.needs, statuses.get? need = statuses'.get? need ∧
      results.get? need = results'.get? need) :
    p.turn id cj statuses results = p.turn id cj statuses' results' := by
  have outcome : depsOutcome cj.needs statuses.get? = depsOutcome cj.needs statuses'.get? :=
    depsOutcomeFrom_congr (fun need member => (same need member).1) .success
  have outputs : collectNeedsOutputs cj.needs p.jobs results =
      collectNeedsOutputs cj.needs p.jobs results' :=
    List.foldl_ext _ _ _ fun out need member => by rw [(same need member).2]
  rw [Plan.turn, Plan.turn, outcome, outputs]

/-- A turn that is not put off stays what it was while more jobs settle. -/
theorem turn_stays (decided : p.turn id cj statuses results ≠ .wait)
    (extends' : ∀ k st, statuses.get? k = some st →
      statuses'.get? k = some st ∧ results'.get? k = results.get? k) :
    p.turn id cj statuses' results' = p.turn id cj statuses results := by
  cases ready : depsOutcome cj.needs statuses.get? with
  | some outcome =>
    refine turn_congr fun need member => ?_
    obtain ⟨st, held, -⟩ := depsOutcomeFrom_some ready need member
    obtain ⟨kept, result⟩ := extends' need st held
    exact ⟨kept.trans held.symm, result⟩
  | none =>
    -- the job was settled before its needs were looked at
    unfold Plan.turn at decided ⊢
    by_cases other : p.opt.onlyJob ≠ "" ∧ cj.baseID ≠ p.opt.onlyJob ∧ cj.id ≠ p.opt.onlyJob
    · rw [if_pos other, if_pos other]
    · rw [if_neg other] at decided
      rw [if_neg other, if_neg other]
      by_cases elsewhere : placementMismatch p.opt cj ≠ ""
      · rw [if_pos elsewhere, if_pos elsewhere]
      · rw [if_neg elsewhere, ready] at decided
        exact absurd rfl decided

theorem turn_settle_terminal
    (turn : p.turn id cj statuses results = .settle status result) : status.terminal = true := by
  unfold Plan.turn at turn
  split at turn
  · cases turn
    rfl
  split at turn
  · cases turn
    rfl
  split at turn
  · cases turn
  split at turn
  · cases turn
  split at turn <;> cases turn <;> rfl

theorem turn_wait (turn : p.turn id cj statuses results = .wait) :
    ∃ need ∈ cj.needs, ∀ st, statuses.get? need = some st → st.terminal = false := by
  unfold Plan.turn at turn
  split at turn
  · cases turn
  split at turn
  · cases turn
  split at turn
  · rename_i unready
    exact depsOutcomeFrom_none unready
  split at turn
  · cases turn
  split at turn <;> cases turn

/-- The needs of a job that is started are over, and its condition allows their outcome. -/
theorem turn_launch (turn : p.turn id cj statuses results = .launch result) :
    ∃ outcome, depsOutcome cj.needs statuses.get? = some outcome ∧
      dependencyConditionAllows cj.job.condition p.opt.branch p.opt.event outcome
        (cj.job.env.rows.map fun row => (row.1, row.2)) = true := by
  unfold Plan.turn at turn
  split at turn
  · cases turn
  split at turn
  · cases turn
  split at turn
  · cases turn
  rename_i outcome ready
  split at turn
  · rename_i allows
    exact ⟨outcome, ready, allows⟩
  split at turn <;> cases turn

end Turn

end KiwiCI.Executor
