import KiwiCI.Server.Schedule

/-!
The cascade of `scheduleStateLocked` over the jobs, in any order.

Go iterates the jobs in an order of its own, to list the dependents of each job and
to fill the queue.  Whatever the orders, the cascade ends in a table that the rule for
one job (`Pass.next`) settles on, given the final statuses (`Pass.Solves`).  When the
needs have no cycle there is only one such table, and the cascade finds nothing to do
in it.
-/

namespace KiwiCI.Server

variable {statusOf statusOf' : JobID → Option Status} {needs : List JobID} {outcome : Status}
  {jobs : Table JobID Job}

open Storage Table Pass Option List

/-- The orders in which the loop over the jobs meets them: to list their dependents, and
to fill the queue. -/
structure Iteration where
  dependents : List JobID
  seed : List JobID

/-- One iteration of the loop, where `order` is the one the dependents were listed in. -/
def Pass.visitIn (p : Pass) (order : List JobID) (id : JobID) (jobs : Table JobID Job) :
    Table JobID Job × List JobID :=
  ((p.visit id jobs).1, order.filter fun d => (p.visit id jobs).2.contains d)

theorem Pass.visitIn_moves (p : Pass) (order : List JobID) (id : JobID) (jobs : Table JobID Job) :
    (viewOf (p.visitIn order id jobs).1 = viewOf jobs ∧ (p.visitIn order id jobs).2 = []) ∨
      (p.visitIn order id jobs).1.sum (fun _ => stepsLeft) < jobs.sum fun _ => stepsLeft := by
  rcases p.visit_moves id jobs with ⟨same, idle⟩ | lower
  · refine .inl ⟨same, filter_eq_nil_iff.mpr fun d _ => ?_⟩
    rw [idle]
    simp
  · exact .inr lower

def Pass.worklistIn (p : Pass) (order : List JobID) :
    Worklist (Table JobID Job) (JobID → Option Job) JobID where
  visit := p.visitIn order
  view := viewOf
  rank := fun jobs => jobs.sum fun _ => stepsLeft
  reads := fun id _ _ same => p.viewOf_visit_congr id same
  ranked := fun _ _ same => sum_stepsLeft_congr same
  moves := p.visitIn_moves order

/-- The loop over the jobs, from the queued and waiting ones. -/
def Pass.cascade (p : Pass) (o : Iteration) (jobs : Table JobID Job) : Table JobID Job :=
  (p.worklistIn o.dependents).run
    (o.seed.filter fun id => (jobs.get? id).any (·.status.waiting)) jobs

/-! ## The outcome of the needs -/

/-- What settled stays settled: the outcome of needs that are missing or over. -/
theorem dependencyOutcomeFrom_stable
    (missing : ∀ need, statusOf need = none → statusOf' need = none)
    (kept : ∀ need d, statusOf need = some d → d.terminal = true → statusOf' need = some d)
    (settled : dependencyOutcomeFrom statusOf outcome needs = some result) :
    dependencyOutcomeFrom statusOf' outcome needs = some result := by
  induction needs generalizing outcome with
  | nil => exact settled
  | cons need needs ih =>
    rw [dependencyOutcomeFrom] at settled ⊢
    cases found : statusOf need with
    | none =>
      rw [found] at settled
      rw [missing need found]
      exact settled
    | some d =>
      rw [found] at settled
      dsimp only at settled
      split at settled
      · cases settled
      · rename_i terminal
        rw [Bool.not_eq_false] at terminal
        rw [kept need d found terminal]
        dsimp only
        rw [if_neg (by simp [terminal])]
        exact ih settled

/-! ## The cascade over the jobs -/

/-- Every row is what the rule for one job makes of it, given the final statuses. -/
def Pass.Solves (p : Pass) (jobs jobs' : Table JobID Job) : Prop :=
  ∀ id, jobs'.get? id = (jobs.get? id).map (p.next (statusIn jobs'))

theorem Pass.scheduleJob_needs (p : Pass) (outcome : Status) (j : Job) :
    (p.scheduleJob outcome j).needs = j.needs :=
  (Job.fields_of_spec (p.scheduleJob_fixed outcome j).2.2).1

theorem Pass.scheduleJob_dependencyStatus (p : Pass) (outcome : Status) (j : Job) :
    (p.scheduleJob outcome j).dependencyStatus = some outcome := by
  unfold scheduleJob gate resolveDependent
  dsimp only
  split_ifs <;> rfl

/-- A visit has nothing to do for a job that says what its needs settled on and is let
through, and waits for an approval exactly when one is missing. -/
theorem Pass.scheduleJob_idle (p : Pass) (recorded : j.dependencyStatus = some outcome)
    (allows : dependencyConditionAllows j outcome = true)
    (accepted : refRejected p.pathMatch (p.refOf j.runID) j = false)
    (approval : approvalMissing j = decide (j.status = .waitingApproval)) :
    p.scheduleJob outcome j = j := by
  have same : { j with dependencyStatus := some outcome } = j := by rw [← recorded]
  rw [scheduleJob, if_pos allows, same, gate, if_neg (by simp [accepted])]
  by_cases waits : j.status = .waitingApproval
  · rw [if_pos (by simp [approval, waits]), if_neg (by simp [waits])]
  · rw [if_neg (by simp [approval, waits]), if_neg waits]

/-- A visit that leaves a job queued or waiting leaves nothing for a later one, at
whatever time. -/
theorem Pass.scheduleJob_scheduleJob {p q : Pass} (globs : q.pathMatch = p.pathMatch)
    (refs : q.refOf = p.refOf)
    (waiting : (p.scheduleJob outcome j).status.waiting = true) :
    q.scheduleJob outcome (p.scheduleJob outcome j) = p.scheduleJob outcome j := by
  obtain ⟨runID, approvedBy, spec⟩ := p.scheduleJob_fixed outcome j
  obtain ⟨_, _, _, _, branches, required⟩ := Job.fields_of_spec spec
  have status := p.scheduleJob_status outcome j
  have rejects : refRejected q.pathMatch (q.refOf (p.scheduleJob outcome j).runID)
      (p.scheduleJob outcome j) = refRejected p.pathMatch (p.refOf j.runID) j := by
    rw [refRejected, refRejected, globs, refs, runID, branches]
  have missing : approvalMissing (p.scheduleJob outcome j) = approvalMissing j := by
    rw [approvalMissing, approvalMissing, required, approvedBy]
  have allows := dependencyConditionAllows_congr spec outcome
  -- the statuses a visit may leave a job waiting with
  cases allowed : dependencyConditionAllows j outcome with
  | false =>
    rw [status, allowed] at waiting
    cases outcome <;> cases waiting
  | true =>
    cases rejected : refRejected p.pathMatch (p.refOf j.runID) j with
    | true =>
      rw [status, allowed, rejected] at waiting
      cases waiting
    | false =>
      refine q.scheduleJob_idle (p.scheduleJob_dependencyStatus outcome j)
        (allows.trans allowed) (rejects.trans rejected) ?_
      rw [missing, status, allowed, rejected]
      cases approvalMissing j with
      | true => rfl
      | false =>
        by_cases waits : j.status = .waitingApproval
        · simp [waits]
        · simp [waits]

theorem Pass.visit_cases (p : Pass) (id : JobID) (jobs : Table JobID Job) :
    (p.visit id jobs = (jobs, []) ∧ ∀ j, jobs.get? id = some j → j.status.waiting = true →
        dependencyOutcome (statusIn jobs) j.needs = none) ∨
      ∃ j outcome, jobs.get? id = some j ∧ j.status.waiting = true ∧
        dependencyOutcome (statusIn jobs) j.needs = some outcome ∧
        p.visit id jobs = (jobs.put id (p.scheduleJob outcome j),
          if (p.scheduleJob outcome j).status.terminal then
            pushed (jobs.put id (p.scheduleJob outcome j)) id
          else []) := by
  cases found : jobs.get? id with
  | none => exact .inl ⟨by simp [visit, found], by simp⟩
  | some j =>
    cases waiting : j.status.waiting with
    | false => exact .inl ⟨by simp [visit, found, waiting], by simp [waiting]⟩
    | true =>
      cases outcome : dependencyOutcome (statusIn jobs) j.needs with
      | none => exact .inl ⟨by simp [visit, found, waiting, outcome], by simp [outcome]⟩
      | some outcome' =>
        exact .inr ⟨j, outcome', rfl, waiting, outcome,
          by simp [visit, found, waiting, outcome]⟩

/-- Where the cascade stands: every row is as it was or as its visit leaves it, and the
waiting jobs out of the queue need no visit. -/
structure Pass.Underway (p : Pass) (start : Table JobID Job) (queue : List JobID)
    (jobs : Table JobID Job) : Prop where
  rows : ∀ id, jobs.get? id = start.get? id ∨ ∃ j outcome, start.get? id = some j ∧
    j.status.waiting = true ∧ dependencyOutcome (statusIn jobs) j.needs = some outcome ∧
    jobs.get? id = some (p.scheduleJob outcome j)
  done : ∀ id j outcome, id ∉ queue → jobs.get? id = some j → j.status.waiting = true →
    dependencyOutcome (statusIn jobs) j.needs = some outcome →
    jobs.get? id = (start.get? id).map (p.scheduleJob outcome)

theorem statusIn_put (jobs : Table JobID Job) (id : JobID) (k : Job) (other : JobID) :
    statusIn (jobs.put id k) other = if other = id then some k.status else statusIn jobs other := by
  rw [statusIn, get?_put]
  split <;> rfl

section Put

variable {jobs : Table JobID Job} {id : JobID} {j : Job} (found : jobs.get? id = some j)
  (waiting : j.status.waiting = true) (k : Job)

include found waiting

theorem dependencyOutcome_put_stable
    (settled : dependencyOutcome (statusIn jobs) needs = some outcome) :
    dependencyOutcome (statusIn (jobs.put id k)) needs = some outcome := by
  have held : statusIn jobs id = some j.status := by rw [statusIn, found, map_some]
  refine dependencyOutcomeFrom_stable (fun need missing => ?_) (fun need d known terminal => ?_)
    settled
  · rw [statusIn_put, if_neg, missing]
    rintro rfl
    rw [held] at missing
    cases missing
  · rw [statusIn_put, if_neg, known]
    rintro rfl
    rw [held] at known
    cases known
    rw [Status.not_terminal_of_waiting waiting] at terminal
    cases terminal

/-- Needs that settle with a job's visit need the job, and it is over. -/
theorem dependencyOutcome_put_new
    (settled : dependencyOutcome (statusIn (jobs.put id k)) needs = some outcome) :
    dependencyOutcome (statusIn jobs) needs = some outcome ∨
      id ∈ needs ∧ k.status.terminal = true := by
  have held : statusIn jobs id = some j.status := by rw [statusIn, found, map_some]
  by_cases needed : id ∈ needs ∧ k.status.terminal = true
  · exact .inr needed
  · refine .inl ?_
    rw [← settled]
    refine dependencyOutcomeFrom_congr (fun need member => ?_) .success
    rw [statusIn_put]
    by_cases same : need = id
    · subst same
      have still : k.status.terminal = false :=
        Bool.not_eq_true _ ▸ fun terminal => needed ⟨member, terminal⟩
      exact .inr ⟨j.status, k.status, held, if_pos rfl,
        Status.not_terminal_of_waiting waiting, still⟩
    · exact .inl (if_neg same).symm

end Put

namespace Pass.Underway

variable {p : Pass} {start jobs : Table JobID Job} {queue : List JobID} {id : JobID} {j : Job}

theorem kept (underway : p.Underway start queue jobs) (id : JobID)
    (present : (jobs.get? id).isSome) : (start.get? id).isSome := by
  rcases underway.rows id with same | ⟨j, _, row, _⟩
  · rwa [← same]
  · rw [row]
    rfl

/-- A job whose needs have settled is as it was, or its visit has been made: another
one makes the same of it. -/
theorem started (underway : p.Underway start queue jobs) (found : jobs.get? id = some j)
    (waiting : j.status.waiting = true)
    (settled : dependencyOutcome (statusIn jobs) j.needs = some outcome) :
    ∃ j₀, start.get? id = some j₀ ∧ j₀.status.waiting = true ∧ j.needs = j₀.needs ∧
      p.scheduleJob outcome j = p.scheduleJob outcome j₀ := by
  rcases underway.rows id with same | ⟨j₀, result, row, waits, outcome', after⟩
  · exact ⟨j, same ▸ found, waiting, rfl, rfl⟩
  · rw [found, eq_comm, some.injEq] at after
    subst after
    rw [p.scheduleJob_needs, outcome'] at settled
    cases settled
    exact ⟨j₀, row, waits, p.scheduleJob_needs _ _, scheduleJob_scheduleJob rfl rfl waiting⟩

theorem solves (underway : p.Underway start [] jobs) : p.Solves start jobs := by
  intro id
  rcases underway.rows id with same | ⟨j, outcome, row, waits, settled, after⟩
  · rw [same]
    cases row : start.get? id with
    | none => rfl
    | some j =>
      rw [row] at same
      rw [map_some, next]
      split <;> rename_i waits
      · cases settled : dependencyOutcome (statusIn jobs) j.needs with
        | none => rfl
        | some outcome =>
          have visited := underway.done id j outcome not_mem_nil same waits settled
          rw [same, row, map_some] at visited
          rw [elim_some]
          exact visited
      · rfl
  · rw [after, row, map_some, next, if_pos waits, settled, elim_some]

end Pass.Underway

theorem Pass.Underway.put {p : Pass} {id : JobID} (order : List JobID)
    (covers : ∀ id, (start.get? id).isSome → id ∈ order)
    (underway : p.Underway start (id :: rest) jobs)
    (found : jobs.get? id = some j) (waiting : j.status.waiting = true)
    (settled : dependencyOutcome (statusIn jobs) j.needs = some outcome) : p.Underway start
      (enqueue rest (order.filter fun d => (if (p.scheduleJob outcome j).status.terminal then
            pushed (jobs.put id (p.scheduleJob outcome j)) id else []).contains d))
      (jobs.put id (p.scheduleJob outcome j)) := by
  have stable (needs : List JobID) (result : Status) :
      dependencyOutcome (statusIn jobs) needs = some result →
        dependencyOutcome (statusIn (jobs.put id (p.scheduleJob outcome j))) needs = some result :=
    dependencyOutcome_put_stable found waiting (p.scheduleJob outcome j)
  obtain ⟨j₀, before, waits, needs, visited⟩ := underway.started found waiting settled
  constructor
  · intro other
    by_cases same : other = id
    · subst same
      rw [get?_put_self]
      exact .inr ⟨j₀, outcome, before, waits, needs ▸ stable _ _ settled, by rw [visited]⟩
    · rw [get?_put_ne _ _ same]
      rcases underway.rows other with kept | ⟨j', result, row, held, outcome', after⟩
      · exact .inl kept
      · exact .inr ⟨j', result, row, held, stable _ _ outcome', after⟩
  · intro other j' result absent row held outcome'
    rw [mem_enqueue, not_or] at absent
    by_cases same : other = id
    · subst same
      rw [get?_put_self] at row ⊢
      rw [some.injEq] at row
      subst row
      rw [p.scheduleJob_needs, stable _ _ settled] at outcome'
      cases outcome'
      rw [before, map_some, visited]
    · rw [get?_put_ne _ _ same] at row ⊢
      rcases dependencyOutcome_put_new found waiting _ outcome' with old | ⟨needed, terminal⟩
      · exact underway.done other j' result (by simp [same, absent.1]) row held old
      · -- a dependent that is not in the queue yet is put there
        refine absurd (mem_filter.mpr ⟨covers other ?_, ?_⟩) absent.2
        · exact underway.kept other (by rw [row]; rfl)
        · rw [if_pos terminal, contains_iff_mem, pushed, mem_select]
          exact ⟨j', by rw [get?_put_ne _ _ same, row], by simp [held, needed]⟩

theorem Pass.Underway.visit {p : Pass} {start : Table JobID Job} {order : List JobID}
    (covers : ∀ id, (start.get? id).isSome → id ∈ order) (id : JobID) (rest : List JobID)
    (jobs : Table JobID Job) (underway : p.Underway start (id :: rest) jobs) :
    p.Underway start (enqueue rest (p.visitIn order id jobs).2) (p.visitIn order id jobs).1 := by
  unfold visitIn
  rcases p.visit_cases id jobs with
    ⟨idle, unsettled⟩ | ⟨j, outcome, found, waiting, settled, visited⟩
  · rw [idle]
    refine ⟨underway.rows, fun other j result absent row held outcome => ?_⟩
    rw [mem_enqueue, not_or] at absent
    by_cases same : other = id
    · subst same
      rw [unsettled j row held] at outcome
      cases outcome
    · exact underway.done other j result (by simp [same, absent.1]) row held outcome
  · rw [visited]
    dsimp only
    exact underway.put order covers found waiting settled

theorem Pass.cascade_solves (p : Pass)
    (dependents : ∀ id, (jobs.get? id).isSome → id ∈ o.dependents)
    (seed : ∀ id, (jobs.get? id).isSome → id ∈ o.seed) : p.Solves jobs (p.cascade o jobs) := by
  have start : p.Underway jobs (o.seed.filter fun id => (jobs.get? id).any (·.status.waiting))
      jobs := by
    refine ⟨fun _ => .inl rfl, fun id j outcome absent found waiting _ => ?_⟩
    refine absurd (mem_filter.mpr ⟨seed id (by rw [found]; rfl), ?_⟩) absent
    rw [found]
    exact waiting
  have final : p.Underway jobs [] (p.cascade o jobs) :=
    (p.worklistIn o.dependents).run_queue_invariant (p.Underway jobs)
      (Underway.visit dependents) _ jobs start
  exact final.solves

/-! ## There is one solution -/

/-- `need` is among the needs of `id`. -/
def Needs (jobs : Table JobID Job) (need id : JobID) : Prop :=
  ∃ j, jobs.get? id = some j ∧ need ∈ j.needs

/-- No job needs itself, directly or through others. -/
def AcyclicNeeds (jobs : Table JobID Job) : Prop :=
  ∀ id, ¬ Relation.TransGen (Needs jobs) id id

theorem AcyclicNeeds.wellFounded (acyclic : AcyclicNeeds jobs) : WellFounded (Needs jobs) := by
  refine wellFounded_of_acyclic
    (finite_toSet (jobs.rows.flatMap fun e => e.1 :: e.2.needs)) ?_ acyclic
  rintro need id ⟨j, found, member⟩
  have row : (⟨id, j⟩ : Σ _ : JobID, Job) ∈ jobs.rows := mem_rows_iff.mpr found
  exact ⟨mem_flatMap.mpr ⟨_, row, mem_cons_of_mem _ member⟩,
    mem_flatMap.mpr ⟨_, row, mem_cons_self⟩⟩

theorem Pass.next_congr (p : Pass) (same : ∀ need ∈ j.needs, statusOf need = statusOf' need) :
    p.next statusOf j = p.next statusOf' j := by
  have outcome : dependencyOutcome statusOf j.needs = dependencyOutcome statusOf' j.needs :=
    dependencyOutcomeFrom_congr (fun need member => .inl (same need member)) .success
  rw [next, next, outcome]

namespace Pass.Solves

variable {p : Pass} {jobs jobs' jobs'' : Table JobID Job}

theorem unique (acyclic : AcyclicNeeds jobs) (solves : p.Solves jobs jobs')
    (solves' : p.Solves jobs jobs'') (id : JobID) : jobs'.get? id = jobs''.get? id := by
  induction id using acyclic.wellFounded.induction with
  | _ id ih =>
    rw [solves id, solves' id]
    cases found : jobs.get? id with
    | none => rfl
    | some j =>
      refine congrArg some (p.next_congr fun need member => ?_)
      rw [statusIn, statusIn, ih need ⟨j, found, member⟩]

theorem needs_iff (solves : p.Solves jobs jobs') (need id : JobID) :
    Needs jobs' need id ↔ Needs jobs need id := by
  unfold Needs
  rw [solves id]
  cases jobs.get? id with
  | none => simp
  | some j =>
    have kept : (p.next (statusIn jobs') j).needs = j.needs := by
      rw [next]
      split
      · cases dependencyOutcome (statusIn jobs') j.needs with
        | none => rfl
        | some outcome => rw [elim_some, p.scheduleJob_needs]
      · rfl
    simp [kept]

theorem acyclic (solves : p.Solves jobs jobs') (acyclic : AcyclicNeeds jobs) :
    AcyclicNeeds jobs' := by
  intro id cycle
  refine acyclic id (Relation.TransGen.mono (fun need id => ?_) id id cycle)
  exact (solves.needs_iff need id).mp

/-- A solution solves the rules again, at whatever time. -/
theorem again (solves : p.Solves jobs jobs') {q : Pass} (globs : q.pathMatch = p.pathMatch)
    (refs : q.refOf = p.refOf) : q.Solves jobs' jobs' := by
  intro id
  cases found : jobs.get? id with
  | none => rw [solves id, found, map_none, map_none]
  | some j =>
    have row : jobs'.get? id = some (p.next (statusIn jobs') j) := by
      rw [solves id, found, map_some]
    rw [row, map_some]
    congr 1
    unfold next
    split <;> rename_i waiting
    · cases settled : dependencyOutcome (statusIn jobs') j.needs with
      | none => simp [waiting, settled]
      | some outcome =>
        rw [elim_some, p.scheduleJob_needs, settled, elim_some]
        split <;> rename_i waits
        · exact (scheduleJob_scheduleJob globs refs waits).symm
        · rfl
    · rfl

end Pass.Solves

end KiwiCI.Server
