import KiwiCI.Server.Cascade
import KiwiCI.Server.RunStatus

/-!
Whether `scheduleStateLocked` of `internal/server/server.go` depends on the order in
which Go iterates its maps.

The cascade over the jobs does not (`Cascade`).  The sweep over the runs that follows
may: a run whose own jobs succeeded reads its downstream children as they are stored,
which is before or after their own refresh.  `scheduleState_confluent_iff` says when
that makes no difference.
-/

namespace KiwiCI.Server

variable {statusOf' : RunID → Option Status} {runs : Table RunID Run}

variable {test : Status → Bool} {statusOf : RunID → Option Status} {run : Run} {jobs : List Job}
  {runs' : Table RunID Run} {now : Time} {jobs' : Table JobID Job} {order : List RunID}

open Storage Table List

/-- The in-memory maps of the pass. -/
structure Maps where
  jobs : Table JobID Job
  runs : Table RunID Run

/-- The orders in which the pass meets the jobs and the runs. -/
structure Orders extends Iteration where
  runs : List RunID

/-- `order` meets every entry of the map once. -/
def Ranges {κ α : Type} [DecidableEq κ] (order : List κ) (t : Table κ α) : Prop :=
  order.Nodup ∧ ∀ id, id ∈ order ↔ (t.get? id).isSome

/-- The iterations meet every entry of the maps once. -/
structure Orders.Range (o : Orders) (s : Maps) : Prop where
  dependents : Ranges o.dependents s.jobs
  seed : Ranges o.seed s.jobs
  runs : Ranges o.runs s.runs

/-- Two states of the maps with the same entries. -/
def Maps.Same (s t : Maps) : Prop :=
  (∀ id, s.jobs.get? id = t.jobs.get? id) ∧ ∀ id, s.runs.get? id = t.runs.get? id

/-- What the loop over the jobs reads of the runs and the clock. -/
def Maps.pass (s : Maps) (pathMatch : String → String → Bool) (now : Time) : Pass where
  pathMatch := pathMatch
  refOf := fun runID => ((s.runs.get? runID).map (·.ref)).getD ""
  now := now

/-- The loop over the runs. -/
def sweep (now : Time) (jobs : Table JobID Job) (order : List RunID) (runs : Table RunID Run) :
    Table RunID Run :=
  order.foldl (fun runs runID => refreshRunLocked now jobs runID runs) runs

def scheduleStateLocked (pathMatch : String → String → Bool) (now : Time) (o : Orders)
    (s : Maps) : Maps :=
  let jobs := (s.pass pathMatch now).cascade o.toIteration s.jobs
  { jobs := jobs, runs := sweep now jobs o.runs s.runs }

/-! ## What the children say -/

def inFlight (s : Status) : Bool := !s.terminal

def failed (s : Status) : Bool := s = .failure || s = .blocked

def cancelled (s : Status) : Bool := s = .cancelled

def someChild (test : Status → Bool) (statusOf : RunID → Option Status) (children : List RunID) :
    Bool :=
  children.any fun child => (statusOf child).any test

/-- The status the children give a run whose own jobs succeeded. -/
def childVerdict (statusOf : RunID → Option Status) (children : List RunID) : Status :=
  if someChild inFlight statusOf children then .running
  else if someChild failed statusOf children then .failure
  else if someChild cancelled statusOf children then .cancelled
  else .success

section Mixes

variable (stored refreshed : RunID → Option Status) (children : List RunID)

/-- One child passes the test before and after its refresh. -/
def both (test : Status → Bool) : Bool :=
  children.any fun child => (stored child).any test && (refreshed child).any test

/-- No child passes the test, before or after its refresh. -/
def neither (test : Status → Bool) : Bool :=
  children.all fun child => !(stored child).any test && !(refreshed child).any test

/-- The children decide their parent the same way whichever of them are refreshed: one
is in flight before and after, or all are over before and after; then one failed before
and after, or none did; then the same of cancelled ones. -/
def Steady : Prop :=
  both stored refreshed children inFlight ∨
    neither stored refreshed children inFlight ∧
      (both stored refreshed children failed ∨
        neither stored refreshed children failed ∧
          (both stored refreshed children cancelled ∨
            neither stored refreshed children cancelled))

instance : Decidable (Steady stored refreshed children) :=
  inferInstanceAs (Decidable (_ ∨ _))

/-- Some of the children are read before their refresh, the others after it. -/
def Mix (statusOf : RunID → Option Status) : Prop :=
  ∀ child, statusOf child = stored child ∨ statusOf child = refreshed child

variable {stored refreshed children}

theorem someChild_of_both
    (mix : Mix stored refreshed statusOf) (passes : both stored refreshed children test) :
    someChild test statusOf children = true := by
  obtain ⟨child, member, here⟩ := any_eq_true.mp passes
  rw [Bool.and_eq_true] at here
  refine any_eq_true.mpr ⟨child, member, ?_⟩
  rcases mix child with same | same
  · rw [same]
    exact here.1
  · rw [same]
    exact here.2

theorem someChild_of_neither
    (mix : Mix stored refreshed statusOf) (fails : neither stored refreshed children test) :
    someChild test statusOf children = false := by
  refine any_eq_false.mpr fun child member => ?_
  have here := all_eq_true.mp fails child member
  rw [Bool.and_eq_true, Bool.not_eq_true', Bool.not_eq_true'] at here
  rw [Bool.not_eq_true]
  rcases mix child with same | same
  · rw [same]
    exact here.1
  · rw [same]
    exact here.2

/-- A test that all mixes agree on is passed twice by one child, or by none. -/
theorem both_or_neither (agree : ∀ statusOf, Mix stored refreshed statusOf →
      someChild test statusOf children = someChild test stored children) :
    both stored refreshed children test ∨ neither stored refreshed children test := by
  cases passes : someChild test stored children with
  | true =>
    -- read each child where it fails the test, if it does
    refine .inl ?_
    let picked child := if (stored child).any test then refreshed child else stored child
    have mix : Mix stored refreshed picked := by
      intro child
      dsimp only [picked]
      split
      · exact .inr rfl
      · exact .inl rfl
    obtain ⟨child, member, here⟩ := any_eq_true.mp ((agree picked mix).trans passes)
    refine any_eq_true.mpr ⟨child, member, ?_⟩
    dsimp only [picked] at here
    split at here <;> rename_i first
    · simp [first, here]
    · exact absurd here first
  | false =>
    refine .inr (all_eq_true.mpr fun child member => ?_)
    have after := (agree refreshed fun _ => .inr rfl).trans passes
    have first := any_eq_false.mp passes child member
    have second := any_eq_false.mp after child member
    simp [first, second]

theorem childVerdict_running :
    childVerdict statusOf children = .running ↔ someChild inFlight statusOf children = true := by
  unfold childVerdict
  split_ifs <;> simp_all

theorem childVerdict_failure (landed : someChild inFlight statusOf children = false) :
    childVerdict statusOf children = .failure ↔ someChild failed statusOf children = true := by
  unfold childVerdict
  split_ifs <;> simp_all

theorem childVerdict_cancelled (landed : someChild inFlight statusOf children = false)
    (sound : someChild failed statusOf children = false) :
    childVerdict statusOf children = .cancelled ↔ someChild cancelled statusOf children = true := by
  unfold childVerdict
  split_ifs <;> simp_all

/-- The children are steady exactly when every mix of them says the same. -/
theorem steady_iff : Steady stored refreshed children ↔
    ∀ statusOf, Mix stored refreshed statusOf →
      childVerdict statusOf children = childVerdict stored children := by
  have stays : Mix stored refreshed stored := fun _ => .inl rfl
  constructor
  · intro steady statusOf mix
    rcases steady with flying | ⟨landed, failing | ⟨sound, stopped | live⟩⟩
    · simp [childVerdict, someChild_of_both mix flying, someChild_of_both stays flying]
    · simp only [childVerdict, someChild_of_neither mix landed, someChild_of_neither stays landed,
        someChild_of_both mix failing, someChild_of_both stays failing, if_true]
    · simp only [childVerdict, someChild_of_neither mix landed, someChild_of_neither stays landed,
        someChild_of_neither mix sound, someChild_of_neither stays sound,
        someChild_of_both mix stopped, someChild_of_both stays stopped]
    · simp only [childVerdict, someChild_of_neither mix landed, someChild_of_neither stays landed,
        someChild_of_neither mix sound, someChild_of_neither stays sound,
        someChild_of_neither mix live, someChild_of_neither stays live]
  · intro agree
    refine (both_or_neither fun statusOf mix => ?_).imp_right fun landed => ⟨landed, ?_⟩
    · rw [Bool.eq_iff_iff, ← childVerdict_running, ← childVerdict_running, agree statusOf mix]
    have landed' {statusOf} (mix : Mix stored refreshed statusOf) := someChild_of_neither mix landed
    refine (both_or_neither fun statusOf mix => ?_).imp_right fun sound => ⟨sound, ?_⟩
    · rw [Bool.eq_iff_iff, ← childVerdict_failure (landed' mix),
        ← childVerdict_failure (landed' stays), agree statusOf mix]
    have unfailed {statusOf} (mix : Mix stored refreshed statusOf) := someChild_of_neither mix sound
    refine both_or_neither fun statusOf mix => ?_
    rw [Bool.eq_iff_iff, ← childVerdict_cancelled (landed' mix) (unfailed mix),
      ← childVerdict_cancelled (landed' stays) (unfailed stays), agree statusOf mix]

theorem someChild_replace {verdict : Status} (alike : ∀ child, statusOf' child = statusOf child ∨
      (statusOf child).isSome ∧ statusOf' child = some verdict) (test : Status → Bool) :
    (test verdict = true → someChild test statusOf children = true →
        someChild test statusOf' children = true) ∧
      (test verdict = false → someChild test statusOf children = false →
        someChild test statusOf' children = false) := by
  constructor
  · intro accepted passes
    obtain ⟨child, member, here⟩ := any_eq_true.mp passes
    refine any_eq_true.mpr ⟨child, member, ?_⟩
    rcases alike child with same | ⟨_, replaced⟩
    · rwa [same]
    · rw [replaced]
      exact accepted
  · intro rejected fails
    refine any_eq_false.mpr fun child member => ?_
    rcases alike child with same | ⟨_, replaced⟩
    · rw [same]
      exact any_eq_false.mp fails child member
    · simp [replaced, rejected]

/-- Children that took over the verdict leave it as it is. -/
theorem childVerdict_replace (alike : ∀ child, statusOf' child = statusOf child ∨
      (statusOf child).isSome ∧ statusOf' child = some (childVerdict statusOf children)) :
    childVerdict statusOf' children = childVerdict statusOf children := by
  cases flying : someChild inFlight statusOf children with
  | true =>
    rw [childVerdict_running.mpr flying] at alike ⊢
    exact childVerdict_running.mpr ((someChild_replace alike inFlight).1 rfl flying)
  | false =>
    cases failing : someChild failed statusOf children with
    | true =>
      rw [(childVerdict_failure flying).mpr failing] at alike ⊢
      have landed := (someChild_replace alike inFlight).2 rfl flying
      exact (childVerdict_failure landed).mpr ((someChild_replace alike failed).1 rfl failing)
    | false =>
      cases stopped : someChild cancelled statusOf children with
      | true =>
        rw [(childVerdict_cancelled flying failing).mpr stopped] at alike ⊢
        have landed := (someChild_replace alike inFlight).2 rfl flying
        have sound := (someChild_replace alike failed).2 rfl failing
        exact (childVerdict_cancelled landed sound).mpr
          ((someChild_replace alike cancelled).1 rfl stopped)
      | false =>
        have verdict : childVerdict statusOf children = .success := by
          simp [childVerdict, flying, failing, stopped]
        rw [verdict] at alike ⊢
        simp [childVerdict, (someChild_replace alike inFlight).2 rfl flying,
          (someChild_replace alike failed).2 rfl failing,
          (someChild_replace alike cancelled).2 rfl stopped]

end Mixes

/-! ## One refresh -/

def runStatusIn (runs : Table RunID Run) (id : RunID) : Option Status :=
  (runs.get? id).map (·.status)

/-- The run is decided by its children: it has some, and its own jobs all succeeded. -/
def Awaits (run : Run) (jobs : List Job) : Prop :=
  jobs ≠ [] ∧ run.status ≠ .cancelled ∧ run.downstreamRuns ≠ [] ∧
    aggregateStatus (jobs.map (·.status)) = .success

instance (run : Run) (jobs : List Job) : Decidable (Awaits run jobs) :=
  inferInstanceAs (Decidable (_ ∧ _))

/-- A run whose jobs succeeded, with the verdict of its children. -/
def settleRun (run : Run) (verdict : Status) : Run :=
  { run with
    status := verdict, finishedAt := if verdict = .running then none else run.finishedAt }

theorem any_filterMap_get? (runs : Table RunID Run) (test : Status → Bool) (children : List RunID) :
    ((children.filterMap runs.get?).any fun child => test child.status) =
      someChild test (runStatusIn runs) children := by
  induction children with
  | nil => rfl
  | cons child rest ih =>
    rw [someChild, any_cons, ← someChild, ← ih, runStatusIn]
    cases found : runs.get? child with
    | none => simp [found]
    | some run => simp [found]

theorem applyDownstreamChildren_eq (runs : Table RunID Run)
    (children : run.downstreamRuns ≠ []) (succeeded : run.status = .success) :
    applyDownstreamChildren runs run =
      settleRun run (childVerdict (runStatusIn runs) run.downstreamRuns) := by
  have flying := any_filterMap_get? runs inFlight run.downstreamRuns
  have failing := any_filterMap_get? runs failed run.downstreamRuns
  have stopped := any_filterMap_get? runs cancelled run.downstreamRuns
  unfold inFlight at flying
  unfold failed at failing
  unfold cancelled at stopped
  unfold applyDownstreamChildren
  dsimp only
  rw [if_neg children, if_neg (by simp [succeeded]), flying, failing, stopped]
  unfold childVerdict inFlight failed cancelled
  split
  · rfl
  · split
    · rfl
    · split
      · rfl
      · rw [settleRun, if_neg (by simp), ← succeeded]

theorem refreshRun_eq (now : Time) (runs : Table RunID Run)
    (nonempty : jobs ≠ []) (live : run.status ≠ .cancelled) : refreshRun now runs run jobs =
      applyDownstreamChildren runs (aggregate now run (jobs.map jobState)) := by
  have counted := Tally.counted jobs {}
  have total : (jobs.foldl Tally.count {}).total = jobs.length := by
    rw [counted.total, Nat.zero_add]
  unfold refreshRun
  dsimp only
  rw [if_neg (by rw [total]; simpa using nonempty), if_neg live, Tally.assign_eq counted,
    aggregate_eq (by simpa using nonempty) live]
  simp only [List.map_map, filterMap_map, List.filter_map]
  rfl

/-- The status and the children of a run after the aggregation of its own jobs. -/
theorem aggregate_own (now : Time) (nonempty : jobs ≠ []) (live : run.status ≠ .cancelled) :
    (aggregate now run (jobs.map jobState)).status = aggregateStatus (jobs.map (·.status)) ∧
      (aggregate now run (jobs.map jobState)).downstreamRuns = run.downstreamRuns := by
  rw [aggregate_eq (by simpa using nonempty) live]
  refine ⟨?_, rfl⟩
  dsimp only
  rw [map_map]
  rfl

theorem refreshRun_of_awaits (awaits : Awaits run jobs) (now : Time) (runs : Table RunID Run) :
    refreshRun now runs run jobs = settleRun (aggregate now run (jobs.map jobState))
        (childVerdict (runStatusIn runs) run.downstreamRuns) := by
  obtain ⟨nonempty, live, children, succeeded⟩ := awaits
  have own := aggregate_own now nonempty live
  rw [refreshRun_eq now runs nonempty live,
    applyDownstreamChildren_eq runs (by rw [own.2]; exact children) (own.1.trans succeeded), own.2]

/-- A run that does not wait for children is refreshed the same whatever the others are. -/
theorem refreshRun_of_not_awaits (free : ¬ Awaits run jobs) (now : Time) (runs : Table RunID Run) :
    refreshRun now runs run jobs = aggregate now run (jobs.map jobState) := by
  by_cases empty : jobs = []
  · rw [empty]
    exact (aggregate_idle (.inl rfl)).symm
  by_cases stopped : run.status = .cancelled
  · rw [aggregate_idle (.inr stopped), refreshRun, if_pos stopped, ite_self]
  have own := aggregate_own now empty stopped
  rw [refreshRun_eq now runs empty stopped, applyDownstreamChildren, own.2]
  split <;> rename_i children
  · rfl
  · rw [if_pos]
    intro succeeded
    exact free ⟨empty, stopped, children, own.1.symm.trans succeeded⟩

theorem awaits_perm {jobs' : List Job} (perm : jobs.Perm jobs') :
    Awaits run jobs ↔ Awaits run jobs' := by
  have empty : jobs = [] ↔ jobs' = [] :=
    ⟨fun none => (none ▸ perm).nil_eq.symm, fun none => (none ▸ perm).eq_nil⟩
  rw [Awaits, Awaits, aggregateStatus_perm (perm.map (·.status)), ne_eq, ne_eq, empty]

/-- A refresh reads the jobs in no order, and of the other runs what the children say. -/
theorem refreshRun_congr {jobs' : List Job} (perm : jobs.Perm jobs')
    (same : Awaits run jobs → childVerdict (runStatusIn runs) run.downstreamRuns =
      childVerdict (runStatusIn runs') run.downstreamRuns) (now : Time) :
    refreshRun now runs run jobs = refreshRun now runs' run jobs' := by
  have states : aggregate now run (jobs.map jobState) = aggregate now run (jobs'.map jobState) :=
    aggregate_perm (perm.map jobState)
  by_cases awaits : Awaits run jobs
  · rw [refreshRun_of_awaits awaits, refreshRun_of_awaits ((awaits_perm perm).mp awaits), states,
      same awaits]
  · rw [refreshRun_of_not_awaits awaits,
      refreshRun_of_not_awaits (awaits ∘ (awaits_perm perm).mpr), states]

/-- The aggregation of the jobs of a run that was aggregated before. -/
theorem aggregate_again (now : Time) (run : Run) (states : List JobState) :
    aggregate now (aggregate now run states) states = aggregate now run states := by
  by_cases idle : states = [] ∨ (aggregate now run states).status = .cancelled
  · exact aggregate_idle idle
  rw [not_or] at idle
  have live : run.status ≠ .cancelled := by
    intro stopped
    rw [aggregate_idle (.inr stopped)] at idle
    exact idle.2 stopped
  rw [aggregate_eq idle.1 idle.2, aggregate_eq idle.1 live]
  dsimp only
  rw [Option.or_assoc, Option.or_self]
  congr 1
  split <;> rfl

/-- Nor does a verdict of the children in between make a difference. -/
theorem aggregate_settleRun {verdict : Status} (awaits : Awaits run jobs)
    (open' : verdict ≠ .cancelled) :
    aggregate now (settleRun (aggregate now run (jobs.map jobState)) verdict) (jobs.map jobState) =
      aggregate now run (jobs.map jobState) := by
  obtain ⟨nonempty, live, _, succeeded⟩ := awaits
  have states : jobs.map jobState ≠ [] := by simpa using nonempty
  have all : ((jobs.map jobState).map (·.status)).all Status.terminal = true := by
    rw [map_map, ← aggregateStatus_terminal]
    change (aggregateStatus (jobs.map (·.status))).terminal = true
    rw [succeeded]
    rfl
  rw [aggregate_eq states (show (settleRun _ verdict).status ≠ _ from open'),
    aggregate_eq states live, if_pos all, if_pos all, settleRun]
  dsimp only
  rw [Option.or_assoc, Option.or_self]

/-- A refreshed run is refreshed to itself, as long as its children say the same. -/
theorem refreshRun_again
    (same : Awaits run jobs → childVerdict (runStatusIn runs') run.downstreamRuns =
      childVerdict (runStatusIn runs) run.downstreamRuns) :
    refreshRun now runs' (refreshRun now runs run jobs) jobs = refreshRun now runs run jobs := by
  by_cases awaits : Awaits run jobs
  · have own := aggregate_own now awaits.1 awaits.2.1
    rw [refreshRun_of_awaits awaits, ← same awaits]
    by_cases stopped : childVerdict (runStatusIn runs') run.downstreamRuns = .cancelled
    · have free : ¬ Awaits (settleRun (aggregate now run (jobs.map jobState))
          (childVerdict (runStatusIn runs') run.downstreamRuns)) jobs := by
        rintro ⟨_, live, _⟩
        exact live stopped
      rw [refreshRun_of_not_awaits free]
      exact aggregate_idle (.inr stopped)
    · have still : Awaits (settleRun (aggregate now run (jobs.map jobState))
          (childVerdict (runStatusIn runs') run.downstreamRuns)) jobs :=
        ⟨awaits.1, stopped, own.2.trans_ne awaits.2.2.1, awaits.2.2.2⟩
      rw [refreshRun_of_awaits still, aggregate_settleRun awaits stopped]
      congr 2
      exact own.2
  · rw [refreshRun_of_not_awaits awaits]
    have free : ¬ Awaits (aggregate now run (jobs.map jobState)) jobs := by
      rintro ⟨nonempty, live, children, succeeded⟩
      have before : run.status ≠ .cancelled := by
        intro stopped
        rw [aggregate_idle (.inr stopped)] at live
        exact live stopped
      rw [(aggregate_own now nonempty before).2] at children
      exact awaits ⟨nonempty, before, children, succeeded⟩
    rw [refreshRun_of_not_awaits free, aggregate_again]

/-! ## The sweep over the runs -/

theorem jobsForRun_perm {jobs : Table JobID Job} (same : ∀ id, jobs.get? id = jobs'.get? id)
    (runID : RunID) : (jobsForRun jobs runID).Perm (jobsForRun jobs' runID) :=
  ((rows_perm same).filter _).map _

/-- The runs as their refresh leaves them when it comes first. -/
def refreshed (now : Time) (jobs : Table JobID Job) (runs : Table RunID Run) (id : RunID) :
    Option Run :=
  (runs.get? id).map fun run => refreshRun now runs run (jobsForRun jobs id)

/-- The children of every run that waits for them decide it the same way whichever of
them are refreshed. -/
def SteadyChildren (now : Time) (jobs : Table JobID Job) (runs : Table RunID Run) : Prop :=
  ∀ id run, runs.get? id = some run → Awaits run (jobsForRun jobs id) →
    Steady (runStatusIn runs) (fun child => (refreshed now jobs runs child).map (·.status))
      run.downstreamRuns

section Sweep

variable {now : Time} {jobs : Table JobID Job} {runs : Table RunID Run}

theorem sweep_cons (id : RunID) (order : List RunID) (mid : Table RunID Run) :
    sweep now jobs (id :: order) mid =
      sweep now jobs order (refreshRunLocked now jobs id mid) := rfl

theorem get?_refreshRunLocked_ne {id other : RunID} (differ : other ≠ id)
    (mid : Table RunID Run) : (refreshRunLocked now jobs id mid).get? other = mid.get? other := by
  rw [get?_refreshRunLocked]
  simp [differ]

theorem get?_sweep_of_not_mem {id : RunID} (absent : id ∉ order)
    (mid : Table RunID Run) : (sweep now jobs order mid).get? id = mid.get? id := by
  induction order generalizing mid with
  | nil => rfl
  | cons other order ih =>
    rw [mem_cons, not_or] at absent
    rw [sweep_cons, ih absent.2, get?_refreshRunLocked_ne absent.1]

/-- Partly refreshed runs give every run the refresh it would have had first. -/
theorem SteadyChildren.refreshRun_eq (steady : SteadyChildren now jobs runs)
    (mix : ∀ id, mid.get? id = runs.get? id ∨ mid.get? id = refreshed now jobs runs id)
    {id : RunID} (found : runs.get? id = some run) :
    refreshRun now mid run (jobsForRun jobs id) = refreshRun now runs run (jobsForRun jobs id) := by
  refine refreshRun_congr (.refl _) (fun awaits => ?_) now
  exact steady_iff.mp (steady id run found awaits) (runStatusIn mid) fun child =>
    (mix child).imp (congrArg (Option.map Run.status)) (congrArg (Option.map Run.status))

/-- With steady children the sweep gives every run it meets the refresh it would have
had first. -/
theorem SteadyChildren.get?_sweep (steady : SteadyChildren now jobs runs)
    (once : order.Nodup) (ahead : ∀ id ∈ order, mid.get? id = runs.get? id)
    (mix : ∀ id, mid.get? id = runs.get? id ∨ mid.get? id = refreshed now jobs runs id)
    (id : RunID) : (sweep now jobs order mid).get? id =
      if id ∈ order then refreshed now jobs runs id else mid.get? id := by
  induction order generalizing mid with
  | nil => simp [sweep]
  | cons first order ih =>
    rw [nodup_cons] at once
    have here : (refreshRunLocked now jobs first mid).get? first =
        refreshed now jobs runs first := by
      rw [get?_refreshRunLocked, ahead first mem_cons_self, refreshed]
      cases found : runs.get? first with
      | none => rfl
      | some run =>
        rw [Option.map_some, Option.map_some, if_pos rfl, steady.refreshRun_eq mix found]
    have ahead' : ∀ other ∈ order,
        (refreshRunLocked now jobs first mid).get? other = runs.get? other := by
      intro other member
      have differ : other ≠ first := fun same => once.1 (same ▸ member)
      rw [get?_refreshRunLocked_ne differ]
      exact ahead other (mem_cons_of_mem _ member)
    have mix' : ∀ other, (refreshRunLocked now jobs first mid).get? other = runs.get? other ∨
        (refreshRunLocked now jobs first mid).get? other = refreshed now jobs runs other := by
      intro other
      by_cases same : other = first
      · subst same
        exact .inr here
      · rw [get?_refreshRunLocked_ne same]
        exact mix other
    rw [sweep_cons, ih once.2 ahead' mix']
    by_cases same : id = first
    · subst same
      simp [once.1, here]
    · rw [get?_refreshRunLocked_ne same]
      simp [same]

/-- Refreshed runs with steady children stay as they are. -/
theorem SteadyChildren.get?_sweep_again (steady : SteadyChildren now jobs runs)
    (after : ∀ id, t.get? id = refreshed now jobs runs id)
    (order : List RunID) (id : RunID) : (sweep now jobs order t).get? id = t.get? id := by
  induction order generalizing t with
  | nil => rfl
  | cons first order ih =>
    have same : ∀ other, (refreshRunLocked now jobs first t).get? other = t.get? other := by
      intro other
      rw [get?_refreshRunLocked, after other, refreshed, Option.map_map]
      cases found : runs.get? other with
      | none => rfl
      | some run =>
        rw [Option.map_some, Option.map_some]
        congr 1
        dsimp only [Function.comp]
        split <;> rename_i here
        · subst here
          refine refreshRun_again fun awaits => ?_
          exact steady_iff.mp (steady other run found awaits) (runStatusIn t) fun child =>
            .inr (congrArg (Option.map Run.status) (after child))
        · rfl
    rw [sweep_cons, ih fun other => (same other).trans (after other), same]

theorem Ranges.perm {κ α : Type} [DecidableEq κ] {order order' : List κ} {t : Table κ α}
    (ranges : Ranges order t) (perm : order.Perm order') : Ranges order' t :=
  ⟨perm.nodup_iff.mp ranges.1, fun id => perm.mem_iff.symm.trans (ranges.2 id)⟩

variable (orderless : ∀ order order', Ranges order runs → Ranges order' runs →
  ∀ id, (sweep now jobs order runs).get? id = (sweep now jobs order' runs).get? id)
include orderless

/-- If no order makes a difference, every run has the refresh it would have had first. -/
theorem get?_sweep_of_orderless (ranges : Ranges order runs) (id : RunID) :
    (sweep now jobs order runs).get? id = refreshed now jobs runs id := by
  cases found : runs.get? id with
  | none =>
    have absent : id ∉ order := by
      rw [ranges.2 id, found]
      simp
    rw [get?_sweep_of_not_mem absent, refreshed, found, Option.map_none]
  | some run =>
    have member : id ∈ order := (ranges.2 id).mpr (by rw [found]; rfl)
    have perm := perm_cons_erase member
    have unmet : id ∉ order.erase id := ranges.1.not_mem_erase
    rw [orderless order _ ranges (ranges.perm perm), sweep_cons, get?_sweep_of_not_mem unmet,
      get?_refreshRunLocked, refreshed, found, Option.map_some, Option.map_some, if_pos rfl]

open Classical in
/-- Children read in some mix of states are those the sweep leaves when it meets the
refreshed ones first, their parent itself apart. -/
theorem childVerdict_of_orderless (ranges : Ranges order runs) {id : RunID}
    (found : runs.get? id = some run) (awaits : Awaits run (jobsForRun jobs id))
    (mix : Mix (runStatusIn runs) (fun child => (refreshed now jobs runs child).map (·.status))
      statusOf) : childVerdict statusOf run.downstreamRuns =
      childVerdict (runStatusIn runs) run.downstreamRuns := by
  let moved child : Bool := statusOf child ≠ runStatusIn runs child
  let before := (order.erase id).filter moved
  let after := (order.erase id).filter (!moved ·)
  let mid := sweep now jobs before runs
  have member : id ∈ order := (ranges.2 id).mpr (by rw [found]; rfl)
  have perm : order.Perm (before ++ id :: after) :=
    (perm_cons_erase member).trans
      (((filter_append_perm moved _).symm.cons id).trans perm_middle.symm)
  have ranges' := ranges.perm perm
  have final := get?_sweep_of_orderless orderless ranges'
  have swept (child : RunID) : (sweep now jobs (before ++ id :: after) runs).get? child =
      (sweep now jobs after (refreshRunLocked now jobs id mid)).get? child := by
    rw [sweep, foldl_append]
    rfl
  have apart := nodup_append.mp ranges'.1
  have late : id ∉ after := (nodup_cons.mp apart.2.1).1
  have early : id ∉ before := fun here => apart.2.2 id here id mem_cons_self rfl
  -- the runs met before the parent are refreshed when it is met, the others are not
  have ahead (child : RunID) (here : child ∈ before) :
      mid.get? child = refreshed now jobs runs child := by
    have differ : child ≠ id := fun same => early (same ▸ here)
    have unmet : child ∉ after := fun there =>
      apart.2.2 child here child (mem_cons_of_mem id there) rfl
    rw [← final child, swept, get?_sweep_of_not_mem unmet, get?_refreshRunLocked_ne differ]
  have behind (child : RunID) (absent : child ∉ before) : mid.get? child = runs.get? child :=
    get?_sweep_of_not_mem absent runs
  have same : refreshRun now mid run (jobsForRun jobs id) =
      refreshRun now runs run (jobsForRun jobs id) := by
    have here := final id
    rw [swept, get?_sweep_of_not_mem late, get?_refreshRunLocked, behind id early, refreshed, found,
      Option.map_some, Option.map_some, if_pos rfl] at here
    exact Option.some.inj here
  rw [refreshRun_of_awaits awaits, refreshRun_of_awaits awaits] at same
  have verdict : childVerdict (runStatusIn mid) run.downstreamRuns =
      childVerdict (runStatusIn runs) run.downstreamRuns := congrArg Run.status same
  rw [← verdict]
  refine childVerdict_replace fun child => ?_
  by_cases kept : statusOf child = runStatusIn runs child
  · refine .inl (kept.trans ?_)
    have absent : child ∉ before := fun here => by
      simpa [moved, kept] using (mem_filter.mp here).2
    rw [runStatusIn, runStatusIn, behind child absent]
  · have read : statusOf child = (refreshed now jobs runs child).map (·.status) :=
      (mix child).resolve_left kept
    by_cases parent : child = id
    · subst parent
      refine .inr ⟨by rw [runStatusIn, behind child early, found]; rfl, ?_⟩
      rw [read, refreshed, found, Option.map_some, Option.map_some, refreshRun_of_awaits awaits,
        verdict]
      rfl
    · refine .inl (read.trans ?_)
      have known : child ∈ order := by
        rw [ranges.2 child]
        cases missing : runs.get? child with
        | none =>
          refine absurd (read.trans ?_) kept
          rw [refreshed, runStatusIn, missing, Option.map_none, Option.map_none]
        | some _ => rfl
      have here : child ∈ before := by
        refine mem_filter.mpr ⟨(mem_erase_of_ne parent).mpr known, ?_⟩
        simpa [moved] using kept
      rw [runStatusIn, ahead child here]

theorem steadyChildren_of_orderless (ranges : Ranges order runs) :
    SteadyChildren now jobs runs := fun _ _ found awaits =>
  steady_iff.mpr fun _ mix => childVerdict_of_orderless orderless ranges found awaits mix

end Sweep

variable {jobs : Table JobID Job}

/-! ## The pass -/

theorem refreshRunLocked_congr (sameJobs : ∀ id, jobs.get? id = jobs'.get? id)
    (sameRuns : ∀ id, runs.get? id = runs'.get? id) (runID id : RunID) :
    (refreshRunLocked now jobs runID runs).get? id =
      (refreshRunLocked now jobs' runID runs').get? id := by
  have statuses : runStatusIn runs = runStatusIn runs' := by
    funext id
    rw [runStatusIn, runStatusIn, sameRuns]
  rw [get?_refreshRunLocked, get?_refreshRunLocked, sameRuns id]
  cases found : runs'.get? id with
  | none => rfl
  | some run =>
    rw [Option.map_some, Option.map_some]
    congr 1
    split
    · exact refreshRun_congr (jobsForRun_perm sameJobs runID) (fun _ => by rw [statuses]) now
    · rfl

theorem sweep_congr (sameJobs : ∀ id, jobs.get? id = jobs'.get? id)
    (order : List RunID) (sameRuns : ∀ id, runs.get? id = runs'.get? id) (id : RunID) :
    (sweep now jobs order runs).get? id = (sweep now jobs' order runs').get? id := by
  induction order generalizing runs runs' with
  | nil => exact sameRuns id
  | cons first order ih =>
    rw [sweep_cons, sweep_cons]
    exact ih (refreshRunLocked_congr sameJobs sameRuns first)

theorem refreshed_congr (same : ∀ id, jobs.get? id = jobs'.get? id) (runs : Table RunID Run)
    (id : RunID) : refreshed now jobs runs id = refreshed now jobs' runs id := by
  rw [refreshed, refreshed]
  simp only [refreshRun_congr (jobsForRun_perm same id) fun _ => rfl]

theorem SteadyChildren.congr (same : ∀ id, jobs.get? id = jobs'.get? id)
    (steady : SteadyChildren now jobs runs) : SteadyChildren now jobs' runs := by
  intro id run found awaits
  have read : refreshed now jobs' runs = refreshed now jobs runs :=
    funext fun child => (refreshed_congr same runs child).symm
  rw [read]
  exact steady id run found ((awaits_perm (jobsForRun_perm same id)).mpr awaits)

theorem SteadyChildren.get?_sweep_all (steady : SteadyChildren now jobs runs)
    (ranges : Ranges order runs) (id : RunID) :
    (sweep now jobs order runs).get? id = refreshed now jobs runs id := by
  rw [steady.get?_sweep ranges.1 (fun _ _ => rfl) (fun _ => .inl rfl)]
  split <;> rename_i member
  · rfl
  · rw [ranges.2 id, Option.isSome_iff_ne_none, not_not] at member
    rw [refreshed, member, Option.map_none]

theorem refreshRun_ref (now : Time) (runs : Table RunID Run) (run : Run) (jobs : List Job) :
    (refreshRun now runs run jobs).ref = run.ref := by
  have own : (aggregate now run (jobs.map jobState)).ref = run.ref := by
    by_cases idle : jobs.map jobState = [] ∨ run.status = .cancelled
    · rw [aggregate_idle idle]
    · rw [not_or] at idle
      rw [aggregate_eq idle.1 idle.2]
  by_cases awaits : Awaits run jobs
  · rw [refreshRun_of_awaits awaits]
    exact own
  · rw [refreshRun_of_not_awaits awaits, own]

theorem exists_ranges {κ α : Type} [DecidableEq κ] (t : Table κ α) : ∃ order, Ranges order t := by
  refine ⟨t.rows.map Sigma.fst, t.nodupKeys, fun id => ?_⟩
  rw [mem_map, Option.isSome_iff_exists]
  constructor
  · rintro ⟨⟨id, row⟩, member, rfl⟩
    exact ⟨row, mem_rows_iff.mp member⟩
  · rintro ⟨row, found⟩
    exact ⟨⟨id, row⟩, mem_rows_iff.mpr found, rfl⟩

/-- The pass changes queued and waiting jobs only, has nothing left to do, and ends up
the same whatever the orders. -/
structure Confluent (pathMatch : String → String → Bool) (now : Time) (s : Maps) : Prop where
  waitingOnly : ∀ o, Orders.Range o s → ∀ id,
    (∀ j, s.jobs.get? id = some j → j.status.waiting = false) →
    (scheduleStateLocked pathMatch now o s).jobs.get? id = s.jobs.get? id
  again : ∀ o o', Orders.Range o s → Orders.Range o' (scheduleStateLocked pathMatch now o s) →
    (scheduleStateLocked pathMatch now o' (scheduleStateLocked pathMatch now o s)).Same
      (scheduleStateLocked pathMatch now o s)
  orderless : ∀ o o', Orders.Range o s → Orders.Range o' s →
    (scheduleStateLocked pathMatch now o s).Same (scheduleStateLocked pathMatch now o' s)

section Pass

variable {pathMatch : String → String → Bool} {now : Time} {s : Maps}

theorem scheduleStateLocked_solves (pathMatch : String → String → Bool) (now : Time)
    (range : o.Range s) :
    (s.pass pathMatch now).Solves s.jobs (scheduleStateLocked pathMatch now o s).jobs :=
  Pass.cascade_solves _ (fun id => (range.dependents.2 id).mpr) fun id => (range.seed.2 id).mpr

theorem get?_runs_scheduleStateLocked (range : o.Range s)
    (steady : SteadyChildren now (scheduleStateLocked pathMatch now o s).jobs s.runs) (id : RunID) :
    (scheduleStateLocked pathMatch now o s).runs.get? id =
      refreshed now (scheduleStateLocked pathMatch now o s).jobs s.runs id :=
  steady.get?_sweep_all range.runs id

theorem refOf_scheduleStateLocked (range : o.Range s)
    (steady : SteadyChildren now (scheduleStateLocked pathMatch now o s).jobs s.runs) :
    ((scheduleStateLocked pathMatch now o s).pass pathMatch now).refOf =
      (s.pass pathMatch now).refOf := by
  funext runID
  simp only [Maps.pass, get?_runs_scheduleStateLocked range steady, refreshed, Option.map_map,
    Function.comp_def, refreshRun_ref]

theorem scheduleStateLocked_again (range : o.Range s)
    (range' : o'.Range (scheduleStateLocked pathMatch now o s)) (acyclic : AcyclicNeeds s.jobs)
    (steady : SteadyChildren now (scheduleStateLocked pathMatch now o s).jobs s.runs) :
    (scheduleStateLocked pathMatch now o' (scheduleStateLocked pathMatch now o s)).Same
      (scheduleStateLocked pathMatch now o s) := by
  have solves := scheduleStateLocked_solves pathMatch now range
  have refs := refOf_scheduleStateLocked range steady
  have rows := get?_runs_scheduleStateLocked range steady
  generalize scheduleStateLocked pathMatch now o s = t at *
  have solves' := scheduleStateLocked_solves pathMatch now range'
  have jobs := solves'.unique (solves.acyclic acyclic) (solves.again rfl refs)
  refine ⟨jobs, fun id => ?_⟩
  rw [← steady.get?_sweep_again rows o'.runs id]
  exact sweep_congr jobs o'.runs (fun _ => rfl) id

theorem scheduleStateLocked_orderless (range : o.Range s) (range' : o'.Range s)
    (acyclic : AcyclicNeeds s.jobs)
    (steady : ∀ jobs, (s.pass pathMatch now).Solves s.jobs jobs → SteadyChildren now jobs s.runs) :
    (scheduleStateLocked pathMatch now o s).Same (scheduleStateLocked pathMatch now o' s) := by
  have solves := scheduleStateLocked_solves pathMatch now range
  have solves' := scheduleStateLocked_solves pathMatch now range'
  have jobs := solves.unique acyclic solves'
  refine ⟨jobs, fun id => ?_⟩
  rw [get?_runs_scheduleStateLocked range (steady _ solves),
    get?_runs_scheduleStateLocked range' (steady _ solves')]
  exact refreshed_congr jobs s.runs id

theorem confluent_of_steady (acyclic : AcyclicNeeds s.jobs)
    (steady : ∀ jobs, (s.pass pathMatch now).Solves s.jobs jobs → SteadyChildren now jobs s.runs) :
    Confluent pathMatch now s := by
  refine ⟨fun o range id still => ?_, fun o o' range range' => ?_, fun o o' range range' => ?_⟩
  · have solves := scheduleStateLocked_solves pathMatch now range
    cases found : s.jobs.get? id with
    | none => rw [solves id, found, Option.map_none]
    | some j => rw [solves id, found, Option.map_some, Pass.next, if_neg (by simp [still j found])]
  · exact scheduleStateLocked_again range range' acyclic
      (steady _ (scheduleStateLocked_solves pathMatch now range))
  · exact scheduleStateLocked_orderless range range' acyclic steady

theorem steady_of_orderless (acyclic : AcyclicNeeds s.jobs)
    (orderless : ∀ o o', Orders.Range o s → Orders.Range o' s →
      (scheduleStateLocked pathMatch now o s).Same (scheduleStateLocked pathMatch now o' s))
    (jobs : Table JobID Job) (solves : (s.pass pathMatch now).Solves s.jobs jobs) :
    SteadyChildren now jobs s.runs := by
  obtain ⟨base, ranges⟩ := exists_ranges s.jobs
  obtain ⟨order, met⟩ := exists_ranges s.runs
  let o (runs : List RunID) : Orders := { dependents := base, seed := base, runs := runs }
  have range {runs : List RunID} (all : Ranges runs s.runs) : (o runs).Range s :=
    ⟨ranges, ranges, all⟩
  have steady : SteadyChildren now (scheduleStateLocked pathMatch now (o order) s).jobs s.runs :=
    steadyChildren_of_orderless
      (fun runs runs' all all' => (orderless (o runs) (o runs') (range all) (range all')).2) met
  exact steady.congr ((scheduleStateLocked_solves _ _ (range met)).unique acyclic solves)

/-- **When the scheduler pass is confluent.**  For jobs whose needs have no cycle, the
pass changes queued and waiting jobs only, run again changes nothing, and ends up the
same for every iteration order, exactly when the sweep over the runs finds the children
of every run that waits for them steady. -/
theorem scheduleState_confluent_iff (pathMatch : String → String → Bool) (now : Time) (s : Maps)
    (acyclic : AcyclicNeeds s.jobs) :
    Confluent pathMatch now s ↔
      ∀ jobs, (s.pass pathMatch now).Solves s.jobs jobs → SteadyChildren now jobs s.runs :=
  ⟨fun confluent => steady_of_orderless acyclic confluent.orderless, confluent_of_steady acyclic⟩

end Pass

namespace Sweeps

/-- A job that failed and one that needs it, in a run that waits for no other. -/
def cascade : Maps where
  jobs := (Table.empty.put "build" { runID := "main", status := .failure }).put "deploy"
    { runID := "main", status := .queued, needs := ["build"] }
  runs := Table.empty.put "main" { status := .running }

/-- A run whose job succeeded, and the child it waits for, whose job has just failed. -/
def family : Maps where
  jobs := (Table.empty.put "build" { runID := "parent", status := .success }).put "test"
    { runID := "child", status := .failure }
  runs := (Table.empty.put "parent" { status := .running, downstreamRuns := ["child"] }).put
    "child" { status := .running }

def orders (runs : List RunID) : Orders where
  dependents := ["build", "test"]
  seed := ["build", "test"]
  runs := runs

theorem orders_range {runs : List RunID} (perm : runs.Perm ["parent", "child"]) :
    (orders runs).Range family := by
  have jobs : Ranges ["build", "test"] family.jobs := by
    refine ⟨by decide, fun id => ?_⟩
    simp only [family, get?_put, mem_cons]
    split <;> simp_all
  refine ⟨jobs, jobs, Ranges.perm ⟨by decide, fun id => ?_⟩ perm.symm⟩
  simp only [family, get?_put, mem_cons]
  split <;> simp_all

theorem family_acyclic : AcyclicNeeds family.jobs := by
  refine acyclic_of_rank (fun _ => 0) ?_
  rintro need id ⟨j, found, member⟩
  simp only [family, get?_put] at found
  split at found
  · cases found
    cases member
  · split at found <;> cases found
    cases member

theorem family_status (runs : List RunID) (id : RunID) :
    runStatusIn (scheduleStateLocked (fun _ _ => false) 9 (orders runs) family).runs id =
      runStatusIn (sweep 9 family.jobs runs family.runs) id := by
  have idle : (["build", "test"].filter fun id =>
      (family.jobs.get? id).any (·.status.waiting)) = [] := by decide
  rw [scheduleStateLocked, Pass.cascade, orders, idle, Worklist.run_nil]

end Sweeps

open Sweeps in
/-- Where no run waits for another the pass is confluent. -/
theorem cascade_confluent :
    AcyclicNeeds cascade.jobs ∧ Confluent (fun _ _ => false) 9 cascade := by
  have acyclic : AcyclicNeeds cascade.jobs := by
    refine acyclic_of_rank (fun id => if id = "deploy" then 1 else 0) ?_
    rintro need id ⟨j, found, member⟩
    simp only [cascade, get?_put] at found
    split at found
    · cases found
      simp_all
    · split at found <;> cases found
      cases member
  refine ⟨acyclic, (scheduleState_confluent_iff _ 9 cascade acyclic).mpr ?_⟩
  rintro jobs - id run found ⟨_, _, children, _⟩
  simp only [cascade, get?_put] at found
  split at found <;> cases found
  exact absurd rfl children

open Sweeps in
/-- The parent's status depends on whether the sweep meets it before its child. -/
theorem parent_swept_before_child :
    AcyclicNeeds family.jobs ∧
      (orders ["parent", "child"]).Range family ∧ (orders ["child", "parent"]).Range family ∧
      runStatusIn (scheduleStateLocked (fun _ _ => false) 9 (orders ["parent", "child"])
        family).runs "parent" = some .running ∧
      runStatusIn (scheduleStateLocked (fun _ _ => false) 9 (orders ["child", "parent"])
        family).runs "parent" = some .failure := by
  rw [family_status, family_status]
  exact ⟨family_acyclic, orders_range (.refl _), orders_range (.swap _ _ _), by decide, by decide⟩

end KiwiCI.Server
