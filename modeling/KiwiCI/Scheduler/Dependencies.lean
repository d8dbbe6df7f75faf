import KiwiCI.Storage.Dependents

/-!
The outcome of a set of needs: `internal/scheduler/dependencies.go`.

The scan stops at the first need that is missing, as a failure, and at the first that is
not over, as not ready.  The order of the needs plays no part exactly where only one kind of
these is among them.
-/

namespace KiwiCI.Scheduler.Dependencies

open Storage

/-- The state of a need: the preloaded one, or else what `get` finds. -/
def resolve (statuses : Table JobID Status) (get : Option (JobID → Option Status))
    (depID : JobID) : Option Status :=
  (statuses.get? depID).or (get.bind (· depID))

/-- The loop of `DependencyOutcome`, with the outcome so far. -/
def dependencyOutcomeFrom (statuses : Table JobID Status) (get : Option (JobID → Option Status))
    (outcome : Status) : List JobID → Bool × Status
  | [] => (true, outcome)
  | depID :: deps =>
    match resolve statuses get depID with
    | none => (true, .failure)
    | some st =>
      if st.terminal = false then (false, .pending)
      else
        dependencyOutcomeFrom statuses get
          (match st with
            | .failure | .blocked => .failure
            | .cancelled => if outcome ≠ .failure then .cancelled else outcome
            | _ => outcome)
          deps

/-- `DependencyOutcome`: ready, and the aggregate outcome. -/
def dependencyOutcome (deps : List JobID) (statuses : Table JobID Status)
    (get : Option (JobID → Option Status)) : Bool × Status :=
  dependencyOutcomeFrom statuses get .success deps

/-- The pair the store's `dependencyOutcome` returns. -/
def asPair (outcome : Option Status) : Bool × Status := (outcome.isSome, outcome.getD .pending)

/-- The two layers run one loop. -/
theorem dependencyOutcomeFrom_eq (statuses : Table JobID Status)
    (get : Option (JobID → Option Status)) (outcome : Status) (needs : List JobID) :
    dependencyOutcomeFrom statuses get outcome needs =
      asPair (Storage.dependencyOutcomeFrom (resolve statuses get) outcome needs) := by
  induction needs generalizing outcome with
  | nil => rfl
  | cons need needs ih =>
    rw [dependencyOutcomeFrom, Storage.dependencyOutcomeFrom]
    cases resolve statuses get need with
    | none => rfl
    | some st =>
      dsimp only
      split
      · rfl
      · exact ih _

/-! ## What the needs hold -/

variable {statusOf : JobID → Option Status} {needs : List JobID}

/-- The need is known, and not over. -/
def unfinished (statusOf : JobID → Option Status) (need : JobID) : Bool :=
  (statusOf need).any (!·.terminal)

/-- The need counts as a failure. -/
def failed (statusOf : JobID → Option Status) (need : JobID) : Bool :=
  (statusOf need).all fun st => st = .failure || st = .blocked

/-- Unless a missing need may hide an unfinished one, the scan answers by what is among the
needs, whatever their order. -/
theorem dependencyOutcomeFrom_any (calm : (∀ need ∈ needs, statusOf need ≠ none) ∨
      ∀ need ∈ needs, unfinished statusOf need = false) (outcome : Status) :
    Storage.dependencyOutcomeFrom statusOf outcome needs =
      if needs.any (unfinished statusOf) then none
      else if needs.any (failed statusOf) then some .failure
      else if needs.any (statusOf · = some .cancelled) ∧ outcome ≠ .failure then some .cancelled
      else some outcome := by
  induction needs generalizing outcome with
  | nil => simp [Storage.dependencyOutcomeFrom]
  | cons need needs ih =>
    have rest := ih (calm.imp (fun known => (List.forall_mem_cons.mp known).2)
      fun done => (List.forall_mem_cons.mp done).2)
    rw [Storage.dependencyOutcomeFrom]
    cases held : statusOf need with
    | none =>
      -- A missing need leaves only finished ones.
      have done := calm.resolve_left fun known => known need List.mem_cons_self held
      have calm : (need :: needs).any (unfinished statusOf) = false :=
        List.any_eq_false.mpr fun other member => by simp [done other member]
      simp [calm, failed, held]
    | some st =>
      by_cases failing : outcome = .failure <;> cases st <;>
        simp [unfinished, failed, held, Status.terminal, rest, failing]

/-- Scheduler and store agree on every list of the same needs exactly where no missing need
stands beside an unfinished one. -/
theorem outcome_order_free_iff (statuses : Table JobID Status)
    (get : Option (JobID → Option Status)) (needs : List JobID) :
    (∀ others : List JobID, (∀ id, id ∈ others ↔ id ∈ needs) →
      dependencyOutcome others statuses get =
          asPair (Storage.dependencyOutcome (resolve statuses get) others) ∧
        dependencyOutcome others statuses get = dependencyOutcome needs statuses get) ↔
      ¬ ((∃ need ∈ needs, resolve statuses get need = none) ∧
        ∃ need ∈ needs, unfinished (resolve statuses get) need = true) := by
  constructor
  · rintro same ⟨⟨missing, listed, gone⟩, going, going_listed, unfinished⟩
    have first := (same (missing :: needs) (by simpa using listed)).2
    have second := (same (going :: needs) (by simpa using going_listed)).2
    have differ := first.trans second.symm
    obtain ⟨st, held, still⟩ := (Option.any_eq_true _ _).mp unfinished
    have done : st.terminal = false := by simpa using still
    simp [dependencyOutcome, dependencyOutcomeFrom, gone, held, done] at differ
  · intro apart others same
    have layers (ids : List JobID) := dependencyOutcomeFrom_eq statuses get .success ids
    have calm : (∀ need ∈ needs, resolve statuses get need ≠ none) ∨
        ∀ need ∈ needs, unfinished (resolve statuses get) need = false := by
      rw [not_and_or] at apart
      simpa using apart
    have among (holds : JobID → Bool) : others.any holds = needs.any holds := by
      rw [Bool.eq_iff_iff]
      simp [same]
    refine ⟨layers others, ?_⟩
    rw [dependencyOutcome, dependencyOutcome, layers, layers, dependencyOutcomeFrom_any calm,
      dependencyOutcomeFrom_any (by simpa only [same] using calm), among, among, among]

/-- A missing need and a running one: which stands first decides. -/
theorem missing_need_order_decides :
    dependencyOutcome ["gone", "build"] (Table.empty.put "build" .running) none =
        (true, .failure) ∧
      dependencyOutcome ["build", "gone"] (Table.empty.put "build" .running) none =
        (false, .pending) := by
  decide +kernel

end KiwiCI.Scheduler.Dependencies
