import KiwiCI.Pipeline.Binding

/-!
The retry budgets of a compiled job: `effectiveStepRetry`, `effectiveServiceRetries`
and `effectiveSteps` of `internal/executor`.

A step's own budget wins over the job's, which wins over the defaults, and an explicit
zero counts as set.  `verified_budgets_kept_iff` compares the budgets of a verified job
with those of the local compilation: they are the same unless a zero that was written
out would have kept a larger or a default budget away.
-/

namespace KiwiCI.Executor

variable {compiled : CompiledJob}

open Pipeline List

/-! ## Budgets -/

def maxStepRetries : Int := 20

def maxServiceRetries : Int := 100

def effectiveStepRetry (st : Step) (job : Pipeline.Job) (defaults : Defaults) : Retry :=
  let retry := st.retry
  let retry := if retry.maxSet = false ∧ retry.max = 0 then job.retry else retry
  let retry := if retry.maxSet = false ∧ retry.max = 0 then defaults.retry else retry
  if maxStepRetries < retry.max then { retry with max := maxStepRetries } else retry

def effectiveServiceRetries (svc : Service) : Int :=
  let retries := if svc.retriesSet = false ∧ svc.retries = 0 then 12 else svc.retries
  if maxServiceRetries < retries then maxServiceRetries else retries

/-! ## The steps a job runs -/

def hasDeploymentSteps (d : DeploymentSpec) : Bool :=
  0 < d.canary.length + d.verify.length + d.rollback.length

def normalize (d : DeploymentSpec) : DeploymentSpec :=
  { d with
    rollback := d.rollback.map fun s =>
      if s.condition = "" then { s with condition := "failure()" } else s }

def namespacedDeploymentStepName (phase name : String) (idx : Nat) : String :=
  if name = "" then phase ++ ".step-" ++ toString (idx + 1) else phase ++ "." ++ name

/-- One phase of `deploymentSteps`. -/
def phaseSteps (phase defIf : String) (steps : List Step) : List Step :=
  steps.mapIdx fun i s =>
    { s with
      condition := if Text.trimSpace s.condition = "" then defIf else s.condition
      name := namespacedDeploymentStepName phase s.name i }

def deploymentSteps (d : DeploymentSpec) : List Step :=
  let n := normalize d
  phaseSteps "canary" "success()" n.canary ++ phaseSteps "verify" "success()" n.verify ++
    phaseSteps "rollback" "failure()" n.rollback

def effectiveSteps (cj : CompiledJob) : List Step :=
  if hasDeploymentSteps cj.job.deployment then deploymentSteps cj.job.deployment else cj.job.steps

def stepBudgets (defaults : Defaults) (cj : CompiledJob) : List Int :=
  (effectiveSteps cj).map fun st => (effectiveStepRetry st cj.job defaults).max

/-- The healthcheck retries of every service of a job. -/
def serviceBudgets (cj : CompiledJob) : List Int := cj.job.services.map effectiveServiceRetries

/-! ## The budgets in terms of what the job declares -/

def retriesRun (j : Pipeline.Job) : List Retry :=
  if hasDeploymentSteps j.deployment then
    (j.deployment.canary ++ j.deployment.verify ++ j.deployment.rollback).map Step.retry
  else j.steps.map Step.retry

theorem map_retry_phaseSteps (phase defIf : String) (steps : List Step) :
    (phaseSteps phase defIf steps).map Step.retry = steps.map Step.retry := by
  refine ext_getElem (by simp [phaseSteps]) fun i _ _ => ?_
  simp [phaseSteps]

theorem map_retry_effectiveSteps (cj : CompiledJob) :
    (effectiveSteps cj).map Step.retry = retriesRun cj.job := by
  unfold effectiveSteps retriesRun
  split
  · have rollback : (normalize cj.job.deployment).rollback.map Step.retry =
        cj.job.deployment.rollback.map Step.retry := by
      rw [normalize, map_map]
      refine map_congr_left fun s _ => ?_
      simp only [Function.comp_apply]
      split <;> rfl
    simp only [deploymentSteps, map_append, map_retry_phaseSteps, rollback]
    rfl
  · rfl

/-- A policy that decides the budget itself. -/
def Retry.Decides (r : Retry) : Prop := r.maxSet = true ∨ r.max ≠ 0

instance (r : Retry) : Decidable (Retry.Decides r) := inferInstanceAs (Decidable (_ ∨ _))

/-- The maximum of the first policy that decides, up to the cap. -/
def budget (step job defaults : Retry) : Int :=
  min maxStepRetries
    (if Retry.Decides step then step.max else if Retry.Decides job then job.max else defaults.max)

theorem not_decides_iff : (r.maxSet = false ∧ r.max = 0) ↔ ¬ Retry.Decides r := by
  simp [Retry.Decides]

theorem max_effectiveStepRetry (st : Step) (job : Pipeline.Job) (defaults : Defaults) :
    (effectiveStepRetry st job defaults).max = budget st.retry job.retry defaults.retry := by
  have cap (r : Retry) : (if maxStepRetries < r.max then { r with max := maxStepRetries } else r).max
      = min maxStepRetries r.max := by
    split
    · rename_i above
      exact (min_eq_left above.le).symm
    · rename_i within
      exact (min_eq_right (not_lt.mp within)).symm
  simp only [effectiveStepRetry, not_decides_iff, cap, budget]
  by_cases step : Retry.Decides st.retry
  · simp [step]
  · by_cases own : Retry.Decides job.retry
    · simp [step, own]
    · simp [step, own]

theorem stepBudgets_eq (defaults : Defaults) (cj : CompiledJob) :
    stepBudgets defaults cj =
      (retriesRun cj.job).map fun r => budget r cj.job.retry defaults.retry := by
  rw [← map_retry_effectiveSteps, map_map]
  exact map_congr_left fun st _ => max_effectiveStepRetry st cj.job defaults

/-! ## What decoding does to the budgets -/

/-- A policy without its flag. -/
def unflag (r : Retry) : Retry := { r with maxSet := false }

/-- A count that was written out as zero. -/
def ExplicitZero (r : Retry) : Prop := r.maxSet = true ∧ r.max = 0

theorem budget_congr (max : r.max = r'.max)
    (set : r.maxSet = r'.maxSet) (jobMax : job.max = job'.max) (jobSet : job.maxSet = job'.maxSet) :
    budget r job defaults = budget r' job' defaults := by
  have step : Retry.Decides r ↔ Retry.Decides r' := by rw [Retry.Decides, Retry.Decides, max, set]
  have own : Retry.Decides job ↔ Retry.Decides job' := by
    rw [Retry.Decides, Retry.Decides, jobMax, jobSet]
  simp only [budget, step, own, max, jobMax]

/-- Without the flags a budget stays what it is, unless a zero was written out where
another count takes its place. -/
theorem budget_unflag_iff (r job defaults : Retry) :
    budget (unflag r) (unflag job) defaults = budget r job defaults ↔
      (ExplicitZero r → job.max = 0 ∧ defaults.max = 0) ∧
        (¬ Retry.Decides r → ExplicitZero job → defaults.max = 0) := by
  have capped (n : Int) : min maxStepRetries n = min maxStepRetries 0 ↔ n = 0 := by
    simp only [maxStepRetries]
    omega
  have plain (r : Retry) : Retry.Decides (unflag r) ↔ r.max ≠ 0 := by simp [Retry.Decides, unflag]
  have keeps (r : Retry) : (unflag r).max = r.max := rfl
  simp only [budget, plain, keeps, ExplicitZero]
  by_cases zero : r.max = 0
  · by_cases set : r.maxSet = true
    · have decides : Retry.Decides r := .inl set
      by_cases own : job.max = 0 <;> simp [zero, set, decides, own, capped]
    · have open_ : ¬ Retry.Decides r := fun decides => decides.elim set (absurd zero)
      by_cases own : job.max = 0
      · by_cases jobSet : job.maxSet = true
        · have decides : Retry.Decides job := .inl jobSet
          simp [zero, set, open_, own, jobSet, decides, capped]
        · have jobOpen : ¬ Retry.Decides job := fun decides => decides.elim jobSet (absurd own)
          simp [zero, set, open_, own, jobSet, jobOpen]
      · have decides : Retry.Decides job := .inr own
        simp [zero, set, open_, own, decides]
  · have decides : Retry.Decides r := .inr zero
    simp [zero, decides]

theorem serviceRetries_unflag_iff (svc : Service) :
    effectiveServiceRetries { svc with retriesSet := false } = effectiveServiceRetries svc ↔
      ¬ (svc.retriesSet = true ∧ svc.retries = 0) := by
  by_cases zero : svc.retries = 0
  · by_cases set : svc.retriesSet = true
    · simp [effectiveServiceRetries, zero, set, maxServiceRetries]
    · simp [effectiveServiceRetries, zero, set]
  · simp [effectiveServiceRetries, zero]

/-- The counts of the steps a job with the given counts runs. -/
def runCounts (c : Counts) : List Int :=
  if 0 < c.deployment.1.length + c.deployment.2.1.length + c.deployment.2.2.length then
    c.deployment.1 ++ c.deployment.2.1 ++ c.deployment.2.2
  else c.steps

theorem map_max_retriesRun (j : Pipeline.Job) :
    (retriesRun j).map Retry.max = runCounts j.counts := by
  unfold retriesRun runCounts hasDeploymentSteps
  simp only [Pipeline.Job.counts, DeploymentSpec.counts, stepCounts, length_map,
    decide_eq_true_eq]
  split
  · simp [map_append, Function.comp_def]
  · simp [Function.comp_def]

theorem unflagged_retriesRun (unflagged : j.Unflagged) :
    ∀ r ∈ retriesRun j, r.maxSet = false := by
  obtain ⟨-, steps, ⟨canary, verify, rollback⟩, -⟩ := unflagged
  intro r member
  unfold retriesRun at member
  split at member
  · simp only [mem_map, mem_append] at member
    obtain ⟨s, (here | there) | last, rfl⟩ := member
    · exact canary s here
    · exact verify s there
    · exact rollback s last
  · obtain ⟨s, there, rfl⟩ := mem_map.mp member
    exact steps s there

section

variable {cj compiled : CompiledJob} (counts : cj.job.counts = compiled.job.counts)
  (unflagged : cj.job.Unflagged)

include counts unflagged

/-- A job with the counts of another and no flags has the budgets of that job without
its flags. -/
theorem stepBudgets_unflagged (defaults : Defaults) :
    stepBudgets defaults cj = (retriesRun compiled.job).map fun r =>
      budget (unflag r) (unflag compiled.job.retry) defaults.retry := by
  have plain : ∀ r ∈ retriesRun cj.job, budget r cj.job.retry defaults.retry =
      budget { max := r.max } { max := cj.job.retry.max } defaults.retry := fun r member =>
    budget_congr rfl (unflagged_retriesRun unflagged r member) rfl unflagged.1
  have own : cj.job.retry.max = compiled.job.retry.max := congrArg Counts.retry counts
  have maxes : (retriesRun cj.job).map Retry.max = (retriesRun compiled.job).map Retry.max := by
    rw [map_max_retriesRun, map_max_retriesRun, counts]
  calc stepBudgets defaults cj
      = (retriesRun cj.job).map fun r =>
          budget { max := r.max } { max := cj.job.retry.max } defaults.retry := by
        rw [stepBudgets_eq, map_congr_left plain]
    _ = ((retriesRun cj.job).map Retry.max).map fun m =>
          budget { max := m } { max := cj.job.retry.max } defaults.retry := by
        rw [map_map]
        rfl
    _ = (retriesRun compiled.job).map fun r =>
          budget { max := r.max } { max := compiled.job.retry.max } defaults.retry := by
        rw [maxes, own, map_map]
        rfl
    _ = _ := map_congr_left fun r _ => budget_congr rfl rfl rfl rfl

theorem serviceBudgets_unflagged :
    serviceBudgets cj = compiled.job.services.map fun s =>
      effectiveServiceRetries { s with retriesSet := false } := by
  have plain : ∀ s ∈ cj.job.services,
      effectiveServiceRetries s = effectiveServiceRetries { retries := s.retries } := by
    intro s member
    simp only [effectiveServiceRetries, unflagged.2.2.2 s member]
  have retries : cj.job.services.map Service.retries = compiled.job.services.map Service.retries :=
    congrArg Counts.services counts
  calc serviceBudgets cj
      = (cj.job.services.map Service.retries).map fun n =>
          effectiveServiceRetries { retries := n } := by
        rw [serviceBudgets, map_congr_left plain, map_map]
        rfl
    _ = compiled.job.services.map fun s => effectiveServiceRetries { retries := s.retries } := by
        rw [retries, map_map]
        rfl
    _ = _ := map_congr_left fun s _ => rfl

end

/-! ## Verified execution -/

/-- The two jobs have the same budget for every step and for every service. -/
def SameBudgets (defaults : Defaults) (cj compiled : CompiledJob) : Prop :=
  stepBudgets defaults cj = stepBudgets defaults compiled ∧
    serviceBudgets cj = serviceBudgets compiled

/-- No zero that a job writes out keeps another count away: that of a step the job's or
the defaults', that of the job the defaults', that of a service the built-in one. -/
structure NoEffectiveZero (defaults : Defaults) (j : Pipeline.Job) : Prop where
  steps : ∀ r ∈ retriesRun j, ExplicitZero r → j.retry.max = 0 ∧ defaults.retry.max = 0
  job : ∀ r ∈ retriesRun j, ¬ Retry.Decides r → ExplicitZero j.retry → defaults.retry.max = 0
  services : ∀ s ∈ j.services.map fun s => (s.retries, s.retriesSet), s ≠ (0, true)

theorem sameBudgets_iff
    (counts : cj.job.counts = compiled.job.counts) (unflagged : cj.job.Unflagged)
    (defaults : Defaults) :
    SameBudgets defaults cj compiled ↔ NoEffectiveZero defaults compiled.job := by
  rw [SameBudgets, stepBudgets_unflagged counts unflagged, stepBudgets_eq,
    serviceBudgets_unflagged counts unflagged, serviceBudgets, map_inj_left,
    map_inj_left]
  simp only [budget_unflag_iff, serviceRetries_unflag_iff]
  constructor
  · rintro ⟨steps, services⟩
    refine ⟨fun r member => (steps r member).1, fun r member => (steps r member).2, ?_⟩
    intro pair member zero
    obtain ⟨s, there, shape⟩ := mem_map.mp member
    obtain ⟨retries, set⟩ := Prod.mk.inj (shape.trans zero)
    exact services s there ⟨set, retries⟩
  · rintro ⟨steps, job, services⟩
    refine ⟨fun r member => ⟨steps r member, job r member⟩, ?_⟩
    rintro s member ⟨set, retries⟩
    exact services _ (mem_map.mpr ⟨s, member, rfl⟩) (by rw [retries, set])

/-- What a compiled job has from the job it is a variant of. -/
theorem noEffectiveZero_of {cj : CompiledJob} {v : Variant} (of : cj.Of v) (defaults : Defaults) :
    NoEffectiveZero defaults cj.job ↔ NoEffectiveZero defaults v.job := by
  have runs : retriesRun cj.job = retriesRun v.job := by
    unfold retriesRun
    rw [of.deployment, of.stepRetries]
  constructor
  · rintro ⟨steps, job, services⟩
    rw [runs, of.retry] at steps job
    rw [of.serviceRetries] at services
    exact ⟨steps, job, services⟩
  · rintro ⟨steps, job, services⟩
    rw [← runs, ← of.retry] at steps job
    rw [← of.serviceRetries] at services
    exact ⟨steps, job, services⟩

/-- A node of a compiled graph is a variant of a declared job. -/
theorem declared_of_compiled {host : Expr.Host} {rules : FieldRules} {s : Spec} {g : Graph}
    {key : String} (ran : compile host rules s = .ok g) (held : g.jobs.get? key = some compiled) :
    ∃ v, compiled.Of v ∧ s.jobs.get? compiled.baseID = some v.job := by
  obtain ⟨-, jobs, each, rfl⟩ := compileWithInputs_ok ran
  obtain ⟨source, member, -, rfl⟩ := get?_assemble held
  obtain ⟨v, expanded, of⟩ := variant_of_compiled each member
  obtain ⟨id, j, declared, there⟩ := mem_expansion.mp expanded
  obtain ⟨rfl, rfl, -⟩ := mem_variants there
  refine ⟨v, ⟨of.id, of.baseID, of.matrix, of.needs, of.shards, of.generate, of.retry,
    of.stepRetries, of.deployment, of.serviceRetries⟩, ?_⟩
  rw [← declared, ← of.baseID]

/-- A payload that is accepted for a key has the budgets of the local compilation exactly
when the declared job has no zero that keeps another count away. -/
theorem verified_budgets_kept_iff {host : Expr.Host} {rules : FieldRules} {rt : Runtime} {s : Spec}
    {key : String} {p : Option Pipeline.CompiledJobPayload} {cj : CompiledJob}
    (accepted : verifyCompiledJobBinding host rules rt s key p true = .ok cj) :
    ∃ g compiled j, compile host rules s = .ok g ∧ g.jobs.get? key = some compiled ∧
      s.jobs.get? compiled.baseID = some j ∧
        (SameBudgets s.defaults cj compiled ↔ NoEffectiveZero s.defaults j) := by
  obtain ⟨raw, g, compiled, localNorm, bound⟩ := verifyCompiledJobBinding_ok accepted
  obtain ⟨v, of, declared⟩ := declared_of_compiled bound.graph bound.held
  refine ⟨g, compiled, v.job, bound.graph, bound.held, declared, ?_⟩
  obtain ⟨counts, unflagged⟩ := bound.counts
  rw [sameBudgets_iff counts unflagged, noEffectiveZero_of of]

/-- One job with one step; three retries by default. -/
def retrySpec (step : Retry) : Spec where
  defaults := { retry := { max := 3, maxSet := true } }
  jobs := Table.empty.put "test" { steps := [{ run := "go test", retry := step }] }

/-- A runtime whose functions are never reached. -/
def idleRuntime : Runtime where
  parseDuration _ := .error ""
  float n := (n, "")
  sprint _ := ""

/-- The compiled job `test` of a pipeline, and that job written and read back. -/
def roundTrip (s : Spec) : Except String (CompiledJob × CompiledJob) :=
  localJob idleHost openRules idleRuntime s "test"

/-- The payload of a job that was written and read back is accepted. -/
theorem roundTrip_accepted (ran : roundTrip s = .ok (compiled, cj)) : ∃ g raw,
      compile idleHost openRules s = .ok g ∧ g.jobs.get? "test" = some compiled ∧
        verifyCompiledJobBinding idleHost openRules idleRuntime s "test"
          (some (stampPayload s raw cj)) true = .ok cj := by
  simp only [roundTrip, localJob, bind_ok_iff, mapError_ok_iff, orThrow_ok_iff, pure_ok_iff] at ran
  obtain ⟨g, graph, compiled, held, cj, norm, shape⟩ := ran
  obtain ⟨rfl, rfl⟩ := Prod.mk.inj shape
  exact ⟨g, compiled.toJson, graph, held, Bound.accepted ⟨norm, graph, held, norm, rfl⟩⟩

/-- A step that asks for two retries keeps them. -/
theorem given_budget_kept : ∃ p cj g compiled,
    verifyCompiledJobBinding idleHost openRules idleRuntime
      (retrySpec { max := 2, maxSet := true }) "test" p true = .ok cj ∧
    compile idleHost openRules (retrySpec { max := 2, maxSet := true }) = .ok g ∧
    g.jobs.get? "test" = some compiled ∧
    SameBudgets { retry := { max := 3, maxSet := true } } cj compiled := by
  obtain ⟨⟨compiled, cj⟩, ran, base⟩ : ∃ r,
      roundTrip (retrySpec { max := 2, maxSet := true }) = .ok r ∧
        decide (r.1.baseID = "test") = true :=
    exists_of_any (by decide +kernel)
  obtain ⟨g, raw, graph, held, accepted⟩ := roundTrip_accepted ran
  obtain ⟨g', compiled', j, graph', held', declared, same⟩ := verified_budgets_kept_iff accepted
  rw [graph] at graph'
  cases graph'
  rw [held] at held'
  cases held'
  rw [of_decide_eq_true base] at declared
  have shape : (retrySpec { max := 2, maxSet := true }).jobs.get? "test" =
      some { steps := [{ run := "go test", retry := { max := 2, maxSet := true } }] } := rfl
  rw [shape] at declared
  cases declared
  refine ⟨_, cj, g, compiled, accepted, graph, held, same.mpr ⟨?_, ?_, ?_⟩⟩
  · intro r member zero
    rw [mem_singleton.mp member] at zero
    exact absurd zero.2 (by decide)
  · exact fun r member none zero => absurd zero.1 (by decide)
  · exact fun pair none => by cases none

/-- A step that asks for no retries gets three of them. -/
theorem explicit_zero_lost : ∃ p cj g compiled,
    verifyCompiledJobBinding idleHost openRules idleRuntime
      (retrySpec { max := 0, maxSet := true }) "test" p true = .ok cj ∧
    compile idleHost openRules (retrySpec { max := 0, maxSet := true }) = .ok g ∧
    g.jobs.get? "test" = some compiled ∧
    stepBudgets { retry := { max := 3, maxSet := true } } compiled = [0] ∧
    stepBudgets { retry := { max := 3, maxSet := true } } cj = [3] := by
  obtain ⟨⟨compiled, cj⟩, ran, budgets⟩ : ∃ r,
      roundTrip (retrySpec { max := 0, maxSet := true }) = .ok r ∧
        decide (stepBudgets { retry := { max := 3, maxSet := true } } r.1 = [0] ∧
          stepBudgets { retry := { max := 3, maxSet := true } } r.2 = [3]) = true :=
    exists_of_any (by decide +kernel)
  obtain ⟨g, raw, graph, held, accepted⟩ := roundTrip_accepted ran
  exact ⟨_, cj, g, compiled, accepted, graph, held, of_decide_eq_true budgets⟩

end KiwiCI.Executor
