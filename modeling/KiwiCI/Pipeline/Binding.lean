import KiwiCI.Pipeline.Canonical
import KiwiCI.Pipeline.Lossless

/-!
The binding of an enqueued job to the pipeline it was compiled from:
`internal/pipeline/binding.go`.

The verified job is the one the payload carries, decoded, so it lacks whatever the
JSON of a compiled job does not have.  `verifyCompiledJobBinding_ok` says what an
accepted payload went through, and `Bound` what is known of the job it returns: it
is written like the local compilation after that one was written and read back.
-/

namespace KiwiCI.Pipeline

open DeploymentSpec Field

variable {cj : CompiledJob}

/-- `model.CompiledJobPayload`, as far as verification reads it; the effective job is
the JSON it is marshalled to. -/
structure CompiledJobPayload where
  schemaVersion : Int
  pipelineDigest : String
  jobDigest : String
  effectiveJob : Json

/-- `json.Unmarshal` into a new compiled job. -/
def CompiledJob.ofJson (rt : Runtime) (j : Json) : Except String CompiledJob :=
  CompiledJob.codec.read rt j {}

/-- The content address of a compiled job. -/
def CompiledJob.digest (cj : CompiledJob) : String :=
  Sha256.hex (Sha256.digest (Sha256.utf8 (String.ofList cj.toJson.render)))

section

variable (host : Expr.Host) (rules : FieldRules) (rt : Runtime)

/-- The local compilation a payload is compared with, and what it is when it has been
written and read back. -/
def localJob (s : Spec) (key : String) : Except String (CompiledJob × CompiledJob) := do
  let recompiled ← (compile host rules s).mapError ("compiled payload: recompile pipeline: " ++ ·)
  let compiled ← orThrow (recompiled.jobs.get? key)
    ("compiled payload: pipeline has no job \"" ++ key ++ "\"")
  let localNorm ← (CompiledJob.ofJson rt compiled.toJson).mapError
    ("compiled payload: decode local job: " ++ ·)
  return (compiled, localNorm)

def verifyCompiledJobBinding (s : Spec) (key : String) (p : Option CompiledJobPayload)
    (bindLocal : Bool) : Except String CompiledJob := do
  let p ← orThrow p "compiled payload: missing"
  require (p.schemaVersion = 1)
    ("compiled payload: unsupported schema version " ++ toString p.schemaVersion ++ " (want 1)")
  require (pipelineDigest s = p.pipelineDigest)
    ("compiled payload digest mismatch: pipeline digest \"" ++ p.pipelineDigest ++
      "\" does not match \"" ++ pipelineDigest s ++ "\"")
  let cj ← (CompiledJob.ofJson rt p.effectiveJob).mapError
    ("compiled payload: decode effective job: " ++ ·)
  require (cj.digest = p.jobDigest)
    ("compiled payload digest mismatch: job digest \"" ++ p.jobDigest ++ "\" does not match \"" ++
      cj.digest ++ "\"")
  if bindLocal then
    let (_, localNorm) ← localJob host rules rt s key
    require (localNorm.toJson.render = cj.toJson.render)
      "compiled payload does not match the digest-verified pipeline's local compilation"
  return cj

end

/-! ## What an accepted payload went through -/

section

variable {host : Expr.Host} {rules : FieldRules} {rt : Runtime}

/-- What is known of a verified job: it was decoded, and it is written as the local
compilation is that was written and read back. -/
structure Bound (host : Expr.Host) (rules : FieldRules) (rt : Runtime) (s : Spec) (key : String)
    (raw : Json) (g : Graph) (compiled localNorm cj : CompiledJob) : Prop where
  decoded : CompiledJob.ofJson rt raw = .ok cj
  graph : compile host rules s = .ok g
  held : g.jobs.get? key = some compiled
  norm : CompiledJob.ofJson rt compiled.toJson = .ok localNorm
  same : localNorm.toJson = cj.toJson

theorem verifyCompiledJobBinding_ok
    (ran : verifyCompiledJobBinding host rules rt s key p true = .ok cj) :
    ∃ raw g compiled localNorm, Bound host rules rt s key raw g compiled localNorm cj := by
  simp only [verifyCompiledJobBinding, localJob, if_true, bind_ok_iff, require_ok_iff,
    orThrow_ok_iff, mapError_ok_iff, pure_ok_iff] at ran
  obtain ⟨p, -, _, -, _, -, cj, decoded, _, -, _, ⟨g, graph, compiled, held, localNorm, norm,
    rfl⟩, _, same, rfl⟩ := ran
  exact ⟨p.effectiveJob, g, compiled, localNorm, decoded, graph, held, norm,
    Json.render_injective same⟩

/-- The payload of a compiled job: its digests, and the job itself. -/
def stampPayload (s : Spec) (raw : Json) (cj : CompiledJob) : CompiledJobPayload where
  schemaVersion := 1
  pipelineDigest := pipelineDigest s
  jobDigest := cj.digest
  effectiveJob := raw

theorem Bound.accepted (bound : Bound host rules rt s key raw g compiled localNorm cj) :
    verifyCompiledJobBinding host rules rt s key (some (stampPayload s raw cj)) true = .ok cj := by
  simp only [verifyCompiledJobBinding, localJob, if_true, bind_ok_iff, require_ok_iff,
    orThrow_ok_iff, mapError_ok_iff, pure_ok_iff]
  exact ⟨_, rfl, (), rfl, (), rfl, cj, bound.decoded, (), rfl, _, ⟨g, bound.graph, compiled,
    bound.held, localNorm, bound.norm, rfl⟩, (), congrArg Json.render bound.same, rfl⟩

end

/-! ## Retry counts and their presence flags

The flags that tell an explicit zero from an absent count are not written, so a decoded
job has none of them; the counts themselves are read back as they were written. -/

theorem retry_unflagged : Retry.codec.Preserves fun r => r.maxSet = false := by
  intro rt j r r' ran
  refine decode_preserves (p := fun r => r.maxSet = false) ?_ ran
  simp [Retry.fields]

theorem retry_keeps_max : Retry.codec.Keeps Retry.max :=
  (stores_opt "max" Codec.int Retry.max fun a s => { s with max := a }).keeps
    (by simp [Retry.fields]) (fun _ _ => rfl) (by simp [Retry.fields]) Codec.keeps_int rfl

theorem step_unflagged : Step.codec.Preserves fun s => s.retry.maxSet = false := by
  intro rt j s s' ran
  refine decode_preserves (p := fun s => s.retry.maxSet = false) ?_ ran
  have retry : (opt "retry" Retry.codec Step.retry fun a s => { s with retry := a }).Preserves
      fun s => s.retry.maxSet = false :=
    (stores_opt ..).preserves retry_unflagged (fun _ => id) fun _ _ kept _ => kept
  simp [Step.fields, retry]

theorem step_keeps_max : Step.codec.Keeps fun s => s.retry.max :=
  (stores_opt "retry" Retry.codec Step.retry fun a s => { s with retry := a }).keeps
    (by simp [Step.fields]) (fun _ _ => rfl) (by simp [Step.fields]) retry_keeps_max rfl

theorem service_unflagged : Service.codec.Preserves fun s => s.retriesSet = false := by
  intro rt j s s' ran
  refine decode_preserves (p := fun s => s.retriesSet = false) ?_ ran
  simp [Service.fields]

theorem service_keeps_retries : Service.codec.Keeps Service.retries :=
  (stores_opt "retries" Codec.int Service.retries fun a s => { s with retries := a }).keeps
    (by simp [Service.fields]) (fun _ _ => rfl) (by simp [Service.fields]) Codec.keeps_int rfl

def stepCounts (steps : List Step) : List Int := steps.map fun s => s.retry.max

/-- The retry counts of the three phases. -/
def DeploymentSpec.counts (d : DeploymentSpec) : List Int × List Int × List Int :=
  (stepCounts d.canary, stepCounts d.verify, stepCounts d.rollback)

/-- No step of a deployment has a flag. -/
def DeploymentSpec.Unflagged (d : DeploymentSpec) : Prop :=
  (∀ s ∈ d.canary, s.retry.maxSet = false) ∧ (∀ s ∈ d.verify, s.retry.maxSet = false) ∧
    ∀ s ∈ d.rollback, s.retry.maxSet = false

theorem steps_unflagged :
    (Codec.list Step.codec).Preserves fun steps => ∀ s ∈ steps, s.retry.maxSet = false :=
  step_unflagged.list rfl

theorem deployment_unflagged : DeploymentSpec.codec.Preserves DeploymentSpec.Unflagged := by
  intro rt j d d' ran
  refine decode_preserves (p := Unflagged) ?_ ran
  simp only [fields, List.forall_mem_cons]
  and_intros
  · exact (stores_opt ..).preserves steps_unflagged (fun _ kept => kept.1)
      fun _ _ kept rest => ⟨kept, rest.2⟩
  · exact (stores_opt ..).preserves steps_unflagged (fun _ kept => kept.2.1)
      fun _ _ kept rest => ⟨rest.1, kept, rest.2.2⟩
  · exact (stores_opt ..).preserves steps_unflagged (fun _ kept => kept.2.2)
      fun _ _ kept rest => ⟨rest.1, rest.2.1, kept⟩
  · exact fun _ none => by cases none

theorem deployment_keeps_counts : DeploymentSpec.codec.Keeps DeploymentSpec.counts where
  empty _ none := by cases none
  read rt w a ran := by
    have canary : codec.Keeps fun d => stepCounts d.canary :=
      (stores_opt "canary" (Codec.list Step.codec) canary
        fun a s => { s with canary := a }).keeps (by simp [fields])
        (fun _ _ => rfl) (by simp [fields]) step_keeps_max.list rfl
    have verify : codec.Keeps fun d => stepCounts d.verify :=
      (stores_opt "verify" (Codec.list Step.codec) verify
        fun a s => { s with verify := a }).keeps (by simp [fields])
        (fun _ _ => rfl) (by simp [fields]) step_keeps_max.list rfl
    have rollback : codec.Keeps fun d => stepCounts d.rollback :=
      (stores_opt "rollback" (Codec.list Step.codec) rollback
        fun a s => { s with rollback := a }).keeps (by simp [fields])
        (fun _ _ => rfl) (by simp [fields]) step_keeps_max.list rfl
    exact Prod.ext (canary.read rt w a ran)
      (Prod.ext (verify.read rt w a ran) (rollback.read rt w a ran))

/-- The retry counts of a job: its own, those of its steps and of its services. -/
structure Counts where
  retry : Int
  steps : List Int
  deployment : List Int × List Int × List Int
  services : List Int

/-- The retry counts a job declares. -/
def Job.counts (j : Job) : Counts where
  retry := j.retry.max
  steps := stepCounts j.steps
  deployment := j.deployment.counts
  services := j.services.map Service.retries

/-- No retry count of a job is flagged as explicit. -/
def Job.Unflagged (j : Job) : Prop :=
  j.retry.maxSet = false ∧ (∀ s ∈ j.steps, s.retry.maxSet = false) ∧ j.deployment.Unflagged ∧
    ∀ s ∈ j.services, s.retriesSet = false

theorem job_unflagged : Job.codec.Preserves Job.Unflagged := by
  intro rt j d d' ran
  refine decode_preserves (p := Job.Unflagged) ?_ ran
  simp only [Job.fields, List.forall_mem_cons]
  and_intros
  all_goals first
    | exact (stores_opt ..).preserves_apart fun _ _ => id
    | exact (stores_opt ..).preserves retry_unflagged (fun _ kept => kept.1)
        fun _ _ kept rest => ⟨kept, rest.2⟩
    | exact (stores_req ..).preserves steps_unflagged (fun _ kept => kept.2.1)
        fun _ _ kept rest => ⟨rest.1, kept, rest.2.2⟩
    | exact (stores_opt ..).preserves deployment_unflagged (fun _ kept => kept.2.2.1)
        fun _ _ kept rest => ⟨rest.1, rest.2.1, kept, rest.2.2.2⟩
    | exact (stores_opt ..).preserves (service_unflagged.list rfl) (fun _ kept => kept.2.2.2)
        fun _ _ kept rest => ⟨rest.1, rest.2.1, rest.2.2.1, kept⟩
    | exact fun _ none => by cases none

/-- Each part of a job that has retry counts is stored by its own field only. -/
theorem job_fields_leave : ∀ f ∈ Job.fields, (f.name ≠ "retry" → f.Leaves Job.retry) ∧
    (f.name ≠ "steps" → f.Leaves Job.steps) ∧ (f.name ≠ "deployment" → f.Leaves Job.deployment) ∧
      (f.name ≠ "services" → f.Leaves Job.services) := by
  simp [Job.fields]

theorem job_keeps_counts : Job.codec.Keeps Job.counts where
  empty _ none := by cases none
  read rt w a ran := by
    have retry : Job.codec.Keeps fun j => j.retry.max :=
      (stores_opt "retry" Retry.codec Job.retry
        fun a s => { s with retry := a }).keeps (by simp [Job.fields])
        (fun _ _ => rfl) (fun f member => (job_fields_leave f member).1) retry_keeps_max rfl
    have steps : Job.codec.Keeps fun j => stepCounts j.steps :=
      (stores_req "steps" (Codec.list Step.codec) Job.steps
        fun a s => { s with steps := a }).keeps (by simp [Job.fields])
        (fun _ _ => rfl) (fun f member => (job_fields_leave f member).2.1) step_keeps_max.list rfl
    have deployment : Job.codec.Keeps fun j => j.deployment.counts :=
      (stores_opt "deployment" codec Job.deployment
        fun a s => { s with deployment := a }).keeps (by simp [Job.fields])
        (fun _ _ => rfl) (fun f member => (job_fields_leave f member).2.2.1)
        deployment_keeps_counts rfl
    have services : Job.codec.Keeps fun j => j.services.map Service.retries :=
      (stores_opt "services" (Codec.list Service.codec) Job.services
        fun a s => { s with services := a }).keeps (by simp [Job.fields])
        (fun _ _ => rfl) (fun f member => (job_fields_leave f member).2.2.2)
        service_keeps_retries.list rfl
    rw [Job.counts, Job.counts, Counts.mk.injEq]
    exact ⟨retry.read rt w a ran, steps.read rt w a ran, deployment.read rt w a ran,
      services.read rt w a ran⟩

theorem compiled_unflagged : CompiledJob.codec.Preserves fun cj => cj.job.Unflagged := by
  intro rt j d d' ran
  refine decode_preserves (p := fun cj => cj.job.Unflagged) ?_ ran
  have job : (req "job" Job.codec CompiledJob.job fun a s => { s with job := a }).Preserves
      fun cj => cj.job.Unflagged :=
    (stores_req ..).preserves job_unflagged (fun _ => id) fun _ _ kept _ => kept
  simp [CompiledJob.fields, job]

theorem compiled_keeps_counts : CompiledJob.codec.Keeps fun cj => cj.job.counts :=
  (stores_req "job" Job.codec CompiledJob.job fun a s => { s with job := a }).keeps
    (by simp [CompiledJob.fields]) (fun _ _ => rfl) (by simp [CompiledJob.fields])
    job_keeps_counts rfl

theorem counts_of_toJson {cj' : CompiledJob} (same : cj.toJson = cj'.toJson) :
    cj.job.counts = cj'.job.counts := by
  have norms := congrArg CompiledJob.job (CompiledJob.codec.pins _ _ same)
  have through (j : Job) : (Job.codec.norm j).counts = j.counts := by
    have steps (l : List Step) : stepCounts (l.map Step.codec.norm) = stepCounts l := by
      rw [stepCounts, List.map_map]
      rfl
    have services (l : List Service) :
        (l.map Service.codec.norm).map Service.retries = l.map Service.retries := by
      rw [List.map_map]
      rfl
    rw [Job.counts, Job.counts, Counts.mk.injEq]
    exact ⟨rfl, steps _, Prod.ext (steps _) (Prod.ext (steps _) (steps _)), services _⟩
  rw [← through cj.job, ← through cj'.job]
  exact congrArg Job.counts norms

/-- A verified job has the counts of the local compilation, and no flags. -/
theorem Bound.counts (bound : Bound host rules rt s key raw g compiled localNorm cj) :
    cj.job.counts = compiled.job.counts ∧ cj.job.Unflagged := by
  have none {α : Type} {p : α → Prop} : ∀ a ∈ ([] : List α), p a := fun _ member => by cases member
  refine ⟨?_, compiled_unflagged rt raw {} cj bound.decoded ⟨rfl, none, ⟨none, none, none⟩, none⟩⟩
  rw [← counts_of_toJson bound.same]
  exact compiled_keeps_counts.read rt compiled localNorm bound.norm

end KiwiCI.Pipeline
