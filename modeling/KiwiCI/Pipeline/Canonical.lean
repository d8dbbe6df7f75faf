import KiwiCI.Lib.Sha256
import KiwiCI.Pipeline.Spec

/-!
The canonical form of a pipeline and its digest: `internal/pipeline/canonical.go`.

The canonical structs mirror those of `spec.go`, with durations that are left out when
they are unset, with the presence flags, and with every map in key order.
-/

namespace KiwiCI.Pipeline

/-! ## The canonical structs -/

abbrev text : Writer String := Codec.string.toWriter

abbrev number : Writer Int := Codec.int.toWriter

abbrev flag : Writer Bool := Codec.bool.toWriter

/-- A list of texts. -/
abbrev strings : Writer (List String) := Codec.strings.toWriter

/-- `pairs` of a string map. -/
abbrev stringMap : Writer (Table String String) := Codec.stringMap.toWriter

/-- `canonicalDuration`, of `durOf`. -/
def canonicalDuration : Writer Duration where
  empty := Option.isNone
  write d := .str ((d.map DurationText.text).getD "")
  norm := id
  pins
    | none, none, _ => rfl
    | none, some d, same => absurd (Json.str.inj same).symm d.printed
    | some d, none, same => absurd (Json.str.inj same) d.printed
    | some ⟨_, _⟩, some ⟨_, _⟩, rfl => rfl
  pinsEmpty d d' none none' := by
    rw [Option.isNone_iff_eq_none.mp none, Option.isNone_iff_eq_none.mp none']

def canonicalRetry : Writer Retry := .struct {} id [
  .opt "max" number (·.max) fun a s => { s with max := a },
  .opt "backoff" canonicalDuration (·.backoff) fun a s => { s with backoff := a },
  .opt "on" strings (·.on) fun a s => { s with on := a },
  .opt "max_set" flag (·.maxSet) fun a s => { s with maxSet := a }]

def canonicalDefaults : Writer Defaults := .struct {} id [
  .opt "shell" text (·.shell) fun a s => { s with shell := a },
  .opt "timeout" canonicalDuration (·.timeout) fun a s => { s with timeout := a },
  .opt "retry" canonicalRetry (·.retry) fun a s => { s with retry := a }]

def canonicalService : Writer Service := .struct {} Service.order [
  .req "name" text (·.name) fun a s => { s with name := a },
  .req "image" text (·.image) fun a s => { s with image := a },
  .opt "command" strings (·.command) fun a s => { s with command := a },
  .opt "env" stringMap (·.env) fun a s => { s with env := a },
  .opt "ready" text (·.ready) fun a s => { s with ready := a },
  .opt "healthcheck" text (·.healthcheck) fun a s => { s with healthcheck := a },
  .opt "interval" canonicalDuration (·.interval) fun a s => { s with interval := a },
  .opt "timeout" canonicalDuration (·.timeout) fun a s => { s with timeout := a },
  .opt "retries" number (·.retries) fun a s => { s with retries := a },
  .opt "retries_set" flag (·.retriesSet) fun a s => { s with retriesSet := a },
  .opt "native" flag (·.native) fun a s => { s with native := a }]

def canonicalStep : Writer Step := .struct {} (fun s => { s.order with matrix := .empty }) [
  .opt "id" text (·.id) fun a s => { s with id := a },
  .opt "name" text (·.name) fun a s => { s with name := a },
  .req "run" text (·.run) fun a s => { s with run := a },
  .opt "if" text (·.condition) fun a s => { s with condition := a },
  .opt "shell" text (·.shell) fun a s => { s with shell := a },
  .opt "working_directory" text (·.workingDirectory) fun a s => { s with workingDirectory := a },
  .opt "env" stringMap (·.env) fun a s => { s with env := a },
  .opt "secrets" strings (·.secrets) fun a s => { s with secrets := a },
  .opt "timeout" canonicalDuration (·.timeout) fun a s => { s with timeout := a },
  .opt "retry" canonicalRetry (·.retry) fun a s => { s with retry := a },
  .opt "continue_on_error" flag (·.continueOnError) fun a s => { s with continueOnError := a },
  .opt "cancel_job_on_failure" flag (·.cancelJobOnFailure) fun a s =>
    { s with cancelJobOnFailure := a },
  .opt "background" flag (·.background) fun a s => { s with background := a }]

def canonicalDownstream : Writer DownstreamSpec := .struct {} DownstreamSpec.order [
  .opt "repository" text (·.repository) fun a s => { s with repository := a },
  .opt "ref" text (·.ref) fun a s => { s with ref := a },
  .opt "event" text (·.event) fun a s => { s with event := a },
  .opt "inputs" stringMap (·.inputs) fun a s => { s with inputs := a },
  .opt "wait" flag (·.wait) fun a s => { s with wait := a }]

def canonicalDeployment : Writer DeploymentSpec := .struct {} (fun d =>
  { canary := d.canary.map canonicalStep.norm
    verify := d.verify.map canonicalStep.norm
    rollback := d.rollback.map canonicalStep.norm }) [
  .opt "canary" (.list canonicalStep) (·.canary) fun a s => { s with canary := a },
  .opt "verify" (.list canonicalStep) (·.verify) fun a s => { s with verify := a },
  .opt "rollback" (.list canonicalStep) (·.rollback) fun a s => { s with rollback := a }]

/-- The members of `canonicalJob`. -/
def canonicalJobMembers : List (Member Job) := [
  .opt "name" text (·.name) fun a s => { s with name := a },
  .opt "needs" strings (·.needs) fun a s => { s with needs := a },
  .opt "if" text (·.condition) fun a s => { s with condition := a },
  .opt "runner" strings (·.runner) fun a s => { s with runner := a },
  .opt "runtime" text (·.runtime) fun a s => { s with runtime := a },
  .opt "image" text (·.image) fun a s => { s with image := a },
  .opt "network" text (·.network) fun a s => { s with network := a },
  .opt "vm" text (·.vm) fun a s => { s with vm := a },
  .opt "shell" text (·.shell) fun a s => { s with shell := a },
  .opt "timeout" canonicalDuration (·.timeout) fun a s => { s with timeout := a },
  .opt "retry" canonicalRetry (·.retry) fun a s => { s with retry := a },
  .opt "env" stringMap (·.env) fun a s => { s with env := a },
  .opt "matrix" matrixCodec.toWriter (·.matrix) fun a s => { s with matrix := a },
  .opt "paths" strings (·.paths) fun a s => { s with paths := a },
  .opt "paths_ignore" strings (·.pathsIgnore) fun a s => { s with pathsIgnore := a },
  .opt "services" (.list canonicalService) (·.services) fun a s => { s with services := a },
  .req "steps" (.list canonicalStep) (·.steps) fun a s => { s with steps := a },
  .opt "cache" (.plainList Cache.codec.toWriter Cache.codec_plain) (·.cache) fun a s => { s with cache := a },
  .opt "artifacts" (.plainList Artifact.codec.toWriter Artifact.codec_plain) (·.artifacts) fun a s =>
    { s with artifacts := a },
  .opt "downloads" (.plainList ArtifactInput.codec.toWriter ArtifactInput.codec_plain) (·.downloads) fun a s =>
    { s with downloads := a },
  .opt "clone" Clone.codec.toWriter (·.clone) fun a s => { s with clone := a },
  .opt "workspace" Workspace.codec.toWriter (·.workspace) fun a s => { s with workspace := a },
  .opt "volumes" (.plainList Volume.codec.toWriter Volume.codec_plain) (·.volumes) fun a s => { s with volumes := a },
  .opt "registries" (.plainList Registry.codec.toWriter Registry.codec_plain) (·.registries) fun a s =>
    { s with registries := a },
  .opt "test_reports" strings (·.testReports) fun a s => { s with testReports := a },
  .opt "environment" Environment.codec.toWriter (·.environment) fun a s =>
    { s with environment := a },
  .opt "infra_retries" number (·.infraRetries) fun a s => { s with infraRetries := a },
  .opt "infra_retries_set" flag (·.infraRetriesSet) fun a s => { s with infraRetriesSet := a },
  .opt "permissions" Permissions.codec.toWriter (·.permissions) fun a s =>
    { s with permissions := a },
  .opt "outputs" stringMap (·.outputs) fun a s => { s with outputs := a },
  .opt "sandbox" Sandbox.codec.toWriter (·.sandbox) fun a s => { s with sandbox := a },
  .opt "placement" Placement.codec.toWriter (·.placement) fun a s => { s with placement := a },
  .opt "resources" Resources.codec.toWriter (·.resources) fun a s => { s with resources := a },
  .opt "tests" TestConfig.codec.toWriter (fun j => (j.tests, j.shards)) fun a s =>
    { s with tests := a.1, shards := a.2 },
  .opt "generate" GenerateSpec.codec.toWriter (·.generate) fun a s => { s with generate := a },
  .opt "downstream" canonicalDownstream (·.downstream) fun a s => { s with downstream := a },
  .opt "deployment" canonicalDeployment (·.deployment) fun a s => { s with deployment := a },
  .opt "snapshot" SnapshotSpec.codec.toWriter (·.snapshot) fun a s => { s with snapshot := a },
  .opt "component" text (·.component) fun a s => { s with component := a },
  .opt "with" stringMap (·.withArgs) fun a s => { s with withArgs := a },
  .opt "queue_timeout" canonicalDuration (·.queueTimeout) fun a s => { s with queueTimeout := a },
  .opt "tools" strings (·.tools) fun a s => { s with tools := a },
  .opt "toolchains" strings (·.toolchains) fun a s => { s with toolchains := a }]

def canonicalJob : Writer Job := .struct {} (fun j =>
  { j.order with
    matrix := matrixCodec.norm j.matrix
    concurrency := none
    steps := j.steps.map canonicalStep.norm
    deployment := canonicalDeployment.norm j.deployment
    boundToolchains := [] })
  canonicalJobMembers (by decide +kernel) (by
    intro s
    simp only [canonicalJobMembers, List.foldl_cons, List.foldl_nil, Member.opt, Member.req]
    rfl)

def canonicalComponentUse : Writer ComponentUse := .struct {} ComponentUse.order [
  .req "ref" text (·.ref) fun a s => { s with ref := a },
  .opt "with" stringMap (·.withArgs) fun a s => { s with withArgs := a }]

/-- `CronEntry`. -/
def CronEntry.writer : Writer CronEntry := .struct {} id [
  .req "cron" text (·.cron) fun a s => { s with cron := a },
  .opt "branches" strings (·.branches) fun a s => { s with branches := a }]

/-- `Trigger`. -/
def Trigger.writer : Writer Trigger := .struct {} id [
  .opt "branches" strings (·.branches) fun a s => { s with branches := a },
  .opt "branches_ignore" strings (·.branchesIgnore) fun a s => { s with branchesIgnore := a },
  .opt "tags" strings (·.tags) fun a s => { s with tags := a },
  .opt "tags_ignore" strings (·.tagsIgnore) fun a s => { s with tagsIgnore := a },
  .opt "paths" strings (·.paths) fun a s => { s with paths := a },
  .opt "paths_ignore" strings (·.pathsIgnore) fun a s => { s with pathsIgnore := a },
  .opt "actions" strings (·.actions) fun a s => { s with actions := a },
  .opt "draft" (.pointer flag) (·.draft) fun a s => { s with draft := a },
  .opt "cron" (.plainList CronEntry.writer) (·.cron) fun a s => { s with cron := a }]

/-- The default of an input, as it is. -/
def defaultWriter : Writer { j : Json // j ≠ .null } where
  empty _ := false
  write d := d.1
  norm := id
  pins _ _ same := Subtype.ext same
  pinsEmpty _ _ none := by cases none

/-- `Input`. -/
def Input.writer : Writer Input := .struct {} id [
  .opt "type" text (·.type) fun a s => { s with type := a },
  .opt "required" flag (·.required) fun a s => { s with required := a },
  .opt "default" (.pointer defaultWriter fun d => d.2) (·.default) fun a s =>
    { s with default := a },
  .opt "options" strings (·.options) fun a s => { s with options := a },
  .opt "description" text (·.description) fun a s => { s with description := a }]

/-- `Package`. -/
def Package.writer : Writer Package := .struct {} id [
  .opt "paths" strings (·.paths) fun a s => { s with paths := a },
  .opt "depends_on" strings (·.dependsOn) fun a s => { s with dependsOn := a }]

/-- The secrets as a set: each name once, in order. -/
def secretNames (secrets : List String) : List String :=
  secrets.dedup.insertionSort (· ≤ ·)

/-- The members of `canonicalSpec`. -/
def canonicalSpecMembers : List (Member Spec) := [
  .req "version" number (·.version) fun a s => { s with version := a },
  .opt "name" text (·.name) fun a s => { s with name := a },
  .opt "env" stringMap (·.env) fun a s => { s with env := a },
  .opt "secrets" strings (fun s => secretNames s.secrets) fun a s => { s with secrets := a },
  .opt "concurrency" Concurrency.codec.toWriter (·.concurrency) fun a s =>
    { s with concurrency := a },
  .opt "defaults" canonicalDefaults (·.defaults) fun a s => { s with defaults := a },
  .opt "permissions" Permissions.codec.toWriter (·.permissions) fun a s =>
    { s with permissions := a },
  .opt "on" (.plainMap Trigger.writer) (·.on) fun a s => { s with on := a },
  .opt "inputs" (.plainMap Input.writer) (·.inputs) fun a s => { s with inputs := a },
  .opt "packages" (.plainMap Package.writer) (·.packages) fun a s => { s with packages := a },
  .opt "components" (.map canonicalComponentUse) (·.components) fun a s =>
    { s with components := a },
  .opt "toolchains" (.plainMap Toolchain.codec.toWriter Toolchain.codec_plain) (·.toolchains) fun a s =>
    { s with toolchains := a },
  .req "jobs" (.map canonicalJob) (·.jobs) fun a s => { s with jobs := a }]

def canonicalSpec : Writer Spec := .struct {} (fun s =>
  { s.order with
    secrets := secretNames s.secrets
    jobs := (s.jobs.map fun _ => canonicalJob.norm).order
    providedInputs := none })
  canonicalSpecMembers (by decide +kernel) (by
    intro s
    simp only [canonicalSpecMembers, List.foldl_cons, List.foldl_nil, Member.opt, Member.req]
    rfl)

def canonicalJSON (s : Spec) : List Char := (canonicalSpec.write s).render

def pipelineDigest (s : Spec) : String :=
  Sha256.hex (Sha256.digest (Sha256.utf8 (String.ofList (canonicalJSON s))))

end KiwiCI.Pipeline
