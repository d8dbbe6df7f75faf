import KiwiCI.Lib.Codec

/-!
A pipeline document after parsing: the structs of `internal/pipeline/spec.go` and
`graph.go`.

`Parse` empties two fields of a job, which are left out: the shorthand `run` of a
job becomes its only step, and its `when` block is folded into the paths and the
condition.  A value next to a presence flag (`maxSet`, `retriesSet`,
`infraRetriesSet`) was written explicitly when the flag is set, zero included.
-/

namespace KiwiCI.Pipeline

/-- `Duration`, `none` when it is unset. -/
abbrev Duration := Option DurationText

/-- A matrix value as the YAML decoder produces it.  A float is kept as the text
`fmt.Sprint` prints for it and the number it is written as in JSON, a non-scalar as
its text and its JSON. -/
inductive MatrixValue where
  | string (s : String)
  | bool (b : Bool)
  | int (n : Int)
  | float (printed : String) (number : Number)
  | composite (printed : String) (json : Json)

/-- `fmt.Sprint` of a matrix value. -/
def MatrixValue.sprint : MatrixValue → String
  | .string s => s
  | .bool b => if b then "true" else "false"
  | .int n => toString n
  | .float printed _ => printed
  | .composite printed _ => printed

structure Retry where
  max : Int := 0
  backoff : Duration := none
  on : List String := []
  maxSet : Bool := false

/-- `Step`: the field `if` is `condition`. -/
structure Step where
  id : String := ""
  name : String := ""
  run : String := ""
  condition : String := ""
  shell : String := ""
  workingDirectory : String := ""
  env : Table String String := .empty
  secrets : List String := []
  timeout : Duration := none
  retry : Retry := {}
  continueOnError : Bool := false
  cancelJobOnFailure : Bool := false
  background : Bool := false
  matrix : Table String (List MatrixValue) := .empty

structure Service where
  name : String := ""
  image : String := ""
  command : List String := []
  env : Table String String := .empty
  ready : String := ""
  healthcheck : String := ""
  interval : Duration := none
  timeout : Duration := none
  retries : Int := 0
  retriesSet : Bool := false
  native : Bool := false

structure Cache where
  name : String := ""
  key : String := ""
  paths : List String := []
  hashFiles : List String := []
  restoreKeys : List String := []

/-- `ArtifactInput`: the field `from` is `source`, `if` is `condition`. -/
structure ArtifactInput where
  source : String := ""
  name : String := ""
  path : String := ""
  condition : String := ""

structure SigstoreConfig where
  required : Bool := false
  issuer : String := ""
  identity : String := ""

/-- `Artifact`: the field `if` is `condition`. -/
structure Artifact where
  name : String := ""
  paths : List String := []
  condition : String := ""
  retention : String := ""
  sbom : String := ""
  sigstore : Option SigstoreConfig := none
  required : Bool := false
  provenance : String := ""
  maxSize : Int := 0

structure ToolchainInstall where
  url : String := ""
  sha256 : String := ""
  bin : String := ""
  format : String := ""

structure Toolchain where
  version : String := ""
  command : List String := []
  path : String := ""
  install : Option ToolchainInstall := none

structure Concurrency where
  group : String := ""
  cancelInProgress : Bool := false
  limit : Int := 0

structure Clone where
  skip : Bool := false
  depth : Int := 0
  submodules : Bool := false
  lfs : Bool := false
  sparsePaths : List String := []

structure Workspace where
  base : String := ""
  path : String := ""

structure Volume where
  name : String := ""
  path : String := ""
  hostPath : String := ""
  readOnly : Bool := false

structure Registry where
  host : String := ""
  usernameSecret : String := ""
  passwordSecret : String := ""

structure Environment where
  name : String := ""
  url : String := ""
  approval : Bool := false
  branches : List String := []
  concurrency : Int := 0

structure Permissions where
  idToken : Bool := false

/-- `Sandbox`; the network policy is its number. -/
structure Sandbox where
  rootless : Bool := false
  readOnlyRootFS : Bool := false
  privileged : Bool := false
  nonRoot : Bool := false
  network : Int := 0

structure Placement where
  regions : List String := []
  labels : List String := []

structure Resources where
  cpu : Number := .integer 0
  memory : Int := 0
  disk : Int := 0
  pids : Int := 0

/-- `TestConfig`, without the number of shards, which is a field of the job here. -/
structure TestConfig where
  reports : List String := []
  manifest : String := ""
  retryFailed : Int := 0
  quarantineFlaky : Bool := false

structure GenerateSpec where
  path : String := ""
  maxJobs : Int := 0
  maxDepth : Int := 0
  optional : Bool := false

structure DownstreamSpec where
  repository : String := ""
  ref : String := ""
  event : String := ""
  inputs : Table String String := .empty
  wait : Bool := false

structure DeploymentSpec where
  canary : List Step := []
  verify : List Step := []
  rollback : List Step := []

structure SnapshotSpec where
  on : List String := []

/-- `Job`: the field `if` is `condition`, `tests.shards` is `shards`. -/
structure Job where
  name : String := ""
  needs : List String := []
  condition : String := ""
  runner : List String := []
  runtime : String := ""
  image : String := ""
  network : String := ""
  vm : String := ""
  shell : String := ""
  timeout : Duration := none
  retry : Retry := {}
  env : Table String String := .empty
  matrix : Table String (List MatrixValue) := .empty
  concurrency : Option Concurrency := none
  paths : List String := []
  pathsIgnore : List String := []
  services : List Service := []
  steps : List Step := []
  cache : List Cache := []
  artifacts : List Artifact := []
  downloads : List ArtifactInput := []
  clone : Clone := {}
  workspace : Workspace := {}
  volumes : List Volume := []
  registries : List Registry := []
  testReports : List String := []
  environment : Environment := {}
  infraRetries : Int := 0
  infraRetriesSet : Bool := false
  permissions : Permissions := {}
  outputs : Table String String := .empty
  sandbox : Sandbox := {}
  placement : Placement := {}
  resources : Resources := {}
  tests : TestConfig := {}
  shards : Int := 0
  generate : GenerateSpec := {}
  downstream : DownstreamSpec := {}
  deployment : DeploymentSpec := {}
  snapshot : SnapshotSpec := {}
  component : String := ""
  withArgs : Table String String := .empty
  queueTimeout : Duration := none
  tools : List String := []
  toolchains : List String := []
  boundToolchains : List Toolchain := []

structure CronEntry where
  cron : String := ""
  branches : List String := []

structure Trigger where
  branches : List String := []
  branchesIgnore : List String := []
  tags : List String := []
  tagsIgnore : List String := []
  paths : List String := []
  pathsIgnore : List String := []
  actions : List String := []
  draft : Option Bool := none
  cron : List CronEntry := []

/-- `Input`; the default is the JSON it is written as, and a null default is none. -/
structure Input where
  type : String := ""
  required : Bool := false
  default : Option { j : Json // j ≠ .null } := none
  options : List String := []
  description : String := ""

structure Package where
  paths : List String := []
  dependsOn : List String := []

structure ComponentUse where
  ref : String := ""
  withArgs : Table String String := .empty

structure Defaults where
  shell : String := ""
  timeout : Duration := none
  retry : Retry := {}

/-- `Spec`; a `none` in `providedInputs` is the nil map. -/
structure Spec where
  version : Int := 1
  name : String := ""
  on : Table String Trigger := .empty
  inputs : Table String Input := .empty
  env : Table String String := .empty
  secrets : List String := []
  defaults : Defaults := {}
  permissions : Permissions := {}
  concurrency : Concurrency := {}
  packages : Table String Package := .empty
  components : Table String ComponentUse := .empty
  toolchains : Table String Toolchain := .empty
  jobs : Table String Job := .empty
  providedInputs : Option (Table String String) := none

structure CompiledJob where
  id : String := ""
  baseID : String := ""
  job : Job := {}
  matrix : Table String String := .empty
  needs : List String := []

/-- `Graph`, by its compiled jobs. -/
structure Graph where
  jobs : Table String CompiledJob := .empty

/-! ## Key order

A Go map has no order; `order` lists every map by its keys, so that two values that hold
the same maps become equal. -/

/-- A step with its maps in key order. -/
def Step.order (s : Step) : Step := { s with env := s.env.order, matrix := s.matrix.order }

/-- A service with its map in key order. -/
def Service.order (s : Service) : Service := { s with env := s.env.order }

/-- A downstream trigger with its map in key order. -/
def DownstreamSpec.order (d : DownstreamSpec) : DownstreamSpec :=
  { d with inputs := d.inputs.order }

/-- Deployment phases with their maps in key order. -/
def DeploymentSpec.order (d : DeploymentSpec) : DeploymentSpec where
  canary := d.canary.map Step.order
  verify := d.verify.map Step.order
  rollback := d.rollback.map Step.order

/-- A job with its maps in key order. -/
def Job.order (j : Job) : Job :=
  { j with
    env := j.env.order
    matrix := j.matrix.order
    services := j.services.map Service.order
    steps := j.steps.map Step.order
    outputs := j.outputs.order
    downstream := j.downstream.order
    deployment := j.deployment.order
    withArgs := j.withArgs.order }

def ComponentUse.order (c : ComponentUse) : ComponentUse := { c with withArgs := c.withArgs.order }

/-- A pipeline with its maps in key order. -/
def Spec.order (s : Spec) : Spec :=
  { s with
    on := s.on.order
    inputs := s.inputs.order
    env := s.env.order
    packages := s.packages.order
    components := (s.components.map fun _ => ComponentUse.order).order
    toolchains := s.toolchains.order
    jobs := (s.jobs.map fun _ => Job.order).order
    providedInputs := s.providedInputs.map Table.order }

def CompiledJob.order (cj : CompiledJob) : CompiledJob :=
  { cj with job := cj.job.order, matrix := cj.matrix.order }

/-!
The JSON of a job: the struct tags of `internal/pipeline/spec.go` and `graph.go`,
one field list for each struct, in the order of the declaration.

The presence flags have the tag `json:"-"` and stand in no list.  `tests` is written
from two fields of the model's job.
-/

/-- The JSON of a matrix value. -/
def MatrixValue.toJson : MatrixValue → Json
  | .string s => .str s
  | .bool b => .bool b
  | .int n => .num n
  | .float _ number => number.toJson
  | .composite _ json => json

/-- A matrix value, of which the text pins the JSON only; a decoded number is a float. -/
def MatrixValue.codec : Codec MatrixValue where
  zero := .composite "<nil>" .null
  empty _ := false
  write := MatrixValue.toJson
  norm v := .composite "" v.toJson
  pins _ _ same := congrArg (MatrixValue.composite "") same
  pinsEmpty _ _ none := by cases none
  read
    | _, .str s, _ => .ok (.string s)
    | _, .bool b, _ => .ok (.bool b)
    | rt, .num n, _ => .ok (.float (rt.float (.integer n)).2 (rt.float (.integer n)).1)
    | rt, .decimal d, _ => .ok (.float (rt.float (.decimal d)).2 (rt.float (.decimal d)).1)
    | rt, j, _ => .ok (.composite (rt.sprint j) j)

def matrixCodec : Codec (Table String (List MatrixValue)) :=
  Codec.map (Codec.list MatrixValue.codec)

/-- A retry policy. -/
def Retry.fields : List (Field Retry) := [
  .opt "max" Codec.int (·.max) fun a s => { s with max := a },
  .opt "backoff" Codec.duration (·.backoff) fun a s => { s with backoff := a },
  .opt "on" Codec.strings (·.on) fun a s => { s with on := a }]

def Retry.codec : Codec Retry := .struct {} (fun r => { r with maxSet := false })
  Retry.fields (by decide +kernel) (by
    intro s
    simp only [members, Retry.fields, List.map_cons, List.map_nil, List.foldl_cons, List.foldl_nil,
      Field.opt, Member.opt]
    rfl)

def Step.fields : List (Field Step) := [
  .opt "id" Codec.string (·.id) fun a s => { s with id := a },
  .opt "name" Codec.string (·.name) fun a s => { s with name := a },
  .req "run" Codec.string (·.run) fun a s => { s with run := a },
  .opt "if" Codec.string (·.condition) fun a s => { s with condition := a },
  .opt "shell" Codec.string (·.shell) fun a s => { s with shell := a },
  .opt "working_directory" Codec.string (·.workingDirectory) fun a s =>
    { s with workingDirectory := a },
  .opt "env" Codec.stringMap (·.env) fun a s => { s with env := a },
  .opt "secrets" Codec.strings (·.secrets) fun a s => { s with secrets := a },
  .opt "timeout" Codec.duration (·.timeout) fun a s => { s with timeout := a },
  .opt "retry" Retry.codec (·.retry) fun a s => { s with retry := a },
  .opt "continue_on_error" Codec.bool (·.continueOnError) fun a s =>
    { s with continueOnError := a },
  .opt "cancel_job_on_failure" Codec.bool (·.cancelJobOnFailure) fun a s =>
    { s with cancelJobOnFailure := a },
  .opt "background" Codec.bool (·.background) fun a s => { s with background := a },
  .opt "matrix" matrixCodec (·.matrix) fun a s => { s with matrix := a }]

def Step.codec : Codec Step := .struct {} (fun s =>
  { s.order with retry := Retry.codec.norm s.retry, matrix := matrixCodec.norm s.matrix })
  Step.fields (by decide +kernel) (by
    intro s
    simp only [members, Step.fields, List.map_cons, List.map_nil, List.foldl_cons, List.foldl_nil,
      Field.opt, Field.req, Member.opt, Member.req]
    rfl)

def Service.fields : List (Field Service) := [
  .req "name" Codec.string (·.name) fun a s => { s with name := a },
  .req "image" Codec.string (·.image) fun a s => { s with image := a },
  .opt "command" Codec.strings (·.command) fun a s => { s with command := a },
  .opt "env" Codec.stringMap (·.env) fun a s => { s with env := a },
  .opt "ready" Codec.string (·.ready) fun a s => { s with ready := a },
  .opt "healthcheck" Codec.string (·.healthcheck) fun a s => { s with healthcheck := a },
  .opt "interval" Codec.duration (·.interval) fun a s => { s with interval := a },
  .opt "timeout" Codec.duration (·.timeout) fun a s => { s with timeout := a },
  .opt "retries" Codec.int (·.retries) fun a s => { s with retries := a },
  .opt "native" Codec.bool (·.native) fun a s => { s with native := a }]

def Service.codec : Codec Service := .struct {} (fun s => { s.order with retriesSet := false })
  Service.fields (by decide +kernel) (by
    intro s
    simp only [members, Service.fields, List.map_cons, List.map_nil, List.foldl_cons,
      List.foldl_nil, Field.opt, Field.req, Member.opt, Member.req]
    rfl)

/-- A cache definition. -/
def Cache.codec : Codec Cache := .struct {} id [
  .opt "name" Codec.string (·.name) fun a s => { s with name := a },
  .req "paths" Codec.strings (·.paths) fun a s => { s with paths := a },
  .opt "key" Codec.string (·.key) fun a s => { s with key := a },
  .opt "hash_files" Codec.strings (·.hashFiles) fun a s => { s with hashFiles := a },
  .opt "restore_keys" Codec.strings (·.restoreKeys) fun a s =>
    { s with restoreKeys := a }]

/-- A download. -/
def ArtifactInput.codec : Codec ArtifactInput := .struct {} id [
  .req "from" Codec.string (·.source) fun a s => { s with source := a },
  .req "name" Codec.string (·.name) fun a s => { s with name := a },
  .opt "path" Codec.string (·.path) fun a s => { s with path := a },
  .opt "if" Codec.string (·.condition) fun a s => { s with condition := a }]

/-- An attestation requirement. -/
def SigstoreConfig.codec : Codec SigstoreConfig := .struct {} id [
  .opt "required" Codec.bool (·.required) fun a s => { s with required := a },
  .opt "issuer" Codec.string (·.issuer) fun a s => { s with issuer := a },
  .opt "identity" Codec.string (·.identity) fun a s => { s with identity := a }]

def Artifact.codec : Codec Artifact := .struct {} id [
  .req "name" Codec.string (·.name) fun a s => { s with name := a },
  .req "paths" Codec.strings (·.paths) fun a s => { s with paths := a },
  .opt "if" Codec.string (·.condition) fun a s => { s with condition := a },
  .opt "retention" Codec.string (·.retention) fun a s => { s with retention := a },
  .opt "sbom" Codec.string (·.sbom) fun a s => { s with sbom := a },
  .opt "sigstore" (.pointer SigstoreConfig.codec) (·.sigstore) fun a s =>
    { s with sigstore := a },
  .opt "required" Codec.bool (·.required) fun a s => { s with required := a },
  .opt "provenance" Codec.string (·.provenance) fun a s => { s with provenance := a },
  .opt "max_size" Codec.int (·.maxSize) fun a s => { s with maxSize := a }]

/-- A bootstrap download. -/
def ToolchainInstall.codec : Codec ToolchainInstall := .struct {} id [
  .req "url" Codec.string (·.url) fun a s => { s with url := a },
  .req "sha256" Codec.string (·.sha256) fun a s => { s with sha256 := a },
  .req "bin" Codec.string (·.bin) fun a s => { s with bin := a },
  .opt "format" Codec.string (·.format) fun a s => { s with format := a }]

def Toolchain.codec : Codec Toolchain := .struct {} id [
  .opt "version" Codec.string (·.version) fun a s => { s with version := a },
  .opt "command" Codec.strings (·.command) fun a s => { s with command := a },
  .opt "path" Codec.string (·.path) fun a s => { s with path := a },
  .opt "install" (.pointer ToolchainInstall.codec) (·.install) fun a s =>
    { s with install := a }]

/-- A concurrency group. -/
def Concurrency.codec : Codec Concurrency := .struct {} id [
  .opt "group" Codec.string (·.group) fun a s => { s with group := a },
  .opt "cancel_in_progress" Codec.bool (·.cancelInProgress) fun a s =>
    { s with cancelInProgress := a },
  .opt "limit" Codec.int (·.limit) fun a s => { s with limit := a }]

/-- A checkout policy. -/
def Clone.codec : Codec Clone := .struct {} id [
  .opt "skip" Codec.bool (·.skip) fun a s => { s with skip := a },
  .opt "depth" Codec.int (·.depth) fun a s => { s with depth := a },
  .opt "submodules" Codec.bool (·.submodules) fun a s => { s with submodules := a },
  .opt "lfs" Codec.bool (·.lfs) fun a s => { s with lfs := a },
  .opt "sparse_paths" Codec.strings (·.sparsePaths) fun a s =>
    { s with sparsePaths := a }]

def Workspace.codec : Codec Workspace := .struct {} id [
  .opt "base" Codec.string (·.base) fun a s => { s with base := a },
  .opt "path" Codec.string (·.path) fun a s => { s with path := a }]

def Volume.codec : Codec Volume := .struct {} id [
  .req "name" Codec.string (·.name) fun a s => { s with name := a },
  .req "path" Codec.string (·.path) fun a s => { s with path := a },
  .opt "host_path" Codec.string (·.hostPath) fun a s => { s with hostPath := a },
  .opt "read_only" Codec.bool (·.readOnly) fun a s => { s with readOnly := a }]

def Registry.codec : Codec Registry := .struct {} id [
  .opt "host" Codec.string (·.host) fun a s => { s with host := a },
  .req "username_secret" Codec.string (·.usernameSecret) fun a s => { s with usernameSecret := a },
  .req "password_secret" Codec.string (·.passwordSecret) fun a s => { s with passwordSecret := a }]

/-- A deployment environment. -/
def Environment.codec : Codec Environment := .struct {} id [
  .opt "name" Codec.string (·.name) fun a s => { s with name := a },
  .opt "url" Codec.string (·.url) fun a s => { s with url := a },
  .opt "approval" Codec.bool (·.approval) fun a s => { s with approval := a },
  .opt "branches" Codec.strings (·.branches) fun a s => { s with branches := a },
  .opt "concurrency" Codec.int (·.concurrency) fun a s => { s with concurrency := a }]

def Permissions.codec : Codec Permissions := .struct {} id [
  .opt "id_token" Codec.bool (·.idToken) fun a s => { s with idToken := a }]

def Sandbox.codec : Codec Sandbox := .struct {} id [
  .opt "rootless" Codec.bool (·.rootless) fun a s => { s with rootless := a },
  .opt "read_only_rootfs" Codec.bool (·.readOnlyRootFS) fun a s => { s with readOnlyRootFS := a },
  .opt "privileged" Codec.bool (·.privileged) fun a s => { s with privileged := a },
  .opt "non_root" Codec.bool (·.nonRoot) fun a s => { s with nonRoot := a },
  .opt "network" Codec.int (·.network) fun a s => { s with network := a }]

def Placement.codec : Codec Placement := .struct {} id [
  .opt "regions" Codec.strings (·.regions) fun a s => { s with regions := a },
  .opt "labels" Codec.strings (·.labels) fun a s => { s with labels := a }]

def Resources.codec : Codec Resources := .struct {} id [
  .opt "cpu" Codec.float (·.cpu) fun a s => { s with cpu := a },
  .opt "memory" Codec.int (·.memory) fun a s => { s with memory := a },
  .opt "disk" Codec.int (·.disk) fun a s => { s with disk := a },
  .opt "pids" Codec.int (·.pids) fun a s => { s with pids := a }]

/-- Generation limits. -/
def GenerateSpec.codec : Codec GenerateSpec := .struct {} id [
  .opt "path" Codec.string (·.path) fun a s => { s with path := a },
  .opt "max_jobs" Codec.int (·.maxJobs) fun a s => { s with maxJobs := a },
  .opt "max_depth" Codec.int (·.maxDepth) fun a s => { s with maxDepth := a },
  .opt "optional" Codec.bool (·.optional) fun a s => { s with optional := a }]

/-- A downstream trigger. -/
def DownstreamSpec.codec : Codec DownstreamSpec := .struct {} DownstreamSpec.order [
  .opt "repository" Codec.string (·.repository) fun a s => { s with repository := a },
  .opt "ref" Codec.string (·.ref) fun a s => { s with ref := a },
  .opt "event" Codec.string (·.event) fun a s => { s with event := a },
  .opt "inputs" Codec.stringMap (·.inputs) fun a s => { s with inputs := a },
  .opt "wait" Codec.bool (·.wait) fun a s => { s with wait := a }]

/-- Deployment phases. -/
def DeploymentSpec.fields : List (Field DeploymentSpec) := [
  .opt "canary" (Codec.list Step.codec) (·.canary) fun a s => { s with canary := a },
  .opt "verify" (Codec.list Step.codec) (·.verify) fun a s => { s with verify := a },
  .opt "rollback" (Codec.list Step.codec) (·.rollback) fun a s => { s with rollback := a }]

def DeploymentSpec.codec : Codec DeploymentSpec := .struct {} (fun d =>
  { canary := d.canary.map Step.codec.norm
    verify := d.verify.map Step.codec.norm
    rollback := d.rollback.map Step.codec.norm })
  DeploymentSpec.fields (by decide +kernel) (by
    intro s
    simp only [members, DeploymentSpec.fields, List.map_cons, List.map_nil, List.foldl_cons,
      List.foldl_nil, Field.opt, Member.opt]
    rfl)

/-- A snapshot request. -/
def SnapshotSpec.codec : Codec SnapshotSpec := .struct {} id [
  .opt "on" Codec.strings (·.on) fun a s => { s with on := a }]

/-- The test settings, with the number of shards. -/
def TestConfig.codec : Codec (TestConfig × Int) := .struct ({}, 0) id [
  .opt "reports" Codec.strings (·.1.reports) fun a s =>
    ({ s.1 with reports := a }, s.2),
  .opt "manifest" Codec.string (·.1.manifest) fun a s => ({ s.1 with manifest := a }, s.2),
  .opt "shards" Codec.int (·.2) fun a s => (s.1, a),
  .opt "retry_failed" Codec.int (·.1.retryFailed) fun a s => ({ s.1 with retryFailed := a }, s.2),
  .opt "quarantine_flaky" Codec.bool (·.1.quarantineFlaky) fun a s =>
    ({ s.1 with quarantineFlaky := a }, s.2)]

theorem Cache.codec_plain : Cache.codec.norm = id := rfl

theorem ArtifactInput.codec_plain : ArtifactInput.codec.norm = id := rfl

theorem Artifact.codec_plain : Artifact.codec.norm = id := rfl

theorem Toolchain.codec_plain : Toolchain.codec.norm = id := rfl

theorem Volume.codec_plain : Volume.codec.norm = id := rfl

theorem Registry.codec_plain : Registry.codec.norm = id := rfl

def Job.fields : List (Field Job) := [
  .opt "name" Codec.string (·.name) fun a s => { s with name := a },
  .opt "needs" Codec.strings (·.needs) fun a s => { s with needs := a },
  .opt "if" Codec.string (·.condition) fun a s => { s with condition := a },
  .opt "runner" Codec.strings (·.runner) fun a s => { s with runner := a },
  .opt "runtime" Codec.string (·.runtime) fun a s => { s with runtime := a },
  .opt "image" Codec.string (·.image) fun a s => { s with image := a },
  .opt "network" Codec.string (·.network) fun a s => { s with network := a },
  .opt "vm" Codec.string (·.vm) fun a s => { s with vm := a },
  .opt "shell" Codec.string (·.shell) fun a s => { s with shell := a },
  .opt "timeout" Codec.duration (·.timeout) fun a s => { s with timeout := a },
  .opt "retry" Retry.codec (·.retry) fun a s => { s with retry := a },
  .opt "env" Codec.stringMap (·.env) fun a s => { s with env := a },
  .opt "matrix" matrixCodec (·.matrix) fun a s => { s with matrix := a },
  .opt "concurrency" (.pointer Concurrency.codec) (·.concurrency) fun a s =>
    { s with concurrency := a },
  .opt "paths" Codec.strings (·.paths) fun a s => { s with paths := a },
  .opt "paths_ignore" Codec.strings (·.pathsIgnore) fun a s =>
    { s with pathsIgnore := a },
  .opt "services" (Codec.list Service.codec) (·.services) fun a s => { s with services := a },
  .req "steps" (Codec.list Step.codec) (·.steps) fun a s => { s with steps := a },
  .opt "cache" (Codec.plainList Cache.codec) (·.cache) fun a s => { s with cache := a },
  .opt "artifacts" (Codec.plainList Artifact.codec) (·.artifacts) fun a s =>
    { s with artifacts := a },
  .opt "downloads" (Codec.plainList ArtifactInput.codec) (·.downloads) fun a s =>
    { s with downloads := a },
  .opt "clone" Clone.codec (·.clone) fun a s => { s with clone := a },
  .opt "workspace" Workspace.codec (·.workspace) fun a s => { s with workspace := a },
  .opt "volumes" (Codec.plainList Volume.codec) (·.volumes) fun a s => { s with volumes := a },
  .opt "registries" (Codec.plainList Registry.codec) (·.registries) fun a s =>
    { s with registries := a },
  .opt "test_reports" Codec.strings (·.testReports) fun a s =>
    { s with testReports := a },
  .opt "environment" Environment.codec (·.environment) fun a s => { s with environment := a },
  .opt "infra_retries" Codec.int (·.infraRetries) fun a s => { s with infraRetries := a },
  .opt "permissions" Permissions.codec (·.permissions) fun a s => { s with permissions := a },
  .opt "outputs" Codec.stringMap (·.outputs) fun a s => { s with outputs := a },
  .opt "sandbox" Sandbox.codec (·.sandbox) fun a s => { s with sandbox := a },
  .opt "placement" Placement.codec (·.placement) fun a s => { s with placement := a },
  .opt "resources" Resources.codec (·.resources) fun a s => { s with resources := a },
  .opt "tests" TestConfig.codec (fun j => (j.tests, j.shards)) fun a s =>
    { s with tests := a.1, shards := a.2 },
  .opt "generate" GenerateSpec.codec (·.generate) fun a s => { s with generate := a },
  .opt "downstream" DownstreamSpec.codec (·.downstream) fun a s => { s with downstream := a },
  .opt "deployment" DeploymentSpec.codec (·.deployment) fun a s => { s with deployment := a },
  .opt "snapshot" SnapshotSpec.codec (·.snapshot) fun a s => { s with snapshot := a },
  .opt "component" Codec.string (·.component) fun a s => { s with component := a },
  .opt "with" Codec.stringMap (·.withArgs) fun a s => { s with withArgs := a },
  .opt "queue_timeout" Codec.duration (·.queueTimeout) fun a s => { s with queueTimeout := a },
  .opt "tools" Codec.strings (·.tools) fun a s => { s with tools := a },
  .opt "toolchains" Codec.strings (·.toolchains) fun a s => { s with toolchains := a },
  .opt "bound_toolchains" (Codec.plainList Toolchain.codec) (·.boundToolchains) fun a s =>
    { s with boundToolchains := a }]

def Job.codec : Codec Job := .struct {} (fun j =>
  { j.order with
    retry := Retry.codec.norm j.retry
    matrix := matrixCodec.norm j.matrix
    services := j.services.map Service.codec.norm
    steps := j.steps.map Step.codec.norm
    infraRetriesSet := false
    deployment := DeploymentSpec.codec.norm j.deployment })
  Job.fields (by decide +kernel) (by
    intro s
    simp only [members, Job.fields, List.map_cons, List.map_nil, List.foldl_cons, List.foldl_nil,
      Field.opt, Field.req, Member.opt, Member.req]
    rfl)

def CompiledJob.fields : List (Field CompiledJob) := [
  .req "id" Codec.string (·.id) fun a s => { s with id := a },
  .req "base_id" Codec.string (·.baseID) fun a s => { s with baseID := a },
  .req "job" Job.codec (·.job) fun a s => { s with job := a },
  .opt "matrix" Codec.stringMap (·.matrix) fun a s => { s with matrix := a },
  .opt "needs" Codec.strings (·.needs) fun a s => { s with needs := a }]

def CompiledJob.codec : Codec CompiledJob := .struct {} (fun cj =>
  { cj with job := Job.codec.norm cj.job, matrix := cj.matrix.order })
  CompiledJob.fields (by decide +kernel) (by
    intro s
    simp only [members, CompiledJob.fields, List.map_cons, List.map_nil, List.foldl_cons,
      List.foldl_nil, Field.opt, Field.req, Member.opt, Member.req]
    rfl)

/-- `json.Marshal` of a job. -/
def Job.toJson (j : Job) : Json := Job.codec.write j

/-- `json.Marshal` of a compiled job. -/
def CompiledJob.toJson (cj : CompiledJob) : Json :=
  CompiledJob.codec.write cj

theorem Job.toJson_env {j : Job} {env : Table String String}
    (same : ∀ k, env.get? k = j.env.get? k) : { j with env := env }.toJson = j.toJson := by
  refine encode_congr ?_
  simp only [members, Job.fields, List.map_cons, List.map_nil, List.forall_mem_cons]
  repeat' apply And.intro
  all_goals first
    | exact Field.write_stringMap same
    | exact rfl
    | exact fun m none => by cases none

end KiwiCI.Pipeline
