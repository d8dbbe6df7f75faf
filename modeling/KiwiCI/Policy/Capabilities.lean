import KiwiCI.Pipeline.Spec
import Mathlib.Order.ConditionallyCompleteLattice.Basic

/-!
Capability sets and the admission of pipelines: `internal/policy/capabilities.go` and
`internal/policy/effective.go`.

A capability set is compiled by intersecting layers.  `validatePipeline` admits a
pipeline against one.  `View` is what admission sees of a set, ordered so that a
smaller view admits less (`admits_mono`); two layers whose secret lists say what
they mean intersect to the meet of their views (`view_intersect`), so the laws of
layering are those of a meet.
-/

namespace KiwiCI.Policy

variable {a b c caps : Capabilities}

open Pipeline

/-! ## Capability sets -/

/-- `policy.Capabilities`; an absent list or map restricts nothing, an empty one denies
everything. -/
structure Capabilities where
  nativeExecution : Bool := false
  container : Bool := false
  tart : Bool := false
  network : Int := 0
  secrets : Option (Table String Bool) := none
  oidc : Option (List String) := none
  deployments : Bool := false
  cacheRead : Bool := false
  cacheWrite : Bool := false
  runnerLabels : Option (List String) := none
  generateChildGraph : Bool := false
  crossRepoTrigger : Bool := false
  privileged : Bool := false
  hostMounts : Bool := false
  requireRootless : Bool := false
  requireReadOnlyRootFS : Bool := false
  requireNonRoot : Bool := false
  enforced : Bool := false

def defaultTrustedCapabilities : Capabilities where
  nativeExecution := true
  container := true
  tart := true
  network := 3
  cacheRead := true
  cacheWrite := true

def defaultUntrustedCapabilities : Capabilities where
  container := true
  network := 1
  secrets := some .empty
  oidc := some []
  cacheRead := true
  cacheWrite := true
  requireRootless := true
  requireReadOnlyRootFS := true
  requireNonRoot := true

/-- `networkStrength`: none, then services only, then the internet and the default. -/
def networkStrength (p : Int) : Nat := if p = 1 then 0 else if p = 2 then 1 else 2

def minNetwork (a b : Int) : Int := if networkStrength a ≤ networkStrength b then a else b

/-- The value of a secret's entry; an absent one reads as false. -/
def entry (m : Table String Bool) (name : String) : Bool := (m.get? name).getD false

/-- `intersectSecrets`: of the first map only the keys are read. -/
def intersectSecrets : Option (Table String Bool) → Option (Table String Bool) →
    Option (Table String Bool)
  | none, b => b
  | some a, none => some a
  | some a, some b =>
    some ((a.rows.filter fun row => entry b row.1).foldl (fun out row => out.put row.1 true) .empty)

def intersectStrings : Option (List String) → Option (List String) → Option (List String)
  | none, b => b
  | some a, none => some a
  | some a, some b => some (a.filter b.contains)

def intersect (base restriction : Capabilities) : Capabilities where
  nativeExecution := base.nativeExecution && restriction.nativeExecution
  container := base.container && restriction.container
  tart := base.tart && restriction.tart
  network := minNetwork base.network restriction.network
  secrets := intersectSecrets base.secrets restriction.secrets
  oidc := intersectStrings base.oidc restriction.oidc
  deployments := base.deployments && restriction.deployments
  cacheRead := base.cacheRead && restriction.cacheRead
  cacheWrite := base.cacheWrite && restriction.cacheWrite
  runnerLabels := intersectStrings base.runnerLabels restriction.runnerLabels
  generateChildGraph := base.generateChildGraph && restriction.generateChildGraph
  crossRepoTrigger := base.crossRepoTrigger && restriction.crossRepoTrigger
  privileged := base.privileged && restriction.privileged
  hostMounts := base.hostMounts && restriction.hostMounts
  requireRootless := base.requireRootless || restriction.requireRootless
  requireReadOnlyRootFS := base.requireReadOnlyRootFS || restriction.requireReadOnlyRootFS
  requireNonRoot := base.requireNonRoot || restriction.requireNonRoot
  enforced := base.enforced || restriction.enforced

def Capabilities.effective (c : Capabilities) (trusted : Bool) : Capabilities :=
  if trusted then c
  else
    let eff := intersect c defaultUntrustedCapabilities
    { eff with secrets := some (eff.secrets.getD .empty), oidc := some (eff.oidc.getD []) }

def Capabilities.oidcAllows (c : Capabilities) (audience : String) : Bool :=
  match c.oidc with
  | none => true
  | some audiences => audiences.contains audience

/-- Whether a set permits a secret: every declared one, or those its map holds true. -/
def Capabilities.secretAllows (c : Capabilities) (name : String) : Bool :=
  match c.secrets with
  | none => true
  | some m => entry m name

/-- Whether a set permits a runner label. -/
def Capabilities.labelAllows (c : Capabilities) (label : String) : Bool :=
  match c.runnerLabels with
  | none => true
  | some labels => labels.contains label

/-! ## Admission -/

structure Violation where
  kind : String
  detail : String
  deriving DecidableEq, Repr

def requestedNetwork (j : Pipeline.Job) : Int := if j.network = "none" then 1 else j.sandbox.network

def networkName (p : Int) : String :=
  if p = 1 then "none"
  else if p = 2 then "services-only"
  else if p = 3 then "internet"
  else "default"

section Admission

-- `fmt`'s `%q`
variable (quote : String → String)

/-- The text both secret violations end in. -/
def secretDetail (name : String) : String :=
  " requests secret " ++ quote name ++ "; secrets require a TRUSTED job (dispatch --trusted or " ++
    "kiwi.toml [runner] trusted = true). For trusted jobs, list " ++ quote name ++
    " in .kiwi/policy.toml secret_allowlist to scope it"

/-- The runtime switch of `validateJob`. -/
def checkRuntime (id : String) (job : Pipeline.Job) (caps : Capabilities) : Except Violation Unit :=
  if job.runtime = "" || job.runtime = "native" then
    require caps.nativeExecution ⟨"native_execution", "job " ++ quote id ++
      " must use runtime container or tart; native host execution is forbidden"⟩
  else if job.runtime = "container" then
    require caps.container ⟨"container", "job " ++ quote id ++ " requests runtime container"⟩
  else if job.runtime = "tart" then
    require caps.tart ⟨"tart", "job " ++ quote id ++ " requests runtime tart"⟩
  else .error ⟨"runtime", "job " ++ quote id ++ " requests unsupported runtime " ++
    quote job.runtime⟩

def validateJob (id : String) (job : Pipeline.Job) (caps : Capabilities) :
    Except Violation Unit := do
  checkRuntime quote id job caps
  let requested := requestedNetwork job
  require (requested = 0 || networkStrength requested ≤ networkStrength caps.network)
    ⟨"egress", "job " ++ quote id ++ " requests network " ++ networkName requested ++
      " which exceeds allowed egress " ++ networkName caps.network⟩
  require (!job.permissions.idToken || caps.oidc ≠ some [])
    ⟨"oidc", "job " ++ quote id ++ " requests id_token but no OIDC audiences are allowed"⟩
  job.runner.forM fun label =>
    require (label = "" || caps.labelAllows label)
      ⟨"runner_labels", "job " ++ quote id ++ " requests runner label " ++ quote label⟩
  require (job.environment.name = "" || caps.deployments)
    ⟨"deployments", "job " ++ quote id ++ " targets environment " ++ quote job.environment.name⟩
  require (!job.sandbox.privileged || caps.privileged)
    ⟨"privileged", "job " ++ quote id ++ " requests sandbox.privileged"⟩
  job.volumes.forM fun v =>
    require (v.hostPath = "" || caps.hostMounts)
      ⟨"host_mount", "job " ++ quote id ++ " volume " ++ quote v.name ++ " mounts host path " ++
        quote v.hostPath⟩
  job.steps.forM fun step => step.secrets.forM fun name =>
    require (caps.secretAllows name)
      ⟨"secrets", "job " ++ quote id ++ " step " ++ quote step.name ++ secretDetail quote name⟩

/-- `ValidatePipeline`; a nil pipeline is `none`. -/
def validatePipeline (s : Option Spec) (caps : Capabilities) : Except Violation Unit :=
  match s with
  | none => .error ⟨"spec", "nil pipeline"⟩
  | some s => do
    require (!(caps.enforced && !caps.nativeExecution && !caps.container && !caps.tart))
      ⟨"runtime", "the enforced capability set grants no runtime backend"⟩
    s.secrets.forM fun name =>
      require (caps.secretAllows name) ⟨"secrets", "pipeline" ++ secretDetail quote name⟩
    s.jobs.rows.forM fun row => validateJob quote row.1 row.2 caps

end Admission

/-! ## What admission sees -/

/-- The runtime backends. -/
inductive Backend where
  | native | container | tart
  deriving DecidableEq, Repr

/-- The grants admission asks about. -/
inductive Grant where
  | deployments | privileged | hostMounts
  deriving DecidableEq, Repr

/-- The backend a job's runtime names. -/
def backendOf (runtime : String) : Option Backend :=
  if runtime = "" || runtime = "native" then some .native
  else if runtime = "container" then some .container
  else if runtime = "tart" then some .tart
  else none

namespace Capabilities

/-- Whether a set grants a backend. -/
def runs (c : Capabilities) : Backend → Bool
  | .native => c.nativeExecution
  | .container => c.container
  | .tart => c.tart

/-- Whether a set holds a grant. -/
def grants (c : Capabilities) : Grant → Bool
  | .deployments => c.deployments
  | .privileged => c.privileged
  | .hostMounts => c.hostMounts

end Capabilities

/-- What admission sees of a set: its backends, how strong its network is, the secrets,
audiences and labels it permits, its grants, and whether it is enforced.  More is
admitted by a larger view, and an enforced set counts as smaller. -/
abbrev View := Set Backend × ℕ × Set String × Set String × Set String × Set Grant × Boolᵒᵈ

namespace View

/-- The backends granted. -/
def backends (v : View) : Set Backend := v.1

/-- The strength of the network. -/
def strength (v : View) : ℕ := v.2.1

/-- The secrets permitted. -/
def secrets (v : View) : Set String := v.2.2.1

/-- The audiences permitted. -/
def audiences (v : View) : Set String := v.2.2.2.1

/-- The runner labels permitted. -/
def labels (v : View) : Set String := v.2.2.2.2.1

/-- The grants held. -/
def grants (v : View) : Set Grant := v.2.2.2.2.2.1

/-- Whether the set is enforced. -/
def enforced (v : View) : Bool := OrderDual.ofDual v.2.2.2.2.2.2

end View

/-- The view of a set. -/
def Capabilities.view (c : Capabilities) : View :=
  ({b | c.runs b}, networkStrength c.network, {n | c.secretAllows n}, {a | c.oidcAllows a},
    {l | c.labelAllows l}, {g | c.grants g}, OrderDual.toDual c.enforced)

section View

variable {c : Capabilities}

@[simp] theorem mem_backends_view {b : Backend} : b ∈ c.view.backends ↔ c.runs b = true := .rfl

@[simp] theorem strength_view : c.view.strength = networkStrength c.network := rfl

@[simp] theorem mem_secrets_view : n ∈ c.view.secrets ↔ c.secretAllows n = true := .rfl

@[simp] theorem mem_audiences_view {a : String} : a ∈ c.view.audiences ↔ c.oidcAllows a = true :=
  .rfl

@[simp] theorem mem_labels_view : l ∈ c.view.labels ↔ c.labelAllows l = true := .rfl

@[simp] theorem mem_grants_view : g ∈ c.view.grants ↔ c.grants g = true := .rfl

@[simp] theorem enforced_view : c.view.enforced = c.enforced := rfl

end View

structure JobFits (job : Pipeline.Job) (v : View) : Prop where
  backend : ∃ b ∈ v.backends, backendOf job.runtime = some b
  network : requestedNetwork job = 0 ∨ networkStrength (requestedNetwork job) ≤ v.strength
  audience : job.permissions.idToken = true → v.audiences.Nonempty
  labels : ∀ label ∈ job.runner, label ≠ "" → label ∈ v.labels
  deployments : job.environment.name ≠ "" → .deployments ∈ v.grants
  privileged : job.sandbox.privileged = true → .privileged ∈ v.grants
  hostMounts : ∀ volume ∈ job.volumes, volume.hostPath ≠ "" → .hostMounts ∈ v.grants
  secrets : ∀ step ∈ job.steps, ∀ name ∈ step.secrets, name ∈ v.secrets

/-- What a view has to hold for a pipeline. -/
structure Fits (s : Spec) (v : View) : Prop where
  runnable : v.enforced = true → v.backends.Nonempty
  secrets : ∀ name ∈ s.secrets, name ∈ v.secrets
  jobs : ∀ id job, s.jobs.get? id = some job → JobFits job v

theorem JobFits.mono (below : v ≤ w) (fits : JobFits job v) :
    JobFits job w := by
  obtain ⟨backends, strength, secrets, audiences, labels, grants, -⟩ := below
  obtain ⟨b, member, runtime⟩ := fits.backend
  exact {
    backend := ⟨b, backends member, runtime⟩
    network := fits.network.imp_right fun bound => bound.trans strength
    audience := fun asks => (fits.audience asks).mono audiences
    labels := fun label there named => labels (fits.labels label there named)
    deployments := fun named => grants (fits.deployments named)
    privileged := fun asks => grants (fits.privileged asks)
    hostMounts := fun volume there named => grants (fits.hostMounts volume there named)
    secrets := fun step there name asked => secrets (fits.secrets step there name asked) }

theorem Fits.mono (below : v ≤ w) (fits : Fits s v) : Fits s w where
  runnable enforced := by
    have tighter : w.enforced ≤ v.enforced := below.2.2.2.2.2.2
    exact (fits.runnable (Bool.eq_true_of_true_le (enforced ▸ tighter))).mono below.1
  secrets name asked := below.2.2.1 (fits.secrets name asked)
  jobs id job found := (fits.jobs id job found).mono below

section Admits

variable (quote : String → String)

/-- The pipeline is admitted. -/
def admits (s : Spec) (caps : Capabilities) : Prop :=
  validatePipeline quote (some s) caps = .ok ()

theorem checkRuntime_ok_iff {id : String} {job : Pipeline.Job} :
    checkRuntime quote id job caps = .ok () ↔
      ∃ b ∈ caps.view.backends, backendOf job.runtime = some b := by
  unfold checkRuntime backendOf
  split
  · simp [Capabilities.runs]
  · split
    · simp [Capabilities.runs]
    · split
      · simp [Capabilities.runs]
      · simp

theorem oidc_nonempty_iff : caps.oidc ≠ some [] ↔ caps.view.audiences.Nonempty := by
  rw [Set.Nonempty]
  simp only [mem_audiences_view, Capabilities.oidcAllows]
  cases caps.oidc with
  | none => simp
  | some audiences =>
    cases audiences with
    | nil => simp
    | cons first rest => exact ⟨fun _ => ⟨first, by simp⟩, fun _ => by simp⟩

theorem validateJob_ok_iff {id : String} :
    validateJob quote id job caps = .ok () ↔ JobFits job caps.view := by
  simp only [validateJob, check_ok_iff, checkRuntime_ok_iff, require_ok_iff, forM_ok_iff]
  constructor
  · rintro ⟨backend, network, oidc, labels, deployments, privileged, mounts, secrets⟩
    exact {
      backend := backend
      network := by simpa using network
      audience := fun asks => oidc_nonempty_iff.mp (by simpa [asks] using oidc)
      labels := fun label there named => by simpa [named] using labels label there
      deployments := fun named => by simpa [named, Capabilities.grants] using deployments
      privileged := fun asks => by simpa [asks, Capabilities.grants] using privileged
      hostMounts := fun volume there named => by
        simpa [named, Capabilities.grants] using mounts volume there
      secrets := secrets }
  · intro fits
    refine ⟨fits.backend, by simpa using fits.network, ?_, fun label there => ?_, ?_, ?_,
      fun volume there => ?_, fits.secrets⟩
    · simpa [imp_iff_not_or] using fun asks => oidc_nonempty_iff.mpr (fits.audience asks)
    · simpa [imp_iff_not_or] using fits.labels label there
    · simpa [imp_iff_not_or, Capabilities.grants] using fits.deployments
    · simpa [imp_iff_not_or, Capabilities.grants] using fits.privileged
    · simpa [imp_iff_not_or, Capabilities.grants] using fits.hostMounts volume there

theorem runnable_iff :
    (!(caps.enforced && !caps.nativeExecution && !caps.container && !caps.tart)) = true ↔
      (caps.view.enforced = true → caps.view.backends.Nonempty) := by
  have some : caps.view.backends.Nonempty ↔
      caps.nativeExecution = true ∨ caps.container = true ∨ caps.tart = true := by
    constructor
    · rintro ⟨b, granted⟩
      cases b with
      | native => exact .inl granted
      | container => exact .inr (.inl granted)
      | tart => exact .inr (.inr granted)
    · rintro (granted | granted | granted)
      · exact ⟨.native, granted⟩
      · exact ⟨.container, granted⟩
      · exact ⟨.tart, granted⟩
  rw [some, enforced_view]
  cases caps.enforced <;> cases caps.nativeExecution <;> cases caps.container <;>
    cases caps.tart <;> simp

/-- A pipeline is admitted when the set's view has what it needs. -/
theorem admits_iff : admits quote s caps ↔ Fits s caps.view := by
  simp only [admits, validatePipeline, check_ok_iff, require_ok_iff, forM_ok_iff,
    validateJob_ok_iff, runnable_iff]
  constructor
  · rintro ⟨runtime, secrets, jobs⟩
    exact ⟨runtime, secrets, fun id job found => jobs _ (Table.mem_rows_iff.mpr found)⟩
  · intro fits
    exact ⟨fits.runnable, fits.secrets,
      fun row there => fits.jobs row.1 row.2 (Table.mem_rows_iff.mp there)⟩

theorem admits_mono (below : c.view ≤ d.view) (admitted : admits quote s c) : admits quote s d :=
  (admits_iff quote).mpr (((admits_iff quote).mp admitted).mono below)

end Admits

/-! ## Intersection -/

theorem networkStrength_minNetwork (a b : Int) :
    networkStrength (minNetwork a b) = min (networkStrength a) (networkStrength b) := by
  unfold minNetwork
  split <;> omega

/-- A value is permitted by an intersection of lists when it is by both. -/
theorem mem_intersectStrings (a b : Option (List String)) (x : String) :
    (∀ l, intersectStrings a b = some l → x ∈ l) ↔
      (∀ l, a = some l → x ∈ l) ∧ ∀ l, b = some l → x ∈ l := by
  cases a <;> cases b <;> simp [intersectStrings]

theorem oidcAllows_iff : c.oidcAllows x = true ↔ ∀ l, c.oidc = some l → x ∈ l := by
  unfold Capabilities.oidcAllows
  cases c.oidc <;> simp

theorem labelAllows_iff :
    c.labelAllows x = true ↔ ∀ l, c.runnerLabels = some l → x ∈ l := by
  unfold Capabilities.labelAllows
  cases c.runnerLabels <;> simp

theorem entry_foldl (rows : List (Sigma fun _ : String => Bool)) (t : Table String Bool)
    (name : String) :
    entry (rows.foldl (fun out row => out.put row.1 true) t) name = true ↔
      (∃ row ∈ rows, row.1 = name) ∨ entry t name = true := by
  induction rows generalizing t with
  | nil => simp
  | cons row rows ih =>
    rw [List.foldl_cons, ih]
    by_cases same : row.1 = name
    · simp [entry, same]
    · have differ : name ≠ row.1 := fun eq => same eq.symm
      simp [entry, Table.get?_put_ne _ _ differ, same]

/-- What the intersection of two secret maps holds: keys of the first that the second
permits. -/
theorem entry_intersect (a b : Table String Bool) (name : String) :
    entry ((a.rows.filter fun row => entry b row.1).foldl (fun out row => out.put row.1 true)
      .empty) name = true ↔ a.get? name ≠ none ∧ entry b name = true := by
  rw [entry_foldl]
  constructor
  · rintro (⟨row, there, rfl⟩ | nothing)
    · obtain ⟨kept, permitted⟩ := List.mem_filter.mp there
      exact ⟨by rw [Table.mem_rows_iff.mp kept]; exact Option.some_ne_none _, permitted⟩
    · cases nothing
  · rintro ⟨there, permitted⟩
    obtain ⟨value, found⟩ := Option.ne_none_iff_exists'.mp there
    exact .inl ⟨⟨name, value⟩, List.mem_filter.mpr ⟨Table.mem_rows_iff.mpr found, permitted⟩, rfl⟩

/-- No secret is denied by a false entry of `a` that `b` permits by name. -/
def Honest (a b : Capabilities) : Prop :=
  ∀ m m', a.secrets = some m → b.secrets = some m' →
    ∀ name, entry m' name = true → m.get? name ≠ some false

theorem secretAllows_intersect (honest : Honest a b) (name : String) :
    (intersect a b).secretAllows name = true ↔
      a.secretAllows name = true ∧ b.secretAllows name = true := by
  unfold Capabilities.secretAllows intersect
  dsimp only
  cases first : a.secrets with
  | none => simp [intersectSecrets]
  | some m =>
    cases second : b.secrets with
    | none => simp [intersectSecrets]
    | some m' =>
      simp only [intersectSecrets, entry_intersect]
      refine ⟨fun kept => ⟨?_, kept.2⟩, fun both => ⟨fun absent => ?_, both.2⟩⟩
      · obtain ⟨value, found⟩ := Option.ne_none_iff_exists'.mp kept.1
        have truthful := honest m m' first second name kept.2
        rw [found] at truthful
        cases value with
        | true => simp [entry, found]
        | false => exact absurd rfl truthful
      · simp [entry, absent] at both

section Components

variable (a b : Capabilities)

theorem runs_intersect (backend : Backend) :
    (intersect a b).runs backend = true ↔ a.runs backend = true ∧ b.runs backend = true := by
  cases backend <;> exact Bool.and_eq_true_iff

theorem oidcAllows_intersect (x : String) :
    (intersect a b).oidcAllows x = true ↔ a.oidcAllows x = true ∧ b.oidcAllows x = true := by
  rw [oidcAllows_iff, oidcAllows_iff, oidcAllows_iff]
  exact mem_intersectStrings a.oidc b.oidc x

theorem labelAllows_intersect (x : String) :
    (intersect a b).labelAllows x = true ↔ a.labelAllows x = true ∧ b.labelAllows x = true := by
  rw [labelAllows_iff, labelAllows_iff, labelAllows_iff]
  exact mem_intersectStrings a.runnerLabels b.runnerLabels x

theorem grants_intersect (grant : Grant) :
    (intersect a b).grants grant = true ↔ a.grants grant = true ∧ b.grants grant = true := by
  cases grant <;> exact Bool.and_eq_true_iff

end Components

/-- Honest layers intersect to the meet of their views. -/
theorem view_intersect (honest : Honest a b) : (intersect a b).view = a.view ⊓ b.view :=
  Prod.ext (Set.ext (runs_intersect a b)) (Prod.ext (networkStrength_minNetwork _ _)
    (Prod.ext (Set.ext (secretAllows_intersect honest))
      (Prod.ext (Set.ext (oidcAllows_intersect a b))
        (Prod.ext (Set.ext (labelAllows_intersect a b))
          (Prod.ext (Set.ext (grants_intersect a b)) rfl)))))

/-! ## Layers of layers -/

/-- An intersection of secret maps holds no false entry. -/
theorem get?_foldl_true (rows : List (Sigma fun _ : String => Bool)) {t : Table String Bool}
    (start : ∀ name, t.get? name ≠ some false) (name : String) :
    (rows.foldl (fun out row => out.put row.1 true) t).get? name ≠ some false := by
  induction rows generalizing t with
  | nil => exact start name
  | cons row rows ih =>
    rw [List.foldl_cons]
    apply ih
    intro other
    by_cases same : other = row.1
    · simp [same]
    · rw [Table.get?_put_ne _ _ same]
      exact start other

theorem Honest.intersect_left (ac : Honest a c) (bc : Honest b c) : Honest (intersect a b) c := by
  intro m m' shape other name permitted
  cases first : a.secrets with
  | none =>
    simp only [intersect, first, intersectSecrets] at shape
    exact bc m m' shape other name permitted
  | some x =>
    cases second : b.secrets with
    | none =>
      simp only [intersect, first, second, intersectSecrets] at shape
      exact ac m m' (first.trans shape) other name permitted
    | some y =>
      simp only [intersect, first, second, intersectSecrets, Option.some.injEq] at shape
      rw [← shape]
      exact get?_foldl_true _ (fun _ none => by cases none) name

theorem Honest.intersect_right (ab : Honest a b) (ac : Honest a c) : Honest a (intersect b c) := by
  intro m m' own shape name permitted
  cases first : b.secrets with
  | none =>
    simp only [intersect, first, intersectSecrets] at shape
    exact ac m m' own shape name permitted
  | some x =>
    cases second : c.secrets with
    | none =>
      simp only [intersect, first, second, intersectSecrets] at shape
      exact ab m m' own (first.trans shape) name permitted
    | some y =>
      simp only [intersect, first, second, intersectSecrets, Option.some.injEq] at shape
      rw [← shape] at permitted
      exact ac m y own second name ((entry_intersect x y name).mp permitted).2

/-- Honest layers intersect to the same view however they are grouped. -/
theorem view_intersect_assoc (ab : Honest a b) (ac : Honest a c) (bc : Honest b c) :
    (intersect (intersect a b) c).view = (intersect a (intersect b c)).view := by
  rw [view_intersect (ac.intersect_left bc), view_intersect ab,
    view_intersect (ab.intersect_right ac), view_intersect bc, inf_assoc]

/-- A set that denies every secret is restricted honestly, and restricts honestly. -/
theorem Honest.of_denied (denied : b.secrets = some .empty) : Honest a b := by
  intro m m' _ shape name permitted
  rw [denied] at shape
  cases shape
  cases permitted

/-! ## The untrusted floor -/

theorem intersectSecrets_empty (secrets : Option (Table String Bool)) :
    intersectSecrets secrets (some .empty) = some .empty := by
  cases secrets with
  | none => rfl
  | some m =>
    have none : m.rows.filter (fun row => entry .empty row.1) = [] :=
      List.filter_eq_nil_iff.mpr fun _ _ permitted => by cases permitted
    rw [intersectSecrets, none]
    rfl

theorem intersectStrings_empty (strings : Option (List String)) :
    intersectStrings strings (some []) = some [] := by
  cases strings with
  | none => rfl
  | some l => simp [intersectStrings]

theorem intersectStrings_none (strings : Option (List String)) :
    intersectStrings strings none = strings := by
  cases strings <;> rfl

theorem minNetwork_none (network : Int) : minNetwork network 1 = 1 := by
  unfold minNetwork networkStrength
  split_ifs <;> simp_all

/-- The floor leaves of a set its labels, whether it runs containers and uses the caches,
and whether it is enforced. -/
theorem effective_untrusted (c : Capabilities) :
    c.effective false = { defaultUntrustedCapabilities with
      container := c.container, cacheRead := c.cacheRead, cacheWrite := c.cacheWrite,
      runnerLabels := c.runnerLabels, enforced := c.enforced } := by
  simp [Capabilities.effective, intersect, defaultUntrustedCapabilities, intersectSecrets_empty,
    intersectStrings_empty, intersectStrings_none, minNetwork_none]

theorem effective_fixed (c : Capabilities) :
    (c.effective false).effective false = c.effective false := by
  rw [effective_untrusted, effective_untrusted]

theorem effective_eq_intersect (c : Capabilities) :
    c.effective false = intersect c defaultUntrustedCapabilities := by
  rw [effective_untrusted]
  simp [intersect, defaultUntrustedCapabilities, intersectSecrets_empty,
    intersectStrings_empty, intersectStrings_none, minNetwork_none]

theorem view_effective (c : Capabilities) :
    (c.effective false).view = c.view ⊓ defaultUntrustedCapabilities.view := by
  rw [effective_eq_intersect]
  exact view_intersect (.of_denied rfl)

/-! ## Audiences -/

/-- The audiences a capability set lets a token be issued for; nil permits every one. -/
structure OIDCPolicy where
  allowedAudiences : Option (List String) := none

def OIDCPolicy.allows (p : OIDCPolicy) (audience : String) : Bool :=
  match p.allowedAudiences with
  | none => true
  | some audiences => audiences.contains audience

/-- `OIDCFromCapabilities`.  The copy is appended to a nil list, so that of an empty one
nothing is left. -/
def oidcFromCapabilities (c : Capabilities) : OIDCPolicy :=
  match c.oidc with
  | none | some [] => {}
  | some audiences => { allowedAudiences := some audiences }

theorem oidcAllows_foldl (first : Capabilities) (rest : List Capabilities) (audience : String) :
    (rest.foldl intersect first).oidcAllows audience = true ↔
      ∀ layer ∈ first :: rest, layer.oidcAllows audience = true := by
  induction rest generalizing first with
  | nil => simp
  | cons next rest ih =>
    rw [List.foldl_cons, ih, List.forall_mem_cons, oidcAllows_intersect]
    simp [and_assoc]

/-- The derived policy admits an audience as the layers do exactly where some audience passes
all of them. -/
theorem oidc_layers_iff (first : Capabilities) (rest : List Capabilities) (audience : String) :
    ((oidcFromCapabilities (rest.foldl intersect first)).allows audience = true ↔
        ∀ layer ∈ first :: rest, layer.oidcAllows audience = true) ↔
      ∃ shared, ∀ layer ∈ first :: rest, layer.oidcAllows shared = true := by
  have nonempty : (rest.foldl intersect first).oidc ≠ some [] ↔ _ := oidc_nonempty_iff
  simp only [Set.Nonempty, mem_audiences_view, oidcAllows_foldl] at nonempty
  rw [← oidcAllows_foldl, ← nonempty, OIDCPolicy.allows, Capabilities.oidcAllows,
    oidcFromCapabilities]
  cases (rest.foldl intersect first).oidc with
  | none => simp
  | some audiences => cases audiences <;> simp

/-- Two layers that share no audience admit every one. -/
theorem disjoint_audiences_admitted :
    (oidcFromCapabilities
        (intersect { oidc := some ["sigstore"] } { oidc := some ["vault"] })).allows "anyone" = true ∧
      ({ oidc := some ["vault"] } : Capabilities).oidcAllows "anyone" = false := by
  decide +kernel

end KiwiCI.Policy
