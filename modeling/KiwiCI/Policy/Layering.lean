import KiwiCI.Policy.Capabilities
import KiwiCI.Auth.RepoIdentity

/-!
The layers a capability set is compiled from: the policy file (`internal/policy/config.go`),
the policy stored with a job (`effectiveCapsOf`, `execution.EffectivePolicyCapabilities`)
and the ceiling of generated children (`generatedChildCapabilities`).
-/

namespace KiwiCI.Policy

open List

variable {policy : Option Config} {parent : GeneratingParent}

/-! ## The policy file -/

/-- `policy.RepoPolicy`, what capabilities are derived from. -/
structure RepoPolicy where
  allowedRunnerPools : Option (List String) := none
  requireRootless : Option Bool := none
  network : String := ""
  secretAllowlist : Option (List String) := none
  oidcAudiences : Option (List String) := none
  deployments : Option Bool := none
  crossRepoTrigger : Option Bool := none
  generateChildGraph : Option Bool := none

/-- `policy.Config`, what capabilities are derived from; `repoPolicy` is the lookup of a
repository's entry. -/
structure Config where
  allowedRunnerPools : Option (List String) := none
  requireRootless : Bool := false
  network : String := ""
  secretAllowlist : Option (List String) := none
  oidcAudiences : Option (List String) := none
  repoPolicy : String → Option RepoPolicy := fun _ => none

def parseNetworkPolicy (s : String) : Option Int :=
  let name := Text.trimSpace (Text.lower s)
  if name = "" || name = "default" || name = "bridge" then some 0
  else if name = "none" then some 1
  else if name = "services-only" || name = "services_only" then some 2
  else if name = "internet" || name = "host" then some 3
  else (Text.atoi s).filter fun n => 0 ≤ n ∧ n ≤ 3

def allowMap (names : List String) : Table String Bool :=
  names.foldl (fun m name => m.put name true) .empty

/-- What a rootless requirement changes. -/
def Capabilities.rootless (c : Capabilities) : Capabilities :=
  { c with
    nativeExecution := false, requireRootless := true, requireReadOnlyRootFS := true,
    requireNonRoot := true }

/-- What the organization's policy restricts, the first half of `CapabilitiesFor`. -/
def Config.organization (c : Config) : Capabilities :=
  let rest : Capabilities :=
    { nativeExecution := true, container := true, tart := true, network := 3, cacheRead := true,
      cacheWrite := true, deployments := true, generateChildGraph := true,
      crossRepoTrigger := true, enforced := true }
  let rest := if c.requireRootless then rest.rootless else rest
  { rest with
    secrets := c.secretAllowlist.map allowMap
    oidc := c.oidcAudiences
    runnerLabels := c.allowedRunnerPools
    -- a network that does not parse is no egress
    network := if c.network = "" then 3 else (parseNetworkPolicy c.network).getD 1 }

/-- What a repository's entry restricts further. -/
def RepoPolicy.narrow (rp : RepoPolicy) (rest : Capabilities) : Capabilities :=
  let rest :=
    { rest with
      secrets := (rp.secretAllowlist.map fun names =>
        intersectSecrets rest.secrets (some (allowMap names))).getD rest.secrets
      oidc := (rp.oidcAudiences.map fun audiences =>
        intersectStrings rest.oidc (some audiences)).getD rest.oidc
      runnerLabels := (rp.allowedRunnerPools.map fun pools =>
        intersectStrings rest.runnerLabels (some pools)).getD rest.runnerLabels }
  let rest := if rp.requireRootless = some true then rest.rootless else rest
  { rest with
    deployments := rp.deployments.getD rest.deployments
    crossRepoTrigger := rp.crossRepoTrigger.getD rest.crossRepoTrigger
    generateChildGraph := rp.generateChildGraph.getD rest.generateChildGraph
    network := if rp.network = "" then rest.network
      else ((parseNetworkPolicy rp.network).map (minNetwork rest.network)).getD 1 }

def Config.capabilitiesFor (c : Config) (repoID : String) : Capabilities :=
  match c.repoPolicy repoID with
  | none => c.organization
  | some rp => rp.narrow c.organization

def Config.grantsFor (c : Config) (repoID : String) : Capabilities :=
  match c.repoPolicy repoID with
  | none => {}
  | some rp =>
    { deployments := rp.deployments = some true
      crossRepoTrigger := rp.crossRepoTrigger = some true
      generateChildGraph := rp.generateChildGraph = some true }

/-! ## The stored policy -/

section Json

/-- The members of a capability set in JSON. -/
def capabilityFields : List (Field Capabilities) :=
  [.req "NativeExecution" .bool (·.nativeExecution) fun a s => { s with nativeExecution := a },
    .req "Container" .bool (·.container) fun a s => { s with container := a },
    .req "Tart" .bool (·.tart) fun a s => { s with tart := a },
    .req "Network" .int (·.network) fun a s => { s with network := a },
    .req "Secrets" (.nullable (.map .bool)) (·.secrets) fun a s => { s with secrets := a },
    .req "OIDC" (.pointer .strings) (·.oidc) fun a s => { s with oidc := a },
    .req "Deployments" .bool (·.deployments) fun a s => { s with deployments := a },
    .req "CacheRead" .bool (·.cacheRead) fun a s => { s with cacheRead := a },
    .req "CacheWrite" .bool (·.cacheWrite) fun a s => { s with cacheWrite := a },
    .req "RunnerLabels" (.pointer .strings) (·.runnerLabels) fun a s =>
      { s with runnerLabels := a },
    .req "GenerateChildGraph" .bool (·.generateChildGraph) fun a s =>
      { s with generateChildGraph := a },
    .req "CrossRepoTrigger" .bool (·.crossRepoTrigger) fun a s => { s with crossRepoTrigger := a },
    .req "Privileged" .bool (·.privileged) fun a s => { s with privileged := a },
    .req "HostMounts" .bool (·.hostMounts) fun a s => { s with hostMounts := a },
    .req "rootless" .bool (·.requireRootless) fun a s => { s with requireRootless := a },
    .req "read_only_rootfs" .bool (·.requireReadOnlyRootFS) fun a s =>
      { s with requireReadOnlyRootFS := a },
    .req "non_root" .bool (·.requireNonRoot) fun a s => { s with requireNonRoot := a },
    .req "enforced" .bool (·.enforced) fun a s => { s with enforced := a }]

/-- A capability set as it is stamped into a payload. -/
def Capabilities.marshal (c : Capabilities) : Json := encode (members capabilityFields) c

/-- `json.Unmarshal` into a fresh capability set. -/
def unmarshal (rt : Runtime) (j : Json) : Except String Capabilities :=
  decode rt capabilityFields j {}

end Json

/-- What a `model.CompiledJobPayload` says of its policy. -/
structure PolicyPayload where
  schemaVersion : Int
  effectivePolicy : Option Json

/-- Equal maps, nil apart from empty. -/
def sameSecrets : Option (Table String Bool) → Option (Table String Bool) → Bool
  | none, none => true
  | some a, some b =>
    a.rows.all (fun row => b.get? row.1 = some row.2) &&
      b.rows.all fun row => a.get? row.1 = some row.2
  | _, _ => false

/-- `reflect.DeepEqual` of capability sets. -/
def deepEqual (a b : Capabilities) : Bool :=
  a.nativeExecution = b.nativeExecution && a.container = b.container && a.tart = b.tart &&
    a.network = b.network && sameSecrets a.secrets b.secrets && a.oidc = b.oidc &&
    a.deployments = b.deployments && a.cacheRead = b.cacheRead && a.cacheWrite = b.cacheWrite &&
    a.runnerLabels = b.runnerLabels && a.generateChildGraph = b.generateChildGraph &&
    a.crossRepoTrigger = b.crossRepoTrigger && a.privileged = b.privileged &&
    a.hostMounts = b.hostMounts && a.requireRootless = b.requireRootless &&
    a.requireReadOnlyRootFS = b.requireReadOnlyRootFS && a.requireNonRoot = b.requireNonRoot &&
    a.enforced = b.enforced

/-- `EffectivePolicyCapabilities`: the set, and whether the payload carries a policy. -/
def effectivePolicyCapabilities (rt : Runtime) (p : Option PolicyPayload) (trusted : Bool) :
    Except String (Capabilities × Bool) :=
  match p.bind (·.effectivePolicy) with
  | none => .ok ({}, false)
  | some policyRaw => do
    let caps ← (unmarshal rt policyRaw).mapError
      ("compiled payload: decode effective policy: " ++ ·)
    if trusted then return (caps, true)
    let eff := caps.effective false
    require (deepEqual eff caps) "compiled payload policy exceeds the untrusted capability floor"
    return (eff, true)

/-- `storedPolicyState`, of a policy that was read. -/
inductive StoredPolicy where
  | absent
  | valid (caps : Capabilities)

/-- `effectiveCapsOf`; a malformed policy is an error. -/
def effectiveCapsOf (rt : Runtime) (p : Option PolicyPayload) : Except String StoredPolicy :=
  match p with
  | none => .ok .absent
  | some p =>
    match p.effectivePolicy with
    | none =>
      if 1 ≤ p.schemaVersion then .error ("compiled policy payload (schema " ++
        toString p.schemaVersion ++ ") is missing the effective policy")
      else .ok .absent
    | some policy => do
      let caps ← (unmarshal rt policy).mapError ("compiled policy payload is malformed: " ++ ·)
      return .valid caps

/-! ## Generated children -/

/-- What the ceiling of a generated child reads of its parent; `repoID` is
`repoIDForJob`. -/
structure GeneratingParent where
  repoID : String
  trusted : Bool
  compiledJobPayload : Option PolicyPayload

/-- The narrowing by the current policy file in `generatedChildCapabilities`. -/
def narrowed (policy : Option Config) (repo : String) (caps : Capabilities) : Capabilities :=
  match policy with
  | none => caps
  | some policy =>
    let caps := intersect caps (policy.capabilitiesFor repo)
    let grants := policy.grantsFor repo
    { caps with
      deployments := caps.deployments && grants.deployments
      generateChildGraph := caps.generateChildGraph && grants.generateChildGraph
      crossRepoTrigger := caps.crossRepoTrigger && grants.crossRepoTrigger }

def generatedChildCapabilities (rt : Runtime) (policy : Option Config) (parent : GeneratingParent) :
    Except String Capabilities := do
  let defaults :=
    if parent.trusted then defaultTrustedCapabilities else defaultUntrustedCapabilities
  let stored ← (effectiveCapsOf rt parent.compiledJobPayload).mapError
    ("parent effective policy unavailable: " ++ ·)
  let caps := match stored with
    | .absent => defaults
    | .valid caps => caps
  return (narrowed policy parent.repoID caps).effective parent.trusted

/-! ## A stored untrusted policy is accepted -/

theorem read_strings (rt : Runtime) (l : List String) (old : List String) :
    Codec.strings.read rt (Codec.strings.write l) old = .ok l := by
  change (l.map Json.str).mapM (fun j => Codec.string.read rt j "") = .ok l
  induction l with
  | nil => rfl
  | cons first rest ih =>
    rw [map_cons, mapM_cons, ih]
    rfl

theorem read_pointerStrings (rt : Runtime) (l old : Option (List String)) :
    (Codec.pointer Codec.strings).read rt ((Codec.pointer Codec.strings).write l) old = .ok l := by
  cases l with
  | none => rfl
  | some l =>
    change (do return some (← Codec.strings.read rt (Codec.strings.write l) (old.getD []))) = _
    rw [read_strings]
    rfl

theorem copy_capabilities (w : Capabilities) :
    (members capabilityFields).foldl (fun t m => m.copy w t) {} =
      { w with secrets := (Codec.nullable (Codec.map Codec.bool)).norm w.secrets } := by
  simp only [members, capabilityFields, map_cons, map_nil, foldl_cons,
    foldl_nil, Field.req, Member.req]
  rfl

theorem norm_noSecrets :
    (Codec.nullable (Codec.map Codec.bool)).norm (some .empty) = some .empty :=
  congrArg some (Table.rows_injective ((Table.rows_order _).trans rfl))

/-- Reading `secrets` into no map, or an empty one, when none is written. -/
theorem read_noSecrets (rt : Runtime) (ready : old = none ∨ old = some .empty) :
    (Codec.nullable (Codec.map Codec.bool)).read rt
      ((Codec.nullable (Codec.map Codec.bool)).write (some .empty)) old = .ok (some .empty) := by
  rcases ready with rfl | rfl <;> rfl

/-- What the untrusted floor leaves of a set is read back from JSON as it was. -/
theorem unmarshal_effective (rt : Runtime) (c : Capabilities) :
    unmarshal rt (c.effective false).marshal = .ok (c.effective false) := by
  have network : (c.effective false).network = 1 := by rw [effective_untrusted]; rfl
  have secrets : (c.effective false).secrets = some .empty := by rw [effective_untrusted]; rfl
  generalize c.effective false = w at network secrets ⊢
  -- the secrets are read into a map that nothing was read into before
  have restored : unmarshal rt w.marshal = .ok _ :=
    decode_restores (fun u : Capabilities => u.secrets = none ∨ u.secrets = some .empty)
      (by decide +kernel) (.inl rfl) (by
      intro f member u ready
      simp only [capabilityFields, mem_cons, not_mem_nil, or_false] at member
      rcases member with rfl | rfl | rfl | rfl | rfl | rfl | rfl | rfl | rfl | rfl | rfl | rfl |
        rfl | rfl | rfl | rfl | rfl | rfl
      case inr.inr.inr.inl =>
        exact ⟨ready, Field.req_restores (by rw [network]; rfl)⟩
      case inr.inr.inr.inr.inl =>
        refine ⟨.inr (by rw [← norm_noSecrets, ← secrets]; rfl), Field.req_restores ?_⟩
        rw [secrets, norm_noSecrets]
        exact read_noSecrets rt ready
      case inr.inr.inr.inr.inr.inl =>
        exact ⟨ready, Field.req_restores (read_pointerStrings rt w.oidc u.oidc)⟩
      case inr.inr.inr.inr.inr.inr.inr.inr.inr.inl =>
        exact ⟨ready, Field.req_restores (read_pointerStrings rt w.runnerLabels u.runnerLabels)⟩
      all_goals exact ⟨ready, Field.req_restores rfl⟩)
  rw [restored, copy_capabilities, secrets, norm_noSecrets, ← secrets]

theorem deepEqual_refl (c : Capabilities) : deepEqual c c = true := by
  have same : sameSecrets c.secrets c.secrets = true := by
    cases c.secrets with
    | none => rfl
    | some m =>
      have each : m.rows.all (fun row => m.get? row.1 = some row.2) = true :=
        all_eq_true.mpr fun row there => decide_eq_true (Table.mem_rows_iff.mp there)
      simp [sameSecrets, each]
  simp [deepEqual, same]

/-- A policy stamped under the untrusted floor is accepted as it was. -/
theorem effectivePolicyCapabilities_stamped (rt : Runtime) (schema : Int) (c : Capabilities) :
    effectivePolicyCapabilities rt (some ⟨schema, some (c.effective false).marshal⟩) false =
      .ok (c.effective false, true) := by
  change ((unmarshal rt (c.effective false).marshal).mapError _ >>= _) = _
  rw [unmarshal_effective]
  change (require (deepEqual ((c.effective false).effective false) (c.effective false)) _ >>= _) = _
  rw [effective_fixed, deepEqual_refl]
  rfl

/-! ## What layering promises -/

section Laws

variable (quote : String → String)

/-- The layers narrow one another, in any order and grouping. -/
structure Layered (layers : Set Capabilities) : Prop where
  narrows : ∀ a ∈ layers, ∀ b ∈ layers, ∀ s, admits quote s (intersect a b) →
    admits quote s a ∧ admits quote s b
  secrets : ∀ a ∈ layers, ∀ b ∈ layers, ∀ name, (intersect a b).secretAllows name = true →
    a.secretAllows name = true ∧ b.secretAllows name = true
  comm : ∀ a ∈ layers, ∀ b ∈ layers, ∀ s,
    admits quote s (intersect a b) ↔ admits quote s (intersect b a)
  assoc : ∀ a ∈ layers, ∀ b ∈ layers, ∀ c ∈ layers, ∀ s,
    admits quote s (intersect (intersect a b) c) ↔ admits quote s (intersect a (intersect b c))

/-- The untrusted floor holds of a set, is reached at once and is accepted when it is
stored. -/
structure Floored (rt : Runtime) (c : Capabilities) : Prop where
  within : ∀ s, admits quote s (c.effective false) → admits quote s defaultUntrustedCapabilities
  fixed : (c.effective false).effective false = c.effective false
  accepted : ∀ schema, effectivePolicyCapabilities rt
    (some ⟨schema, some (c.effective false).marshal⟩) false = .ok (c.effective false, true)

/-- What a generated child may run, the policy stored with its parent admits. -/
def ChildWithin (rt : Runtime) (policy : Option Config) (parent : GeneratingParent) : Prop :=
  ∀ stored child, effectiveCapsOf rt parent.compiledJobPayload = .ok (.valid stored) →
    generatedChildCapabilities rt policy parent = .ok child →
      ∀ s, admits quote s child → admits quote s stored

/-- The stored policy of a trusted parent denies no secret by a false entry that the
policy file permits, as far as the two leave a backend to run anything on. -/
def HonestParent (rt : Runtime) (policy : Option Config) (parent : GeneratingParent) : Prop :=
  ∀ stored file, effectiveCapsOf rt parent.compiledJobPayload = .ok (.valid stored) →
    policy = some file → parent.trusted = true →
      (∃ backend, stored.runs backend = true ∧
        (file.capabilitiesFor parent.repoID).runs backend = true) →
        Honest stored (file.capabilitiesFor parent.repoID)

theorem admits_congr (same : c.view = d.view) :
    admits quote s c ↔ admits quote s d :=
  ⟨admits_mono quote same.le, admits_mono quote same.ge⟩

theorem layered_of_honest
    (honest : ∀ a ∈ layers, ∀ b ∈ layers, Honest a b) : Layered quote layers where
  narrows a ha b hb s admitted := by
    have meet := view_intersect (honest a ha b hb)
    exact ⟨admits_mono quote (meet.trans_le inf_le_left) admitted,
      admits_mono quote (meet.trans_le inf_le_right) admitted⟩
  secrets a ha b hb name := (secretAllows_intersect (honest a ha b hb) name).mp
  comm a ha b hb _ := admits_congr quote (by
    rw [view_intersect (honest a ha b hb), view_intersect (honest b hb a ha), inf_comm])
  assoc a ha b hb c hc _ := admits_congr quote
    (view_intersect_assoc (honest a ha b hb) (honest a ha c hc) (honest b hb c hc))

/-- Layers whose secrets narrow are honest with one another. -/
theorem honest_of_secrets
    (narrows : ∀ name, (intersect a b).secretAllows name = true → a.secretAllows name = true) :
    Honest a b := by
  intro m m' own other name permitted denied
  have allowed : (intersect a b).secretAllows name = true := by
    simp only [Capabilities.secretAllows, intersect, own, other, intersectSecrets]
    exact (entry_intersect m m' name).mpr ⟨by simp [denied], permitted⟩
  have own := narrows name allowed
  simp [Capabilities.secretAllows, *, entry] at own

theorem floored (rt : Runtime) (c : Capabilities) : Floored quote rt c where
  within _ := admits_mono quote ((view_effective c).trans_le inf_le_right)
  fixed := effective_fixed c
  accepted schema := effectivePolicyCapabilities_stamped rt schema c

/-! ## Generated children stay within their parent -/

theorem generatedChildCapabilities_valid
    (valid : effectiveCapsOf rt parent.compiledJobPayload = .ok (.valid stored)) :
    generatedChildCapabilities rt policy parent =
      .ok ((narrowed policy parent.repoID stored).effective parent.trusted) := by
  rw [generatedChildCapabilities, valid]
  rfl

/-- The policy file narrows at least as the intersection with it does. -/
theorem view_narrowed_le (file : Config) (repo : String) (caps : Capabilities) :
    (narrowed (some file) repo caps).view ≤ (intersect caps (file.capabilitiesFor repo)).view := by
  refine ⟨le_rfl, le_rfl, le_rfl, le_rfl, le_rfl, fun grant held => ?_, le_rfl⟩
  cases grant with
  | deployments => exact (Bool.and_eq_true_iff.mp held).1
  | privileged => exact held
  | hostMounts => exact held

/-- What the policy file compiles to is always enforced. -/
theorem enforced_capabilitiesFor (file : Config) (repo : String) :
    (file.capabilitiesFor repo).enforced = true := by
  have org : file.organization.enforced = true := by
    simp only [Config.organization]
    split <;> rfl
  unfold Config.capabilitiesFor
  split
  · exact org
  · simp only [RepoPolicy.narrow]
    split <;> exact org

/-- Under the untrusted floor what the stored policy says of secrets does not matter. -/
theorem view_untrustedChild_le (policy : Option Config) (repo : String) (stored : Capabilities) :
    ((narrowed policy repo stored).effective false).view ≤ stored.view := by
  cases policy with
  | none => exact (view_effective stored).trans_le inf_le_left
  | some file =>
    let silent : Capabilities := { stored with secrets := some .empty }
    have same : (narrowed (some file) repo stored).effective false =
        (intersect silent (file.capabilitiesFor repo)).effective false := by
      rw [effective_untrusted, effective_untrusted]
      rfl
    have honest : Honest silent (file.capabilitiesFor repo) := by
      intro m _ own _ name _ denied
      cases own
      cases denied
    calc ((narrowed (some file) repo stored).effective false).view
        = (intersect silent (file.capabilitiesFor repo)).view ⊓
            defaultUntrustedCapabilities.view := by rw [same, view_effective]
      _ ≤ (intersect silent (file.capabilitiesFor repo)).view := inf_le_left
      _ ≤ silent.view := (view_intersect honest).trans_le inf_le_left
      _ ≤ stored.view :=
        ⟨le_rfl, le_rfl, fun _ permitted => absurd permitted Bool.false_ne_true, le_rfl, le_rfl,
          le_rfl, le_rfl⟩

theorem childWithin_of_honest
    (honest : HonestParent rt policy parent) : ChildWithin quote rt policy parent := by
  intro stored child valid derived s admitted
  rw [generatedChildCapabilities_valid valid] at derived
  cases derived
  cases trusted : parent.trusted with
  | false =>
    rw [trusted] at admitted
    exact admits_mono quote (view_untrustedChild_le policy parent.repoID stored) admitted
  | true =>
    rw [trusted] at admitted
    cases policy with
    | none => exact admitted
    | some file =>
      have within := admits_mono quote (view_narrowed_le file parent.repoID stored) admitted
      -- an enforced set without a backend admits nothing
      obtain ⟨backend, runs⟩ := ((admits_iff quote).mp within).runnable
        (Bool.or_eq_true_iff.mpr (.inr (enforced_capabilitiesFor file parent.repoID)))
      have both := (runs_intersect _ _ backend).mp runs
      have meet := view_intersect (honest stored file valid rfl trusted ⟨backend, both⟩)
      exact admits_mono quote (meet.trans_le inf_le_left) within

def asksFor (name : String) : Pipeline.Spec := { secrets := [name] }

theorem admits_asksFor :
    admits quote (asksFor name) caps ↔
      (caps.enforced = true → ∃ backend, caps.runs backend = true) ∧
        caps.secretAllows name = true := by
  rw [admits_iff]
  constructor
  · intro fits
    exact ⟨fits.runnable, fits.secrets name (mem_singleton.mpr rfl)⟩
  · rintro ⟨runnable, permitted⟩
    refine ⟨runnable, fun other asked => ?_, fun id job found => by cases found⟩
    rw [mem_singleton.mp asked]
    exact permitted

theorem honest_of_childWithin
    (within : ChildWithin quote rt policy parent) : HonestParent rt policy parent := by
  rintro stored file valid rfl trusted ⟨backend, runs⟩
  apply honest_of_secrets
  intro name permitted
  have derived : generatedChildCapabilities rt (some file) parent = .ok _ :=
    generatedChildCapabilities_valid valid
  rw [trusted] at derived
  have admitted : admits quote (asksFor name) (narrowed (some file) parent.repoID stored) :=
    (admits_asksFor quote).mpr
      ⟨fun _ => ⟨backend, (runs_intersect _ _ backend).mpr runs⟩, permitted⟩
  exact ((admits_asksFor quote).mp (within stored _ valid derived _ admitted)).2

/-- Layering narrows exactly when no layer denies a secret by a false entry that another
permits. -/
theorem layering_narrows_iff (rt : Runtime) (layers : Set Capabilities) (policy : Option Config)
    (parent : GeneratingParent) :
    (Layered quote layers ∧ (∀ c, Floored quote rt c) ∧
        ChildWithin quote rt policy parent) ↔
      (∀ a ∈ layers, ∀ b ∈ layers, Honest a b) ∧ HonestParent rt policy parent := by
  constructor
  · rintro ⟨layered, -, child⟩
    exact ⟨fun a ha b hb => honest_of_secrets fun name allowed =>
      (layered.secrets a ha b hb name allowed).1, honest_of_childWithin quote child⟩
  · rintro ⟨honest, parentHonest⟩
    exact ⟨layered_of_honest quote honest, floored quote rt,
      childWithin_of_honest quote parentHonest⟩

end Laws

/-- A set that names a secret only to deny it. -/
def denying : Capabilities :=
  { defaultTrustedCapabilities with secrets := some (Table.empty.put "DEPLOY_KEY" false) }

/-- A set that permits the secret. -/
def permitting : Capabilities :=
  { defaultTrustedCapabilities with secrets := some (Table.empty.put "DEPLOY_KEY" true) }

/-- The secret the first layer denies is permitted, and a pipeline that asks for it is
admitted, once a second layer that permits it narrows the first; not so the other way
round. -/
theorem denied_secret_permitted :
    denying.secretAllows "DEPLOY_KEY" = false ∧
      (intersect denying permitting).secretAllows "DEPLOY_KEY" = true ∧
      (intersect permitting denying).secretAllows "DEPLOY_KEY" = false ∧
      admits id (asksFor "DEPLOY_KEY") (intersect denying permitting) ∧
      ¬ admits id (asksFor "DEPLOY_KEY") denying ∧
      ¬ admits id (asksFor "DEPLOY_KEY") (intersect permitting denying) := by
  have first : denying.secretAllows "DEPLOY_KEY" = false := by decide +kernel
  have narrowed : (intersect denying permitting).secretAllows "DEPLOY_KEY" = true := by
    decide +kernel
  have turned : (intersect permitting denying).secretAllows "DEPLOY_KEY" = false := by
    decide +kernel
  refine ⟨first, narrowed, turned, ?_, ?_, ?_⟩
  · exact (admits_asksFor id).mpr ⟨fun _ => ⟨.native, rfl⟩, narrowed⟩
  · intro admitted
    exact absurd ((admits_asksFor id).mp admitted).2 (by rw [first]; decide)
  · intro admitted
    exact absurd ((admits_asksFor id).mp admitted).2 (by rw [turned]; decide)

/-!
Clone hosts in the policy file: `CloneHostAllowed` of `internal/policy/config.go`.

The allowlists of the organization and of the repository are intersected as they are spelled,
and only what is left is brought to canonical form.
-/

open Auth

/-- `policy.Config`, what decides on clone hosts; `repoPolicy` gives the allowlist of the entry
of a repository, nil where there is no entry. -/
structure HostConfig where
  allowedCloneHosts : Option (List String) := none
  repoPolicy : String → Option (List String) := fun _ => none

def HostConfig.allowedCloneHostsFor (c : HostConfig) (repoID : String) : Option (List String) :=
  (intersectStrings c.allowedCloneHosts (c.repoPolicy repoID)).map (·.map canonicalHost)

def HostConfig.cloneHostAllowed (c : HostConfig) (repoID host : String) : Bool :=
  match c.allowedCloneHostsFor repoID with
  | none => true
  | some allowed => canonicalHost host ≠ "" && allowed.contains (canonicalHost host)

/-- An allowlist names the host in some spelling; nil names every host. -/
def Names (allowlist : Option (List String)) (host : String) : Prop :=
  ∀ entries, allowlist = some entries →
    canonicalHost host ≠ "" ∧ ∃ spelling ∈ entries, canonicalHost spelling = canonicalHost host

/-- A host is admitted as the two allowlists name it exactly where lists that both name it
share a spelling of it. -/
theorem cloneHostAllowed_names_iff (c : HostConfig) (repoID host : String) :
    (c.cloneHostAllowed repoID host = true ↔
        Names c.allowedCloneHosts host ∧ Names (c.repoPolicy repoID) host) ↔
      ∀ org repo, c.allowedCloneHosts = some org → c.repoPolicy repoID = some repo →
        Names (some org) host → Names (some repo) host →
          ∃ spelling ∈ org, spelling ∈ repo ∧ canonicalHost spelling = canonicalHost host := by
  unfold HostConfig.cloneHostAllowed HostConfig.allowedCloneHostsFor Names
  cases c.allowedCloneHosts <;> cases c.repoPolicy repoID <;> simp [intersectStrings]
  case some.some org repo =>
    constructor
    · intro same named x listed spells _ y listed' spells'
      obtain ⟨-, e, ⟨left, right⟩, equal⟩ :=
        same.mpr ⟨⟨named, x, listed, spells⟩, named, y, listed', spells'⟩
      exact ⟨e, left, right, equal⟩
    · intro shared
      constructor
      · rintro ⟨named, e, ⟨left, right⟩, equal⟩
        exact ⟨⟨named, e, left, equal⟩, named, e, right, equal⟩
      · rintro ⟨⟨named, x, listed, spells⟩, -, y, listed', spells'⟩
        obtain ⟨e, left, right, equal⟩ := shared named x listed spells named y listed' spells'
        exact ⟨named, e, ⟨left, right⟩, equal⟩

/-- Two allowlists that name one host in different spellings deny it. -/
theorem respelled_host_denied :
    let c : HostConfig := ⟨some ["GitHub.com"], fun _ => some ["github.com"]⟩
    c.cloneHostAllowed "acme/app" "github.com" = false ∧
      Names c.allowedCloneHosts "github.com" ∧ Names (c.repoPolicy "acme/app") "github.com" := by
  have spelled : canonicalHost "GitHub.com" = "github.com" ∧
      canonicalHost "github.com" = "github.com" := by decide +kernel
  refine ⟨by decide +kernel, fun entries listed => ?_, fun entries listed => ?_⟩ <;>
    obtain rfl := Option.some.inj listed <;> simp [spelled]

end KiwiCI.Policy
