import KiwiCI.Lib.Table
import KiwiCI.Lib.Text
import KiwiCI.Lib.Transaction

/-!
The records of the verification contract: `internal/verifyapi/types.go`, with the
evidence records of `evidence.go` and `window.go`.

An instant is its number of nanoseconds since the zero time, which is `0`: two
times that name one instant in different zones are one value.  A digest is its
text.  A failure carries its error class and the fixed part of its message; the
values a message quotes are left out.
-/

namespace KiwiCI.VerifyAPI

/-- The sentinel errors of the package, each with the text that follows it. -/
inductive Failure where
  | invalid (text : String)
  | notFound (text : String)
  | exists (text : String)
  | binding (text : String)
  | freshness (text : String)
  | groupBinding (text : String)
  | unverified (text : String)
  | evidence (text : String)
  | acceptance (text : String)
  | unauthorized (text : String)
deriving DecidableEq

/-- `errors.Is(err, ErrExists)`. -/
def Failure.isExists : Failure → Bool
  | .exists _ => true
  | _ => false

abbrev Digest := String

/-! ## Obligations -/

/-- `SubjectRef`: the authority subject of an obligation. -/
structure SubjectRef where
  authorityNamespace : String := ""
  tenantID : String := ""
  projectID : String := ""
  repositoryID : String := ""
deriving DecidableEq

structure FreshnessPolicy where
  notBefore : Option Int := none
  maxAgeSeconds : Int := 0
  notAfter : Option Int := none
deriving DecidableEq

structure VerificationObligation where
  obligationID : String
  subject : String
  subjectRef : Option SubjectRef := none
  immutableCandidateDigest : Digest
  sourceSnapshotDigest : Digest
  verificationContractDigest : Digest
  recipeDigest : Digest := ""
  requiredChecks : List String
  requiredAssurance : String
  verifierProviderKind : String := ""
  verifierContractVersion : String := ""
  verifierClaimClass : String := ""
  verifierPlatform : String := ""
  verifierEvidenceTypes : List String := []
  freshness : FreshnessPolicy
  opaqueCorrelationMetadata : List (String × String) := []
  issuedAt : Int
deriving DecidableEq

/-! ## Outcomes -/

/-- `Outcome`; a caller may send any other text, which `valid` refuses. -/
inductive Outcome where
  | pass
  | fail
  | partly
  | other (text : String)
deriving DecidableEq

def Outcome.valid : Outcome → Bool
  | .other _ => false
  | _ => true

structure MeasuredResourceFacts where
  durationNS : Int := 0
  wallTimeNS : Int := 0
deriving DecidableEq

/-- `AttestedResourceFacts`: the job window a signed attestation carries. -/
structure AttestedResourceFacts where
  startedAt : Int
  finishedAt : Int
deriving DecidableEq

structure ResourceFacts where
  queueLatencyNS : Int := 0
  executionLatencyNS : Int := 0
  wallTimeNS : Int := 0
  cpuTimeNS : Int := 0
  peakMemoryBytes : Int := 0
  ioBytes : Int := 0
  cacheHits : Int := 0
  cacheMisses : Int := 0
  runnerClass : String
  retryCount : Int := 0
  cancelled : Bool := false
  duplicateAvoided : Bool := false
  speculative : Bool := false
  verificationGroupID : String := ""
  candidateID : String := ""
  measured : Option MeasuredResourceFacts := none
deriving DecidableEq

structure VerificationOutcome where
  verificationID : String
  obligationID : String
  candidateDigest : Digest
  snapshotDigest : Digest
  contractDigest : Digest
  outcome : Outcome
  assuranceProfile : String
  completedChecks : List String
  executionIDs : List String := []
  evidenceRoot : Digest
  resources : ResourceFacts
  startedAt : Int
  completedAt : Int
  provenanceRefs : List String := []
deriving DecidableEq

/-! ## Speculative groups -/

structure SpeculativeGroup where
  verificationGroupID : String
  baseSnapshotDigest : Digest
  subjectRef : Option SubjectRef := none
  candidateDigests : Table String Digest

/-- `RowAuthority`; a candidate without a recorded attempt has none. -/
inductive RowAuthority where
  | verified
  | claim
deriving DecidableEq

/-- `CandidateFacts`; what an attempt fills in is absent without one. -/
structure CandidateFacts where
  candidateID : String
  candidateDigest : Digest
  verificationID : String := ""
  outcome : Option Outcome := none
  authority : Option RowAuthority := none
  resources : Option ResourceFacts := none
deriving DecidableEq

structure GroupComparison where
  verificationGroupID : String
  baseSnapshotDigest : Digest
  schemaVersion : Nat
  candidates : List CandidateFacts
deriving DecidableEq

/-! ## Evidence -/

/-- `CheckOutcome`; a resolver may surface any other text, which counts as incomplete. -/
inductive CheckOutcome where
  | pass
  | fail
  | error
  | incomplete
  | conflict
  | other (text : String)
deriving DecidableEq

structure VerifiedCheck where
  name : String
  outcome : CheckOutcome
  evidenceDigest : Digest := ""
  executionID : String := ""
deriving DecidableEq

def VerifiedCheck.passed (c : VerifiedCheck) : Bool := c.outcome == .pass

inductive WindowSource where
  | attested
  | verifiedObserver
  | unknown
deriving DecidableEq

structure ExecutionWindow where
  startedAt : Int
  completedAt : Int
  source : WindowSource
deriving DecidableEq

/-- `model.ExecutionAssurance`; `undefined` is a value outside the closed set. -/
inductive ExecutionAssurance where
  | uncontrolled
  | isolatedFilesystem
  | noInjectedCredentials
  | networkDenied
  | kiwiMediatedAuthority
  | sealedPinnedNoNetwork
  | undefined (value : Int)
deriving DecidableEq

structure ExecutionControlReceipt where
  runtime : String
  sandboxStarted : Bool
  networkEnforced : String
  rootFilesystemReadOnly : Bool := false
  workspaceQuotaEnforced : Bool := false
deriving DecidableEq

/-- `model.ExecutionFacts`, the facts the derivation of a profile reads. -/
structure ExecutionFacts where
  filesystemIsolated : Bool := false
  kiwiSecretsInjected : Bool := false
  hostEnvironmentInherited : Bool := false
  networkMode : String := ""
  networkAccessDenied : Bool := false
  declaredAuthorityMediated : Bool := false
  imagesDigestPinned : Bool := false
  observed : Option ExecutionControlReceipt := none
deriving DecidableEq

structure ResolvedAttestation where
  executionID : String
  evidenceRoot : Digest
  attestationDigest : Digest
  status : String
  facts : Option ExecutionFacts := none
  assuranceSchema : Int := 0
  attested : Option AttestedResourceFacts := none
  observerWindow : Option AttestedResourceFacts := none
  checks : List VerifiedCheck := []
deriving DecidableEq

structure VerifiedEvidence where
  executionIDs : List String
  evidenceRoot : Digest
  attestationDigests : List Digest
  attested : Option AttestedResourceFacts := none
  window : ExecutionWindow
  kinds : List String := []
  jobStatus : String
  completedChecks : List String
  verifiedChecks : List VerifiedCheck := []
  assurance : ExecutionAssurance
  observedControls : Option ExecutionControlReceipt := none
  verifierIdentity : String
  verifiedAt : Int
deriving DecidableEq

/-- `DerivedVerifiedOutcome`: the submission, the derived outcome, its evidence and the
seal. -/
structure DerivedVerifiedOutcome where
  submittedClaim : VerificationOutcome
  outcome : VerificationOutcome
  evidence : VerifiedEvidence
  isSealed : Bool
deriving DecidableEq

/-!
Authority subjects and who may act on them: `internal/verifyapi/subject.go` and the
principals of `service.go`.

A subject is a chain namespace, tenant, project, repository without holes.  `path` is
that chain as a list, and `includes_iff` says that one scope covers another exactly when
its path is an initial part of the other's, so covering is the order of lists by initial
parts.  `authorize_ok_iff` says what the service's authority check decides.
-/

variable {s : SubjectRef}

/-! ## Subjects -/

namespace SubjectRef

def isZero (s : SubjectRef) : Bool := s == {}

/-- The check `SubjectRef.Validate` makes of one dimension. -/
def validateDimension (name value : String) : Except Failure Unit :=
  if value = "" then .ok ()
  else do
    require (Text.trimSpace value = value)
      (.invalid ("subject_ref." ++ name ++ " has leading or trailing whitespace"))
    require (value.toList.all fun r => 0x20 ≤ r.toNat && r.toNat != 0x7f)
      (.invalid ("subject_ref." ++ name ++ " contains control character"))

def validate (s : SubjectRef) : Except Failure Unit := do
  validateDimension "authority_namespace" s.authorityNamespace
  validateDimension "tenant_id" s.tenantID
  validateDimension "project_id" s.projectID
  validateDimension "repository_id" s.repositoryID

def validateHierarchy (s : SubjectRef) : Except Failure Unit := do
  s.validate
  require (s.authorityNamespace ≠ "") (.invalid ("subject_ref requires authority_namespace " ++
    "(valid shapes are namespace[/tenant[/project[/repository]]]; the zero ref is not a scope)"))
  require (s.projectID ≠ "" → s.tenantID ≠ "")
    (.invalid "subject_ref.project_id requires tenant_id (strict prefix hierarchy)")
  require (s.repositoryID ≠ "" → s.projectID ≠ "")
    (.invalid "subject_ref.repository_id requires project_id (strict prefix hierarchy)")

/-- Whether `ValidateHierarchy` returns no error. -/
def isHierarchy (s : SubjectRef) : Bool := s.validateHierarchy.isOk

def includes (s target : SubjectRef) : Bool :=
  s.isHierarchy && target.isHierarchy &&
    s.authorityNamespace == target.authorityNamespace &&
    (s.tenantID == "" || s.tenantID == target.tenantID) &&
    (s.projectID == "" || s.projectID == target.projectID) &&
    (s.repositoryID == "" || s.repositoryID == target.repositoryID)

/-- The chain of the dimensions a subject sets. -/
def path (s : SubjectRef) : List String :=
  [s.authorityNamespace, s.tenantID, s.projectID, s.repositoryID].takeWhile (· != "")

theorem isHierarchy_iff : s.isHierarchy = true ↔ s.validateHierarchy = .ok () := by
  unfold isHierarchy
  cases s.validateHierarchy with
  | error e => simp [Except.isOk, Except.toBool]
  | ok u => simp [Except.isOk, Except.toBool]

theorem validateHierarchy_ok_iff :
    s.validateHierarchy = .ok () ↔ s.validate = .ok () ∧ s.authorityNamespace ≠ "" ∧
      (s.projectID ≠ "" → s.tenantID ≠ "") ∧ (s.repositoryID ≠ "" → s.projectID ≠ "") := by
  simp [validateHierarchy, check_ok_iff]

/-- A hierarchy names a namespace, so its path is not empty. -/
theorem path_ne_nil (hierarchy : s.isHierarchy = true) : s.path ≠ [] := by
  obtain ⟨-, named, -, -⟩ := validateHierarchy_ok_iff.mp (isHierarchy_iff.mp hierarchy)
  simp [path, named]

theorem path_eq_nil_of_isZero (zero : s.isZero = true) : s.path = [] := by
  rw [eq_of_beq zero]
  rfl

theorem includes_iff : s.includes target = true ↔
      s.isHierarchy = true ∧ target.isHierarchy = true ∧ s.path <+: target.path := by
  unfold includes
  simp only [Bool.and_eq_true, and_assoc]
  refine and_congr_right fun left => and_congr_right fun right => ?_
  obtain ⟨-, named, tenant, project⟩ := validateHierarchy_ok_iff.mp (isHierarchy_iff.mp left)
  obtain ⟨-, named', tenant', project'⟩ := validateHierarchy_ok_iff.mp (isHierarchy_iff.mp right)
  simp only [path, List.takeWhile_cons, List.takeWhile_nil, bne_iff_ne, beq_iff_eq,
    Bool.or_eq_true, if_pos named, if_pos named']
  -- each dimension the scope leaves open ends its path there
  by_cases openTenant : s.tenantID = ""
  · have openProject : s.projectID = "" := by_contra fun set => tenant set openTenant
    have openRepository : s.repositoryID = "" := by_contra fun set => project set openProject
    simp [openTenant, openProject, openRepository]
  · by_cases openProject : s.projectID = ""
    · have openRepository : s.repositoryID = "" := by_contra fun set => project set openProject
      by_cases set : target.tenantID = ""
      · simp [openTenant, openProject, openRepository, set]
      · simp [openTenant, openProject, openRepository, set]
    · by_cases openRepository : s.repositoryID = ""
      · by_cases set : target.projectID = ""
        · by_cases set' : target.tenantID = "" <;>
            simp [openTenant, openProject, openRepository, set, set']
        · simp [openTenant, openProject, openRepository, set, tenant' set]
      · by_cases set : target.repositoryID = ""
        · by_cases set' : target.projectID = ""
          · by_cases set'' : target.tenantID = "" <;>
              simp [openTenant, openProject, openRepository, set, set', set'']
          · simp [openTenant, openProject, openRepository, set, set', tenant' set']
        · have set' := project' set
          simp [openTenant, openProject, openRepository, set, set', tenant' set']

end SubjectRef

def VerificationObligation.subjectReference (o : VerificationObligation) : SubjectRef :=
  o.subjectRef.getD {}

def SpeculativeGroup.subjectReference (g : SpeculativeGroup) : SubjectRef := g.subjectRef.getD {}

/-! ## Principals -/

/-- `Action`; a configuration may hold any other text. -/
inductive Action where
  | obligationCreate
  | claimSubmit
  | proofVerify
  | proofRead
  | groupCompare
  | verificationAdmin
  | other (text : String)
deriving DecidableEq

structure Capability where
  action : Action
  scope : SubjectRef := {}
  isGlobal : Bool := false
deriving DecidableEq

structure Principal where
  subject : String
  capabilities : List Capability
deriving DecidableEq

/-- The check `Principal.Validate` makes of one capability. -/
def Capability.validate (c : Capability) : Except Failure Unit :=
  if c.isGlobal then
    require (c.action = .verificationAdmin)
      (.invalid "capability: global grant must be verification.admin")
  else do
    require (c.action ≠ .other "") (.invalid "capability: action is required")
    c.scope.validateHierarchy.mapError fun _ => .invalid "capability"

namespace Principal

def validate (p : Principal) : Except Failure Unit := p.capabilities.forM Capability.validate

def allows (p : Principal) (action : Action) (subject : SubjectRef) : Bool :=
  p.capabilities.any fun c => c.isGlobal || (c.action == action && c.scope.includes subject)

/-- The principal holds the global grant, or a capability with this action whose scope is
an initial part of the subject's chain. -/
def Holds (p : Principal) (action : Action) (subject : SubjectRef) : Prop :=
  (∃ c ∈ p.capabilities, c.isGlobal = true ∧ c.action = .verificationAdmin) ∨
    ∃ c ∈ p.capabilities, c.action = action ∧ c.scope.isHierarchy = true ∧
      c.scope.path <+: subject.path

end Principal

abbrev Authorizer := Principal → Action → SubjectRef → Except Failure Unit

/-- `ScopeAuthorizer.Authorize`. -/
def scopeAuthorizer : Authorizer := fun p action subject => do
  p.validate.mapError fun _ => .unauthorized "principal is malformed"
  require (p.allows action subject) (.unauthorized "principal holds no capability")

def authorize (authz : Authorizer) (p : Principal) (action : Action) (subject : SubjectRef) :
    Except Failure Unit := do
  subject.validate
  (if subject.isZero then .ok () else subject.validateHierarchy : Except Failure Unit)
  authz p action subject

section Authorized

variable {p : Principal} {action : Action} {subject : SubjectRef}

theorem Capability.validate_ok_iff {c : Capability} :
    c.validate = .ok () ↔ (c.isGlobal = true ∧ c.action = .verificationAdmin) ∨
      (c.isGlobal = false ∧ c.action ≠ .other "" ∧ c.scope.isHierarchy = true) := by
  unfold Capability.validate
  cases global : c.isGlobal with
  | true => simp
  | false => simp [check_ok_iff, mapError_ok_iff, SubjectRef.isHierarchy_iff]

theorem Principal.validate_ok_iff :
    p.validate = .ok () ↔ ∀ c ∈ p.capabilities, c.validate = .ok () :=
  forM_ok_iff

/-- What a well-formed principal is allowed is what it holds. -/
theorem Principal.allows_iff (formed : p.validate = .ok ()) (target : subject.isHierarchy = true ∨
    subject.isZero = true) : p.allows action subject = true ↔ p.Holds action subject := by
  unfold Principal.allows Principal.Holds
  rw [List.any_eq_true]
  constructor
  · rintro ⟨c, member, covers⟩
    rcases Capability.validate_ok_iff.mp (Principal.validate_ok_iff.mp formed c member) with
      ⟨global, admin⟩ | ⟨local', -, scope⟩
    · exact .inl ⟨c, member, global, admin⟩
    · simp only [local', Bool.false_or, Bool.and_eq_true, beq_iff_eq] at covers
      exact .inr ⟨c, member, covers.1, scope, (SubjectRef.includes_iff.mp covers.2).2.2⟩
  · rintro (⟨c, member, global, -⟩ | ⟨c, member, acts, scope, short⟩)
    · exact ⟨c, member, by simp [global]⟩
    · refine ⟨c, member, ?_⟩
      rcases target with target | zero
      · simp [acts, SubjectRef.includes_iff.mpr ⟨scope, target, short⟩]
      · rw [SubjectRef.path_eq_nil_of_isZero zero, List.prefix_nil] at short
        exact absurd short (SubjectRef.path_ne_nil scope)

theorem authorize_ok_iff :
    authorize scopeAuthorizer p action subject = .ok () ↔
      (subject.isZero = true ∨ subject.isHierarchy = true) ∧ p.validate = .ok () ∧
        p.Holds action subject := by
  have checks : authorize scopeAuthorizer p action subject = .ok () ↔
      (subject.isZero = true ∨ subject.isHierarchy = true) ∧ p.validate = .ok () ∧
        p.allows action subject = true := by
    unfold authorize scopeAuthorizer
    simp only [check_ok_iff, mapError_ok_iff, require_ok_iff]
    by_cases zero : subject.isZero = true
    · have valid : subject.validate = .ok () := by
        rw [eq_of_beq zero]
        rfl
      simp [zero, valid]
    · have valid : subject.isHierarchy = true → subject.validate = .ok () := fun hierarchy =>
        (SubjectRef.validateHierarchy_ok_iff.mp (SubjectRef.isHierarchy_iff.mp hierarchy)).1
      simp only [zero, Bool.false_eq_true, if_false, false_or, ← SubjectRef.isHierarchy_iff]
      exact ⟨fun checked => checked.2, fun rest => ⟨valid rest.1, rest⟩⟩
  rw [checks]
  refine and_congr_right fun target => and_congr_right fun formed => ?_
  exact Principal.allows_iff formed target.symm

end Authorized

end KiwiCI.VerifyAPI
