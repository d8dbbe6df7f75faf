import KiwiCI.VerifyAPI.Binding

/-!
Deriving an outcome from evidence: `internal/verifyapi/evidence.go` and `window.go`, with
the assurance profiles of `internal/model/assurance.go`.

`verify` resolves the references of a submitted claim and derives from the resolved
attestations the verdict, the checks, the assurance and the window of the outcome it
seals.  `sealDerivedOutcome` is the one way a record becomes sealed.
-/

namespace KiwiCI.VerifyAPI

/-! ## Windows -/

def WindowSource.authority : WindowSource → Nat
  | .attested => 2
  | .verifiedObserver => 1
  | .unknown => 0

def WindowSource.atLeast (s least : WindowSource) : Bool := least.authority ≤ s.authority

def ExecutionWindow.trusted (w : ExecutionWindow) : Bool :=
  w.source == .attested || w.source == .verifiedObserver

def ExecutionWindow.satisfiesFreshness (w : ExecutionWindow) (least : WindowSource) : Bool :=
  w.trusted && w.source.atLeast least

def minWindowForRequireAttested (requireAttestedWindow : Bool) : WindowSource :=
  if requireAttestedWindow then .attested else .verifiedObserver

def deriveWindow (claim : VerificationOutcome) (attested observer : Option AttestedResourceFacts) :
    ExecutionWindow :=
  let bracket : ExecutionWindow := ⟨claim.startedAt, claim.completedAt, .unknown⟩
  let given (facts : Option AttestedResourceFacts) : Option AttestedResourceFacts :=
    facts.filter fun a => a.startedAt != 0 && a.finishedAt != 0
  match given attested, given observer with
  | some a, _ => ⟨a.startedAt, a.finishedAt, .attested⟩
  | none, some o => ⟨o.startedAt, o.finishedAt, .verifiedObserver⟩
  | none, none => bracket

/-- Whether a signed window is usable: both ends set, in order. -/
def AttestedResourceFacts.wellFormed (a : AttestedResourceFacts) : Bool :=
  a.startedAt != 0 && a.finishedAt != 0 && a.startedAt ≤ a.finishedAt

/-- The window that spans both. -/
def AttestedResourceFacts.span (a b : AttestedResourceFacts) : AttestedResourceFacts where
  startedAt := if b.startedAt < a.startedAt then b.startedAt else a.startedAt
  finishedAt := if a.finishedAt < b.finishedAt then b.finishedAt else a.finishedAt

/-- The loop of `mergeAttested` and `mergeObserver`: nothing if one attestation has no
usable window, else the span of all of them. -/
def mergeWindows (window : ResolvedAttestation → Option AttestedResourceFacts) :
    List ResolvedAttestation → Option AttestedResourceFacts → Option AttestedResourceFacts
  | [], merged => merged
  | att :: rest, merged =>
    match (window att).filter (·.wellFormed) with
    | none => none
    | some a => mergeWindows window rest (some (merged.elim a fun m => m.span a))

def mergeAttested (resolved : List ResolvedAttestation) : Option AttestedResourceFacts :=
  mergeWindows (·.attested) resolved none

def mergeObserver (resolved : List ResolvedAttestation) : Option AttestedResourceFacts :=
  mergeWindows (·.observerWindow) resolved none

/-! ## Assurance -/

namespace ExecutionAssurance

def name : ExecutionAssurance → String
  | .uncontrolled => "uncontrolled"
  | .isolatedFilesystem => "isolated_filesystem"
  | .noInjectedCredentials => "no_injected_credentials"
  | .networkDenied => "network_denied"
  | .kiwiMediatedAuthority => "kiwi_mediated_authority"
  | .sealedPinnedNoNetwork => "sealed_pinned_no_network"
  | .undefined _ => ""

def valid : ExecutionAssurance → Bool
  | .undefined _ => false
  | _ => true

/-- `ExecutionAssurance.properties`, as the number whose bits are the properties. -/
def properties : ExecutionAssurance → Nat
  | .uncontrolled => 0
  | .isolatedFilesystem => 0b00001
  | .noInjectedCredentials => 0b00011
  | .networkDenied => 0b00111
  | .kiwiMediatedAuthority => 0b01011
  | .sealedPinnedNoNetwork => 0b11111
  | .undefined _ => 0

def satisfies (a need : ExecutionAssurance) : Bool :=
  a.valid && need.valid && a.properties &&& need.properties == need.properties

/-- `countProps`, of the five properties. -/
def countProps (p : Nat) : Nat := (List.range 5).countP p.testBit

/-- The profiles `Meet` tries, in its order. -/
def candidates : List ExecutionAssurance :=
  [.sealedPinnedNoNetwork, .networkDenied, .kiwiMediatedAuthority, .noInjectedCredentials,
    .isolatedFilesystem, .uncontrolled]

def meet (a b : ExecutionAssurance) : ExecutionAssurance :=
  if a.valid && b.valid then
    let inter := a.properties &&& b.properties
    candidates.foldl (fun best c =>
      if c.properties &&& inter == c.properties &&
          (best.properties == 0 || countProps best.properties ≤ countProps c.properties)
      then c else best) .uncontrolled
  else .uncontrolled

end ExecutionAssurance

def unprovenExecutionFacts : ExecutionFacts where
  networkMode := "unknown"
  kiwiSecretsInjected := true
  hostEnvironmentInherited := true

/-- `model.DeriveAssuranceProfileSchema`: up to schema 5 the policy field says whether the
network was denied, from schema 6 on the proven fact does. -/
def deriveAssuranceProfileSchema (schema : Int) (f : ExecutionFacts) : ExecutionAssurance :=
  let denied := if 6 ≤ schema then f.networkAccessDenied else f.networkMode == "none"
  if !f.filesystemIsolated then .uncontrolled
  else if f.kiwiSecretsInjected || f.hostEnvironmentInherited then .isolatedFilesystem
  else if f.declaredAuthorityMediated then
    if denied && f.imagesDigestPinned then .sealedPinnedNoNetwork else .kiwiMediatedAuthority
  else if denied then .networkDenied
  else .noInjectedCredentials

/-- The profile `deriveAssurance` derives for one attestation. -/
def ResolvedAttestation.profile (att : ResolvedAttestation) : ExecutionAssurance :=
  deriveAssuranceProfileSchema (if att.assuranceSchema = 0 then 6 else att.assuranceSchema)
    (att.facts.getD unprovenExecutionFacts)

def deriveAssurance (resolved : List ResolvedAttestation) : ExecutionAssurance :=
  if resolved.isEmpty then .uncontrolled
  else resolved.foldl (fun meet att => meet.meet att.profile) .sealedPinnedNoNetwork

/-- `mergeObserved`: the receipt all attestations carry. -/
def mergeObserved : List ResolvedAttestation → Option ExecutionControlReceipt
  | [] => none
  | first :: rest =>
    let receipt (att : ResolvedAttestation) := att.facts.bind (·.observed)
    if rest.all fun att => receipt att == receipt first then receipt first else none

/-! ## Checks -/

def checkJobStatusSuccess : String := "job-status-success"

def checkEvidenceRoot : String := "evidence-root"

def statusSuccess : String := "success"

def statusFailure : String := "failure"

def deriveJobStatus : List ResolvedAttestation → String
  | [] => "incomplete"
  | first :: rest =>
    let allSame := rest.all fun att => att.status == first.status
    if allSame && first.status == statusSuccess then statusSuccess
    else if (first :: rest).any fun att => att.status == statusFailure then statusFailure
    else if allSame && first.status != "" then first.status
    else "incomplete"

/-- `agg`: what the attestations reported about one check name. -/
structure Agg where
  first : VerifiedCheck
  pass : Bool := false
  fail : Bool := false
  error : Bool := false
  incomplete : Bool := false
deriving DecidableEq

/-- One more report about the name. -/
def Agg.note (a : Agg) : CheckOutcome → Agg
  | .pass => { a with pass := true }
  | .fail => { a with fail := true }
  | .error => { a with error := true }
  | _ => { a with incomplete := true }

/-- The outcome of the aggregated reports. -/
def Agg.outcome (a : Agg) : CheckOutcome :=
  if a.pass && (a.fail || a.error) then .conflict
  else if a.pass then .pass
  else if a.fail then .fail
  else if a.error then .error
  else .incomplete

/-- The check a name's reports amount to. -/
def Agg.check (a : Agg) : VerifiedCheck := { a.first with outcome := a.outcome }

/-- Whether the verifier derives the check itself. -/
def structural (name : String) : Bool := name == checkJobStatusSuccess || name == checkEvidenceRoot

/-- The first report of a check, completed from its attestation. -/
def ResolvedAttestation.complete (att : ResolvedAttestation) (c : VerifiedCheck) : VerifiedCheck :=
  { c with
    executionID := if c.executionID = "" then att.executionID else c.executionID
    evidenceDigest := if c.evidenceDigest = "" then att.evidenceRoot else c.evidenceDigest }

/-- One report, put with the others of its name; the buckets stand in order of first
report. -/
def addReport (att : ResolvedAttestation) (buckets : List Agg) (c : VerifiedCheck) : List Agg :=
  if c.name == "" || structural c.name then buckets
  else if buckets.any (·.first.name == c.name) then
    buckets.map fun a => if a.first.name == c.name then a.note c.outcome else a
  else buckets ++ [Agg.note { first := att.complete c } c.outcome]

/-- The aggregation loop of `deriveVerifiedChecks`. -/
def aggregate (resolved : List ResolvedAttestation) : List Agg :=
  resolved.foldl (fun buckets att => att.checks.foldl (addReport att) buckets) []

def deriveVerifiedChecks (resolved : List ResolvedAttestation) (root : Digest) :
    List VerifiedCheck :=
  let status := deriveJobStatus resolved
  let statusOutcome : CheckOutcome :=
    if status == statusSuccess then .pass
    else if status == statusFailure then .fail
    else .incomplete
  let rootOutcome : CheckOutcome :=
    if root != "" && (validateDigest "resolved evidence_root" root).isOk then .pass else .incomplete
  [{ name := checkJobStatusSuccess, outcome := statusOutcome, evidenceDigest := root },
    { name := checkEvidenceRoot, outcome := rootOutcome, evidenceDigest := root }] ++
    ((aggregate resolved).map Agg.check).insertionSort (·.name ≤ ·.name)

def completedCheckNames (checks : List VerifiedCheck) : List String :=
  (checks.filter (·.passed)).map (·.name)

/-- `deriveEvidenceKinds`, given the shared root of the resolved attestations. -/
def deriveEvidenceKinds (resolved : List ResolvedAttestation) (checks : List VerifiedCheck) :
    List String :=
  let root := (resolved.head?.map (·.evidenceRoot)).getD ""
  (if resolved.isEmpty then [] else ["execution-attestation"]) ++
    if checks.any fun c => c.evidenceDigest != "" && c.evidenceDigest != root
    then ["test-report"] else []

def deriveResult (obligation : VerificationObligation) (jobStatus : String)
    (checks : List VerifiedCheck) (assurance : ExecutionAssurance) : Outcome :=
  if jobStatus == statusFailure then .fail
  else if jobStatus != statusSuccess then .partly
  else if obligation.requiredChecks.all fun need => (completedCheckNames checks).contains need then
    if assurance.name == obligation.requiredAssurance then .pass else .partly
  else .partly

/-! ## Sealing -/

def checkResultAgainstPrimitives (result : Outcome) (evidence : VerifiedEvidence) :
    Except Failure Unit :=
  if evidence.jobStatus = statusFailure then
    require (result = .fail) (.unverified "job status proves a fail result")
  else if evidence.jobStatus = statusSuccess then
    require (result ≠ .fail) (.unverified "job status cannot prove a fail result")
  else require (result = .partly) (.unverified "job status proves only a partial result")

/-- The check `sealDerivedOutcome` makes of the job-status check. -/
def checkStatusAgainstPrimitives (evidence : VerifiedEvidence) : Except Failure Unit :=
  match evidence.verifiedChecks.find? (·.name == checkJobStatusSuccess) with
  | none => .ok ()
  | some c =>
    if evidence.jobStatus = statusSuccess then
      require (c.outcome = .pass) (.unverified "job status requires the check to pass")
    else if evidence.jobStatus = statusFailure then
      require (c.outcome = .fail) (.unverified "job status requires the check to fail")
    else require (c.outcome ≠ .pass) (.unverified "job status cannot prove the check passed")

def sealDerivedOutcome (submitted derived : VerificationOutcome) (evidence : VerifiedEvidence) :
    Except Failure DerivedVerifiedOutcome := do
  derived.validate
  require (evidence.verifierIdentity ≠ "") (.unverified "verifier identity is required")
  require (evidence.evidenceRoot ≠ "") (.unverified "resolved evidence root is required")
  validateDigest "resolved evidence_root" evidence.evidenceRoot
  require (evidence.attestationDigests ≠ [])
    (.unverified "at least one attestation digest is required")
  require (evidence.verifiedAt ≠ 0) (.unverified "verified_at is required")
  require (submitted.verificationID = derived.verificationID)
    (.unverified "submitted claim verification id disagrees with accepted")
  require (submitted.obligationID = derived.obligationID)
    (.unverified "submitted claim obligation id disagrees with accepted")
  require (submitted.candidateDigest = derived.candidateDigest)
    (.unverified "submitted claim candidate digest disagrees with accepted")
  require (submitted.snapshotDigest = derived.snapshotDigest)
    (.unverified "submitted claim snapshot digest disagrees with accepted")
  require (submitted.contractDigest = derived.contractDigest)
    (.unverified "submitted claim contract digest disagrees with accepted")
  require (derived.evidenceRoot = evidence.evidenceRoot)
    (.unverified "derived evidence root disagrees with resolved")
  require (derived.executionIDs = evidence.executionIDs)
    (.unverified "derived execution ids disagree with resolved")
  -- legacy evidence without a check set has its two projections compared with each other
  let reChecks := if evidence.verifiedChecks = [] then evidence.completedChecks
    else completedCheckNames evidence.verifiedChecks
  require (derived.completedChecks = reChecks)
    (.unverified "derived completed checks disagree with the evidence-derived")
  require (evidence.completedChecks = reChecks)
    (.unverified "evidence completed checks disagree with the evidence-derived")
  require (derived.assuranceProfile = evidence.assurance.name)
    (.unverified "derived assurance disagrees with evidence-derived")
  checkResultAgainstPrimitives derived.outcome evidence
  checkStatusAgainstPrimitives evidence
  return { submittedClaim := submitted, outcome := derived, evidence, isSealed := true }

/-! ## Verification -/

abbrev EvidenceVerifier :=
  VerificationObligation → VerificationOutcome → Except Failure DerivedVerifiedOutcome

/-- `FuncEvidenceVerifier` with its clock read once; the resolver's error is a text. -/
structure FuncEvidenceVerifier where
  identity : String
  resolve : String → Except String ResolvedAttestation
  clock : Int

def bindIdentity (obligation : VerificationObligation) (claim : VerificationOutcome) :
    Except Failure Unit := do
  require (claim.obligationID = obligation.obligationID) (.binding "claim names obligation")
  require (claim.candidateDigest = obligation.immutableCandidateDigest)
    (.binding "candidate digest does not match obligation")
  require (claim.snapshotDigest = obligation.sourceSnapshotDigest)
    (.binding "snapshot digest does not match obligation")
  require (claim.contractDigest = obligation.verificationContractDigest)
    (.binding "contract digest does not match obligation")

/-- One turn of the resolving loop of `Verify`. -/
def resolveRef (f : FuncEvidenceVerifier) (ref : String) : Except Failure ResolvedAttestation := do
  require (ref ≠ "") (.evidence "empty evidence reference")
  let att ← (f.resolve ref).mapError .evidence
  require (att.executionID ≠ "" ∧ att.evidenceRoot ≠ "" ∧ att.attestationDigest ≠ "")
    (.evidence ("evidence resolved incompletely (execution id, evidence root and " ++
      "attestation digest are all required)"))
  (validateDigest "resolved evidence_root" att.evidenceRoot).mapError fun _ => .evidence "evidence"
  return att

/-- The loop of `Verify` over the resolved attestations: one root, no statement twice. -/
def checkAttestations (root : Digest) (seen : List Digest) :
    List ResolvedAttestation → Except Failure Unit
  | [] => .ok ()
  | att :: rest => do
    require (att.evidenceRoot = root) (.evidence "attestations disagree on evidence root")
    require (att.attestationDigest ∉ seen) (.evidence ("duplicate attestation digest (two " ++
      "references to one statement count once)"))
    checkAttestations root (att.attestationDigest :: seen) rest

/-- The verdict of `Verify`: a pass without a trusted window is only partial. -/
def derivedVerdict (obligation : VerificationObligation) (resolved : List ResolvedAttestation)
    (root : Digest) (window : ExecutionWindow) : Outcome :=
  let result := deriveResult obligation (deriveJobStatus resolved)
    (deriveVerifiedChecks resolved root) (deriveAssurance resolved)
  if result == .pass && !window.satisfiesFreshness (minWindowForRequireAttested false)
  then .partly else result

/-- The outcome `Verify` derives for a claim from the resolved attestations. -/
def derivedOutcome (obligation : VerificationObligation) (claim : VerificationOutcome)
    (resolved : List ResolvedAttestation) (root : Digest) : VerificationOutcome :=
  let attested := mergeAttested resolved
  let window := deriveWindow claim attested (mergeObserver resolved)
  let derived : VerificationOutcome :=
    { verificationID := claim.verificationID
      obligationID := obligation.obligationID
      candidateDigest := obligation.immutableCandidateDigest
      snapshotDigest := obligation.sourceSnapshotDigest
      contractDigest := obligation.verificationContractDigest
      outcome := derivedVerdict obligation resolved root window
      assuranceProfile := (deriveAssurance resolved).name
      completedChecks := completedCheckNames (deriveVerifiedChecks resolved root)
      executionIDs := (resolved.map (·.executionID)).eraseDups
      evidenceRoot := root
      resources := { claim.resources with measured := none }
      startedAt := window.startedAt
      completedAt := window.completedAt
      provenanceRefs := claim.provenanceRefs }
  { derived with
    resources :=
      { derived.resources with measured := some (deriveMeasuredFacts derived attested) } }

/-- The evidence `Verify` records with it. -/
def derivedEvidence (f : FuncEvidenceVerifier) (claim : VerificationOutcome)
    (resolved : List ResolvedAttestation) (root : Digest) : VerifiedEvidence :=
  let checks := deriveVerifiedChecks resolved root
  { executionIDs := (resolved.map (·.executionID)).eraseDups
    evidenceRoot := root
    attestationDigests := resolved.map (·.attestationDigest)
    attested := mergeAttested resolved
    window := deriveWindow claim (mergeAttested resolved) (mergeObserver resolved)
    kinds := deriveEvidenceKinds resolved checks
    jobStatus := deriveJobStatus resolved
    completedChecks := completedCheckNames checks
    verifiedChecks := checks
    assurance := deriveAssurance resolved
    observedControls := mergeObserved resolved
    verifierIdentity := f.identity
    verifiedAt := f.clock }

def FuncEvidenceVerifier.verify (f : FuncEvidenceVerifier) : EvidenceVerifier :=
  fun obligation submittedClaim => do
    require (f.identity ≠ "") (.unverified "verifier identity is required")
    obligation.validate
    submittedClaim.validate
    bindIdentity obligation submittedClaim
    require (submittedClaim.provenanceRefs ≠ []) (.evidence "claim cites no evidence references")
    let resolved ← submittedClaim.provenanceRefs.mapM (resolveRef f)
    let root := (resolved.head?.map (·.evidenceRoot)).getD ""
    checkAttestations root [] resolved
    sealDerivedOutcome submittedClaim (derivedOutcome obligation submittedClaim resolved root)
      (derivedEvidence f submittedClaim resolved root)

/-! ## What a seal says -/

/-- A sealed record holds what it was sealed from, its outcome is sound, and its claim names
the same verification of the same obligation. -/
structure Sealed (submitted derived : VerificationOutcome) (evidence : VerifiedEvidence)
    (v : DerivedVerifiedOutcome) : Prop where
  record : v = { submittedClaim := submitted, outcome := derived, evidence, isSealed := true }
  sound : derived.validate = .ok ()
  verificationID : submitted.verificationID = derived.verificationID
  obligationID : submitted.obligationID = derived.obligationID
  candidateDigest : submitted.candidateDigest = derived.candidateDigest
  snapshotDigest : submitted.snapshotDigest = derived.snapshotDigest

theorem sealDerivedOutcome_ok (ran : sealDerivedOutcome submitted derived evidence = .ok v) :
    Sealed submitted derived evidence v := by
  simp only [sealDerivedOutcome, check_ok_iff, require_ok_iff, pure_ok_iff] at ran
  obtain ⟨sound, -, -, -, -, -, verification, obligation, candidate, snapshot, -, -, -, -, -, -, -,
    -, record⟩ := ran
  exact ⟨record.symm, sound, verification, obligation, candidate, snapshot⟩

/-- What `Verify` sealed: a claim that cites references, each of which resolved. -/
theorem FuncEvidenceVerifier.verify_ok {f : FuncEvidenceVerifier} {ob : VerificationObligation}
    {claim : VerificationOutcome} {v : DerivedVerifiedOutcome} (ran : f.verify ob claim = .ok v) :
    ∃ resolved, claim.provenanceRefs.mapM (resolveRef f) = .ok resolved ∧
      let root := (resolved.head?.map (·.evidenceRoot)).getD ""
      checkAttestations root [] resolved = .ok () ∧
        Sealed claim (derivedOutcome ob claim resolved root) (derivedEvidence f claim resolved root)
          v := by
  simp only [FuncEvidenceVerifier.verify, bind_ok_iff] at ran
  obtain ⟨_, -, _, -, _, -, _, -, _, -, resolved, refs, _, attested, sealed⟩ := ran
  exact ⟨resolved, refs, attested, sealDerivedOutcome_ok sealed⟩

end KiwiCI.VerifyAPI
