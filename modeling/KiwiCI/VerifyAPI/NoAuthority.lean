import KiwiCI.VerifyAPI.Derivation

/-!
A claim carries no authority into the outcome verified for it.

`passProven_of_pass` says what a derived pass proves of the attestations, and
`verify_no_authority` compares two claims that cite the same references.
-/

namespace KiwiCI.VerifyAPI

open List FuncEvidenceVerifier

/-! ## The attestations of a verification -/

theorem resolveRef_ok (ran : resolveRef f ref = .ok att) : f.resolve ref = .ok att := by
  simp only [resolveRef, bind_ok_iff, mapError_ok_iff, pure_ok_iff] at ran
  obtain ⟨_, -, _, resolved, _, -, _, -, rfl⟩ := ran
  exact resolved

theorem checkAttestations_ok (ran : checkAttestations root seen resolved = .ok ()) :
    (∀ att ∈ resolved, att.evidenceRoot = root ∧ att.attestationDigest ∉ seen) ∧
      (resolved.map (·.attestationDigest)).Nodup := by
  induction resolved generalizing seen with
  | nil => simp
  | cons first rest ih =>
    simp only [checkAttestations, check_ok_iff, require_ok_iff] at ran
    obtain ⟨root', fresh, ran⟩ := ran
    obtain ⟨each, nodup⟩ := ih ran
    refine ⟨fun att member => ?_, ?_⟩
    · rcases mem_cons.mp member with rfl | later
      · exact ⟨root', fresh⟩
      · obtain ⟨same, unseen⟩ := each att later
        exact ⟨same, fun member => unseen (mem_cons_of_mem _ member)⟩
    · rw [map_cons, nodup_cons]
      refine ⟨fun member => ?_, nodup⟩
      obtain ⟨att, later, same⟩ := mem_map.mp member
      exact (each att later).2 (same ▸ mem_cons_self)

/-! ## What a pass proves -/

/-- What the references of a claim with a pass prove. -/
structure PassProven (f : FuncEvidenceVerifier) (ob : VerificationObligation)
    (refs : List String) (resolved : List ResolvedAttestation) : Prop where
  cited : refs ≠ []
  resolves : List.Forall₂ (fun ref att => f.resolve ref = .ok att) refs resolved
  oneRoot : ∃ root, ∀ att ∈ resolved, att.evidenceRoot = root
  distinct : (resolved.map (·.attestationDigest)).Nodup
  success : ∀ att ∈ resolved, att.status = statusSuccess
  checks : ∀ need ∈ ob.requiredChecks, structural need = true ∨
    ((∃ att ∈ resolved, ∃ c ∈ att.checks, c.name = need ∧ c.outcome = .pass) ∧
      ∀ att ∈ resolved, ∀ c ∈ att.checks, c.name = need → c.outcome ≠ .fail ∧ c.outcome ≠ .error)
  assurance : ∃ meet : ExecutionAssurance, meet.valid = true ∧
    (∀ c, meet.satisfies c = true ↔ ∀ att ∈ resolved, att.profile.satisfies c = true) ∧
      meet.name = ob.requiredAssurance
  window : (∀ att ∈ resolved, ∃ w, att.attested = some w ∧ w.wellFormed = true) ∨
    ∀ att ∈ resolved, ∃ w, att.observerWindow = some w ∧ w.wellFormed = true

/-- The values of two sealed records that carry authority are the same. -/
structure SameAuthority (v w : DerivedVerifiedOutcome) : Prop where
  verdict : v.outcome.outcome = w.outcome.outcome
  assuranceProfile : v.outcome.assuranceProfile = w.outcome.assuranceProfile
  completedChecks : v.outcome.completedChecks = w.outcome.completedChecks
  verifiedChecks : v.evidence.verifiedChecks = w.evidence.verifiedChecks
  executionIDs : v.outcome.executionIDs = w.outcome.executionIDs
  evidenceRoot : v.outcome.evidenceRoot = w.outcome.evidenceRoot
  kinds : v.evidence.kinds = w.evidence.kinds
  attested : v.evidence.attested = w.evidence.attested
  windowSource : v.evidence.window.source = w.evidence.window.source

theorem derivedVerdict_pass (pass : derivedVerdict ob resolved root window = .pass) :
    deriveJobStatus resolved = statusSuccess ∧
      (∀ need ∈ ob.requiredChecks,
        need ∈ completedCheckNames (deriveVerifiedChecks resolved root)) ∧
      (deriveAssurance resolved).name = ob.requiredAssurance ∧
      window.satisfiesFreshness (minWindowForRequireAttested false) = true := by
  unfold derivedVerdict at pass
  dsimp only at pass
  split at pass
  · cases pass
  next kept =>
  rw [pass] at kept
  have trusted : window.satisfiesFreshness (minWindowForRequireAttested false) = true := by
    simpa using kept
  unfold deriveResult at pass
  split at pass
  · cases pass
  split at pass
  · cases pass
  next success =>
  split at pass
  · next covered =>
    split at pass
    · next assured =>
      refine ⟨by simpa using success, fun need member => ?_, eq_of_beq assured, trusted⟩
      simpa using all_eq_true.mp covered need member
    · cases pass
  · cases pass

theorem derivedVerdict_congr (ob : VerificationObligation) (resolved : List ResolvedAttestation)
    (root : Digest) (same : window.source = window'.source) :
    derivedVerdict ob resolved root window = derivedVerdict ob resolved root window' := by
  unfold derivedVerdict ExecutionWindow.satisfiesFreshness ExecutionWindow.trusted
  rw [same]

theorem passProven_of_pass (ran : f.verify ob claim = .ok v) (pass : v.outcome.outcome = .pass) :
    ∃ resolved, PassProven f ob claim.provenanceRefs resolved := by
  have cited : claim.provenanceRefs ≠ [] := by
    simp only [verify, bind_ok_iff, require_ok_iff] at ran
    obtain ⟨_, -, _, -, _, -, _, -, _, cited, -⟩ := ran
    exact cited
  obtain ⟨resolved, refs, attested, sealed⟩ := verify_ok ran
  have pairs := mapM_ok refs
  obtain ⟨roots, distinct⟩ := checkAttestations_ok attested
  rw [sealed.record] at pass
  obtain ⟨success, covered, assured, trusted⟩ := derivedVerdict_pass pass
  have some' : resolved ≠ [] := by
    rintro rfl
    exact cited (forall₂_nil_right_iff.mp pairs)
  obtain ⟨valid, meet⟩ := deriveAssurance_satisfies some'
  refine ⟨resolved, ?_⟩
  exact {
    cited
    resolves := pairs.imp fun _ _ => resolveRef_ok
    oneRoot := ⟨_, fun att member => (roots att member).1⟩
    distinct
    success := deriveJobStatus_success success
    checks := fun need member => by
      refine (mem_completedCheckNames (covered need member)).imp_right fun reported => ?_
      simp only [mem_outcomesOf_reports] at reported
      obtain ⟨passes, fails, errs⟩ := reported
      exact ⟨passes, fun att member c held name =>
        ⟨fun fail => fails ⟨att, member, c, held, name, fail⟩,
          fun error => errs ⟨att, member, c, held, name, error⟩⟩⟩
    assurance := ⟨_, valid, meet, assured⟩
    window := deriveWindow_trusted trusted }

/-- Two claims that share their references: what is derived for them carries the same
authority, and a pass is proven by the references. -/
theorem verify_no_authority (f : FuncEvidenceVerifier) (ob : VerificationObligation)
    {claim claim' : VerificationOutcome} {v v' : DerivedVerifiedOutcome}
    (sameRefs : claim.provenanceRefs = claim'.provenanceRefs)
    (ran : f.verify ob claim = .ok v) (ran' : f.verify ob claim' = .ok v') :
    SameAuthority v v' ∧ (v.outcome.outcome = .pass →
      ∃ resolved, PassProven f ob claim.provenanceRefs resolved) := by
  refine ⟨?_, passProven_of_pass ran⟩
  obtain ⟨resolved, refs, -, sealed⟩ := verify_ok ran
  obtain ⟨resolved', refs', -, sealed'⟩ := verify_ok ran'
  rw [sameRefs, refs'] at refs
  cases refs
  rw [sealed.record, sealed'.record]
  have source (attested observer : Option AttestedResourceFacts) :
      (deriveWindow claim attested observer).source =
        (deriveWindow claim' attested observer).source := by
    unfold deriveWindow
    dsimp only
    split <;> rfl
  exact {
    verdict := derivedVerdict_congr ob resolved _ (source _ _)
    assuranceProfile := rfl
    completedChecks := rfl
    verifiedChecks := rfl
    executionIDs := rfl
    evidenceRoot := rfl
    kinds := rfl
    attested := rfl
    windowSource := source _ _ }

namespace OneAttestation

/-- An obligation that asks for one named check. -/
def obligation : VerificationObligation where
  obligationID := "obligation"
  subject := "service"
  immutableCandidateDigest := zeroDigest
  sourceSnapshotDigest := zeroDigest
  verificationContractDigest := zeroDigest
  requiredChecks := ["unit"]
  requiredAssurance := "uncontrolled"
  freshness := { maxAgeSeconds := 60 }
  issuedAt := 1

/-- An attestation of a job in which the check passed. -/
def attestation : ResolvedAttestation where
  executionID := "execution"
  evidenceRoot := zeroDigest
  attestationDigest := "attestation"
  status := "success"
  attested := some ⟨2, 3⟩
  checks := [{ name := "unit", outcome := .pass }]

/-- A verifier to which every reference is that attestation. -/
def verifier : FuncEvidenceVerifier where
  identity := "verifier"
  resolve := fun _ => .ok attestation
  clock := 4

/-- A claim of any verdict, at any time. -/
def claim (outcome : Outcome) (completedAt : Int) : VerificationOutcome where
  verificationID := "verification"
  obligationID := "obligation"
  candidateDigest := zeroDigest
  snapshotDigest := zeroDigest
  contractDigest := zeroDigest
  outcome := outcome
  assuranceProfile := "network_denied"
  completedChecks := []
  evidenceRoot := zeroDigest
  resources := { runnerClass := "small" }
  startedAt := 1
  completedAt := completedAt
  provenanceRefs := ["reference"]

end OneAttestation

open OneAttestation in
/-- A claim of pass and a claim of failure, verified from one attestation. -/
theorem one_attestation_no_authority :
    ∃ v v', verifier.verify obligation (claim .pass 2) = .ok v ∧
      verifier.verify obligation (claim .fail 9) = .ok v' ∧ v.outcome.outcome = .pass ∧
      SameAuthority v v' ∧
      ∃ resolved, PassProven verifier obligation ["reference"] resolved := by
  -- The two verifications are evaluated.
  have passes : (verifier.verify obligation (claim .pass 2)).toOption.any
      (·.outcome.outcome = .pass) = true := by
    decide +kernel
  have succeeds : (verifier.verify obligation (claim .fail 9)).toOption.any (fun _ => true) =
      true := by
    decide +kernel
  obtain ⟨v, ran, shown⟩ := exists_of_any passes
  obtain ⟨v', ran', -⟩ := exists_of_any succeeds
  have pass : v.outcome.outcome = .pass := of_decide_eq_true shown
  have sameRefs : (claim .pass 2).provenanceRefs = (claim .fail 9).provenanceRefs := rfl
  obtain ⟨same, proven⟩ := verify_no_authority verifier obligation sameRefs ran ran'
  exact ⟨v, v', ran, ran', pass, same, proven pass⟩

/-!
The verdict of a sealed record on its surfaces: `ProvenPass`, the terminal state of its proof
summary, and that of its row among compared candidates.

The row looks at every derived check.  The verdict, and with it the other two surfaces, looks
only at those the obligation requires.
-/

inductive TerminalState where
  | passed
  | failed
  | executionError
  | policyDenied
  | evidenceIncomplete
  | evidenceInvalid
  | expired
  | cancelled
  | superseded
  | unsupported
deriving DecidableEq

def TerminalState.projectCoarse : TerminalState → Outcome
  | .passed => .pass
  | .failed | .policyDenied | .evidenceInvalid | .expired | .unsupported => .fail
  | .executionError | .evidenceIncomplete | .cancelled | .superseded => .partly

def hasCheckConflicts (checks : List VerifiedCheck) : Bool := checks.any (·.outcome == .conflict)

def terminalOfOutcome : Outcome → TerminalState
  | .pass => .passed
  | .fail => .failed
  | _ => .evidenceIncomplete

namespace DerivedVerifiedOutcome

def provenPass (v : DerivedVerifiedOutcome) : Bool := v.isSealed && v.outcome.outcome == .pass

/-- The terminal state of `ProofSummaryFromBundle`, which refuses a record without a seal. -/
def summaryTerminal (v : DerivedVerifiedOutcome) : Option TerminalState :=
  if v.isSealed then some (terminalOfOutcome v.outcome.outcome) else none

/-- `verifiedTerminal`: the terminal state and the outcome of the record's row. -/
def verifiedTerminal (v : DerivedVerifiedOutcome) : TerminalState × Outcome :=
  if hasCheckConflicts v.evidence.verifiedChecks then
    (.evidenceInvalid, TerminalState.evidenceInvalid.projectCoarse)
  else if v.provenPass then (.passed, .pass)
  else if v.outcome.outcome = .fail then (.failed, .fail)
  else (.evidenceIncomplete, TerminalState.evidenceIncomplete.projectCoarse)

/-- The surfaces agree on whether the record is a pass, and with a check in conflict none of
them calls it one. -/
structure OneVerdict (v : DerivedVerifiedOutcome) : Prop where
  summary : v.summaryTerminal = some .passed ↔ v.provenPass = true
  row : v.verifiedTerminal.1 = .passed ↔ v.provenPass = true
  conflict : hasCheckConflicts v.evidence.verifiedChecks = true → v.provenPass = false

end DerivedVerifiedOutcome

theorem terminalOfOutcome_passed : terminalOfOutcome o = .passed ↔ o = .pass := by
  cases o <;> simp [terminalOfOutcome]

/-- A check in conflict is a named one, reported to pass and also to fail or to err. -/
theorem reported_of_conflict (member : c ∈ deriveVerifiedChecks resolved root)
    (conflict : c.outcome = .conflict) : structural c.name = false ∧
      (.fail ∈ outcomesOf (reports resolved) c.name ∨
        .error ∈ outcomesOf (reports resolved) c.name) := by
  unfold deriveVerifiedChecks at member
  rcases List.mem_append.mp member with derived | reported
  · simp only [List.mem_cons, List.not_mem_nil, or_false] at derived
    rcases derived with rfl | rfl <;> dsimp only at conflict <;> split_ifs at conflict
  · rw [List.mem_insertionSort] at reported
    obtain ⟨a, held, rfl⟩ := List.mem_map.mp reported
    have aggregated := aggregated_aggregate resolved
    obtain ⟨-, fail, error⟩ := aggregated.tells a held
    have plain := aggregated.admitted a held
    rw [named, Bool.not_eq_true', Bool.or_eq_false_iff] at plain
    refine ⟨plain.2, ?_⟩
    change _ ∈ outcomesOf (reports resolved) a.first.name ∨ _
    change a.outcome = .conflict at conflict
    rw [← fail, show a.check.name = a.first.name from rfl, ← error]
    unfold Agg.outcome at conflict
    split_ifs at conflict with mixed
    simpa using (Bool.and_eq_true_iff.mp mixed).2

namespace OneAttestation

/-- The attestation with a check that is not required, reported twice. -/
def disputed : FuncEvidenceVerifier :=
  { verifier with
    resolve := fun _ => .ok
      { attestation with
        checks := attestation.checks ++
          [{ name := "lint", outcome := .pass }, { name := "lint", outcome := .fail }] } }

end OneAttestation

end KiwiCI.VerifyAPI
