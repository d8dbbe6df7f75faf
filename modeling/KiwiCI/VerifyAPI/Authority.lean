import KiwiCI.VerifyAPI.Comparison

/-!
The verification service: `internal/verifyapi/service.go`, with the verifier providers of
`provider.go`.

Every call checks the caller's authority before it touches the store.  `calls_within`
says that submitting, claiming, verifying and querying stay inside it over any store.  A
group comparison checks the obligations of the canonical outcomes only, so whether it
stays inside depends on what the other outcomes of the group answer
(`compare_within_iff`).

The digest of a submitted claim and the hash of a recipe's frozen encoding are
parameters, and the clock is read once per call.
-/

namespace KiwiCI.VerifyAPI

/-! ## Providers -/

structure VerifierCapability where
  kind : String
  version : String
  claimClasses : List String := []
  assuranceLevels : List String := []
  platforms : List String := []
  evidenceTypes : List String := []

def capabilityCovers (list : List String) (want : String) : Bool :=
  list.any fun v => v == want || v == "*"

/-- `VerifierCapability.Covers` of the demand `ResolveDemand` reads off an obligation. -/
def VerifierCapability.covers (c : VerifierCapability) (o : VerificationObligation) :
    Except Failure Unit := do
  require (o.verifierProviderKind = "" ∨ c.kind = o.verifierProviderKind)
    (.binding "demand requires provider kind")
  require (o.verifierContractVersion = "" ∨ c.version = o.verifierContractVersion ∨ c.version = "*")
    (.binding "demand requires contract version")
  require (o.verifierClaimClass = "" ∨ capabilityCovers c.claimClasses o.verifierClaimClass = true)
    (.binding "capability does not cover claim class")
  require (o.verifierPlatform = "" ∨ capabilityCovers c.platforms o.verifierPlatform = true)
    (.binding "capability does not cover platform")
  require (o.verifierEvidenceTypes.all (capabilityCovers c.evidenceTypes))
    (.binding "capability does not cover evidence type")
  require (o.requiredAssurance = "" ∨ capabilityCovers c.assuranceLevels o.requiredAssurance = true)
    (.binding "provider does not advertise assurance")

structure VerifierProvider where
  kind : String
  capabilities : VerifierCapability
  verify : EvidenceVerifier

def providerServes (p : VerifierProvider) (obligation : VerificationObligation) :
    Except Failure Unit := do
  require (obligation.verifierProviderKind = p.kind) (.binding "obligation names another provider")
  require (p.capabilities.kind = p.kind) (.invalid "provider advertises another capability kind")
  p.capabilities.covers obligation

def recheckProviderDemand (p : VerifierProvider) (obligation : VerificationObligation)
    (derived : DerivedVerifiedOutcome) : Except Failure Unit := do
  providerServes p obligation
  require (¬ (obligation.requiredAssurance ≠ "" ∧ derived.isSealed = true ∧
      derived.outcome.outcome = .pass ∧
      derived.outcome.assuranceProfile ≠ obligation.requiredAssurance))
    (.binding "derived pass assurance does not meet demand")

/-! ## The service -/

/-- `VerificationStore`, the calls the service makes. -/
structure VerificationStore (σ : Type) where
  submitObligation : σ → VerificationObligation → Int → σ × Except Failure Unit
  recordOutcome : σ → VerificationOutcome → Int → σ × Except Failure Unit
  recordVerifiedOutcome : σ → DerivedVerifiedOutcome → Int → σ × Except Failure Unit
  getObligation : σ → String → Except Failure VerificationObligation
  getOutcome : σ → String → Except Failure VerificationOutcome
  queryOutcome : σ → String → Except Failure DerivedVerifiedOutcome
  compareGroup : σ → String → Except Failure GroupComparison

structure Service (σ : Type) where
  store : VerificationStore σ
  verifier : EvidenceVerifier
  providers : Option (Table String VerifierProvider)
  recipes : Option RecipeRegistry
  authz : Authorizer
  claimDigest : VerificationOutcome → Except Failure Digest
  frozenHash : Recipe → Except Failure Digest

def rebindVerifierOutput (claimDigest : VerificationOutcome → Except Failure Digest)
    (obligation : VerificationObligation) (submitted : VerificationOutcome)
    (record : DerivedVerifiedOutcome) (now : Int) : Except Failure Unit := do
  require (record.isSealed = true) (.unverified "verifier returned an unsealed record")
  let wantClaim ← claimDigest submitted
  let gotClaim ← claimDigest record.submittedClaim
  require (wantClaim = gotClaim)
    (.binding "verifier returned a different submitted claim than the supplied submission")
  bindIdentity obligation submitted
  bindIdentity obligation record.outcome
  (bind obligation record.outcome now).mapError fun _ =>
    .binding "verifier output does not bind the obligation"
  record.outcome.validate
  match sealDerivedOutcome record.submittedClaim record.outcome record.evidence with
  | .ok _ => .ok ()
  | .error _ => .error (.unverified "verifier returned inconsistent sealed content")

/-- A call that writes only after its checks: a failed check leaves the store alone. -/
def afterChecks {σ α β : Type} (s : σ) (checks : Except Failure α)
    (write : α → σ × Except Failure β) : σ × Except Failure β :=
  match checks with
  | .error e => (s, .error e)
  | .ok a => write a

namespace Service

variable {σ : Type}

/-- The obligation `SubmitObligation` binds a submission to. -/
def bound (svc : Service σ) (o : VerificationObligation) (now : Int) :
    Except Failure VerificationObligation :=
  if o.recipeDigest = "" then .ok o
  else do
    let r ← recipeByDigest svc.recipes o.recipeDigest
    require (r.live now) (.binding "recipe is withdrawn and cannot mint new demand")
    bindLiveRecipe svc.frozenHash o r now

/-- The checks of `SubmitObligation`. -/
def checkSubmission (svc : Service σ) (p : Principal) (o : VerificationObligation) (now : Int) :
    Except Failure VerificationObligation := do
  o.validateSubmission
  let bound ← svc.bound o now
  bound.validate
  authorize svc.authz p .obligationCreate bound.subjectReference
  return bound

def submitObligation (svc : Service σ) (s : σ) (p : Principal) (o : VerificationObligation)
    (now : Int) : σ × Except Failure Unit :=
  afterChecks s (svc.checkSubmission p o now) fun bound => svc.store.submitObligation s bound now

/-- The checks of `RecordClaim`. -/
def checkClaim (svc : Service σ) (s : σ) (p : Principal) (v : VerificationOutcome) :
    Except Failure Unit := do
  v.validate
  let ob ← svc.store.getObligation s v.obligationID
  authorize svc.authz p .claimSubmit ob.subjectReference

def recordClaim (svc : Service σ) (s : σ) (p : Principal) (v : VerificationOutcome) (now : Int) :
    σ × Except Failure Unit :=
  afterChecks s (svc.checkClaim s p v) fun _ => svc.store.recordOutcome s v now

/-- The provider an obligation names, if it names one. -/
def provider (svc : Service σ) (ob : VerificationObligation) :
    Except Failure (Option VerifierProvider) :=
  if ob.verifierProviderKind = "" then .ok none
  else do
    let providers ← orThrow svc.providers
      (.notFound "obligation names provider but no providers are registered")
    let p ← orThrow (providers.get? ob.verifierProviderKind) (.notFound "provider")
    providerServes p ob
    return some p

def enforceEvidenceMinimum (svc : Service σ) (ob : VerificationObligation)
    (record : DerivedVerifiedOutcome) : Except Failure Unit :=
  checkIf (ob.recipeDigest ≠ "") do
    let r ← recipeByDigest svc.recipes ob.recipeDigest
    checkIf (record.outcome.outcome = .pass) (r.evidenceMin.check record.evidence)

/-- What `VerifyAndRecord` does before it writes. -/
def verified (svc : Service σ) (s : σ) (p : Principal) (v : VerificationOutcome) (now : Int) :
    Except Failure DerivedVerifiedOutcome := do
  v.validate
  let ob ← svc.store.getObligation s v.obligationID
  authorize svc.authz p .proofVerify ob.subjectReference
  let provider ← svc.provider ob
  let record ← (provider.elim svc.verifier (·.verify)) ob v
  require (record.isSealed = true) (.unverified "verifier returned an unsealed record")
  rebindVerifierOutput svc.claimDigest ob v record now
  (provider.elim (.ok ()) fun p => recheckProviderDemand p ob record : Except Failure Unit)
  svc.enforceEvidenceMinimum ob record
  return record

def verifyAndRecord (svc : Service σ) (s : σ) (p : Principal) (v : VerificationOutcome)
    (now : Int) : σ × Except Failure DerivedVerifiedOutcome :=
  afterChecks s (svc.verified s p v now) fun record =>
    let written := svc.store.recordVerifiedOutcome s record now
    (written.1, written.2.map fun _ => record)

def queryOutcome (svc : Service σ) (s : σ) (p : Principal) (id : String) :
    Except Failure DerivedVerifiedOutcome := do
  let vo ← svc.store.queryOutcome s id
  let ob ← svc.store.getObligation s vo.outcome.obligationID
  authorize svc.authz p .proofRead ob.subjectReference
  return vo

/-- The loop of `CompareGroup` over the rows; it returns the subjects it has authorized. -/
def authorizeRows (svc : Service σ) (s : σ) (p : Principal) (seen : List SubjectRef) :
    List CandidateFacts → Except Failure (List SubjectRef)
  | [] => .ok seen
  | row :: rest =>
    if row.verificationID = "" then svc.authorizeRows s p seen rest
    else do
      let out ← svc.store.getOutcome s row.verificationID
      let ob ← svc.store.getObligation s out.obligationID
      let subject := ob.subjectReference
      if subject ∈ seen then svc.authorizeRows s p seen rest
      else do
        authorize svc.authz p .groupCompare subject
        svc.authorizeRows s p (subject :: seen) rest

def compareGroup (svc : Service σ) (s : σ) (p : Principal) (groupID : String) :
    Except Failure GroupComparison := do
  let cmp ← svc.store.compareGroup s groupID
  let seen ← svc.authorizeRows s p [] cmp.candidates
  checkIf (seen = []) (authorize svc.authz p .groupCompare {})
  return cmp

end Service

/-!
Verification calls and the caller's authority.

`calls_within` covers the four calls about one obligation, over any store.  For the
comparison of a group, `compare_within_iff` says when no caller learns of an outcome
outside its authority: the subjects of the canonical outcomes have to cover those of all
recorded ones.
-/

open List SubjectRef

/-! ## Calls about one obligation -/

section AnyStore

variable {σ : Type}

/-- The calls about one obligation take effect, or return a record, only for a principal
that holds the call's action over the obligation's subject. -/
structure Service.CallsWithin (svc : Service σ) (s : σ) (p : Principal) : Prop where
  submit : ∀ o now s' res, svc.submitObligation s p o now = (s', res) → s' ≠ s ∨ res = .ok () →
    ∃ bound, svc.bound o now = .ok bound ∧ p.Holds .obligationCreate bound.subjectReference
  claim : ∀ v now s' res, svc.recordClaim s p v now = (s', res) → s' ≠ s ∨ res = .ok () →
    ∃ ob, svc.store.getObligation s v.obligationID = .ok ob ∧
      p.Holds .claimSubmit ob.subjectReference
  verify : ∀ v now s' res, svc.verifyAndRecord s p v now = (s', res) →
    s' ≠ s ∨ (∃ record, res = .ok record) →
    ∃ ob, svc.store.getObligation s v.obligationID = .ok ob ∧
      p.Holds .proofVerify ob.subjectReference
  query : ∀ id record, svc.queryOutcome s p id = .ok record →
    ∃ ob, svc.store.getObligation s record.outcome.obligationID = .ok ob ∧
      p.Holds .proofRead ob.subjectReference

/-- A call with an effect, or a result, passed its checks. -/
theorem checks_passed {α β : Type} {checks : Except Failure α}
    {res : Except Failure β} {write : α → σ × Except Failure β}
    (ran : afterChecks s checks write = (s', res)) (effect : s' ≠ s ∨ ∃ b, res = .ok b) :
    ∃ a, checks = .ok a := by
  cases checks with
  | ok a => exact ⟨a, rfl⟩
  | error e =>
    obtain ⟨rfl, rfl⟩ := Prod.mk.inj ran
    rcases effect with moved | ⟨b, returned⟩
    · exact absurd rfl moved
    · cases returned

theorem holds_of_authorize {p : Principal}
    (ran : authorize scopeAuthorizer p action subject = .ok ()) : p.Holds action subject :=
  (authorize_ok_iff.mp ran).2.2

theorem Service.calls_within (svc : Service σ) (byScope : svc.authz = scopeAuthorizer) (s : σ)
    (p : Principal) : svc.CallsWithin s p where
  submit := fun o now s' res ran effect => by
    obtain ⟨bound, checked⟩ := checks_passed ran (effect.imp_right fun done => ⟨(), done⟩)
    simp only [checkSubmission, bind_ok_iff, byScope] at checked
    obtain ⟨_, -, bound, binds, _, -, _, allowed, -⟩ := checked
    exact ⟨bound, binds, holds_of_authorize allowed⟩
  claim := fun v now s' res ran effect => by
    obtain ⟨_, checked⟩ := checks_passed ran (effect.imp_right fun done => ⟨(), done⟩)
    simp only [checkClaim, bind_ok_iff, byScope] at checked
    obtain ⟨_, -, ob, held, allowed⟩ := checked
    exact ⟨ob, held, holds_of_authorize allowed⟩
  verify := fun v now s' res ran effect => by
    obtain ⟨_, checked⟩ := checks_passed ran effect
    simp only [verified, bind_ok_iff, byScope] at checked
    obtain ⟨_, -, ob, held, _, allowed, -⟩ := checked
    exact ⟨ob, held, holds_of_authorize allowed⟩
  query := fun id record ran => by
    simp only [queryOutcome, bind_ok_iff, pure_ok_iff, byScope] at ran
    obtain ⟨_, -, ob, held, _, allowed, rfl⟩ := ran
    exact ⟨ob, held, holds_of_authorize allowed⟩

/-! ## The rows of a comparison -/

/-- The subject a comparison row is checked against. -/
def Service.RowSubject (svc : Service σ) (s : σ) (row : CandidateFacts) (t : SubjectRef) : Prop :=
  row.verificationID ≠ "" ∧ ∃ out ob, svc.store.getOutcome s row.verificationID = .ok out ∧
    svc.store.getObligation s out.obligationID = .ok ob ∧ ob.subjectReference = t

variable {svc : Service σ} {s : σ} {p : Principal}

/-- After the loop, the subjects of all rows are among the authorized ones. -/
theorem Service.authorizeRows_ok (ran : svc.authorizeRows s p seen rows = .ok seen')
    (before : ∀ t ∈ seen, authorize svc.authz p .groupCompare t = .ok ()) :
    ∀ row ∈ rows, ∀ t, svc.RowSubject s row t →
      authorize svc.authz p .groupCompare t = .ok () := by
  induction rows generalizing seen with
  | nil => intro row member; simp at member
  | cons first rest ih =>
    unfold authorizeRows at ran
    split at ran
    · next blank =>
      intro row member t subject
      rcases mem_cons.mp member with rfl | later
      · exact absurd blank subject.1
      · exact ih ran before row later t subject
    · simp only [bind_ok_iff] at ran
      obtain ⟨out, held, ob, held', ran⟩ := ran
      have here : ∀ t, svc.RowSubject s first t → ob.subjectReference = t := by
        rintro t ⟨-, out', ob', found, found', rfl⟩
        rw [held] at found
        cases found
        rw [held'] at found'
        cases found'
        rfl
      split at ran
      · next known =>
        intro row member t subject
        rcases mem_cons.mp member with rfl | later
        · exact here t subject ▸ before _ known
        · exact ih ran before row later t subject
      · rw [bind_ok_iff] at ran
        obtain ⟨_, allowed, ran⟩ := ran
        intro row member t subject
        rcases mem_cons.mp member with rfl | later
        · exact here t subject ▸ allowed
        · refine ih ran (fun t known => ?_) row later t subject
          rcases mem_cons.mp known with rfl | known
          · exact allowed
          · exact before t known

/-- The loop succeeds when every row has a subject and each is allowed. -/
theorem Service.authorizeRows_total (seen : List SubjectRef)
    (each : ∀ row ∈ rows, row.verificationID ≠ "" → ∃ t, svc.RowSubject s row t ∧
      authorize svc.authz p .groupCompare t = .ok ()) :
    ∃ seen', svc.authorizeRows s p seen rows = .ok seen' ∧ seen ⊆ seen' ∧
      ∀ row ∈ rows, row.verificationID ≠ "" → seen' ≠ [] := by
  induction rows generalizing seen with
  | nil => exact ⟨seen, rfl, fun _ => id, fun _ member => by simp at member⟩
  | cons first rest ih =>
    have later := fun row member => each row (mem_cons_of_mem first member)
    unfold authorizeRows
    split
    · next blank =>
      obtain ⟨seen', ran, grows, nonempty⟩ := ih seen later
      refine ⟨seen', ran, grows, fun row member named => ?_⟩
      rcases mem_cons.mp member with rfl | member
      · exact absurd blank named
      · exact nonempty row member named
    · next named =>
      obtain ⟨t, ⟨-, out, ob, held, held', rfl⟩, allowed⟩ := each first (by simp) named
      rw [held, ok_bind, held', ok_bind]
      dsimp only
      split
      · next known =>
        obtain ⟨seen', ran, grows, -⟩ := ih seen later
        exact ⟨seen', ran, grows, fun _ _ _ => ne_nil_of_mem (grows known)⟩
      · obtain ⟨seen', ran, grows, -⟩ := ih (ob.subjectReference :: seen) later
        rw [allowed, ok_bind]
        exact ⟨seen', ran, fun t member => grows (mem_cons_of_mem _ member),
          fun _ _ _ => ne_nil_of_mem (grows mem_cons_self)⟩

end AnyStore

/-! ## Comparing a group in memory -/

/-- `MemoryStore` as the service sees it. -/
def memoryStore (recipes : Option RecipeRegistry) : VerificationStore Registry where
  submitObligation := fun r o _ =>
    (commit (MemoryStore.submitObligation r o) r,
      (MemoryStore.submitObligation r o).map fun _ => ())
  recordOutcome := fun r v now =>
    (commit (MemoryStore.recordOutcome r v now) r,
      (MemoryStore.recordOutcome r v now).map fun _ => ())
  recordVerifiedOutcome := fun r v now => MemoryStore.recordVerifiedOutcome r recipes v now
  getObligation := fun r id => orThrow (r.obligations.get? id) (.notFound "obligation")
  getOutcome := fun r id => orThrow (r.outcomes.get? id) (.notFound "outcome")
  queryOutcome := Registry.queryOutcome
  compareGroup := Registry.compareGroup

/-- The service over the in-memory store with the scope authorizer. -/
def Service.inMemory (svc : Service Registry) : Service Registry :=
  { svc with store := memoryStore svc.recipes, authz := scopeAuthorizer }

/-- A returned comparison: the caller holds the action over the subject of every outcome
recorded in the group. -/
def Service.CompareWithin (svc : Service Registry) (r : Registry) (groupID : String)
    (p : Principal) : Prop :=
  ∀ cmp, svc.compareGroup r p groupID = .ok cmp → ∀ v, r.Recorded groupID v →
    ∀ ob, r.obligations.get? v.obligationID = some ob →
      p.Holds .groupCompare ob.subjectReference

namespace Registry

/-- The subject of the obligation an outcome answers. -/
def subjectOf (r : Registry) (v : VerificationOutcome) : SubjectRef :=
  ((r.obligations.get? v.obligationID).map (·.subjectReference)).getD {}

/-- The subjects of the canonical outcomes cover those of all recorded ones, or one of them
is no subject at all. -/
def CanonicalCovers (r : Registry) (groupID : String) : Prop :=
  (∃ w, r.Canonical groupID w ∧ (r.subjectOf w).isZero = true) ∨
    ∀ v, r.Recorded groupID v → ∃ w, r.Canonical groupID w ∧
      (r.subjectOf w).includes (r.subjectOf v) = true

variable {r : Registry} {groupID : String}

theorem Kept.subject (kept : r.Kept) (recorded : r.Recorded groupID v) :
    (r.subjectOf v).isZero = true ∨ (r.subjectOf v).isHierarchy = true := by
  obtain ⟨ob, held⟩ := Option.isSome_iff_exists.mp (kept.claim _ v recorded.held).answers
  rw [subjectOf, held]
  exact VerificationObligation.validate_subject (kept.obligation _ ob held)

/-- The subject a row of the comparison is checked against is its canonical outcome's. -/
theorem Kept.rowSubject_iff (kept : r.Kept) (svc : Service Registry) {row : CandidateFacts}
    (recorded : r.Recorded groupID w)
    (same : w.verificationID = row.verificationID) (t : SubjectRef) :
    svc.inMemory.RowSubject r row t ↔ r.subjectOf w = t := by
  have filed := kept.claim _ w recorded.held
  obtain ⟨ob, held⟩ := Option.isSome_iff_exists.mp filed.answers
  have subject : r.subjectOf w = ob.subjectReference := by rw [subjectOf, held]; rfl
  have stored : r.outcomes.get? row.verificationID = some w := same ▸ recorded.held
  have named : row.verificationID ≠ "" := same ▸ filed.nonempty
  constructor
  · rintro ⟨-, out, ob', found, found', rfl⟩
    have found : r.outcomes.get? row.verificationID = some out := orThrow_ok_iff.mp found
    rw [stored] at found
    cases found
    have found' : r.obligations.get? w.obligationID = some ob' := orThrow_ok_iff.mp found'
    rw [held] at found'
    cases found'
    exact subject
  · rintro rfl
    exact ⟨named, w, ob, orThrow_ok_iff.mpr stored, orThrow_ok_iff.mpr held, subject.symm⟩

/-- A comparison is returned exactly to the callers that may see every canonical outcome,
provided there is one. -/
theorem Kept.compareGroup_ok_iff (kept : r.Kept) (svc : Service Registry)
    (recorded : r.Recorded groupID v) :
    (∃ cmp, svc.inMemory.compareGroup r p groupID = .ok cmp) ↔
      ∀ w, r.Canonical groupID w →
        authorize scopeAuthorizer p .groupCompare (r.subjectOf w) = .ok () := by
  obtain ⟨g, registered, -⟩ := kept.recorded_member recorded
  obtain ⟨cmp, ran, rows⟩ := kept.compareGroup_rows registered
  have stored : svc.inMemory.store.compareGroup r groupID = .ok cmp := ran
  constructor
  · rintro ⟨_, compared⟩ w best
    simp only [Service.compareGroup, bind_ok_iff] at compared
    obtain ⟨_, again, seen, loop, -⟩ := compared
    rw [stored] at again
    cases again
    have named := (kept.claim _ w best.held).nonempty
    obtain ⟨row, member, same⟩ := (rows _ named).mpr ⟨w, best, rfl⟩
    have subject := (kept.rowSubject_iff svc best.toRecorded same.symm (r.subjectOf w)).mpr rfl
    exact Service.authorizeRows_ok loop (fun _ member => by simp at member) row member _ subject
  · intro allowed
    have each : ∀ row ∈ cmp.candidates, row.verificationID ≠ "" →
        ∃ t, svc.inMemory.RowSubject r row t ∧
          authorize svc.inMemory.authz p .groupCompare t = .ok () := by
      intro row member named
      obtain ⟨w, best, same⟩ := (rows _ named).mp ⟨row, member, rfl⟩
      exact ⟨_, (kept.rowSubject_iff svc best.toRecorded same _).mpr rfl, allowed w best⟩
    obtain ⟨seen, loop, -, nonempty⟩ := Service.authorizeRows_total [] each
    obtain ⟨byCandidate, -, complete, -⟩ := kept.selects registered
    obtain ⟨w, best, -, -⟩ := complete v recorded
    have named := (kept.claim _ w best.held).nonempty
    obtain ⟨row, member, same⟩ := (rows _ named).mpr ⟨w, best, rfl⟩
    have some' := nonempty row member (same ▸ named)
    refine ⟨cmp, ?_⟩
    simp only [Service.compareGroup, bind_ok_iff, checkIf_ok_iff, pure_ok_iff]
    exact ⟨cmp, stored, seen, loop, (), fun empty => absurd empty some', rfl⟩

/-- A principal that may compare over the canonical subjects and nothing else. -/
theorem canonical_principal
    (hierarchies : ∀ w, r.Canonical groupID w → (r.subjectOf w).isHierarchy = true) :
    ∃ p : Principal, p.validate = .ok () ∧
      (∀ c ∈ p.capabilities, c.isGlobal = false ∧ ∃ w, r.Canonical groupID w ∧
        c.scope = r.subjectOf w) ∧
      ∀ w, r.Canonical groupID w → p.Holds .groupCompare (r.subjectOf w) := by
  classical
  let canonical := (r.outcomes.rows.map (·.2)).filter fun w => decide (r.Canonical groupID w)
  have member : ∀ w, r.Canonical groupID w → w ∈ canonical := by
    intro w best
    refine mem_filter.mpr ⟨?_, decide_eq_true best⟩
    exact mem_map.mpr ⟨⟨_, w⟩, Table.mem_rows_iff.mpr best.held, rfl⟩
  refine ⟨⟨"", canonical.map fun w => { action := .groupCompare, scope := r.subjectOf w }⟩,
    Principal.validate_ok_iff.mpr fun c listed => ?_, fun c listed => ?_, fun w best => ?_⟩
  · obtain ⟨w, among, rfl⟩ := mem_map.mp listed
    have best := of_decide_eq_true (mem_filter.mp among).2
    exact Capability.validate_ok_iff.mpr (.inr ⟨rfl, by simp, hierarchies w best⟩)
  · obtain ⟨w, among, rfl⟩ := mem_map.mp listed
    exact ⟨rfl, w, of_decide_eq_true (mem_filter.mp among).2, rfl⟩
  · refine .inr ⟨_, mem_map.mpr ⟨w, member w best, rfl⟩, rfl, ?_, prefix_rfl⟩
    exact hierarchies w best

/-- A principal with an action over no subject at all holds it everywhere. -/
theorem holds_of_zero {p : Principal}
    (isZero : zero.isZero = true) (holds : p.Holds action zero) : p.Holds action t := by
  rcases holds with admin | ⟨c, member, acts, hierarchy, short⟩
  · exact .inl admin
  · rw [path_eq_nil_of_isZero isZero, prefix_nil] at short
    exact absurd short (path_ne_nil hierarchy)

theorem holds_of_includes {p : Principal}
    (covers : s.includes t = true) (holds : p.Holds action s) : p.Holds action t := by
  rcases holds with admin | ⟨c, member, acts, hierarchy, short⟩
  · exact .inl admin
  · exact .inr ⟨c, member, acts, hierarchy, short.trans (includes_iff.mp covers).2.2⟩

/-- When a group comparison stays inside every caller's authority. -/
theorem Kept.compare_within_iff (kept : r.Kept) (svc : Service Registry) :
    (∀ p, svc.inMemory.CompareWithin r groupID p) ↔ r.CanonicalCovers groupID := by
  constructor
  · intro within
    by_cases zero : ∃ w, r.Canonical groupID w ∧ (r.subjectOf w).isZero = true
    · exact .inl zero
    refine .inr fun v recorded => ?_
    have hierarchies : ∀ w, r.Canonical groupID w → (r.subjectOf w).isHierarchy = true :=
      fun w best => (kept.subject best.toRecorded).resolve_left fun none => zero ⟨w, best, none⟩
    -- the caller with just the canonical subjects gets the comparison
    obtain ⟨p, formed, only, holds⟩ := canonical_principal hierarchies
    obtain ⟨cmp, returned⟩ := (kept.compareGroup_ok_iff svc recorded).mpr fun w best =>
      authorize_ok_iff.mpr ⟨.inr (hierarchies w best), formed, holds w best⟩
    obtain ⟨ob, held⟩ := Option.isSome_iff_exists.mp (kept.claim _ v recorded.held).answers
    have subject : r.subjectOf v = ob.subjectReference := by rw [subjectOf, held]; rfl
    rcases within p cmp returned v recorded ob held with ⟨c, listed, global, -⟩ | granted
    · rw [(only c listed).1] at global
      cases global
    · obtain ⟨c, listed, -, hierarchy, short⟩ := granted
      obtain ⟨-, w, best, scope⟩ := only c listed
      rw [scope, ← subject] at short
      refine ⟨w, best, includes_iff.mpr ⟨hierarchies w best, ?_, short⟩⟩
      refine (kept.subject recorded).resolve_left fun none => ?_
      rw [path_eq_nil_of_isZero none, prefix_nil] at short
      exact path_ne_nil (hierarchies w best) short
  · intro covers p cmp returned v recorded ob held
    have allowed := (kept.compareGroup_ok_iff svc recorded).mp ⟨cmp, returned⟩
    have subject : r.subjectOf v = ob.subjectReference := by rw [subjectOf, held]; rfl
    rw [← subject]
    rcases covers with ⟨w, best, zero⟩ | covers
    · exact holds_of_zero zero (holds_of_authorize (allowed w best))
    · obtain ⟨w, best, included⟩ := covers v recorded
      exact holds_of_includes included (holds_of_authorize (allowed w best))

end Registry

/-- In every state the in-memory store can reach, all calls of all principals stay inside
their authority exactly when the canonical outcomes of the compared group cover the
recorded ones. -/
theorem Service.within_authority_iff (svc : Service Registry) (calls : List MemoryStore.Call)
    (groupID : String) :
    (∀ p, svc.inMemory.CallsWithin (run MemoryStore.step calls {}) p ∧
      svc.inMemory.CompareWithin (run MemoryStore.step calls {}) groupID p) ↔
      (run MemoryStore.step calls {}).CanonicalCovers groupID := by
  rw [← (MemoryStore.kept_run calls).compare_within_iff svc]
  constructor
  · exact fun within p => (within p).2
  · exact fun within p => ⟨svc.inMemory.calls_within rfl _ p, within p⟩

/-! ## A losing attempt of another tenant -/

namespace TwoTenants

/-- One digest serves for all. -/
def digest : Digest := zeroDigest

def tenant (name : String) : SubjectRef := { authorityNamespace := "forge", tenantID := name }

/-- The obligation of a tenant, about the one candidate. -/
def obligation (name : String) : VerificationObligation where
  obligationID := name
  subject := "service"
  subjectRef := some (tenant name)
  immutableCandidateDigest := digest
  sourceSnapshotDigest := digest
  verificationContractDigest := digest
  requiredChecks := ["unit"]
  requiredAssurance := "uncontrolled"
  freshness := { maxAgeSeconds := 60 }
  issuedAt := 1

/-- The claim that answers it, completed at the given instant. -/
def claim (name : String) (completedAt : Int) : VerificationOutcome where
  verificationID := name
  obligationID := name
  candidateDigest := digest
  snapshotDigest := digest
  contractDigest := digest
  outcome := .fail
  assuranceProfile := "uncontrolled"
  completedChecks := []
  evidenceRoot := digest
  resources :=
    { runnerClass := "small"
      speculative := true
      verificationGroupID := "group"
      candidateID := "candidate" }
  startedAt := 1
  completedAt := completedAt

/-- A group without a subject. -/
def group : SpeculativeGroup where
  verificationGroupID := "group"
  baseSnapshotDigest := digest
  candidateDigests := Table.empty.put "candidate" digest

/-- Both tenants' attempts at the candidate: acme's is the later one. -/
def calls : List MemoryStore.Call :=
  [.submitObligation (obligation "acme"), .submitObligation (obligation "beta"),
    .registerGroup group, .recordOutcome (claim "acme" 20) 20, .recordOutcome (claim "beta" 10) 20]

/-- A caller that may compare within acme. -/
def caller : Principal := ⟨"caller", [{ action := .groupCompare, scope := tenant "acme" }]⟩

/-- Any service will do; this one has no verifier. -/
def service : Service Registry where
  store := memoryStore none
  verifier := fun _ _ => .error (.unverified "no verifier")
  providers := none
  recipes := none
  authz := scopeAuthorizer
  claimDigest := fun _ => .ok digest
  frozenHash := fun _ => .ok digest

end TwoTenants

open TwoTenants in
/-- The caller of acme is given the comparison of a group in which beta has an outcome. -/
theorem losing_attempt_unchecked :
    ∃ cmp, service.inMemory.compareGroup (run MemoryStore.step calls {}) caller "group" = .ok cmp ∧
      (run MemoryStore.step calls {}).Recorded "group" ((claim "beta" 10).withMeasured none) ∧
      (run MemoryStore.step calls {}).obligations.get? "beta" = some (obligation "beta") ∧
      ¬ caller.Holds .groupCompare (obligation "beta").subjectReference := by
  have facts : (service.inMemory.compareGroup (run MemoryStore.step calls {}) caller
        "group").toOption.any (fun _ => true) = true ∧
      (run MemoryStore.step calls {}).outcomes.get? "beta" =
        some ((claim "beta" 10).withMeasured none) ∧
      (run MemoryStore.step calls {}).obligations.get? "beta" = some (obligation "beta") := by
    decide +kernel
  obtain ⟨compared, held, owned⟩ := facts
  obtain ⟨cmp, returned, -⟩ := exists_of_any compared
  refine ⟨cmp, returned, ⟨held, rfl, rfl⟩, owned, ?_⟩
  unfold Principal.Holds
  decide +kernel

end KiwiCI.VerifyAPI
