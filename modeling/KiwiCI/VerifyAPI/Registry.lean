import KiwiCI.VerifyAPI.Evidence

/-!
Verification recipes: `internal/verifyapi/recipe.go`.

A recipe owns the checks, the assurance, the freshness and the evidence floor of the
obligations bound to it.  The hash of a recipe's frozen encoding is a parameter.
-/

namespace KiwiCI.VerifyAPI

structure EvidenceMinimum where
  minAttestations : Int := 0
  requiredKinds : List String := []
  requireAttestedWindow : Bool := false
deriving DecidableEq

def EvidenceMinimum.validate (m : EvidenceMinimum) : Except Failure Unit := do
  require (0 ≤ m.minAttestations) (.invalid "evidence minimum min_attestations must be >= 0")
  checkNames (.invalid "evidence minimum required_kinds is empty")
    (.invalid "evidence minimum required_kinds contains duplicate") [] m.requiredKinds

def EvidenceMinimum.check (m : EvidenceMinimum) (e : VerifiedEvidence) : Except Failure Unit := do
  require (0 < m.minAttestations → m.minAttestations ≤ e.attestationDigests.eraseDups.length)
    (.evidence "evidence minimum requires distinct attestations")
  require (∀ need ∈ m.requiredKinds, need ∈ e.kinds)
    (.evidence "evidence minimum requires kind, which is absent")
  require (m.requireAttestedWindow = true → e.window.satisfiesFreshness .attested = true)
    (.freshness "freshness requires an attested execution window")

structure Recipe where
  schemaVersion : Int
  name : String
  version : Int
  requirements : List String
  assurance : String
  evidenceMin : EvidenceMinimum := {}
  freshness : FreshnessPolicy
  issuedAt : Int
  withdrawnAt : Option Int := none
  withdrawalReason : String := ""
deriving DecidableEq

namespace Recipe

def validate (r : Recipe) : Except Failure Unit := do
  require (r.schemaVersion = 1) (.invalid "recipe schema_version")
  require (Text.trimSpace r.name = r.name ∧ r.name ≠ "")
    (.invalid "recipe name is required and must not have surrounding whitespace")
  require (1 ≤ r.version) (.invalid "recipe version must be >= 1")
  require (r.requirements ≠ []) (.invalid "recipe requirements must be non-empty")
  checkNames (.invalid "recipe requirements is empty")
    (.invalid "recipe requirements contains duplicate") [] r.requirements
  require (r.assurance ≠ "") (.invalid "recipe assurance is required")
  r.evidenceMin.validate
  require (r.issuedAt ≠ 0) (.invalid "recipe issued_at is required")
  r.freshness.validate r.issuedAt
  require (¬ r.withdrawnAt.any (· < r.issuedAt)) (.invalid "recipe withdrawn_at precedes issued_at")

def live (r : Recipe) (now : Int) : Bool := r.withdrawnAt.all (now < ·)

/-- What of a recipe its digest covers: all but the withdrawal, with the lists in order. -/
def digested (r : Recipe) : Recipe :=
  { r with
    withdrawnAt := none
    withdrawalReason := ""
    requirements := r.requirements.insertionSort (· ≤ ·)
    evidenceMin :=
      { r.evidenceMin with requiredKinds := r.evidenceMin.requiredKinds.insertionSort (· ≤ ·) } }

/-- `RecipeDigest`, given the hash of the frozen encoding. -/
def digest (frozenHash : Recipe → Except Failure Digest) (r : Recipe) : Except Failure Digest := do
  r.validate
  frozenHash r.digested

end Recipe

def bindRecipe (frozenHash : Recipe → Except Failure Digest) (o : VerificationObligation)
    (r : Recipe) : Except Failure VerificationObligation := do
  r.validate
  let d ← r.digest frozenHash
  require (o.recipeDigest = "" ∨ o.recipeDigest = d)
    (.binding "obligation recipe digest disagrees with supplied recipe")
  require (o.requiredChecks = [] ∨ o.requiredChecks.isPerm r.requirements = true)
    (.binding "obligation checks disagree with recipe requirements")
  require (o.requiredAssurance = "" ∨ o.requiredAssurance = r.assurance)
    (.binding "obligation assurance disagrees with recipe assurance")
  require (o.freshness = {} ∨ o.freshness = r.freshness)
    (.binding "obligation freshness disagrees with recipe freshness")
  return { o with
    recipeDigest := d
    requiredChecks := r.requirements
    requiredAssurance := r.assurance
    freshness := r.freshness }

/-- `BindRecipe`. -/
def bindLiveRecipe (frozenHash : Recipe → Except Failure Digest) (o : VerificationObligation)
    (r : Recipe) (now : Int) : Except Failure VerificationObligation := do
  r.validate
  require (r.live now) (.binding "recipe is withdrawn")
  bindRecipe frozenHash o r

/-- `RecipeRegistry`, the recipes by their digest; a service or store may have none. -/
abbrev RecipeRegistry := Table Digest Recipe

/-- `RecipeRegistry.ByDigest`, with the check that there is a registry. -/
def recipeByDigest (recipes : Option RecipeRegistry) (d : Digest) : Except Failure Recipe := do
  let registry ← orThrow recipes
    (.notFound "obligation binds recipe but no recipe registry is configured")
  orThrow (registry.get? d) (.notFound "recipe")

/-!
The in-memory verification store: `internal/verifyapi/registry.go` and the `MemoryStore`
of `store.go`.

The registry keeps obligations, submitted claims, sealed records and groups, and never
replaces one of them.  `Kept` says what holds of a registry after any calls
(`kept_run`): claims stand under their own id, answer a stored obligation and bind their
group, and a sealed record stands beside a claim with its identity.

The clock is read once per call.  `byObligation` and the capability catalogue, which no
function here reads, are left out.
-/

open Table

variable {r : Registry} {g : SpeculativeGroup} {v w : VerificationOutcome}
  {ob : VerificationObligation}

/-! ## The registry -/

structure Registry where
  obligations : Table String VerificationObligation := .empty
  outcomes : Table String VerificationOutcome := .empty
  byGroup : Table String (List String) := .empty
  verified : Table String DerivedVerifiedOutcome := .empty
  groups : Table String SpeculativeGroup := .empty

/-- The claim with its measured facts as the registry fills them. -/
def VerificationOutcome.withMeasured (v : VerificationOutcome)
    (attested : Option AttestedResourceFacts) : VerificationOutcome :=
  { v with resources := { v.resources with measured := some (deriveMeasuredFacts v attested) } }

/-- `executionIDsEqual`: the same set of ids. -/
def executionIDsEqual (a b : List String) : Bool := a.all b.contains && b.all a.contains

/-- `executionIDsSupersede`: one set contains the other. -/
def executionIDsSupersede (a b : List String) : Bool := a.all b.contains || b.all a.contains

/-- The comparison of `claimEquivalent` apart from the execution ids. -/
def sameSubmission (a b : VerificationOutcome) : Bool :=
  { a with executionIDs := [], resources := { a.resources with measured := none } } ==
    { b with executionIDs := [], resources := { b.resources with measured := none } }

def claimEquivalent (a b : VerificationOutcome) : Bool :=
  sameSubmission a b && executionIDsEqual a.executionIDs b.executionIDs

def claimCompatible (a b : VerificationOutcome) : Bool :=
  sameSubmission a b && executionIDsSupersede a.executionIDs b.executionIDs

namespace Registry

def submitObligation (r : Registry) (o : VerificationObligation) : Except Failure Registry := do
  o.validate
  require (r.obligations.get? o.obligationID = none) (.exists "obligation")
  return { r with obligations := r.obligations.put o.obligationID o }

def registerGroup (r : Registry) (g : SpeculativeGroup) : Except Failure Registry := do
  g.validate
  require ((r.groups.get? g.verificationGroupID).isNone) (.exists "group")
  return { r with groups := r.groups.put g.verificationGroupID g }

/-- The group binding `RecordOutcome` and `RecordVerifiedOutcome` check. -/
def bindRecorded (r : Registry) (ob : VerificationObligation) (v : VerificationOutcome) :
    Except Failure Unit :=
  checkIf (v.resources.speculative = true) do
    let g ← orThrow (r.groups.get? v.resources.verificationGroupID) (.groupBinding "group")
    bindGroup g (some ob) v

/-- Store a claim and note it in its group (`noteOutcomeLocked`). -/
def noteOutcome (r : Registry) (v : VerificationOutcome) : Registry :=
  { r with
    outcomes := r.outcomes.put v.verificationID v
    byGroup :=
      if v.resources.speculative && v.resources.verificationGroupID != "" then
        r.byGroup.put v.resources.verificationGroupID
          ((r.byGroup.get? v.resources.verificationGroupID).getD [] ++ [v.verificationID])
      else r.byGroup }

def recordOutcome (r : Registry) (v : VerificationOutcome) (now : Int) :
    Except Failure Registry := do
  v.validate
  require (r.outcomes.get? v.verificationID = none) (.exists "outcome")
  let ob ← orThrow (r.obligations.get? v.obligationID) (.notFound "obligation")
  bind ob v now
  r.bindRecorded ob v
  return r.noteOutcome (v.withMeasured none)

def evidenceFloor (recipes : Option RecipeRegistry) (ob : VerificationObligation)
    (out : VerificationOutcome) (e : VerifiedEvidence) : Except Failure Unit :=
  checkIf (ob.recipeDigest ≠ "") do
    let recipe ← recipeByDigest recipes ob.recipeDigest
    checkIf (out.outcome = .pass)
      ((recipe.evidenceMin.check e).mapError fun _ =>
        .evidence "record fails the recipe evidence floor")

/-- The checks of `RecordVerifiedOutcome` for an id without a sealed record. -/
def checkVerified (r : Registry) (recipes : Option RecipeRegistry) (v : DerivedVerifiedOutcome)
    (now : Int) : Except Failure Unit := do
  let ob ← orThrow (r.obligations.get? v.outcome.obligationID) (.notFound "obligation")
  evidenceFloor recipes ob v.outcome v.evidence
  bind ob v.outcome now
  r.bindRecorded ob v.outcome

/-- The end of `RecordVerifiedOutcome`: the claim is stored or compared with the stored one,
then the record is sealed anew with its measured facts. -/
def storeVerified (r : Registry) (v : DerivedVerifiedOutcome) : Registry × Except Failure Unit :=
  let claim := v.submittedClaim.withMeasured none
  let stored := r.outcomes.get? v.outcome.verificationID
  if stored.any fun s => !claimCompatible s claim then
    (r, .error (.exists "outcome already recorded as a different claim"))
  else
    let r := if stored.isSome then r else r.noteOutcome claim
    match sealDerivedOutcome v.submittedClaim (v.outcome.withMeasured v.evidence.attested)
        v.evidence with
    | .error _ => (r, .error (.unverified "sealed record failed re-validation after measured fill"))
    | .ok sealed => ({ r with verified := r.verified.put v.outcome.verificationID sealed }, .ok ())

/-- `Registry.RecordVerifiedOutcome`; a late failure leaves the claim it stored. -/
def recordVerifiedOutcome (r : Registry) (recipes : Option RecipeRegistry)
    (v : DerivedVerifiedOutcome) (now : Int) : Registry × Except Failure Unit :=
  if !v.isSealed then
    (r, .error (.unverified "RecordVerifiedOutcome requires a verifier-produced record"))
  else
    match sealDerivedOutcome v.submittedClaim v.outcome v.evidence with
    | .error _ => (r, .error (.unverified "sealed record failed re-validation"))
    | .ok v =>
      match r.verified.get? v.outcome.verificationID with
      | some existing =>
        (r, if claimEquivalent existing.outcome v.outcome then .ok ()
          else .error (.exists "outcome"))
      | none =>
        match r.checkVerified recipes v now with
        | .error e => (r, .error e)
        | .ok () => r.storeVerified v

def queryOutcome (r : Registry) (id : String) : Except Failure DerivedVerifiedOutcome :=
  match r.verified.get? id, r.outcomes.get? id with
  | some v, _ => .ok v
  | none, some _ => .error (.unverified "outcome is an unverified claim")
  | none, none => .error (.notFound "outcome")

end Registry

/-! ## Comparing a group -/

structure GroupAttempt where
  outcome : VerificationOutcome
  verified : Bool

def betterAttempt (a b : GroupAttempt) : Bool :=
  if a.verified != b.verified then a.verified
  else if a.outcome.completedAt != b.outcome.completedAt then
    b.outcome.completedAt < a.outcome.completedAt
  else a.outcome.verificationID < b.outcome.verificationID

def claimAuthoritativeOutcome (claimed : Outcome) : Outcome :=
  if claimed == .pass then .partly else claimed

namespace Registry

/-- The attempt a stored claim stands for: its sealed record where it has one. -/
def attempt (r : Registry) (v : VerificationOutcome) : GroupAttempt :=
  (r.verified.get? v.verificationID).elim ⟨v, false⟩ fun s => ⟨s.outcome, true⟩

/-- One turn of the loop of `CompareGroup`: the better attempt of its candidate stays. -/
def consider (r : Registry) (groupID : String) (g : SpeculativeGroup)
    (byCandidate : Table String GroupAttempt) (id : String) :
    Except Failure (Table String GroupAttempt) :=
  match (r.outcomes.get? id).filter fun v =>
      v.resources.speculative && v.resources.verificationGroupID == groupID with
  | none => .ok byCandidate
  | some v => do
    bindGroup g none (r.attempt v).outcome
    return if (byCandidate.get? v.resources.candidateID).all (betterAttempt (r.attempt v)) then
      byCandidate.put v.resources.candidateID (r.attempt v)
    else byCandidate

/-- One row of a comparison. -/
def row (byCandidate : Table String GroupAttempt) (candidate : String × Digest) : CandidateFacts :=
  match byCandidate.get? candidate.1 with
  | none => { candidateID := candidate.1, candidateDigest := candidate.2 }
  | some att =>
    { candidateID := candidate.1
      candidateDigest := candidate.2
      verificationID := att.outcome.verificationID
      resources := some att.outcome.resources
      authority := some (if att.verified then .verified else .claim)
      outcome := some (if att.verified then att.outcome.outcome
        else claimAuthoritativeOutcome att.outcome.outcome) }

def compareGroup (r : Registry) (groupID : String) : Except Failure GroupComparison := do
  let g ← orThrow (r.groups.get? groupID) (.notFound "group")
  let byCandidate ← ((r.byGroup.get? groupID).getD []).foldlM (r.consider groupID g) .empty
  return {
    verificationGroupID := g.verificationGroupID
    baseSnapshotDigest := g.baseSnapshotDigest
    schemaVersion := 1
    candidates := g.candidateDigests.sorted.map (row byCandidate) }

end Registry

/-! ## The store -/

/-- A record a verifier of the package produced: no other value is sealed. -/
structure VerifierRecord where
  record : DerivedVerifiedOutcome
  produced : ∃ (f : FuncEvidenceVerifier) (ob : VerificationObligation)
    (claim : VerificationOutcome), f.verify ob claim = .ok record

namespace MemoryStore

/-- A resubmission of what the store holds counts as done. -/
def orHeld (r : Registry) (held : Bool) (ran : Except Failure Registry) : Except Failure Registry :=
  match ran with
  | .ok r' => .ok r'
  | .error e => if e.isExists && held then .ok r else .error e

def submitObligation (r : Registry) (o : VerificationObligation) : Except Failure Registry :=
  orHeld r (r.obligations.get? o.obligationID == some o) (r.submitObligation o)

/-- Whether two groups are equal. -/
def sameGroup (g h : SpeculativeGroup) : Bool :=
  g.verificationGroupID == h.verificationGroupID && g.baseSnapshotDigest == h.baseSnapshotDigest &&
    g.subjectRef == h.subjectRef && g.candidateDigests.sorted == h.candidateDigests.sorted

def registerGroup (r : Registry) (g : SpeculativeGroup) : Except Failure Registry :=
  orHeld r ((r.groups.get? g.verificationGroupID).any (sameGroup g)) (r.registerGroup g)

def recordOutcome (r : Registry) (v : VerificationOutcome) (now : Int) : Except Failure Registry :=
  orHeld r ((r.outcomes.get? v.verificationID).any (claimEquivalent · v)) (r.recordOutcome v now)

def recordVerifiedOutcome (r : Registry) (recipes : Option RecipeRegistry)
    (v : DerivedVerifiedOutcome) (now : Int) : Registry × Except Failure Unit :=
  match r.recordVerifiedOutcome recipes v now with
  | (r', .ok ()) => (r', .ok ())
  | (r', .error e) =>
    (r', if e.isExists &&
        (r'.verified.get? v.outcome.verificationID).any (claimEquivalent ·.outcome v.outcome)
      then .ok () else .error e)

/-- A call of the store that writes, with the clock it reads. -/
inductive Call where
  | submitObligation (o : VerificationObligation)
  | registerGroup (g : SpeculativeGroup)
  | recordOutcome (v : VerificationOutcome) (now : Int)
  | recordVerifiedOutcome (recipes : Option RecipeRegistry) (v : VerifierRecord) (now : Int)

def step : Call → Registry → Registry
  | .submitObligation o, r => commit (submitObligation r o) r
  | .registerGroup g, r => commit (registerGroup r g) r
  | .recordOutcome v now, r => commit (recordOutcome r v now) r
  | .recordVerifiedOutcome recipes v now, r => (recordVerifiedOutcome r recipes v.record now).1

end MemoryStore

/-! ## What every registry keeps -/

/-- The two outcomes name the same candidate of the same group. -/
structure SameMember (v w : VerificationOutcome) : Prop where
  verificationID : v.verificationID = w.verificationID
  candidateDigest : v.candidateDigest = w.candidateDigest
  snapshotDigest : v.snapshotDigest = w.snapshotDigest
  speculative : v.resources.speculative = w.resources.speculative
  groupID : v.resources.verificationGroupID = w.resources.verificationGroupID
  candidateID : v.resources.candidateID = w.resources.candidateID

/-- A stored claim stands under its id, answers a stored obligation and, if speculative,
binds a registered group that lists it. -/
structure Registry.Filed (r : Registry) (id : String) (v : VerificationOutcome) : Prop where
  named : v.verificationID = id
  nonempty : id ≠ ""
  answers : (r.obligations.get? v.obligationID).isSome = true
  member : v.resources.speculative = true →
    ∃ g, r.groups.get? v.resources.verificationGroupID = some g ∧ bindGroup g none v = .ok ()
  listed : v.resources.speculative = true →
    id ∈ (r.byGroup.get? v.resources.verificationGroupID).getD []

/-- What holds of a registry after any calls. -/
structure Registry.Kept (r : Registry) : Prop where
  obligation : ∀ id ob, r.obligations.get? id = some ob → ob.validate = .ok ()
  claim : ∀ id v, r.outcomes.get? id = some v → r.Filed id v
  record : ∀ id s, r.verified.get? id = some s →
    ∃ v, r.outcomes.get? id = some v ∧ SameMember v s.outcome

/-- What a verifier derives keeps the claim's candidate and group. -/
theorem VerifierRecord.sameMember (v : VerifierRecord) :
    SameMember v.record.submittedClaim v.record.outcome := by
  obtain ⟨f, ob, claim, ran⟩ := v.produced
  obtain ⟨resolved, -, -, sealed⟩ := FuncEvidenceVerifier.verify_ok ran
  rw [sealed.record]
  exact ⟨sealed.verificationID, sealed.candidateDigest, sealed.snapshotDigest, rfl, rfl, rfl⟩

theorem SameMember.symm (same : SameMember v w) : SameMember w v :=
  ⟨same.1.symm, same.2.symm, same.3.symm, same.4.symm, same.5.symm, same.6.symm⟩

theorem SameMember.trans (first : SameMember u v) (second : SameMember v w) : SameMember u w :=
  ⟨first.1.trans second.1, first.2.trans second.2, first.3.trans second.3,
    first.4.trans second.4, first.5.trans second.5, first.6.trans second.6⟩

theorem SameMember.withMeasured (v : VerificationOutcome)
    (attested : Option AttestedResourceFacts) : SameMember v (v.withMeasured attested) :=
  ⟨rfl, rfl, rfl, rfl, rfl, rfl⟩

/-- Compatible claims name the same candidate of the same group. -/
theorem sameMember_of_claimCompatible (same : claimCompatible a b = true) : SameMember a b := by
  unfold claimCompatible sameSubmission at same
  have fields := eq_of_beq (Bool.and_eq_true_iff.mp same).1
  simp only [VerificationOutcome.mk.injEq, ResourceFacts.mk.injEq] at fields
  exact ⟨by tauto, by tauto, by tauto, by tauto, by tauto, by tauto⟩

/-- Group binding reads only which candidate of which group an outcome is. -/
theorem SameMember.bindGroup (same : SameMember v w) (bound : bindGroup g none v = .ok ()) :
    VerifyAPI.bindGroup g none w = .ok () := by
  simp only [VerifyAPI.bindGroup] at bound ⊢
  rwa [← same.candidateDigest, ← same.snapshotDigest, ← same.speculative, ← same.groupID,
    ← same.candidateID]

namespace Registry

/-- A later registry: nothing stored is gone. -/
structure Extends (r r' : Registry) : Prop where
  obligations : ∀ id ob, r.obligations.get? id = some ob → r'.obligations.get? id = some ob
  groups : ∀ id g, r.groups.get? id = some g → r'.groups.get? id = some g
  listed : ∀ gid id, id ∈ (r.byGroup.get? gid).getD [] → id ∈ (r'.byGroup.get? gid).getD []

theorem Filed.extends {id : String}
    (filed : r.Filed id v) (later : r.Extends r') : r'.Filed id v where
  named := filed.named
  nonempty := filed.nonempty
  answers := by
    obtain ⟨ob, held⟩ := Option.isSome_iff_exists.mp filed.answers
    rw [later.obligations _ _ held]
    rfl
  member := fun speculative => by
    obtain ⟨g, held, bound⟩ := filed.member speculative
    exact ⟨g, later.groups _ _ held, bound⟩
  listed := fun speculative => later.listed _ _ (filed.listed speculative)

theorem Kept.submitObligation (kept : r.Kept) (ran : r.submitObligation o = .ok r') : r'.Kept := by
  simp only [Registry.submitObligation, check_ok_iff, require_ok_iff, pure_ok_iff] at ran
  obtain ⟨valid, absent, rfl⟩ := ran
  have later : r.Extends { r with obligations := r.obligations.put o.obligationID o } := by
    refine ⟨fun id ob held => ?_, fun _ _ held => held, fun _ _ member => member⟩
    rwa [get?_put_ne]
    rintro rfl
    rw [absent] at held
    cases held
  refine ⟨fun id ob held => ?_, fun id v held => (kept.claim id v held).extends later, kept.record⟩
  rw [get?_put] at held
  split at held
  · cases held
    exact valid
  · exact kept.obligation id ob held

theorem Kept.registerGroup (kept : r.Kept) (ran : r.registerGroup g = .ok r') : r'.Kept := by
  simp only [Registry.registerGroup, check_ok_iff, require_ok_iff, pure_ok_iff] at ran
  obtain ⟨-, absent, rfl⟩ := ran
  have later : r.Extends { r with groups := r.groups.put g.verificationGroupID g } := by
    refine ⟨fun _ _ held => held, fun id h held => ?_, fun _ _ member => member⟩
    rwa [get?_put_ne]
    rintro rfl
    rw [held] at absent
    cases absent
  exact ⟨kept.obligation, fun id v held => (kept.claim id v held).extends later, kept.record⟩

theorem extends_noteOutcome (r : Registry) (v : VerificationOutcome) :
    r.Extends (r.noteOutcome v) := by
  refine ⟨fun _ _ held => held, fun _ _ held => held, fun gid id member => ?_⟩
  unfold noteOutcome
  dsimp only
  split
  · rw [get?_put]
    split
    · next same => exact same ▸ List.mem_append_left _ member
    · exact member
  · exact member

/-- A speculative claim is listed under its group when it is stored. -/
theorem listed_noteOutcome (speculative : v.resources.speculative = true)
    (grouped : v.resources.verificationGroupID ≠ "") : v.verificationID ∈
      ((r.noteOutcome v).byGroup.get? v.resources.verificationGroupID).getD [] := by
  unfold noteOutcome
  simp [speculative, grouped]

theorem Kept.noteOutcome (kept : r.Kept) (named : v.verificationID ≠ "")
    (grouped : v.resources.speculative = true → v.resources.verificationGroupID ≠ "")
    (absent : r.outcomes.get? v.verificationID = none)
    (answers : (r.obligations.get? v.obligationID).isSome = true)
    (member : v.resources.speculative = true →
      ∃ g, r.groups.get? v.resources.verificationGroupID = some g ∧ bindGroup g none v = .ok ()) :
    (r.noteOutcome v).Kept := by
  refine ⟨kept.obligation, fun id w held => ?_, fun id s held => ?_⟩
  · change (r.outcomes.put v.verificationID v).get? id = some w at held
    rw [get?_put] at held
    split at held
    · next same =>
      cases held
      exact ⟨same.symm, same ▸ named, answers, member, fun speculative =>
        same ▸ listed_noteOutcome speculative (grouped speculative)⟩
    · exact (kept.claim id w held).extends (extends_noteOutcome r v)
  · obtain ⟨w, held', same⟩ := kept.record id s held
    refine ⟨w, ?_, same⟩
    change (r.outcomes.put v.verificationID v).get? id = some w
    rwa [get?_put_ne]
    rintro rfl
    rw [absent] at held'
    cases held'

theorem bindRecorded_ok
    (ran : r.bindRecorded ob v = .ok ()) (speculative : v.resources.speculative = true) :
    ∃ g, r.groups.get? v.resources.verificationGroupID = some g ∧ bindGroup g none v = .ok () := by
  simp only [bindRecorded, checkIf_ok_iff, bind_ok_iff, orThrow_ok_iff] at ran
  obtain ⟨g, held, bound⟩ := ran speculative
  refine ⟨g, held, ?_⟩
  simp only [bindGroup, bind_ok_iff, require_ok_iff] at bound ⊢
  tauto

theorem Kept.recordOutcome (kept : r.Kept) (ran : r.recordOutcome v now = .ok r') : r'.Kept := by
  simp only [Registry.recordOutcome, bind_ok_iff, require_ok_iff, orThrow_ok_iff, pure_ok_iff]
    at ran
  obtain ⟨_, sound, _, absent, ob, held, _, -, _, member, rfl⟩ := ran
  obtain ⟨named, grouped⟩ := VerificationOutcome.validate_ok sound
  refine kept.noteOutcome named grouped absent (Option.isSome_of_mem held) fun speculative => ?_
  obtain ⟨g, registered, bound⟩ := bindRecorded_ok member speculative
  exact ⟨g, registered, (SameMember.withMeasured v none).bindGroup bound⟩

theorem Kept.putVerified (kept : r.Kept) {id : String}
    (held : r.outcomes.get? id = some v) (same : SameMember v s.outcome) :
    Kept { r with verified := r.verified.put id s } := by
  refine ⟨kept.obligation, fun id' v' held' => ?_, fun id' s' held' => ?_⟩
  · obtain ⟨named, nonempty, answers, member, listed⟩ := kept.claim id' v' held'
    exact ⟨named, nonempty, answers, member, listed⟩
  · change (r.verified.put id s).get? id' = some s' at held'
    rw [get?_put] at held'
    split at held'
    · next at_id =>
      cases held'
      exact ⟨v, at_id ▸ held, same⟩
    · exact kept.record id' s' held'

theorem Kept.storeVerified {v : DerivedVerifiedOutcome} (kept : r.Kept)
    (sound : v.outcome.validate = .ok ()) (same : SameMember v.submittedClaim v.outcome)
    (answers : (r.obligations.get? v.submittedClaim.obligationID).isSome = true)
    (member : v.outcome.resources.speculative = true → ∃ g,
      r.groups.get? v.outcome.resources.verificationGroupID = some g ∧
        bindGroup g none v.outcome = .ok ()) : (r.storeVerified v).1.Kept := by
  have same' := (SameMember.withMeasured v.submittedClaim none).symm.trans same
  obtain ⟨named, grouped⟩ := VerificationOutcome.validate_ok sound
  -- with its claim stored, the registry is kept and holds a claim of the record's identity
  have stored : ¬ (r.outcomes.get? v.outcome.verificationID).any
        (fun s => !claimCompatible s (v.submittedClaim.withMeasured none)) = true →
      ∀ r', r' = (if (r.outcomes.get? v.outcome.verificationID).isSome = true then r
        else r.noteOutcome (v.submittedClaim.withMeasured none)) →
      r'.Kept ∧ ∃ w, r'.outcomes.get? v.outcome.verificationID = some w ∧
        SameMember w v.outcome := by
    intro compatible r' step
    cases found : r.outcomes.get? v.outcome.verificationID with
    | some w =>
      rw [found] at step compatible
      refine step ▸ ⟨kept, w, found, ?_⟩
      exact (sameMember_of_claimCompatible (by simpa using compatible)).trans same'
    | none =>
      rw [found] at step
      refine step ▸ ⟨kept.noteOutcome (same'.verificationID ▸ named) ?_ ?_ answers ?_, ?_⟩
      · rw [same'.speculative, same'.groupID]
        exact grouped
      · rw [same'.verificationID]
        exact found
      · rw [same'.speculative, same'.groupID]
        intro speculative
        obtain ⟨g, registered, bound⟩ := member speculative
        exact ⟨g, registered, same'.symm.bindGroup bound⟩
      · refine ⟨_, ?_, same'⟩
        rw [← same'.verificationID]
        exact get?_put_self _ _ _
  unfold Registry.storeVerified
  dsimp only
  split
  · exact kept
  · next compatible =>
    obtain ⟨kept', w, held, sameW⟩ := stored compatible _ rfl
    split
    · exact kept'
    · next sealed ran =>
      refine kept'.putVerified held (sameW.trans ?_)
      rw [(sealDerivedOutcome_ok ran).record]
      exact SameMember.withMeasured _ _

theorem Kept.recordVerifiedOutcome (kept : r.Kept)
    (recipes : Option RecipeRegistry) {v : DerivedVerifiedOutcome}
    (same : SameMember v.submittedClaim v.outcome) (now : Int) :
    (r.recordVerifiedOutcome recipes v now).1.Kept := by
  unfold Registry.recordVerifiedOutcome
  split
  · exact kept
  split
  · exact kept
  next sealed ran =>
  have again := sealDerivedOutcome_ok ran
  rw [again.record]
  dsimp only
  split
  · exact kept
  split
  · exact kept
  · next checked =>
    simp only [checkVerified, bind_ok_iff, orThrow_ok_iff] at checked
    obtain ⟨ob, held, _, -, _, -, member⟩ := checked
    refine kept.storeVerified again.sound same ?_ (bindRecorded_ok member)
    rw [again.obligationID, held]
    rfl

end Registry

theorem Registry.kept_empty : Registry.Kept {} where
  obligation := fun _ _ held => by cases held
  claim := fun _ _ held => by cases held
  record := fun _ _ held => by cases held

theorem MemoryStore.kept_orHeld (kept : r.Kept) (stored : ∀ r', ran = .ok r' → r'.Kept) :
    (commit (orHeld r held ran) r).Kept := by
  unfold orHeld
  split
  · next r' => exact stored r' rfl
  · split
    · exact kept
    · exact kept

theorem MemoryStore.kept_step (call : Call) (kept : r.Kept) : (step call r).Kept := by
  cases call with
  | submitObligation o => exact kept_orHeld kept fun _ ran => kept.submitObligation ran
  | registerGroup g => exact kept_orHeld kept fun _ ran => kept.registerGroup ran
  | recordOutcome v now => exact kept_orHeld kept fun _ ran => kept.recordOutcome ran
  | recordVerifiedOutcome recipes v now =>
    have stored := kept.recordVerifiedOutcome recipes v.sameMember now
    simp only [step, MemoryStore.recordVerifiedOutcome]
    split
    · next ran => rwa [ran] at stored
    · next ran => rwa [ran] at stored

theorem MemoryStore.kept_run (calls : List Call) : (run step calls {}).Kept :=
  run_invariant (I := Registry.Kept) (fun call _ kept => kept_step call kept) calls
    Registry.kept_empty

end KiwiCI.VerifyAPI
