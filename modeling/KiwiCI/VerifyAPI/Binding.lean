import KiwiCI.VerifyAPI.Types

/-!
The checks of the verification contract: `internal/verifyapi/binding.go`.

An obligation, an outcome and a group are checked for soundness on their own, an outcome
is bound to the obligation it answers, and a speculative outcome to its group.  Durations
are 64-bit counts of nanoseconds: a number of seconds is multiplied with wrap-around, and
the difference of two instants saturates, as in Go.
-/

namespace KiwiCI.VerifyAPI

/-! ## Durations -/

/-- `time.Duration(n) * time.Second`. -/
def seconds (n : Int) : Int := (n * 1000000000).bmod (2 ^ 64)

def timeSub (t u : Int) : Int := max (-2 ^ 63) (min (2 ^ 63 - 1) (t - u))

theorem seconds_exact (low : 0 ≤ n) (high : n ≤ 9223372036) : seconds n = n * 10 ^ 9 := by
  simp only [seconds, Int.bmod]
  split <;> omega

/-! ## Digests and names -/

/-- The characters of a digest. -/
def isHexDigit (c : Char) : Bool := ('0' ≤ c && c ≤ '9') || ('a' ≤ c && c ≤ 'f')

def validateDigest (field : String) (d : Digest) : Except Failure Unit := do
  require (d.utf8ByteSize = 64) (.invalid (field ++ " must be a 64-char lowercase hex digest"))
  require (d.toList.all isHexDigit) (.invalid (field ++ " contains non-hex character"))

def zeroDigest : Digest := "0000000000000000000000000000000000000000000000000000000000000000"

/-- The loops over a list of names: none is empty, none comes twice. -/
def checkNames (empty duplicate : Failure) (seen : List String) : List String → Except Failure Unit
  | [] => .ok ()
  | name :: rest => do
    require (name ≠ "") empty
    require (name ∉ seen) duplicate
    checkNames empty duplicate (name :: seen) rest

/-! ## Obligations -/

def FreshnessPolicy.validate (p : FreshnessPolicy) (issuedAt : Int) : Except Failure Unit := do
  require (¬ (p.maxAgeSeconds = 0 ∧ p.notAfter = none))
    (.invalid "freshness policy must set max_age_seconds or not_after")
  require (¬ p.maxAgeSeconds < 0) (.invalid "freshness max_age_seconds must be >= 0")
  require (¬ (0 < p.maxAgeSeconds ∧ issuedAt = 0))
    (.invalid "freshness max_age_seconds requires issued_at")
  require (¬ (issuedAt ≠ 0 ∧ p.notAfter.any (· < issuedAt)))
    (.invalid "freshness not_after precedes issued_at")
  require (¬ p.notBefore.any fun notBefore => p.notAfter.any (· < notBefore))
    (.invalid "freshness not_after precedes not_before")
  require (¬ (0 < p.maxAgeSeconds ∧ issuedAt ≠ 0 ∧
      p.notBefore.any (issuedAt + seconds p.maxAgeSeconds < ·)))
    (.invalid "freshness not_before falls outside max_age window")

namespace VerificationObligation

def validateSubmission (o : VerificationObligation) : Except Failure Unit := do
  require (o.obligationID ≠ "") (.invalid "obligation_id is required")
  require (o.subject ≠ "") (.invalid "subject is required")
  (o.subjectRef.elim (.ok ()) SubjectRef.validateHierarchy : Except Failure Unit)
  validateDigest "immutable_candidate_digest" o.immutableCandidateDigest
  validateDigest "source_snapshot_digest" o.sourceSnapshotDigest
  validateDigest "verification_contract_digest" o.verificationContractDigest
  checkIf (o.recipeDigest ≠ "") (validateDigest "recipe_digest" o.recipeDigest)
  require (o.verifierProviderKind = "" → o.verifierContractVersion = "" ∧
      o.verifierClaimClass = "" ∧ o.verifierPlatform = "" ∧ o.verifierEvidenceTypes = [])
    (.invalid ("verifier provider constraints (contract version, claim class, platform, " ++
      "evidence types) require verifier_provider_kind"))
  checkNames (.invalid "verifier_evidence_types is empty")
    (.invalid "verifier_evidence_types contains duplicate") [] o.verifierEvidenceTypes
  require (o.issuedAt ≠ 0) (.invalid "issued_at is required")
  checkNames (.invalid "required_checks contains an empty check")
    (.invalid "required_checks contains duplicate") [] o.requiredChecks
  checkIf (o.freshness ≠ {}) (o.freshness.validate o.issuedAt)

def validate (o : VerificationObligation) : Except Failure Unit := do
  o.validateSubmission
  require (o.requiredChecks ≠ []) (.invalid "required_checks must be non-empty")
  require (o.requiredAssurance ≠ "") (.invalid "required_assurance is required")
  o.freshness.validate o.issuedAt

/-- The subject of a sound obligation is a hierarchy, or none. -/
theorem validate_subject {o : VerificationObligation} (sound : o.validate = .ok ()) :
    o.subjectReference.isZero = true ∨ o.subjectReference.isHierarchy = true := by
  simp only [validate, validateSubmission, check_ok_iff] at sound
  obtain ⟨⟨-, -, hierarchy, -⟩, -⟩ := sound
  unfold subjectReference
  cases given : o.subjectRef with
  | none => exact .inl rfl
  | some s =>
    rw [given] at hierarchy
    exact .inr (SubjectRef.isHierarchy_iff.mpr hierarchy)

/-- The earliest start `CheckFreshness` accepts. -/
def earliestStart (o : VerificationObligation) : Int :=
  match o.freshness.notBefore with
  | some notBefore => if o.issuedAt < notBefore then notBefore else o.issuedAt
  | none => o.issuedAt

def checkFreshness (o : VerificationObligation) (now startedAt completedAt : Int) :
    Except Failure Unit := do
  let finish := if completedAt = 0 then now else completedAt
  require (¬ startedAt < o.earliestStart) (.freshness "outcome started_at precedes")
  require (¬ finish < startedAt) (.freshness "outcome completed_at precedes started_at")
  require (¬ o.freshness.notAfter.any (· < now)) (.freshness "obligation expired")
  require (¬ o.freshness.notAfter.any (· < finish))
    (.freshness "outcome completed_at is past expiry")
  require (¬ (0 < o.freshness.maxAgeSeconds ∧
      seconds o.freshness.maxAgeSeconds < timeSub finish o.issuedAt))
    (.freshness "outcome is stale")

/-! ### Exactness -/

/-- What freshness asks, in exact arithmetic; what is not completed is taken to end now. -/
def Fresh (o : VerificationObligation) (now start completed : Int) : Prop :=
  let finish := if completed = 0 then now else completed
  o.issuedAt ≤ start ∧ (∀ opens ∈ o.freshness.notBefore, opens ≤ start) ∧ start ≤ finish ∧
    (∀ expiry ∈ o.freshness.notAfter, now ≤ expiry ∧ finish ≤ expiry) ∧
    (0 < o.freshness.maxAgeSeconds → finish - o.issuedAt ≤ o.freshness.maxAgeSeconds * 10 ^ 9)

/-- The policy `p` with higher bounds; an age bound is neither added nor dropped. -/
structure Raises (p q : FreshnessPolicy) : Prop where
  opens : q.notBefore = p.notBefore
  expiry : ∀ late ∈ q.notAfter, ∃ early ∈ p.notAfter, early ≤ late
  age : p.maxAgeSeconds ≤ q.maxAgeSeconds
  unset : p.maxAgeSeconds = 0 → q.maxAgeSeconds = 0

/-- Under this age bound `validate` accepts what can be met, `CheckFreshness` is exact, and
it keeps what lower bounds accept. -/
def DecidesFreshness (maxAge : Int) : Prop :=
  ∀ o : VerificationObligation, o.issuedAt ≠ 0 → o.freshness.maxAgeSeconds = maxAge →
    (o.freshness.validate o.issuedAt = .ok () ↔ (maxAge ≠ 0 ∨ o.freshness.notAfter ≠ none) ∧
      ∃ now start completed, o.checkFreshness now start completed = .ok ()) ∧
    ∀ now start completed,
      (o.freshness.validate o.issuedAt = .ok () →
        (o.checkFreshness now start completed = .ok () ↔ o.Fresh now start completed)) ∧
      ∀ p, Raises p o.freshness → p.validate o.issuedAt = .ok () →
        checkFreshness { o with freshness := p } now start completed = .ok () →
        o.checkFreshness now start completed = .ok ()

theorem Raises.fresh {o : VerificationObligation} (raises : Raises p o.freshness)
    (low : 0 ≤ p.maxAgeSeconds) (fresh : Fresh { o with freshness := p } now start completed) :
    o.Fresh now start completed := by
  obtain ⟨issued, opens, ordered, expiry, age⟩ := fresh
  obtain ⟨sameOpens, later, higher, unset⟩ := raises
  refine ⟨issued, sameOpens ▸ opens, ordered, fun late set => ?_, fun set => ?_⟩
  · obtain ⟨early, held, le⟩ := later late set
    have := expiry early held
    omega
  · dsimp only at age
    omega

section Exact

variable {o : VerificationObligation} (low : 0 ≤ o.freshness.maxAgeSeconds)
  (high : o.freshness.maxAgeSeconds ≤ 9223372036)
include low high

theorem checkFreshness_iff_fresh :
    o.checkFreshness now start completed = .ok () ↔ o.Fresh now start completed := by
  simp only [checkFreshness, check_ok_iff, require_ok_iff, Fresh, timeSub, seconds_exact low high]
  generalize (if completed = 0 then now else completed) = finish
  unfold earliestStart
  cases o.freshness.notBefore <;> cases o.freshness.notAfter <;> simp <;> grind

theorem validate_iff_satisfiable (issued : o.issuedAt ≠ 0) :
    o.freshness.validate o.issuedAt = .ok () ↔
      (o.freshness.maxAgeSeconds ≠ 0 ∨ o.freshness.notAfter ≠ none) ∧
        ∃ now start completed, o.checkFreshness now start completed = .ok () := by
  simp only [FreshnessPolicy.validate, check_ok_iff, require_ok_iff, seconds_exact low high,
    checkFreshness_iff_fresh low high]
  constructor
  · rintro ⟨bounded, -, -, ended, order, age⟩
    refine ⟨by tauto, o.earliestStart, o.earliestStart, o.earliestStart, ?_⟩
    revert ended order age
    rw [Fresh, ite_self, earliestStart]
    cases o.freshness.notBefore <;> cases o.freshness.notAfter <;> simp [issued] <;> grind
  · rintro ⟨bounded, now, start, completed, fresh⟩
    revert fresh bounded
    unfold Fresh
    cases o.freshness.notBefore <;> cases o.freshness.notAfter <;> simp [issued] <;> grind

end Exact

/-- The obligation by which `EvaluateFreshness` judges a window. -/
def probe (issuedAt : Int) (freshness : FreshnessPolicy) : VerificationObligation :=
  ⟨"", "", none, "", "", "", "", [], "", "", "", "", "", [], freshness, [], issuedAt⟩

/-- A bound that wraps around refuses an age just above the wrapped bound, or any age. -/
theorem not_decidesFreshness (large : 9223372036 < n) : ¬ DecidesFreshness n := by
  intro decides
  obtain ⟨-, judged⟩ := decides (probe 1 { maxAgeSeconds := n }) one_ne_zero rfl
  have wrapped : seconds n < 2 ^ 63 - 1 := by
    simp only [seconds, Int.bmod]
    split <;> omega
  let finish := 1 + max 0 (seconds n + 1)
  have accepted := ((judged finish finish finish).1 ?_).mpr ?_
  · simp only [checkFreshness, check_ok_iff, require_ok_iff, ite_self, probe, timeSub] at accepted
    omega
  · simp [FreshnessPolicy.validate, check_ok_iff, probe]
    omega
  · simp [Fresh, probe]
    omega

theorem decidesFreshness_iff (maxAge : Fin (2 ^ 63)) :
    DecidesFreshness maxAge ↔ maxAge.val ≤ 9223372036 := by
  constructor
  · intro decides
    by_contra large
    exact not_decidesFreshness (by omega) decides
  · intro small o issued bound
    have low : 0 ≤ o.freshness.maxAgeSeconds := by omega
    have high : o.freshness.maxAgeSeconds ≤ 9223372036 := by omega
    refine ⟨bound ▸ validate_iff_satisfiable low high issued,
      fun now start completed => ⟨fun _ => checkFreshness_iff_fresh low high, ?_⟩⟩
    intro p raises sound accepted
    simp only [FreshnessPolicy.validate, check_ok_iff, require_ok_iff] at sound
    have least : 0 ≤ p.maxAgeSeconds := by omega
    rw [checkFreshness_iff_fresh least (raises.age.trans high)] at accepted
    exact (checkFreshness_iff_fresh low high).mpr (raises.fresh least accepted)

/-- One second more of age, and what was accepted is stale. -/
theorem higher_age_refuses :
    (probe 1 { maxAgeSeconds := 9223372036 }).checkFreshness 1 1 1 = .ok () ∧
      FreshnessPolicy.validate { maxAgeSeconds := 9223372037 } 1 = .ok () ∧
      (probe 1 { maxAgeSeconds := 9223372037 }).checkFreshness 1 1 1 =
        .error (.freshness "outcome is stale") := by
  decide

end VerificationObligation

/-! ## Outcomes -/

def ResourceFacts.validate (r : ResourceFacts) : Except Failure Unit := do
  require (0 ≤ r.queueLatencyNS) (.invalid "queue_latency_ns must be >= 0")
  require (0 ≤ r.executionLatencyNS) (.invalid "execution_latency_ns must be >= 0")
  require (0 ≤ r.wallTimeNS) (.invalid "wall_time_ns must be >= 0")
  require (0 ≤ r.cpuTimeNS) (.invalid "cpu_time_ns must be >= 0")
  require (0 ≤ r.peakMemoryBytes) (.invalid "peak_memory_bytes must be >= 0")
  require (0 ≤ r.ioBytes) (.invalid "io_bytes must be >= 0")
  require (0 ≤ r.cacheHits) (.invalid "cache_hits must be >= 0")
  require (0 ≤ r.cacheMisses) (.invalid "cache_misses must be >= 0")
  require (r.runnerClass ≠ "") (.invalid "runner_class is required")
  require (0 ≤ r.retryCount) (.invalid "retry_count must be >= 0")
  require (r.speculative = true → r.verificationGroupID ≠ "")
    (.invalid "speculative resources require verification_group_id")
  require (r.speculative = true → r.candidateID ≠ "")
    (.invalid "speculative resources require candidate_id")
  require (r.measured.all (0 ≤ ·.durationNS)) (.invalid "measured.duration_ns must be >= 0")
  require (r.measured.all (0 ≤ ·.wallTimeNS)) (.invalid "measured.wall_time_ns must be >= 0")

def VerificationOutcome.validate (v : VerificationOutcome) : Except Failure Unit := do
  require (v.verificationID ≠ "") (.invalid "verification_id is required")
  require (v.obligationID ≠ "") (.invalid "obligation_id is required")
  validateDigest "candidate_digest" v.candidateDigest
  validateDigest "snapshot_digest" v.snapshotDigest
  validateDigest "contract_digest" v.contractDigest
  require v.outcome.valid (.invalid "outcome is not pass/fail/partial")
  require (v.assuranceProfile ≠ "") (.invalid "assurance_profile is required")
  validateDigest "evidence_root" v.evidenceRoot
  require (v.startedAt ≠ 0) (.invalid "started_at is required")
  require (v.completedAt ≠ 0) (.invalid "completed_at is required")
  require (¬ v.completedAt < v.startedAt) (.invalid "completed_at precedes started_at")
  require ("" ∉ v.executionIDs) (.invalid "execution_ids is empty")
  v.resources.validate

theorem ResourceFacts.validate_ok_iff {r : ResourceFacts} :
    r.validate = .ok () ↔ 0 ≤ r.queueLatencyNS ∧ 0 ≤ r.executionLatencyNS ∧ 0 ≤ r.wallTimeNS ∧
      0 ≤ r.cpuTimeNS ∧ 0 ≤ r.peakMemoryBytes ∧ 0 ≤ r.ioBytes ∧ 0 ≤ r.cacheHits ∧
      0 ≤ r.cacheMisses ∧ r.runnerClass ≠ "" ∧ 0 ≤ r.retryCount ∧
      (r.speculative = true → r.verificationGroupID ≠ "") ∧
      (r.speculative = true → r.candidateID ≠ "") ∧ r.measured.all (0 ≤ ·.durationNS) = true ∧
      r.measured.all (0 ≤ ·.wallTimeNS) = true := by
  simp [ResourceFacts.validate, check_ok_iff]

theorem VerificationOutcome.validate_ok_iff {v : VerificationOutcome} :
    v.validate = .ok () ↔ v.verificationID ≠ "" ∧ v.obligationID ≠ "" ∧
      validateDigest "candidate_digest" v.candidateDigest = .ok () ∧
      validateDigest "snapshot_digest" v.snapshotDigest = .ok () ∧
      validateDigest "contract_digest" v.contractDigest = .ok () ∧ v.outcome.valid = true ∧
      v.assuranceProfile ≠ "" ∧ validateDigest "evidence_root" v.evidenceRoot = .ok () ∧
      v.startedAt ≠ 0 ∧ v.completedAt ≠ 0 ∧ ¬ v.completedAt < v.startedAt ∧
      "" ∉ v.executionIDs ∧ v.resources.validate = .ok () := by
  simp [VerificationOutcome.validate, check_ok_iff]

/-- A sound outcome has an id, and a group if it is speculative. -/
theorem VerificationOutcome.validate_ok {v : VerificationOutcome} (sound : v.validate = .ok ()) :
    v.verificationID ≠ "" ∧
      (v.resources.speculative = true → v.resources.verificationGroupID ≠ "") := by
  rw [validate_ok_iff, ResourceFacts.validate_ok_iff] at sound
  tauto

def deriveMeasuredFacts (v : VerificationOutcome) (attested : Option AttestedResourceFacts) :
    MeasuredResourceFacts where
  durationNS := timeSub v.completedAt v.startedAt
  wallTimeNS := attested.elim 0 fun a => timeSub a.finishedAt a.startedAt

/-! ## Binding -/

def bind (obligation : VerificationObligation) (outcome : VerificationOutcome) (now : Int) :
    Except Failure Unit := do
  obligation.validate
  outcome.validate
  require (outcome.obligationID = obligation.obligationID) (.binding "outcome names obligation")
  require (outcome.candidateDigest = obligation.immutableCandidateDigest)
    (.binding "candidate digest does not match obligation")
  require (outcome.snapshotDigest = obligation.sourceSnapshotDigest)
    (.binding "snapshot digest does not match obligation")
  require (outcome.contractDigest = obligation.verificationContractDigest)
    (.binding "contract digest does not match obligation")
  checkIf (outcome.outcome = .pass) do
    require (outcome.assuranceProfile = obligation.requiredAssurance)
      (.binding "assurance profile does not match required")
    require (outcome.resources.cancelled = false) (.binding "cancelled execution cannot claim pass")
    require (∀ need ∈ obligation.requiredChecks, need ∈ outcome.completedChecks)
      (.binding "pass claim is missing required check")
  obligation.checkFreshness now outcome.startedAt outcome.completedAt

def SpeculativeGroup.validate (g : SpeculativeGroup) : Except Failure Unit := do
  require (g.verificationGroupID ≠ "") (.invalid "verification_group_id is required")
  validateDigest "base_snapshot_digest" g.baseSnapshotDigest
  checkIf (g.subjectReference.isZero = false)
    (g.subjectReference.validateHierarchy.mapError fun _ => .invalid "speculative group subject")
  require (g.candidateDigests.rows ≠ []) (.invalid "candidate_digests must be non-empty")
  g.candidateDigests.sorted.forM fun candidate => do
    require (candidate.1 ≠ "") (.invalid "candidate_digests contains an empty candidate id")
    validateDigest ("candidate_digests[" ++ candidate.1 ++ "]") candidate.2

def bindGroupSubject (group : SpeculativeGroup) (obligation : VerificationObligation) :
    Except Failure Unit :=
  let gs := group.subjectReference
  let member := obligation.subjectReference
  if gs.isZero then .ok ()
  else if member = gs then .ok ()
  else do
    member.validateHierarchy.mapError fun _ =>
      .groupBinding "member obligation subject is not a valid hierarchy"
    require (gs.includes member)
      (.groupBinding "member obligation subject is not group subject or a descendant")

def bindGroup (group : SpeculativeGroup) (obligation : Option VerificationObligation)
    (outcome : VerificationOutcome) : Except Failure Unit := do
  group.validate
  let rf := outcome.resources
  require (rf.speculative = true) (.groupBinding "outcome resources are not marked speculative")
  require (rf.verificationGroupID = group.verificationGroupID)
    (.groupBinding "outcome names another group")
  let digest ← orThrow (group.candidateDigests.get? rf.candidateID)
    (.groupBinding "candidate is not a member of group")
  require (outcome.candidateDigest = digest)
    (.groupBinding "candidate digest does not match group member")
  require (outcome.snapshotDigest = group.baseSnapshotDigest)
    (.groupBinding "snapshot digest does not match group base")
  (obligation.elim (.ok ()) (bindGroupSubject group) : Except Failure Unit)

end KiwiCI.VerifyAPI
