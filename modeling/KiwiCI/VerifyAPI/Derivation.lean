import KiwiCI.VerifyAPI.Evidence

/-!
What the folds of the verifier derive from the resolved attestations.

The job status is success when all are (`deriveJobStatus_success`), a named check passes
when it is reported pass and never fail or error (`aggregated_aggregate`), the assurance
is the meet of the profiles (`deriveAssurance_satisfies`), and a window is trusted when
all attestations carry one (`deriveWindow_trusted`).
-/

namespace KiwiCI.VerifyAPI

open List

variable {window : ResolvedAttestation → Option AttestedResourceFacts}
  {merged : Option AttestedResourceFacts}

variable {resolved : List ResolvedAttestation} {a : ExecutionAssurance}

/-! ## Job status -/

theorem deriveJobStatus_success (success : deriveJobStatus resolved = statusSuccess) :
    ∀ att ∈ resolved, att.status = statusSuccess := by
  cases resolved with
  | nil => intro att member; simp at member
  | cons first rest =>
    unfold deriveJobStatus at success
    dsimp only at success
    split at success
    · next same =>
      simp only [Bool.and_eq_true, all_eq_true, beq_iff_eq] at same
      intro att member
      rcases mem_cons.mp member with rfl | later
      · exact same.2
      · exact (same.1 att later).trans same.2
    · next differ =>
      split at success
      · exact absurd success (by decide)
      split at success
      · next same =>
        rw [Bool.and_eq_true] at same
        exact absurd (Bool.and_eq_true_iff.mpr ⟨same.1, beq_iff_eq.mpr success⟩) differ
      · exact absurd success (by decide)

/-! ## Named checks -/

/-- A report of a check, with the attestation it stands in. -/
abbrev Report := ResolvedAttestation × VerifiedCheck

/-- All reports, in the order the aggregation meets them. -/
def reports (resolved : List ResolvedAttestation) : List Report :=
  resolved.flatMap fun att => att.checks.map fun c => (att, c)

/-- Whether a name is aggregated: neither empty nor structural. -/
def named (name : String) : Bool := !(name == "" || structural name)

def outcomesOf (done : List Report) (name : String) : List CheckOutcome :=
  (done.filter fun report => report.2.name == name).map (·.2.outcome)

theorem mem_outcomesOf :
    o ∈ outcomesOf done name ↔ ∃ report ∈ done, report.2.name = name ∧ report.2.outcome = o := by
  simp [outcomesOf, and_assoc]

theorem mem_outcomesOf_reports :
    o ∈ outcomesOf (reports resolved) name ↔
      ∃ att ∈ resolved, ∃ c ∈ att.checks, c.name = name ∧ c.outcome = o := by
  rw [mem_outcomesOf]
  constructor
  · rintro ⟨report, member, name, outcome⟩
    obtain ⟨att, held, member⟩ := mem_flatMap.mp member
    obtain ⟨c, stated, rfl⟩ := mem_map.mp member
    exact ⟨att, held, c, stated, name, outcome⟩
  · rintro ⟨att, held, c, stated, name, outcome⟩
    refine ⟨(att, c), mem_flatMap.mpr ⟨att, held, ?_⟩, name, outcome⟩
    exact mem_map_of_mem stated

theorem outcomesOf_append (done : List Report) (report : Report) (name : String) :
    outcomesOf (done ++ [report]) name =
      outcomesOf done name ++ if report.2.name == name then [report.2.outcome] else [] := by
  by_cases same : report.2.name == name <;> simp [outcomesOf, filter_append, same]

/-- The flags of an aggregate tell which outcomes were reported. -/
structure Agg.Tells (a : Agg) (outcomes : List CheckOutcome) : Prop where
  pass : a.pass = true ↔ .pass ∈ outcomes
  fail : a.fail = true ↔ .fail ∈ outcomes
  error : a.error = true ↔ .error ∈ outcomes

theorem Agg.Tells.note {a : Agg} {outcomes : List CheckOutcome} (tells : a.Tells outcomes)
    (o : CheckOutcome) : (a.note o).Tells (outcomes ++ [o]) := by
  obtain ⟨pass, fail, error⟩ := tells
  cases o <;> constructor <;> simp [Agg.note, pass, fail, error]

@[simp] theorem Agg.note_first (a : Agg) (o : CheckOutcome) : (a.note o).first = a.first := by
  cases o <;> rfl

/-- What the buckets hold after the reports `done`: one for every name reported, telling
its outcomes. -/
structure Aggregated (done : List Report) (buckets : List Agg) : Prop where
  admitted : ∀ a ∈ buckets, named a.first.name = true
  covered : ∀ report ∈ done, named report.2.name = true →
    ∃ a ∈ buckets, a.first.name = report.2.name
  tells : ∀ a ∈ buckets, a.Tells (outcomesOf done a.first.name)

section OneReport

variable {done : List Report} {buckets : List Agg} {report : Report}

theorem outcomesOf_append_of_ne (differ : report.2.name ≠ name) :
    outcomesOf (done ++ [report]) name = outcomesOf done name := by
  rw [outcomesOf_append, beq_false_of_ne differ]
  simp

variable (aggregated : Aggregated done buckets)
include aggregated

theorem Aggregated.skip
    (skipped : named report.2.name = false) : Aggregated (done ++ [report]) buckets where
  admitted := aggregated.admitted
  covered := fun r member admitted => by
    rcases mem_append.mp member with earlier | last
    · exact aggregated.covered r earlier admitted
    · rw [mem_singleton.mp last, skipped] at admitted
      cases admitted
  tells := fun a member => by
    rw [outcomesOf_append_of_ne]
    · exact aggregated.tells a member
    · intro same
      have admitted := aggregated.admitted a member
      rw [← same, skipped] at admitted
      cases admitted

theorem Aggregated.again {b : Agg} (held : b ∈ buckets) (same : b.first.name = report.2.name) :
    Aggregated (done ++ [report]) (buckets.map fun a =>
      if a.first.name == report.2.name then a.note report.2.outcome else a) where
  admitted := fun a member => by
    obtain ⟨a, held, rfl⟩ := mem_map.mp member
    split
    · exact (a.note_first _).symm ▸ aggregated.admitted a held
    · exact aggregated.admitted a held
  covered := fun r member admitted => by
    have found : ∃ a ∈ buckets, a.first.name = r.2.name := by
      rcases mem_append.mp member with earlier | last
      · exact aggregated.covered r earlier admitted
      · rw [mem_singleton.mp last]
        exact ⟨b, held, same⟩
    obtain ⟨a, held, same⟩ := found
    refine ⟨_, mem_map_of_mem held, ?_⟩
    split <;> simpa using same
  tells := fun a member => by
    obtain ⟨a, held, rfl⟩ := mem_map.mp member
    split
    · next same =>
      rw [Agg.note_first, outcomesOf_append, beq_iff_eq.mpr (eq_of_beq same).symm, if_pos rfl]
      exact (aggregated.tells a held).note _
    · next differ =>
      rw [outcomesOf_append_of_ne fun same => differ (beq_iff_eq.mpr same.symm)]
      exact aggregated.tells a held

theorem Aggregated.fresh (admitted : named report.2.name = true)
    (absent : ∀ a ∈ buckets, a.first.name ≠ report.2.name) :
    Aggregated (done ++ [report])
      (buckets ++ [Agg.note { first := report.1.complete report.2 } report.2.outcome]) where
  admitted := fun a member => by
    rcases mem_append.mp member with held | last
    · exact aggregated.admitted a held
    · rw [mem_singleton.mp last, Agg.note_first]
      exact admitted
  covered := fun r member admitted' => by
    rcases mem_append.mp member with earlier | last
    · obtain ⟨a, held, name⟩ := aggregated.covered r earlier admitted'
      exact ⟨a, mem_append_left _ held, name⟩
    · rw [mem_singleton.mp last]
      refine ⟨_, mem_append_right _ (mem_singleton_self _), ?_⟩
      rw [Agg.note_first]
      rfl
  tells := fun a member => by
    rcases mem_append.mp member with held | last
    · rw [outcomesOf_append_of_ne (absent a held).symm]
      exact aggregated.tells a held
    · have unreported : outcomesOf done report.2.name = [] := by
        rw [eq_nil_iff_forall_not_mem]
        intro o member
        obtain ⟨r, earlier, same, -⟩ := mem_outcomesOf.mp member
        obtain ⟨a, held, name⟩ := aggregated.covered r earlier (same.symm ▸ admitted)
        exact absent a held (name.trans same)
      have start : Agg.Tells { first := report.1.complete report.2 } [] :=
        ⟨by simp, by simp, by simp⟩
      have name : (report.1.complete report.2).name = report.2.name := rfl
      rw [mem_singleton.mp last, Agg.note_first, outcomesOf_append, name, unreported,
        beq_self_eq_true, if_pos rfl]
      exact start.note _

theorem Aggregated.addReport (report : Report) :
    Aggregated (done ++ [report]) (addReport report.1 buckets report.2) := by
  unfold VerifyAPI.addReport
  split
  · next skipped => exact aggregated.skip (by rw [named, skipped]; rfl)
  · next admitted =>
    split
    · next known =>
      obtain ⟨b, held, same⟩ := any_eq_true.mp known
      exact aggregated.again held (eq_of_beq same)
    · next fresh =>
      refine aggregated.fresh (by simpa [named] using admitted) fun a held same => fresh ?_
      exact any_eq_true.mpr ⟨a, held, beq_iff_eq.mpr same⟩

end OneReport

theorem aggregate_eq (resolved : List ResolvedAttestation) :
    aggregate resolved =
      (reports resolved).foldl (fun buckets report => addReport report.1 buckets report.2) [] := by
  unfold aggregate reports
  generalize ([] : List Agg) = buckets
  induction resolved generalizing buckets with
  | nil => rfl
  | cons att rest ih =>
    rw [foldl_cons, ih, flatMap_cons, foldl_append, foldl_map]

theorem aggregated_aggregate (resolved : List ResolvedAttestation) :
    Aggregated (reports resolved) (aggregate resolved) := by
  rw [aggregate_eq]
  have loop : ∀ (rest done : List Report) (buckets : List Agg), Aggregated done buckets →
      Aggregated (done ++ rest)
        (rest.foldl (fun buckets report => addReport report.1 buckets report.2) buckets) := by
    intro rest
    induction rest with
    | nil => intro done buckets aggregated; simpa using aggregated
    | cons report rest ih =>
      intro done buckets aggregated
      have := ih _ _ (aggregated.addReport report)
      rwa [append_assoc] at this
  refine loop _ [] [] ⟨?_, ?_, ?_⟩ <;> intro _ member <;> simp at member

/-- A check that passes is structural, or is reported pass and never fail or error. -/
theorem mem_completedCheckNames
    (completed : need ∈ completedCheckNames (deriveVerifiedChecks resolved root)) :
    structural need = true ∨ (CheckOutcome.pass ∈ outcomesOf (reports resolved) need ∧
      CheckOutcome.fail ∉ outcomesOf (reports resolved) need ∧
      CheckOutcome.error ∉ outcomesOf (reports resolved) need) := by
  obtain ⟨c, member, rfl⟩ := mem_map.mp completed
  obtain ⟨member, passed⟩ := mem_filter.mp member
  unfold deriveVerifiedChecks at member
  rcases mem_append.mp member with derived | reported
  · refine .inl ?_
    simp only [mem_cons, not_mem_nil, or_false] at derived
    rcases derived with rfl | rfl <;> simp [structural]
  · refine .inr ?_
    rw [mem_insertionSort] at reported
    obtain ⟨a, held, rfl⟩ := mem_map.mp reported
    obtain ⟨pass, fail, error⟩ := (aggregated_aggregate resolved).tells a held
    have outcome : a.outcome = .pass := by simpa [VerifiedCheck.passed, Agg.check] using passed
    change CheckOutcome.pass ∈ outcomesOf (reports resolved) a.first.name ∧ _
    rw [← pass, show a.check.name = a.first.name from rfl, ← fail, ← error]
    unfold Agg.outcome at outcome
    cases passes : a.pass <;> cases fails : a.fail <;> cases errs : a.error <;>
      simp_all

/-! ## Assurance -/

namespace ExecutionAssurance

theorem mem_candidates (valid : a.valid = true) : a ∈ candidates := by
  cases a with
  | undefined n => cases valid
  | _ => decide

theorem valid_of_mem_candidates : ∀ a ∈ candidates, a.valid = true := by decide

theorem meet_mem_candidates : ∀ a ∈ candidates, ∀ b ∈ candidates, a.meet b ∈ candidates := by
  decide +kernel

theorem meet_satisfies (left : a.valid = true) (right : b.valid = true) (c : ExecutionAssurance) :
    (a.meet b).satisfies c = true ↔ a.satisfies c = true ∧ b.satisfies c = true := by
  have table : ∀ a ∈ candidates, ∀ b ∈ candidates, ∀ c ∈ candidates,
      (a.meet b).satisfies c = (a.satisfies c && b.satisfies c) := by decide +kernel
  cases valid : c.valid with
  | true =>
    rw [table a (mem_candidates left) b (mem_candidates right) c (mem_candidates valid),
      Bool.and_eq_true]
  | false => simp [satisfies, valid]

theorem valid_meet (left : a.valid = true) (right : b.valid = true) :
    (a.meet b).valid = true :=
  valid_of_mem_candidates _ (meet_mem_candidates a (mem_candidates left) b (mem_candidates right))

end ExecutionAssurance

theorem ResolvedAttestation.valid_profile (att : ResolvedAttestation) :
    att.profile.valid = true := by
  unfold ResolvedAttestation.profile deriveAssuranceProfileSchema
  dsimp only
  repeat' split
  all_goals rfl

/-- The derived assurance is a defined profile that proves what all profiles prove: their
meet. -/
theorem deriveAssurance_satisfies (some' : resolved ≠ []) :
    (deriveAssurance resolved).valid = true ∧ ∀ c, (deriveAssurance resolved).satisfies c = true ↔
        ∀ att ∈ resolved, att.profile.satisfies c = true := by
  have loop : ∀ (rest : List ResolvedAttestation) (m : ExecutionAssurance), m.valid = true →
      (rest.foldl (fun meet att => meet.meet att.profile) m).valid = true ∧
      ∀ c, (rest.foldl (fun meet att => meet.meet att.profile) m).satisfies c = true ↔
        m.satisfies c = true ∧ ∀ att ∈ rest, att.profile.satisfies c = true := by
    intro rest
    induction rest with
    | nil => intro m valid; simp [valid]
    | cons att rest ih =>
      intro m valid
      obtain ⟨valid', satisfies⟩ := ih _ (ExecutionAssurance.valid_meet valid att.valid_profile)
      refine ⟨valid', fun c => ?_⟩
      rw [foldl_cons, satisfies, ExecutionAssurance.meet_satisfies valid att.valid_profile,
        forall_mem_cons, and_assoc]
  have nonempty : resolved.isEmpty = false := by simpa using some'
  obtain ⟨valid, satisfies⟩ := loop resolved .sealedPinnedNoNetwork rfl
  rw [deriveAssurance, nonempty]
  refine ⟨valid, fun c => (satisfies c).trans ⟨And.right, fun all => ⟨?_, all⟩⟩⟩
  -- the strongest profile proves whatever one of the others proves
  obtain ⟨att, member⟩ := exists_mem_of_ne_nil resolved some'
  have defined : c.valid = true := by
    have proves := all att member
    simp only [ExecutionAssurance.satisfies, Bool.and_eq_true] at proves
    exact proves.1.2
  have strongest : ∀ c ∈ ExecutionAssurance.candidates,
      ExecutionAssurance.sealedPinnedNoNetwork.satisfies c = true := by decide
  exact strongest c (ExecutionAssurance.mem_candidates defined)

/-! ## Windows -/

theorem mergeWindows_some
    {a : AttestedResourceFacts} (ran : mergeWindows window resolved merged = some a) :
    ∀ att ∈ resolved, ∃ w, window att = some w ∧ w.wellFormed = true := by
  induction resolved generalizing merged with
  | nil => intro att member; simp at member
  | cons first rest ih =>
    unfold mergeWindows at ran
    split at ran
    · cases ran
    · next w usable =>
      intro att member
      rcases mem_cons.mp member with rfl | later
      · exact ⟨w, Option.filter_eq_some_iff.mp usable⟩
      · exact ih ran att later

/-- A trusted window is attested by all, or observed by all. -/
theorem deriveWindow_trusted (trusted : (deriveWindow claim (mergeAttested resolved)
      (mergeObserver resolved)).satisfiesFreshness (minWindowForRequireAttested false) = true) :
    (∀ att ∈ resolved, ∃ w, att.attested = some w ∧ w.wellFormed = true) ∨
      ∀ att ∈ resolved, ∃ w, att.observerWindow = some w ∧ w.wellFormed = true := by
  unfold deriveWindow at trusted
  dsimp only at trusted
  split at trusted
  · next attested =>
    exact .inl (mergeWindows_some (Option.filter_eq_some_iff.mp attested).1)
  · next observed =>
    exact .inr (mergeWindows_some (Option.filter_eq_some_iff.mp observed).1)
  · cases trusted

end KiwiCI.VerifyAPI
