import KiwiCI.VerifyAPI.Registry
import Mathlib.Data.Prod.Lex
import Mathlib.Data.String.Basic
import Mathlib.Order.BooleanAlgebra.Basic

/-!
Which attempts a group comparison reports.

`Registry.CompareGroup` keeps one attempt per candidate.  `compareGroup_rows` says which:
its rows are the canonical attempts, those no other recorded attempt of their candidate
is better than.
-/

namespace KiwiCI.VerifyAPI

open List

variable {v : VerificationOutcome}

/-! ## The order of attempts -/

/-- What attempts are ordered by: a sealed one comes first, then the later one, then the
smaller id. -/
def GroupAttempt.rank (a : GroupAttempt) : Boolᵒᵈ ×ₗ Intᵒᵈ ×ₗ String :=
  toLex (.toDual a.verified, toLex (.toDual a.outcome.completedAt, a.outcome.verificationID))

theorem betterAttempt_iff : betterAttempt a b = true ↔ a.rank < b.rank := by
  unfold betterAttempt GroupAttempt.rank
  rw [Prod.Lex.toLex_lt_toLex, Prod.Lex.toLex_lt_toLex]
  by_cases time : a.outcome.completedAt = b.outcome.completedAt
  · cases a.verified <;> cases b.verified <;> simp [time]
  · cases a.verified <;> cases b.verified <;> simp [time]

theorem betterAttempt_trans (first : betterAttempt a b = true)
    (second : betterAttempt b c = true) : betterAttempt a c = true := by
  rw [betterAttempt_iff] at *
  exact first.trans second

/-- Attempts neither of which is better are of one claim. -/
theorem eq_of_not_better (first : betterAttempt a b = false) (second : betterAttempt b a = false) :
    a.outcome.verificationID = b.outcome.verificationID := by
  rw [← Bool.not_eq_true, betterAttempt_iff, not_lt] at first second
  exact congrArg (fun rank => (ofLex (ofLex rank).2).2) (le_antisymm second first)

namespace Registry

/-! ## Canonical attempts -/

structure Recorded (r : Registry) (groupID : String) (v : VerificationOutcome) : Prop where
  held : r.outcomes.get? v.verificationID = some v
  speculative : v.resources.speculative = true
  group : v.resources.verificationGroupID = groupID

/-- No outcome recorded for the same candidate of the group is better. -/
structure Canonical (r : Registry) (groupID : String) (v : VerificationOutcome) : Prop
    extends r.Recorded groupID v where
  best : ∀ w, r.Recorded groupID w → w.resources.candidateID = v.resources.candidateID →
    betterAttempt (r.attempt w) (r.attempt v) = false

/-- What the loop of `CompareGroup` has selected after the claims `ids`. -/
structure Selected (r : Registry) (groupID : String) (ids : List String)
    (byCandidate : Table String GroupAttempt) : Prop where
  sound : ∀ c att, byCandidate.get? c = some att → ∃ v, r.Recorded groupID v ∧
    v.resources.candidateID = c ∧ r.attempt v = att ∧
      ∀ w, w.verificationID ∈ ids → r.Recorded groupID w → w.resources.candidateID = c →
        betterAttempt (r.attempt w) att = false
  complete : ∀ v, v.verificationID ∈ ids → r.Recorded groupID v →
    (byCandidate.get? v.resources.candidateID).isSome = true

variable {r : Registry} {groupID : String} {g : SpeculativeGroup} (kept : r.Kept)
include kept

/-- An attempt is its claim, or the sealed record beside it. -/
theorem Kept.attempt_sameMember (recorded : r.Recorded groupID v) :
    SameMember v (r.attempt v).outcome := by
  unfold attempt
  cases found : r.verified.get? v.verificationID with
  | none => exact ⟨rfl, rfl, rfl, rfl, rfl, rfl⟩
  | some s =>
    obtain ⟨w, held, same⟩ := kept.record _ s found
    rw [recorded.held] at held
    cases held
    exact same

/-- A recorded outcome is a claim of a member of its registered group. -/
theorem Kept.recorded_member (recorded : r.Recorded groupID v) :
    ∃ g, r.groups.get? groupID = some g ∧ bindGroup g none v = .ok () := by
  obtain ⟨g, registered, bound⟩ := (kept.claim _ v recorded.held).member recorded.speculative
  exact ⟨g, recorded.group ▸ registered, bound⟩

/-- A canonical outcome is the better of no two attempts, so it is its candidate's row. -/
theorem Canonical.verificationID_eq (first : r.Canonical groupID v) (second : r.Canonical groupID w)
    (same : v.resources.candidateID = w.resources.candidateID) :
    v.verificationID = w.verificationID := by
  have behind := first.best w second.toRecorded same.symm
  have ahead := second.best v first.toRecorded same
  have named := (kept.attempt_sameMember first.toRecorded).verificationID
  have named' := (kept.attempt_sameMember second.toRecorded).verificationID
  rw [named, named']
  exact eq_of_not_better ahead behind

variable (registered : r.groups.get? groupID = some g)
include registered

/-- What `consider` does with a claim id: nothing, or it keeps the better attempt. -/
theorem Kept.consider_cases (byCandidate : Table String GroupAttempt) (id : String) :
    (r.consider groupID g byCandidate id = .ok byCandidate ∧
      ∀ v, v.verificationID = id → ¬ r.Recorded groupID v) ∨
    ∃ v, r.Recorded groupID v ∧ v.verificationID = id ∧
      r.consider groupID g byCandidate id = .ok
        (if (byCandidate.get? v.resources.candidateID).all (betterAttempt (r.attempt v)) then
          byCandidate.put v.resources.candidateID (r.attempt v) else byCandidate) := by
  unfold consider
  cases found : (r.outcomes.get? id).filter fun v =>
      v.resources.speculative && v.resources.verificationGroupID == groupID with
  | none =>
    refine .inl ⟨rfl, ?_⟩
    rintro v rfl recorded
    rw [recorded.held, Option.filter_some, recorded.speculative, recorded.group] at found
    simp at found
  | some v =>
    obtain ⟨held, admitted⟩ := Option.filter_eq_some_iff.mp found
    rw [Bool.and_eq_true, beq_iff_eq] at admitted
    have named := (kept.claim id v held).named
    have recorded : r.Recorded groupID v := ⟨named ▸ held, admitted.1, admitted.2⟩
    obtain ⟨g', registered', bound⟩ := kept.recorded_member recorded
    rw [registered] at registered'
    cases registered'
    refine .inr ⟨v, recorded, named, ?_⟩
    change (bindGroup g none (r.attempt v).outcome >>= _) = _
    rw [(kept.attempt_sameMember recorded).bindGroup bound]
    rfl

/-- One claim more: its attempt is selected, or the one it is not better than stays. -/
theorem Selected.consider (selected : r.Selected groupID ids byCandidate) (id : String) :
    ∃ byCandidate', r.consider groupID g byCandidate id = .ok byCandidate' ∧
      r.Selected groupID (ids ++ [id]) byCandidate' := by
  rcases kept.consider_cases registered byCandidate id with ⟨ran, foreign⟩ | ⟨v, recorded, rfl, ran⟩
  · refine ⟨_, ran, fun c att kept' => ?_, fun w member of_group => ?_⟩
    · obtain ⟨v, of_group, candidate, rfl, best⟩ := selected.sound c att kept'
      refine ⟨v, of_group, candidate, rfl, fun w member recorded => ?_⟩
      rcases mem_append.mp member with earlier | last
      · exact best w earlier recorded
      · exact absurd recorded (foreign w (mem_singleton.mp last))
    · rcases mem_append.mp member with earlier | last
      · exact selected.complete w earlier of_group
      · exact absurd of_group (foreign w (mem_singleton.mp last))
  -- an outcome with the id of `v` is `v`
  have met : ∀ w, w.verificationID ∈ ids ++ [v.verificationID] → r.Recorded groupID w →
      w.verificationID ∈ ids ∨ w = v := by
    intro w member recorded'
    refine (mem_append.mp member).imp_right fun last => ?_
    have held := recorded'.held
    rw [mem_singleton.mp last, recorded.held] at held
    exact (Option.some.inj held).symm
  refine ⟨_, ran, ?_⟩
  split
  · next better =>
    constructor
    · intro c att held
      rw [Table.get?_put] at held
      split at held
      · next candidate =>
        cases held
        refine ⟨v, recorded, candidate.symm, rfl, fun w member recorded' candidate' => ?_⟩
        rcases met w member recorded' with earlier | rfl
        · obtain ⟨prev, held⟩ := Option.isSome_iff_exists.mp (selected.complete w earlier recorded')
          obtain ⟨u, -, -, -, best⟩ := selected.sound _ prev held
          rw [candidate', candidate] at held
          rw [held, Option.all_some] at better
          refine Bool.eq_false_iff.mpr fun beats => ?_
          have wins := betterAttempt_trans beats better
          rw [best w earlier recorded' rfl] at wins
          cases wins
        · simp [betterAttempt]
      · next other =>
        obtain ⟨u, of_group, candidate, rfl, best⟩ := selected.sound c att held
        refine ⟨u, of_group, candidate, rfl, fun w member recorded' candidate' => ?_⟩
        rcases met w member recorded' with earlier | rfl
        · exact best w earlier recorded' candidate'
        · exact absurd candidate'.symm other
    · intro w member recorded'
      rw [Table.get?_put]
      split
      · rfl
      · next other =>
        rcases met w member recorded' with earlier | rfl
        · exact selected.complete w earlier recorded'
        · exact absurd rfl other
  · next worse =>
    obtain ⟨prev, held, loses⟩ : ∃ prev, byCandidate.get? v.resources.candidateID = some prev ∧
        betterAttempt (r.attempt v) prev = false := by
      cases found : byCandidate.get? v.resources.candidateID with
      | none => simp [found] at worse
      | some prev => exact ⟨prev, rfl, by simpa [found] using worse⟩
    constructor
    · intro c att held'
      obtain ⟨u, of_group, candidate, rfl, best⟩ := selected.sound c att held'
      refine ⟨u, of_group, candidate, rfl, fun w member recorded' candidate' => ?_⟩
      rcases met w member recorded' with earlier | rfl
      · exact best w earlier recorded' candidate'
      · rw [← candidate', held] at held'
        cases held'
        exact loses
    · intro w member recorded'
      rcases met w member recorded' with earlier | rfl
      · exact selected.complete w earlier recorded'
      · rw [held]
        rfl

theorem Selected.foldlM (rest : List String) (selected : r.Selected groupID ids byCandidate) :
    ∃ byCandidate', rest.foldlM (r.consider groupID g) byCandidate = .ok byCandidate' ∧
      r.Selected groupID (ids ++ rest) byCandidate' := by
  induction rest generalizing ids byCandidate with
  | nil => exact ⟨byCandidate, rfl, by simpa using selected⟩
  | cons id rest ih =>
    obtain ⟨middle, first, selected'⟩ := selected.consider kept registered id
    obtain ⟨last, tail, selected''⟩ := ih selected'
    refine ⟨last, ?_, by simpa using selected''⟩
    rw [foldlM_cons, first]
    exact tail

/-- Every recorded outcome is listed under its group, so the loop meets it. -/
theorem Kept.selects :
    ∃ byCandidate, ((r.byGroup.get? groupID).getD []).foldlM (r.consider groupID g) .empty =
        .ok byCandidate ∧
      (∀ v, r.Recorded groupID v → ∃ w, r.Canonical groupID w ∧
        w.resources.candidateID = v.resources.candidateID ∧
          byCandidate.get? v.resources.candidateID = some (r.attempt w)) ∧
      ∀ c att, byCandidate.get? c = some att →
        ∃ w, r.Canonical groupID w ∧ w.resources.candidateID = c ∧ r.attempt w = att := by
  have start : r.Selected groupID [] .empty :=
    ⟨fun _ _ held => by simp at held, fun _ member => by simp at member⟩
  obtain ⟨byCandidate, ran, selected⟩ := start.foldlM kept registered _
  have listed : ∀ v, r.Recorded groupID v →
      v.verificationID ∈ [] ++ (r.byGroup.get? groupID).getD [] := by
    intro v recorded
    rw [nil_append, ← recorded.group]
    exact (kept.claim _ v recorded.held).listed recorded.speculative
  have canonical : ∀ c att, byCandidate.get? c = some att →
      ∃ w, r.Canonical groupID w ∧ w.resources.candidateID = c ∧ r.attempt w = att := by
    intro c att held
    obtain ⟨w, recorded, candidate, rfl, best⟩ := selected.sound c att held
    exact ⟨w, ⟨recorded, fun u recorded' same =>
      best u (listed u recorded') recorded' (same.trans candidate)⟩, candidate, rfl⟩
  refine ⟨byCandidate, ran, fun v recorded => ?_, canonical⟩
  obtain ⟨att, held⟩ :=
    Option.isSome_iff_exists.mp (selected.complete v (listed v recorded) recorded)
  obtain ⟨w, best, candidate, rfl⟩ := canonical _ att held
  exact ⟨w, best, candidate, held⟩

/-- A group comparison succeeds, and its rows with an attempt are the canonical outcomes. -/
theorem Kept.compareGroup_rows :
    ∃ cmp, r.compareGroup groupID = .ok cmp ∧
      ∀ id, id ≠ "" → ((∃ row ∈ cmp.candidates, row.verificationID = id) ↔
        ∃ v, r.Canonical groupID v ∧ v.verificationID = id) := by
  obtain ⟨byCandidate, ran, complete, sound⟩ := kept.selects registered
  refine ⟨⟨g.verificationGroupID, g.baseSnapshotDigest, 1,
    g.candidateDigests.sorted.map (row byCandidate)⟩, ?_, fun id named => ⟨?_, ?_⟩⟩
  · simp only [compareGroup, bind_ok_iff, orThrow_ok_iff, pure_ok_iff]
    exact ⟨g, registered, byCandidate, ran, rfl⟩
  · rintro ⟨row, member, rfl⟩
    obtain ⟨candidate, -, rfl⟩ := mem_map.mp member
    unfold row at named ⊢
    cases held : byCandidate.get? candidate.1 with
    | none => simp [held] at named
    | some att =>
      obtain ⟨w, best, -, rfl⟩ := sound _ att held
      exact ⟨w, best, (kept.attempt_sameMember best.toRecorded).verificationID⟩
  · rintro ⟨v, best, rfl⟩
    obtain ⟨w, best', candidate, held⟩ := complete v best.toRecorded
    obtain ⟨g', registered', bound⟩ := kept.recorded_member best.toRecorded
    rw [registered] at registered'
    cases registered'
    simp only [bindGroup, bind_ok_iff, orThrow_ok_iff] at bound
    obtain ⟨_, -, _, -, _, -, digest, listed, -⟩ := bound
    have candidate' : (v.resources.candidateID, digest) ∈ g.candidateDigests.sorted :=
      Table.mem_sorted.mpr listed
    refine ⟨_, mem_map_of_mem candidate', ?_⟩
    simp only [row, held]
    rw [← (kept.attempt_sameMember best'.toRecorded).verificationID]
    exact best'.verificationID_eq kept best candidate

end Registry

/-- **A comparison reports the canonical attempts.**  After any history of the store it fails
for exactly the groups that are not registered, and its rows with an attempt are the canonical
outcomes, one for each candidate. -/
theorem MemoryStore.compareGroup_canonical (calls : List Call) (groupID : String) :
    let r := run step calls {}
    (r.groups.get? groupID).elim ((r.compareGroup groupID).isOk = false) fun _ =>
      ∃ cmp, r.compareGroup groupID = .ok cmp ∧
      (∀ id, id ≠ "" → ((∃ row ∈ cmp.candidates, row.verificationID = id) ↔
        ∃ v, r.Canonical groupID v ∧ v.verificationID = id)) ∧
      ∀ v w, r.Canonical groupID v → r.Canonical groupID w →
        v.resources.candidateID = w.resources.candidateID →
          v.verificationID = w.verificationID := by
  intro r
  have kept : r.Kept := kept_run calls
  cases found : r.groups.get? groupID with
  | none =>
    change (r.compareGroup groupID).isOk = false
    rw [Registry.compareGroup, found]
    rfl
  | some g =>
    obtain ⟨cmp, ran, rows⟩ := kept.compareGroup_rows found
    exact ⟨cmp, ran, rows, fun _ _ first => first.verificationID_eq kept⟩

end KiwiCI.VerifyAPI
