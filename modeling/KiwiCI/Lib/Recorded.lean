import KiwiCI.Lib.Table

/-!
Recording keyed entries with conflict detection.

Entries are recorded one after another under their keys; the first entry of a key
is kept, and a later one that differs from it marks the key as conflicting.  What
a lookup then answers, `verdict`, depends only on the values recorded under the
key and not on the order in which they came.
-/

namespace KiwiCI

open List

variable {κ α : Type} [DecidableEq κ]

/-- What a lookup among recorded entries answers. -/
inductive Verdict (α : Type) where
  | noEntry
  | found (value : α)
  | conflict
  deriving DecidableEq, Repr

/-- Recorded entries: the first one of each key, and the keys with differing ones. -/
structure Recorded (κ α : Type) where
  entries : Table κ α := .empty
  conflicts : List κ := []

namespace Recorded

/-- Record one entry. -/
def record (equal : α → α → Bool) (m : Recorded κ α) (key : κ) (value : α) : Recorded κ α :=
  match m.entries.get? key with
  | some prev => if equal prev value then m else { m with conflicts := key :: m.conflicts }
  | none => { m with entries := m.entries.put key value }

/-- Look a key up: a conflicting key answers nothing usable. -/
def resolve (m : Recorded κ α) (key : κ) : Verdict α :=
  if key ∈ m.conflicts then .conflict
  else match m.entries.get? key with
    | some value => .found value
    | none => .noEntry

def recordAll (equal : α → α → Bool) (m : Recorded κ α) (pairs : List (κ × α)) : Recorded κ α :=
  pairs.foldl (fun m pair => m.record equal pair.1 pair.2) m

end Recorded

/-- The values of the entries under one key, in order. -/
def valuesAt (pairs : List (κ × α)) (key : κ) : List α :=
  pairs.filterMap fun pair => if pair.1 = key then some pair.2 else none

/-- What the values under a key amount to: all the same, or a conflict. -/
def verdict [DecidableEq α] : List α → Verdict α
  | [] => .noEntry
  | value :: rest => if ∀ other ∈ rest, other = value then .found value else .conflict

section Verdict

variable [DecidableEq α]

theorem verdict_noEntry_iff {values : List α} : verdict values = .noEntry ↔ values = [] := by
  cases values with
  | nil => simp [verdict]
  | cons value rest =>
    simp only [verdict, reduceCtorEq, iff_false]
    split <;> simp

theorem verdict_found_iff {value : α} :
    verdict values = .found value ↔ values ≠ [] ∧ ∀ other ∈ values, other = value := by
  cases values with
  | nil => simp [verdict]
  | cons first rest =>
    simp only [verdict, ne_eq, reduceCtorEq, not_false_eq_true, true_and, forall_mem_cons]
    constructor
    · intro found
      split at found
      · rename_i same
        obtain rfl := Verdict.found.inj found
        exact ⟨rfl, same⟩
      · cases found
    · rintro ⟨rfl, same⟩
      rw [if_pos same]

theorem verdict_conflict_iff {values : List α} :
    verdict values = .conflict ↔ ∃ a ∈ values, ∃ b ∈ values, a ≠ b := by
  constructor
  · intro conflict
    by_contra agree
    push Not at agree
    cases values with
    | nil => cases conflict
    | cons value rest =>
      have found := verdict_found_iff.mpr ⟨cons_ne_nil value rest,
        fun other member => agree other member value mem_cons_self⟩
      rw [found] at conflict
      cases conflict
  · rintro ⟨a, ha, b, hb, differ⟩
    cases shown : verdict values with
    | noEntry =>
      rw [verdict_noEntry_iff.mp shown] at ha
      cases ha
    | found value =>
      have same := (verdict_found_iff.mp shown).2
      exact absurd ((same a ha).trans (same b hb).symm) differ
    | conflict => rfl

theorem verdict_perm {values : List α} (same : values.Perm values') :
    verdict values = verdict values' := by
  cases shown : verdict values' with
  | noEntry =>
    rw [verdict_noEntry_iff] at shown ⊢
    rw [shown] at same
    exact same.eq_nil
  | found value =>
    rw [verdict_found_iff] at shown ⊢
    refine ⟨fun empty => shown.1 (by rw [empty] at same; exact same.symm.eq_nil), ?_⟩
    exact fun other member => shown.2 other (same.mem_iff.mp member)
  | conflict =>
    rw [verdict_conflict_iff] at shown ⊢
    obtain ⟨a, ha, b, hb, differ⟩ := shown
    exact ⟨a, same.mem_iff.mpr ha, b, same.mem_iff.mpr hb, differ⟩

end Verdict

namespace Recorded

theorem valuesAt_cons (pair : κ × α) (pairs : List (κ × α)) (key : κ) :
    valuesAt (pair :: pairs) key =
      if pair.1 = key then pair.2 :: valuesAt pairs key else valuesAt pairs key := by
  unfold valuesAt
  split
  · rename_i same
    rw [filterMap_cons_some (by rw [if_pos same])]
  · rename_i differ
    rw [filterMap_cons_none (by rw [if_neg differ])]

section Fold

variable [DecidableEq α]

/-- The values `seen` are what has been recorded under `key`. -/
structure Holds (m : Recorded κ α) (key : κ) (seen : List α) : Prop where
  first : m.entries.get? key = seen.head?
  conflicting : key ∈ m.conflicts ↔ verdict seen = .conflict

theorem Holds.resolve_eq {m : Recorded κ α} {key : κ} (holds : m.Holds key seen) :
    m.resolve key = verdict seen := by
  unfold resolve
  by_cases marked : key ∈ m.conflicts
  · rw [if_pos marked, holds.conflicting.mp marked]
  · rw [if_neg marked, holds.first]
    cases shown : verdict seen with
    | noEntry => rw [verdict_noEntry_iff.mp shown, head?_nil]
    | found value =>
      obtain ⟨some, all⟩ := verdict_found_iff.mp shown
      cases seen with
      | nil => exact absurd rfl some
      | cons head rest => rw [head?_cons, all head mem_cons_self]
    | conflict => exact absurd (holds.conflicting.mpr shown) marked

/-- Recording an entry under another key leaves a key alone. -/
theorem Holds.record_ne {m : Recorded κ α} (holds : m.Holds key seen)
    (value : α) (differ : k ≠ key) :
    (m.record (fun a b => decide (a = b)) k value).Holds key seen := by
  unfold record
  split
  · split
    · exact holds
    · exact ⟨holds.first, by rw [← holds.conflicting, mem_cons, or_iff_right differ.symm]⟩
  · exact ⟨by rw [Table.get?_put_ne _ _ differ.symm, holds.first], holds.conflicting⟩

theorem Holds.record_self {m : Recorded κ α} (holds : m.Holds key seen) (value : α) :
    (m.record (fun a b => decide (a = b)) key value).Holds key (seen ++ [value]) := by
  unfold record
  rw [holds.first]
  cases seen with
  | nil =>
    have unmarked : key ∉ m.conflicts := by
      rw [holds.conflicting]
      simp [verdict]
    exact ⟨by simp, by simp [unmarked, verdict]⟩
  | cons head rest =>
    dsimp only [head?_cons]
    by_cases same : head = value
    · rw [if_pos (decide_eq_true same)]
      refine ⟨holds.first, ?_⟩
      rw [holds.conflicting, verdict_conflict_iff, verdict_conflict_iff]
      -- a value equal to the first one adds no difference
      constructor
      · rintro ⟨a, ha, b, hb, differ⟩
        exact ⟨a, mem_append_left _ ha, b, mem_append_left _ hb, differ⟩
      · rintro ⟨a, ha, b, hb, differ⟩
        have known : ∀ c ∈ head :: rest ++ [value], c ∈ head :: rest := by
          intro c member
          rcases mem_append.mp member with before | last
          · exact before
          · rw [mem_singleton.mp last, ← same]
            exact mem_cons_self
        exact ⟨a, known a ha, b, known b hb, differ⟩
    · rw [if_neg (by simpa using same)]
      refine ⟨holds.first, ?_⟩
      have conflict : verdict (head :: rest ++ [value]) = .conflict :=
        verdict_conflict_iff.mpr ⟨head, mem_cons_self, value, by simp, same⟩
      exact ⟨fun _ => conflict, fun _ => mem_cons_self⟩

theorem Holds.recordAll {m : Recorded κ α} (pairs : List (κ × α)) (holds : m.Holds key seen) :
    (m.recordAll (fun a b => decide (a = b)) pairs).Holds key (seen ++ valuesAt pairs key) := by
  induction pairs generalizing m seen with
  | nil =>
    simpa [Recorded.recordAll, valuesAt] using holds
  | cons pair pairs ih =>
    change ((m.record _ pair.1 pair.2).recordAll _ pairs).Holds key _
    rw [valuesAt_cons]
    by_cases same : pair.1 = key
    · rw [if_pos same, append_cons, same]
      exact ih (holds.record_self pair.2)
    · rw [if_neg same]
      exact ih (holds.record_ne pair.2 same)

/-- What a lookup answers after everything has been recorded. -/
theorem holds_recordAll (pairs : List (κ × α)) (key : κ) :
    (({} : Recorded κ α).recordAll (fun a b => decide (a = b)) pairs).Holds key
      (valuesAt pairs key) := by
  have start : ({} : Recorded κ α).Holds key [] := ⟨Table.get?_empty key, by simp [verdict]⟩
  exact start.recordAll pairs

end Fold

end Recorded

end KiwiCI
