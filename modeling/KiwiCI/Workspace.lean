import KiwiCI.Lib.Sha256
import KiwiCI.Lib.Text

/-!
The directory a job runs in (`internal/workspace`).

`Manager.Prepare` stages a job in a directory named after its id.  An id that its readable
form does not spell out is lossy and gets a digest of itself appended, and the result may be
another job's id as it stands: `workspaces_apart_iff` says that only this makes two jobs meet.
-/

namespace KiwiCI.Workspace

open List Text

variable {id id' : String}

/-- The runes `sanitizeJobIDBare` keeps. -/
def okRune (r : Char) : Bool :=
  r == '-' || r == '_' || ('a' ≤ r && r ≤ 'z') || ('A' ≤ r && r ≤ 'Z') || ('0' ≤ r && r ≤ '9')

/-- One round of the loop of `sanitizeJobIDBare`, on what is written and `prevDash`. -/
def writeRune (b : List Char × Bool) (r : Char) : List Char × Bool :=
  if !okRune r then
    if !b.2 && !b.1.isEmpty then (b.1 ++ ['-'], true) else b
  else (b.1 ++ [r], false)

def sanitizeJobIDBare (id : String) : String :=
  let out := trimChar '-' (String.ofList (id.toList.foldl writeRune ([], false)).1)
  if out = "" ∨ out = "." ∨ out = ".." then "job" else out

/-- The first four bytes of the SHA-256 of an id. -/
def shortSum (id : String) : String := Sha256.hex ((Sha256.digest (Sha256.utf8 id)).take 4)

def sanitizeJobID (id : String) : String :=
  let out := sanitizeJobIDBare id
  if out = id then out else out ++ "-" ++ shortSum id

/-- The `target` of `Manager.Prepare`, by its components: `filepath.Join` adds one to
those of the root. -/
def target (root : List String) (jobID : String) : List String := root ++ [sanitizeJobID jobID]

/-- A name of one path component: not empty, and of kept runes only. -/
def Component (name : String) : Prop := name ≠ "" ∧ ∀ c ∈ name.toList, okRune c = true

/-- The readable form of an id is not the id itself. -/
def Lossy (id : String) : Prop := sanitizeJobIDBare id ≠ id

/-- `other` spells the readable form of a lossy id, a dash and the digest of that id. -/
def Spells (other id : String) : Prop :=
  Lossy id ∧ ¬ Lossy other ∧ other = sanitizeJobIDBare id ++ "-" ++ shortSum id

/-! ## Components -/

theorem okRune_written (s : List Char) (b : List Char × Bool)
    (kept : ∀ c ∈ b.1, okRune c = true) : ∀ c ∈ (s.foldl writeRune b).1, okRune c = true := by
  induction s generalizing b with
  | nil => exact kept
  | cons r rest ih =>
    apply ih
    unfold writeRune
    split
    · split
      · exact forall_mem_append.mpr ⟨kept, forall_mem_singleton.mpr rfl⟩
      · exact kept
    · rename_i ok
      exact forall_mem_append.mpr ⟨kept, by simpa using ok⟩

theorem component_sanitizeJobIDBare (id : String) : Component (sanitizeJobIDBare id) := by
  simp only [sanitizeJobIDBare]
  split
  · exact ⟨by decide, all_eq_true.mp rfl⟩
  · rename_i named
    refine ⟨fun empty => named (.inl empty), fun c member => ?_⟩
    simp only [trimChar, onList, String.toList_ofList] at member
    exact okRune_written id.toList ([], false) (by simp) c ((trimBy_sublist _ _).subset member)

theorem okRune_hexDigit : ∀ n < 16, okRune (Sha256.hexDigit n) = true := by decide

theorem okRune_shortSum (id : String) : ∀ c ∈ (shortSum id).toList, okRune c = true := by
  intro c member
  simp only [shortSum, Sha256.hex, String.toList_ofList, mem_flatMap, mem_cons, not_mem_nil,
    or_false] at member
  obtain ⟨b, -, rfl | rfl⟩ := member
  · exact okRune_hexDigit _ (by have := b.toNat_lt; omega)
  · exact okRune_hexDigit _ (Nat.mod_lt _ (by decide))

theorem component_sanitizeJobID (id : String) : Component (sanitizeJobID id) := by
  have readable := component_sanitizeJobIDBare id
  simp only [sanitizeJobID]
  split
  · exact readable
  · refine ⟨fun empty => ?_, ?_⟩
    · simp at empty
    · simp only [String.toList_append, forall_mem_append]
      exact ⟨⟨readable.2, all_eq_true.mp rfl⟩, okRune_shortSum id⟩

/-! ## Two jobs -/

theorem sanitizeJobID_lossy (lossy : Lossy id) :
    sanitizeJobID id = sanitizeJobIDBare id ++ "-" ++ shortSum id := by
  rw [sanitizeJobID, if_neg lossy]

theorem sanitizeJobID_plain (plain : ¬ Lossy id) : sanitizeJobID id = id := by
  have same := not_not.mp plain
  rw [sanitizeJobID, if_pos same, same]

theorem Spells.same (spells : Spells id' id) : sanitizeJobID id' = sanitizeJobID id := by
  rw [sanitizeJobID_plain spells.2.1, sanitizeJobID_lossy spells.1, spells.2.2]

theorem length_shortSum (id : String) : (shortSum id).toList.length = 8 := by
  rw [shortSum, Sha256.length_hex, length_take, Sha256.length_digest]
  rfl

theorem spells_of_same (distinct : id ≠ id')
    (sums : Lossy id → Lossy id' → shortSum id ≠ shortSum id')
    (same : sanitizeJobID id = sanitizeJobID id') : Spells id' id ∨ Spells id id' := by
  by_cases lossy : Lossy id <;> by_cases lossy' : Lossy id'
  · rw [sanitizeJobID_lossy lossy, sanitizeJobID_lossy lossy'] at same
    -- the digests have one length, so they are compared from the end
    have texts := congrArg String.toList same
    simp only [String.toList_append] at texts
    have lengths : (shortSum id).toList.length = (shortSum id').toList.length := by
      rw [length_shortSum, length_shortSum]
    have digests := String.toList_inj.mp (append_inj' texts lengths).2
    exact absurd digests (sums lossy lossy')
  · rw [sanitizeJobID_lossy lossy, sanitizeJobID_plain lossy'] at same
    exact .inl ⟨lossy, lossy', same.symm⟩
  · rw [sanitizeJobID_plain lossy, sanitizeJobID_lossy lossy'] at same
    exact .inr ⟨lossy', lossy, same⟩
  · rw [sanitizeJobID_plain lossy, sanitizeJobID_plain lossy'] at same
    exact absurd same distinct

/-- Two jobs have directories of their own unless the id of one spells what the other,
lossy one is turned into. -/
theorem workspaces_apart_iff (root : List String) (id id' : String) (distinct : id ≠ id')
    (sums : Lossy id → Lossy id' → shortSum id ≠ shortSum id') :
    (Component (sanitizeJobID id) ∧ Component (sanitizeJobID id') ∧
      sanitizeJobID id ≠ sanitizeJobID id' ∧ target root id ≠ target root id') ↔
      ¬ Spells id' id ∧ ¬ Spells id id' := by
  constructor
  · rintro ⟨-, -, apart, -⟩
    exact ⟨fun spells => apart spells.same.symm, fun spells => apart spells.same⟩
  · rintro ⟨one, two⟩
    have apart : sanitizeJobID id ≠ sanitizeJobID id' := fun same =>
      (spells_of_same distinct sums same).elim one two
    refine ⟨component_sanitizeJobID id, component_sanitizeJobID id', apart, fun same => apart ?_⟩
    exact singleton_injective (append_cancel_left same)

theorem build_and_test_apart : target ["root"] "build" ≠ target ["root"] "test" := by
  have plain : ¬ Lossy "build" := not_not.mpr (by decide +kernel)
  have plain' : ¬ Lossy "test" := not_not.mpr (by decide +kernel)
  exact ((workspaces_apart_iff ["root"] "build" "test" (by decide)
    fun lossy => absurd lossy plain).mpr
      ⟨fun spells => plain spells.1, fun spells => plain' spells.1⟩).2.2.2

/-- The ids `a.b` and `a-b-2e7336dc` share a directory. -/
theorem spelled_id_shares_workspace :
    "a.b" ≠ "a-b-2e7336dc" ∧ Lossy "a.b" ∧ ¬ Lossy "a-b-2e7336dc" ∧
      target ["root"] "a.b" = target ["root"] "a-b-2e7336dc" := by
  have digest : shortSum "a.b" = "2e7336dc" := by decide +kernel
  have readable : sanitizeJobIDBare "a.b" = "a-b" := by decide +kernel
  have lossy : Lossy "a.b" := by
    rw [Lossy, readable]
    decide
  have plain : ¬ Lossy "a-b-2e7336dc" := not_not.mpr (by decide +kernel)
  have spells : Spells "a-b-2e7336dc" "a.b" := ⟨lossy, plain, by rw [readable, digest]; rfl⟩
  refine ⟨by decide, lossy, plain, ?_⟩
  rw [target, target, spells.same]

end KiwiCI.Workspace
