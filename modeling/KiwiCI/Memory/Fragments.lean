import KiwiCI.Memory.Enqueue
import KiwiCI.Storage.Fragments

/-!
The in-memory `InsertGeneratedFragmentTx` (`faultstore.go`), and what it and its
PostgreSQL sibling make of the run graph.

The PostgreSQL tables refuse a second job under an id, and a second job of a run
under a key.  The in-memory maps refuse neither: the call compares the keys of
the fragment with those of the run, but not with each other, and writes over a
job that has one of its ids.
-/

namespace KiwiCI.Memory

variable {req : GeneratedFragmentRequest}

open Storage Table Option List

/-! ## The call -/

def fragmentKey (parentJobID mutationSlot : String) : String := parentJobID ++ ":" ++ mutationSlot

/-- `GeneratedJobKeyIndex`: the first job of a run under a key, in id order. -/
def generatedJobKeyIndex (runID : RunID) (m : Tables) (key : String) : Option JobID :=
  ((m.jobs.select fun _ j => j.runID = runID && j.key = key).head?.bind (m.jobs.get? ·)).map (·.id)

def checkGeneratedJobKeyConflicts (runID : RunID) (jobs : List (JobID × Job))
    (existing : String → Option JobID) : Except StoreError Unit :=
  let keys := (jobs.map (·.2.key)).insertionSort (· ≤ ·)
  match keys.findSome? fun key => (existing key).map fun id => (key, id) with
  | some (key, id) => throw (.generatedJobKeyConflict runID key id)
  | none => pure ()

/-- The map keys of a fragment are the ids of its jobs, and its contracts are
contracts of those. -/
def checkFragmentShape (req : GeneratedFragmentRequest) : Except StoreError Unit := do
  req.jobs.forM fun entry => do
    validateID entry.1
    require (entry.2.id = entry.1)
      (.failed ("storage: fragment job key " ++ entry.1 ++ " carries id " ++ entry.2.id))
  req.contracts.forM fun entry => do
    validateID entry.1
    require (entry.1 ∈ req.jobs.map Prod.fst)
      (.failed ("storage: fragment contracts reference unknown job " ++ entry.1))

/-- What `InsertGeneratedFragmentTx` checks: the receipt of a replay, or nothing
for a fragment to insert. -/
def admitFragment (now : Time) (req : GeneratedFragmentRequest)
    (verify : Job → Nat → Time → Except StoreError Unit) (m : Tables) :
    Except StoreError (Option GeneratedFragmentReceipt) := do
  let slot := generatedFragmentSlot req.mutationSlot
  let parent ← orThrow (m.jobs.get? req.parentJobID) .notFound
  validateGeneratedParentLease parent req now
  match m.fragments.get? (fragmentKey req.parentJobID slot) with
  | some stored => do
    require (stored.fragmentID = req.fragmentID)
      (.generatedMutationConflict req.parentJobID slot stored.fragmentID req.fragmentID)
    pure (some stored)
  | none => do
    checkGeneratedJobKeyConflicts parent.runID req.jobs (generatedJobKeyIndex parent.runID m)
    verify parent (m.jobs.count fun _ j => j.runID = parent.runID) now
    checkFragmentShape req
    pure none

/-- The jobs, contracts and receipt of a fragment. -/
def commitFragment (req : GeneratedFragmentRequest) (receipt : GeneratedFragmentReceipt)
    (m : Tables) : Tables :=
  { m with
    jobs := req.jobs.foldl (fun jobs entry => jobs.put entry.1 entry.2) m.jobs
    contracts := req.contracts.foldl (fun contracts entry => contracts.put entry.1 entry.2) m.contracts
    fragments := m.fragments.put (fragmentKey receipt.parentJobID receipt.mutationSlot) receipt }

def receiptOf (now : Time) (req : GeneratedFragmentRequest) : GeneratedFragmentReceipt :=
  { parentJobID := req.parentJobID, leaseGeneration := req.leaseGeneration
    mutationSlot := generatedFragmentSlot req.mutationSlot, fragmentID := req.fragmentID
    children := req.children, createdAt := now }

/-- `InsertGeneratedFragmentTx`: the receipt, and whether it is a replay. -/
def insertGeneratedFragmentTx (now : Time) (req : GeneratedFragmentRequest)
    (verify : Job → Nat → Time → Except StoreError Unit) :
    Action (GeneratedFragmentReceipt × Bool) := do
  let m ← get
  match ← Attempt.lift (admitFragment now req verify m.toTables) with
  | some stored => pure (stored, true)
  | none =>
    modify fun m => { m with toTables := commitFragment req (receiptOf now req) m.toTables }
    pure (receiptOf now req, false)

/-! ## The graph -/

/-- The graph of the store. -/
def Tables.graph (m : Tables) : Graph String where
  node := fun id => (m.jobs.get? id).map jobNode
  slot := fun key => (m.fragments.get? key).map (·.fragmentID)

def slotOf (req : GeneratedFragmentRequest) : String :=
  fragmentKey req.parentJobID (generatedFragmentSlot req.mutationSlot)

theorem checkGeneratedJobKeyConflicts_ok
    (ran : checkGeneratedJobKeyConflicts runID jobs (generatedJobKeyIndex runID m) = .ok ()) :
    ∀ entry ∈ jobs, ∀ id j, m.jobs.get? id = some j → j.runID = runID → j.key ≠ entry.2.key := by
  intro entry member id j found own same
  unfold checkGeneratedJobKeyConflicts at ran
  dsimp only at ran
  split at ran
  · cases ran
  · rename_i free
    rw [findSome?_eq_none_iff] at free
    have unused := free entry.2.key (by
      rw [mem_insertionSort]
      exact mem_map.mpr ⟨entry, member, rfl⟩)
    rw [map_eq_none_iff, generatedJobKeyIndex, map_eq_none_iff] at unused
    have taken : id ∈ m.jobs.select fun _ j => j.runID = runID && j.key = entry.2.key :=
      mem_select.mpr ⟨j, found, by simp [own, same]⟩
    cases first : (m.jobs.select fun _ j => j.runID = runID && j.key = entry.2.key) with
    | nil =>
      rw [first] at taken
      cases taken
    | cons head rest =>
      obtain ⟨other, there, _⟩ := mem_select.mp
        (show head ∈ m.jobs.select fun _ j => j.runID = runID && j.key = entry.2.key by simp [first])
      rw [first, head?_cons, bind_some, there] at unused
      cases unused

theorem admitFragment_inv {verify : Job → Nat → Time → Except StoreError Unit}
    (ran : admitFragment now req verify m = .ok found) :
    ∃ parent, m.jobs.get? req.parentJobID = some parent ∧ req.Leased parent now ∧
      m.fragments.get? (slotOf req) = found ∧
      (found.all fun stored => stored.fragmentID = req.fragmentID) = true ∧
      (found = none → checkFragmentShape req = .ok () ∧
        ∀ entry ∈ req.jobs, ∀ id j, m.jobs.get? id = some j → j.runID = parent.runID →
          j.key ≠ entry.2.key) := by
  simp only [admitFragment, bind_ok_iff, orThrow_ok_iff] at ran
  obtain ⟨parent, there, _, lease, ran⟩ := ran
  refine ⟨parent, there, validateGeneratedParentLease_ok.mp lease, ?_⟩
  change (match m.fragments.get? (slotOf req) with | some stored => _ | none => _) = _ at ran
  cases held : m.fragments.get? (slotOf req) with
  | some stored =>
    rw [held] at ran
    simp only [bind_ok_iff, require_ok_iff, pure_ok_iff] at ran
    obtain ⟨_, same, rfl⟩ := ran
    exact ⟨rfl, by simp [same], fun absent => by cases absent⟩
  | none =>
    rw [held] at ran
    simp only [bind_ok_iff, pure_ok_iff] at ran
    obtain ⟨_, unused, _, -, _, shape, rfl⟩ := ran
    exact ⟨rfl, rfl, fun _ => ⟨shape, checkGeneratedJobKeyConflicts_ok unused⟩⟩

/-- How a call ends: it fails and leaves the store, it finds its own fragment and
leaves the store, or it writes its fragment. -/
theorem insertGeneratedFragmentTx_eq (now : Time) (req : GeneratedFragmentRequest)
    (verify : Job → Nat → Time → Except StoreError Unit) (s : Store) :
    insertGeneratedFragmentTx now req verify s =
      match admitFragment now req verify s.toTables with
      | .error e => .error e s
      | .ok (some stored) => .ok (stored, true) s
      | .ok none => .ok (receiptOf now req, false)
        { s with toTables := commitFragment req (receiptOf now req) s.toTables } := by
  have read {α : Type} (f : Store → Action α) : (get >>= f) s = f s s := rfl
  unfold insertGeneratedFragmentTx
  rw [read]
  cases admitFragment now req verify s.toTables with
  | error e => rfl
  | ok found => cases found <;> rfl

/-! ## One call -/

/-- The ids of the fragment are new, its jobs belong to the run of the parent and
have different keys. -/
def Careful (req : GeneratedFragmentRequest) (m : Tables) : Prop :=
  (∀ id ∈ req.jobs.map Prod.fst, m.jobs.get? id = none) ∧
    ∀ parent ∈ m.jobs.get? req.parentJobID, req.Tidy parent

instance (req : GeneratedFragmentRequest) (m : Tables) : Decidable (Careful req m) :=
  inferInstanceAs (Decidable ((∀ id ∈ req.jobs.map Prod.fst, m.jobs.get? id = none) ∧
    ∀ parent ∈ m.jobs.get? req.parentJobID, req.Tidy parent))

theorem Careful.absent (careful : Careful req m)
    {id : JobID} (found : m.jobs.get? id = some j) : id ∉ req.jobs.map Prod.fst := by
  intro member
  rw [careful.1 id member] at found
  cases found

theorem commitFragment_fills (there : m.jobs.get? req.parentJobID = some parent)
    (empty : m.fragments.get? (slotOf req) = none)
    (unused : ∀ entry ∈ req.jobs, ∀ id j, m.jobs.get? id = some j → j.runID = parent.runID →
      j.key ≠ entry.2.key) (careful : Careful req m) :
    Graph.Fills (slotOf req) req.fragmentID (req.jobs.map fun entry => (entry.1, jobNode entry.2))
      m.graph (commitFragment req (receiptOf now req) m).graph := by
  obtain ⟨own, nodup⟩ := careful.2 parent there
  refine ⟨?_, fun other => ?_, fun id node held => ?_, fun id node held => ?_,
    fun item member id held => ?_, fun a inA b inB same => ?_⟩
  · change (m.fragments.get? (slotOf req)).map _ = none
    rw [empty, map_none]
  · change ((m.fragments.put (slotOf req) _).get? other).map _ = _
    rw [get?_put]
    split <;> rfl
  · obtain ⟨j, found, rfl⟩ := map_eq_some_iff.mp held
    refine map_eq_some_iff.mpr ⟨j, ?_, rfl⟩
    exact (get?_foldl_put_of_not_mem _ (careful.absent found)).trans found
  · obtain ⟨j, found, rfl⟩ := map_eq_some_iff.mp held
    rcases get?_foldl_put found with old | put
    · exact .inl (map_eq_some_iff.mpr ⟨j, old, rfl⟩)
    · exact .inr (mem_map.mpr ⟨(id, j), put, rfl⟩)
  · obtain ⟨entry, inside, rfl⟩ := mem_map.mp member
    obtain ⟨j, found, same⟩ := map_eq_some_iff.mp held
    obtain ⟨sameRun, sameKey⟩ := Prod.mk.inj same
    exact unused entry inside id j found
      (sameRun.trans (own _ (mem_map.mpr ⟨entry, inside, rfl⟩))) sameKey
  · obtain ⟨entry, inside, rfl⟩ := mem_map.mp inA
    obtain ⟨entry', inside', rfl⟩ := mem_map.mp inB
    have keys : (req.jobs.map fun entry => entry.2.key).Nodup := by
      rwa [GeneratedFragmentRequest.items, List.map_map] at nodup
    have equal := inj_on_of_nodup_map keys inside inside' (congrArg Prod.snd same)
    rw [equal]

/-- The store after a call, however it ends. -/
def afterFragment (now : Time) (req : GeneratedFragmentRequest)
    (verify : Job → Nat → Time → Except StoreError Unit) (s : Store) : Store :=
  match insertGeneratedFragmentTx now req verify s with
  | .ok _ s' | .error _ s' => s'

/-- The store is left, or an empty slot is filled under the current lease of the
parent. -/
theorem afterFragment_cases (now : Time) (req : GeneratedFragmentRequest)
    (verify : Job → Nat → Time → Except StoreError Unit) (s : Store) :
    afterFragment now req verify s = s ∨
      afterFragment now req verify s =
          { s with toTables := commitFragment req (receiptOf now req) s.toTables } ∧
        admitFragment now req verify s.toTables = .ok none := by
  rw [afterFragment, insertGeneratedFragmentTx_eq]
  cases admitFragment now req verify s.toTables with
  | error e => exact .inl rfl
  | ok found =>
    cases found with
    | some stored => exact .inl rfl
    | none => exact .inr ⟨rfl, rfl⟩

/-- One call to insert a fragment, as `Storage.FragmentCall`; that the jobs there
stay, and their contracts, takes a careful request. -/
structure FragmentCall (now : Time) (req : GeneratedFragmentRequest)
    (verify : Job → Nat → Time → Except StoreError Unit) (s s' : Store) : Prop where
  replayed : ∀ digest, s.graph.slot (slotOf req) = some digest → s' = s
  acknowledged : (∃ parent ∈ s.jobs.get? req.parentJobID, req.Leased parent now) →
    s.graph.slot (slotOf req) = some req.fragmentID →
    ∃ receipt, insertGeneratedFragmentTx now req verify s = .ok (receipt, true) s
  stale : (∀ parent ∈ s.jobs.get? req.parentJobID, ¬req.Leased parent now) → s' = s
  jobs : Careful req s.toTables → ∀ id j, s.jobs.get? id = some j → s'.jobs.get? id = some j
  contracts : Careful req s.toTables → ∀ id j, s.jobs.get? id = some j →
    s'.contracts.get? id = s.contracts.get? id
  others : s' = { s with jobs := s'.jobs, contracts := s'.contracts, fragments := s'.fragments }

theorem fragmentCall (now : Time) (req : GeneratedFragmentRequest)
    (verify : Job → Nat → Time → Except StoreError Unit) (s : Store) :
    FragmentCall now req verify s (afterFragment now req verify s) := by
  have unchanged : FragmentCall now req verify s s := by
    refine ⟨fun _ _ => rfl, ?_, fun _ => rfl, fun _ _ _ found => found, fun _ _ _ _ => rfl, rfl⟩
    rintro ⟨parent, there, leased⟩ filled
    obtain ⟨stored, held, same⟩ := map_eq_some_iff.mp filled
    have admitted : admitFragment now req verify s.toTables = .ok (some stored) := by
      simp only [admitFragment, bind_ok_iff, orThrow_ok_iff]
      refine ⟨parent, there, (), validateGeneratedParentLease_ok.mpr leased, ?_⟩
      change (match s.fragments.get? (slotOf req) with | some stored => _ | none => _) = _
      rw [held]
      exact bind_ok_iff.mpr ⟨(), require_ok_iff.mpr same, rfl⟩
    exact ⟨stored, by rw [insertGeneratedFragmentTx_eq, admitted]⟩
  rcases afterFragment_cases now req verify s with same | ⟨written, admitted⟩
  · rwa [same]
  obtain ⟨parent, there, leased, empty, _, checked⟩ := admitFragment_inv admitted
  obtain ⟨shape, _⟩ := checked rfl
  rw [written]
  refine ⟨fun digest held => ?_, unchanged.acknowledged,
    fun stale => absurd leased (stale parent there), fun careful id j found => ?_,
    fun careful id j found => ?_, rfl⟩
  · obtain ⟨stored, held, _⟩ := map_eq_some_iff.mp held
    rw [empty] at held
    cases held
  · exact (get?_foldl_put_of_not_mem _ (careful.absent found)).trans found
  · refine get?_foldl_put_of_not_mem _ fun member => ?_
    obtain ⟨entry, inside, rfl⟩ := mem_map.mp member
    simp only [checkFragmentShape, bind_ok_iff, forM_ok_iff, require_ok_iff] at shape
    obtain ⟨_, _, named⟩ := shape
    obtain ⟨_, _, known⟩ := named entry inside
    exact careful.absent found known

/-! ## Runs -/

/-- A claim, a completion or a recovery: it writes neither the run nor the key of
a job, and no receipt. -/
structure LifecycleCall where
  effect : Store → Store
  graph : ∀ s, (effect s).graph = s.graph

/-- The calls a store sees. -/
inductive FragmentEvent where
  | fragment (now : Time) (req : GeneratedFragmentRequest)
      (verify : Job → Nat → Time → Except StoreError Unit)
  | lifecycle (call : LifecycleCall)

namespace FragmentEvent

def step : FragmentEvent → Store → Store
  | .fragment now req verify, s => afterFragment now req verify s
  | .lifecycle call, s => call.effect s

def careful : FragmentEvent → Store → Prop
  | .fragment _ req _, s => Careful req s.toTables
  | .lifecycle _, _ => True

instance : ∀ (event : FragmentEvent) (s : Store), Decidable (event.careful s)
  | .fragment _ req _, s => inferInstanceAs (Decidable (Careful req s.toTables))
  | .lifecycle _, _ => inferInstanceAs (Decidable True)

theorem step_graph {event : FragmentEvent} {s : Store} (careful : event.careful s) :
    (event.step s).graph = s.graph ∨
      ∃ key digest items, Graph.Fills key digest items s.graph (event.step s).graph := by
  cases event with
  | lifecycle call => exact .inl (call.graph s)
  | fragment now req verify =>
    rcases afterFragment_cases now req verify s with same | ⟨written, admitted⟩
    · exact .inl (by rw [step, same])
    · obtain ⟨parent, there, _, empty, _, checked⟩ := admitFragment_inv admitted
      rw [step, written]
      exact .inr ⟨_, _, _, commitFragment_fills there empty (checked rfl).2 careful⟩

end FragmentEvent

/-- **Generated fragments are one-shot and additive.**  Over every run of claims,
endings and fragments, in PostgreSQL with its unique index or under tidy
fragments, in memory under careful ones: jobs keep their run and key and filled
slots their digest, no two jobs of a run share a key, and in every state reached
each call to insert a fragment is as `FragmentCall` says. -/
theorem fragments_one_shot_and_additive (base : DB) (ops : List Op) (store : Store)
    (events : List FragmentEvent) :
    (base.graph.KeysUnique → Guarded Storage.step Op.keepsKeys ops base →
      let db := run Storage.step ops base
      base.graph.Grows db.graph ∧ db.graph.KeysUnique ∧
        ∀ c req verify, Storage.FragmentCall c req verify db
          (Storage.step (.insertGeneratedFragment c req verify) db)) ∧
    (store.graph.KeysUnique → Guarded FragmentEvent.step FragmentEvent.careful events store →
      let s := run FragmentEvent.step events store
      store.graph.Grows s.graph ∧ s.graph.KeysUnique ∧
        ∀ now req verify, FragmentCall now req verify s (afterFragment now req verify s)) := by
  constructor
  · intro unique met db
    obtain ⟨grows, unique⟩ : base.graph.Grows db.graph ∧ db.graph.KeysUnique :=
      run_grows Storage.step DB.graph (fun op db kept => Storage.step_graph kept) met unique
    exact ⟨grows, unique, fun c req verify => Storage.fragmentCall c req verify db⟩
  · intro unique met s
    obtain ⟨grows, unique⟩ : store.graph.Grows s.graph ∧ s.graph.KeysUnique :=
      run_grows FragmentEvent.step (fun s : Store => s.graph)
        (fun event s careful => FragmentEvent.step_graph careful) met unique
    exact ⟨grows, unique, fun now req verify => fragmentCall now req verify s⟩

namespace Plan

def runID : RunID := "000000000000000000000000000000ff"

/-- A running job, under the lease of a runner. -/
def parent : Job :=
  { id := "0000000000000000000000000000000a", runID, key := "plan", status := .running
    leaseRunnerID := "0000000000000000000000000000000f", leaseTokenHash := [1], leaseGeneration := 1
    leaseExpiresAt := some 10 }

/-- A job of the same run that is done. -/
def done : Job :=
  { id := "0000000000000000000000000000000b", runID, key := "build", status := .success }

def start : Store :=
  { jobs := (Table.empty.put parent.id parent).put done.id done }

def fragment (digest : String) (jobs : List Job) : GeneratedFragmentRequest :=
  { parentJobID := parent.id, runnerID := parent.leaseRunnerID, leaseGeneration := 1
    leaseTokenHash := [1], fragmentID := digest, jobs := jobs.map fun j => (j.id, j) }

def lint : Job :=
  { id := "0000000000000000000000000000000c", runID, key := "lint", status := .queued }

/-- A second job under the same key. -/
def again : Job := { lint with id := "0000000000000000000000000000000d" }

/-- A job under a new key, with the id of the job that is done. -/
def intruder : Job := { lint with id := done.id }

/-- A verifier that accepts. -/
def accepts : Job → Nat → Time → Except StoreError Unit := fun _ _ _ => .ok ()

end Plan

open Plan in
/-- A fragment with one key twice leaves the run with two jobs of that key, and a
fragment with the id of a finished job puts a queued one in its place. -/
theorem careless_fragments_rewrite_the_run :
    (afterFragment 0 (fragment "d" [lint, again]) accepts start).graph.node lint.id =
        (afterFragment 0 (fragment "d" [lint, again]) accepts start).graph.node again.id ∧
      (afterFragment 0 (fragment "d" [lint, again]) accepts start).graph.node lint.id =
        some (runID, "lint") ∧
      (start.jobs.get? done.id).map (·.status) = some .success ∧
      ((afterFragment 0 (fragment "d" [intruder]) accepts start).jobs.get? done.id).map (·.status) =
        some .queued := by
  decide +kernel

open Plan in
/-- Once the slot is filled, another fragment changes nothing. -/
theorem second_fragment_changes_nothing :
    (afterFragment 0 (fragment "d" [lint]) accepts start).graph.node lint.id = some (runID, "lint") ∧
      afterFragment 1 (fragment "e" [again]) accepts
          (run FragmentEvent.step [.fragment 0 (fragment "d" [lint]) accepts] start) =
        run FragmentEvent.step [.fragment 0 (fragment "d" [lint]) accepts] start := by
  have unique : start.graph.KeysUnique := by
    have read : ∀ id node, start.graph.node id = some node →
        (id = done.id ∧ node = jobNode done) ∨ (id = parent.id ∧ node = jobNode parent) := by
      intro id node held
      change (((Table.empty.put parent.id parent).put done.id done).get? id).map jobNode = _ at held
      rw [get?_put, get?_put] at held
      split at held <;> rename_i isDone
      · exact .inl ⟨isDone, (some.inj held).symm⟩
      · split at held <;> rename_i isParent
        · exact .inr ⟨isParent, (some.inj held).symm⟩
        · simp at held
    intro a b node first second
    rcases read a node first with ⟨rfl, rfl⟩ | ⟨rfl, rfl⟩ <;>
      rcases read b _ second with ⟨rfl, same⟩ | ⟨rfl, same⟩
    · rfl
    · exact absurd same (by decide)
    · exact absurd same (by decide)
    · rfl
  obtain ⟨_, _, calls⟩ := (fragments_one_shot_and_additive {} [] start
    [.fragment 0 (fragment "d" [lint]) accepts]).2 unique (by decide +kernel)
  exact ⟨by decide +kernel, (calls 1 (fragment "e" [again]) accepts).replayed "d" (by decide +kernel)⟩

end KiwiCI.Memory
