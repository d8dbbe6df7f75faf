import KiwiCI.Storage.Insertion
import KiwiCI.Storage.Resolution

/-!
Generated fragments as a growing graph.

A store is seen as the run and key of each of its jobs, and the digest of the
fragment that filled each slot (`Graph`).  A fragment fills an empty slot and
adds jobs under keys that nobody has (`Graph.Fills`); everything else leaves the
graph alone.  `insertGeneratedFragmentTx_cases` says what a call of the
PostgreSQL store made of the tables, and `step_graph` what every call of a run
makes of the graph.
-/

namespace KiwiCI.Storage

variable {req : GeneratedFragmentRequest}

variable {db : DB}

open Table List Option

/-! ## Graphs -/

/-- The run and key of every job, and the digest that filled each slot. -/
structure Graph (κ : Type) where
  node : JobID → Option (RunID × String)
  slot : κ → Option String

namespace Graph

variable {κ : Type}

/-- No two jobs of a run share a key. -/
def KeysUnique (g : Graph κ) : Prop :=
  ∀ a b node, g.node a = some node → g.node b = some node → a = b

/-- Jobs keep their run and key, filled slots their digest. -/
structure Grows (g g' : Graph κ) : Prop where
  node : ∀ id node, g.node id = some node → g'.node id = some node
  slot : ∀ key digest, g.slot key = some digest → g'.slot key = some digest

theorem Grows.refl (g : Graph κ) : g.Grows g := ⟨fun _ _ => id, fun _ _ => id⟩

theorem Grows.trans {a c : Graph κ} (first : a.Grows b) (second : b.Grows c) : a.Grows c where
  node := fun id node held => second.node id node (first.node id node held)
  slot := fun key digest held => second.slot key digest (first.slot key digest held)

variable [DecidableEq κ] {g g' : Graph κ}

/-- An empty slot is filled, and jobs are added under keys nobody has. -/
structure Fills (key : κ) (digest : String) (items : List (JobID × RunID × String))
    (g g' : Graph κ) : Prop where
  empty : g.slot key = none
  filled : ∀ other, g'.slot other = if other = key then some digest else g.slot other
  kept : ∀ id node, g.node id = some node → g'.node id = some node
  only : ∀ id node, g'.node id = some node → g.node id = some node ∨ (id, node) ∈ items
  unused : ∀ item ∈ items, ∀ id, g.node id ≠ some item.2
  distinct : ∀ a ∈ items, ∀ b ∈ items, a.2 = b.2 → a.1 = b.1

variable {key : κ} {digest : String} {items : List (JobID × RunID × String)}

theorem Fills.grows (fills : Fills key digest items g g') : g.Grows g' where
  node := fills.kept
  slot := by
    intro other held there
    rw [fills.filled]
    split <;> rename_i same
    · rw [same, fills.empty] at there
      cases there
    · exact there

theorem Fills.keysUnique (fills : Fills key digest items g g') (unique : g.KeysUnique) :
    g'.KeysUnique := by
  intro a b node first second
  rcases fills.only a node first with oldA | newA
  · rcases fills.only b node second with oldB | newB
    · exact unique a b node oldA oldB
    · exact absurd oldA (fills.unused _ newB a)
  · rcases fills.only b node second with oldB | newB
    · exact absurd oldB (fills.unused _ newA b)
    · exact fills.distinct _ newA _ newB rfl

end Graph

/-! ## The graph of the PostgreSQL store -/

def JobRow.node (row : JobRow) : RunID × String := (row.runID, row.key)

/-- The graph of a store. -/
def DB.graph (db : DB) : Graph (JobID × String) where
  node := fun id => (db.jobs.get? id).map JobRow.node
  slot := fun key => (db.generatedFragments.get? key).map (·.fragmentID)

section Lifecycle

variable {db db' : DB} {id : JobID} {row row' : JobRow}

theorem DB.graph_congr (jobs : db'.jobs = db.jobs)
    (fragments : db'.generatedFragments = db.generatedFragments) : db'.graph = db.graph := by
  rw [DB.graph, jobs, fragments, DB.graph]

theorem DB.graph_put (found : db.jobs.get? id = some row)
    (written : db'.jobs = db.jobs.put id row') (node : row'.node = row.node)
    (fragments : db'.generatedFragments = db.generatedFragments) : db'.graph = db.graph := by
  rw [DB.graph, fragments, DB.graph, Graph.mk.injEq]
  refine ⟨funext fun other => ?_, rfl⟩
  rw [written, get?_put]
  split <;> rename_i same
  · rw [same, found, map_some, map_some, node]
  · rfl

theorem JobRow.Evolves.node (evolves : row.Evolves row') : row'.node = row.node := by
  rw [JobRow.node, evolves.runID, evolves.key, JobRow.node]

theorem EndsAll.graph (all : EndsAll ended db db') :
    db'.graph = db.graph := by
  induction all with
  | nil follows => exact DB.graph_congr follows.jobs follows.config.fragments
  | cons ends _ ih =>
    exact ih.trans (DB.graph_put ends.found ends.jobs ends.ended.evolves.node ends.config.fragments)

theorem recomputes_graph {dependents : List JobID}
    (ran : dependents.foldlM (recomputeDependentTx now) db = .ok db') : db'.graph = db.graph := by
  refine foldlM_same DB.graph ?_ ran
  intro depID _ db db' one
  rcases recomputeDependentTx_inv one with ⟨rfl, _⟩ | ⟨row, outcome, found, _, _, _, rfl⟩
  · rfl
  · generalize resolveDependent now row.payload.job outcome = d
    exact DB.graph_put found rfl rfl rfl

theorem Op.graph_of_lifecycle {op : Op} (kind : (op.isClaim || op.ending) = true)
    (ran : op.exec db = .ok db') : db'.graph = db.graph := by
  cases isClaim : op.isClaim with
  | true =>
    obtain ⟨c, claim, r, effective, row, _, _, committed⟩ := Op.claim isClaim ran
    exact DB.graph_put committed.found committed.jobs rfl committed.config.fragments
  | false =>
    rw [isClaim, Bool.false_or] at kind
    rcases Op.settlement kind ran with rfl | ⟨now, left, resolved, all, recomputed, follows⟩
    · rfl
    · have loop := recomputes_graph (recomputeAll_flat recomputed)
      exact (DB.graph_congr follows.jobs follows.config.fragments).trans (loop.trans all.graph)

end Lifecycle

/-! ## One call -/

def jobNode (j : Job) : RunID × String := (j.runID, j.key)

namespace GeneratedFragmentRequest

def slotKey (req : GeneratedFragmentRequest) : JobID × String :=
  (req.parentJobID, generatedFragmentSlot req.mutationSlot)

def items (req : GeneratedFragmentRequest) : List Job := req.jobs.map Prod.snd

/-- The request presents the running lease of its parent, alive at `now`. -/
def Leased (req : GeneratedFragmentRequest) (parent : Job) (now : Time) : Prop :=
  parent.status = .running ∧ parent.leaseRunnerID = req.runnerID ∧
    parent.leaseGeneration = req.leaseGeneration ∧
    (parent.leaseTokenHash ≠ [] ∧ parent.leaseTokenHash = req.leaseTokenHash) ∧
    parent.leaseExpiresAt.any (now < ·) = true

/-- The jobs belong to the run of the parent, under different keys. -/
def Tidy (req : GeneratedFragmentRequest) (parent : Job) : Prop :=
  (∀ j ∈ req.items, j.runID = parent.runID) ∧ (req.items.map (·.key)).Nodup

instance (req : GeneratedFragmentRequest) (parent : Job) : Decidable (req.Tidy parent) :=
  inferInstanceAs (Decidable ((∀ j ∈ req.items, j.runID = parent.runID) ∧
    (req.items.map (·.key)).Nodup))

end GeneratedFragmentRequest

theorem validateGeneratedParentLease_ok :
    validateGeneratedParentLease parent req now = .ok () ↔ req.Leased parent now := by
  simp [validateGeneratedParentLease, bind_ok_iff, require_ok_iff,
    GeneratedFragmentRequest.Leased]

theorem checkGeneratedJobKeyConflicts_ok
    (ran : checkGeneratedJobKeyConflicts runID jobs db = .ok ()) :
    ∀ entry ∈ jobs, ∀ id row, db.jobs.get? id = some row → row.runID = runID →
      row.key ≠ entry.2.key := by
  intro entry member id row found own same
  unfold checkGeneratedJobKeyConflicts at ran
  dsimp only at ran
  split at ran
  · cases ran
  · rename_i free
    rw [findSome?_eq_none_iff] at free
    have unused := free entry.2.key (by
      rw [mem_insertionSort]
      exact mem_map.mpr ⟨entry, member, rfl⟩)
    rw [map_eq_none_iff, head?_eq_none_iff] at unused
    have taken : id ∈ db.jobs.select fun _ row => row.runID = runID && row.key = entry.2.key :=
      mem_select.mpr ⟨row, found, by simp [own, same]⟩
    rw [unused] at taken
    cases taken

/-- The unique index refuses a run and key that are taken. -/
theorem insertJobRowTx_indexed (indexed : db.runKeyIndex = true)
    (ran : insertJobRowTx db j = .ok db') :
    ∀ id row, db.jobs.get? id = some row → row.node ≠ jobNode j := by
  simp only [insertJobRowTx, bind_ok_iff, require_ok_iff] at ran
  obtain ⟨_, -, _, -, _, free, -⟩ := ran
  intro id row found same
  rcases free with absent | free
  · rw [indexed] at absent
    cases absent
  · have taken : id ∈ db.jobs.select fun _ row => row.runID = j.runID && row.key = j.key := by
      obtain ⟨own, key⟩ := Prod.mk.inj same
      exact mem_select.mpr ⟨row, found, by simp [own, key]⟩
    rw [free] at taken
    cases taken

theorem insertJobRows_indexed {items : List Job} (indexed : db.runKeyIndex = true)
    (ran : items.foldlM insertJobRowTx db = .ok db') :
    (∀ j ∈ items, ∀ id row, db.jobs.get? id = some row → row.node ≠ jobNode j) ∧
      (items.map jobNode).Nodup := by
  induction ran using foldlM_ok_induction with
  | nil => simp
  | cons head rest db mid first tail ih =>
    have free := insertJobRowTx_indexed indexed first
    obtain ⟨absent, rfl⟩ := insertJobRowTx_inv first
    obtain ⟨later, nodup⟩ := ih (by exact indexed)
    refine ⟨fun j member id row found => ?_, ?_⟩
    · rcases mem_cons.mp member with rfl | member
      · exact free id row found
      · refine later j member id row ?_
        have differ : id ≠ head.id := by
          rintro rfl
          rw [absent] at found
          cases found
        rw [get?_put_ne _ _ differ]
        exact found
    · rw [map_cons, nodup_cons]
      refine ⟨fun member => ?_, nodup⟩
      obtain ⟨j, inside, same⟩ := mem_map.mp member
      exact later j inside head.id (.write head) (get?_put_self _ _ _) same.symm

theorem insertContracts_unnamed {contracts : List (JobID × List ArtifactContract)}
    (ran : contracts.foldlM insertContractsTx db = .ok db') {id : JobID}
    (unnamed : id ∉ contracts.map Prod.fst) : db'.jobs.get? id = db.jobs.get? id := by
  refine foldlM_same (·.jobs.get? id) ?_ ran
  intro entry member db db' noted
  obtain ⟨_, _, noted⟩ := bind_ok_iff.mp noted
  rw [← pure_ok_iff.mp noted]
  refine get?_modify_ne _ _ ?_
  rintro rfl
  exact unnamed (mem_map.mpr ⟨entry, member, rfl⟩)

/-- A fragment was inserted: its slot was empty and carries its receipt, its jobs
are new, and what was there stays. -/
structure FragmentFilled (req : GeneratedFragmentRequest) (parent : Job) (db db' : DB) : Prop where
  empty : db.generatedFragments.get? req.slotKey = none
  receipt : db'.generatedFragments = db.generatedFragments.put req.slotKey
    { leaseGeneration := req.leaseGeneration, fragmentID := req.fragmentID
      children := req.children }
  unused : ∀ entry ∈ req.jobs, ∀ id row, db.jobs.get? id = some row → row.runID = parent.runID →
    row.key ≠ entry.2.key
  indexed : db.runKeyIndex = true →
    (∀ j ∈ req.items, ∀ id row, db.jobs.get? id = some row → row.node ≠ jobNode j) ∧
      (req.items.map jobNode).Nodup
  inserts : Inserts req.items db db'
  unnamed : ∀ id row, db.jobs.get? id = some row → id ∉ req.contracts.map Prod.fst →
    db'.jobs.get? id = some row
  edges : ∀ edge : JobID × JobID, (db.jobs.get? edge.1).isSome = true →
    (edge ∈ db'.dependencies ↔ edge ∈ db.dependencies)
  only : db' = { db with
    jobs := db'.jobs, dependencies := db'.dependencies
    generatedFragments := db'.generatedFragments }

theorem FragmentFilled.ofLoops {parent : Job}
    (empty : db.generatedFragments.get? req.slotKey = none)
    (unused : ∀ entry ∈ req.jobs, ∀ id row, db.jobs.get? id = some row →
      row.runID = parent.runID → row.key ≠ entry.2.key)
    (rows : req.items.foldlM insertJobRowTx db = .ok withJobs)
    (needs : req.items.foldlM replaceDependenciesTx withJobs = .ok withEdges)
    (contracts : req.contracts.foldlM insertContractsTx withEdges = .ok noted) :
    FragmentFilled req parent db { noted with
      generatedFragments := noted.generatedFragments.put req.slotKey
        { leaseGeneration := req.leaseGeneration, fragmentID := req.fragmentID
          children := req.children } } := by
  obtain ⟨inserts, only⟩ := Inserts.ofLoops rows needs contracts
  obtain ⟨_, fresh, nodup, held⟩ := insertJobRows_inv rows
  obtain ⟨onlyEdges, edgeIff⟩ := replaceAllDependencies_inv nodup needs
  have sameFragments : noted.generatedFragments = db.generatedFragments := by rw [only]
  have sameJobs : withEdges.jobs = withJobs.jobs := by rw [onlyEdges]
  have sameEdges : noted.dependencies = withEdges.dependencies := by
    rw [(insertContracts_plain contracts).1]
  have startEdges : withJobs.dependencies = db.dependencies := by rw [(insertJobRows_inv rows).1]
  refine ⟨empty, by rw [sameFragments], unused, fun indexed => insertJobRows_indexed indexed rows,
    ⟨inserts.fresh, inserts.nodup, inserts.kept, inserts.added, inserts.only, inserts.edges,
      inserts.onlyEdges, inserts.count⟩, fun id row found unnamed => ?_, fun edge present => ?_, ?_⟩
  · change noted.jobs.get? id = _
    rw [insertContracts_unnamed contracts unnamed, sameJobs]
    exact (held id row).mpr (.inl found)
  · change edge ∈ noted.dependencies ↔ _
    have old : ∀ j ∈ req.items, edge.1 ≠ j.id := by
      intro j member same
      rw [same, fresh j member] at present
      cases present
    rw [sameEdges, edgeIff, startEdges]
    constructor
    · rintro (⟨member, _⟩ | ⟨j, member, same, _⟩)
      · exact member
      · exact absurd same (old j member)
    · exact fun member => .inl ⟨member, old⟩
  · rw [only]

/-- The job record of the parent, as the call reads it. -/
def DB.parentOf (db : DB) (req : GeneratedFragmentRequest) : Option Job :=
  (db.jobs.get? req.parentJobID).bind (·.job req.parentJobID)

/-- A call that goes through presents the current lease of its parent; it finds
its own fragment in the slot and does nothing, or fills the empty slot. -/
theorem insertGeneratedFragmentTx_cases
    (ran : insertGeneratedFragmentTx c req verify db = .ok db') :
    ∃ parent, db.parentOf req = some parent ∧ req.Leased parent c.now ∧
      ((db.graph.slot req.slotKey = some req.fragmentID ∧ db' = db) ∨
        FragmentFilled req parent db db') := by
  simp only [insertGeneratedFragmentTx, bind_ok_iff, orThrow_ok_iff, require_ok_iff] at ran
  obtain ⟨_, -, _, -, _, -, row, found, parent, read, _, lease, ran⟩ := ran
  refine ⟨parent, by rw [DB.parentOf, found]; exact read, validateGeneratedParentLease_ok.mp lease, ?_⟩
  split at ran
  · rename_i stored there
    obtain ⟨_, same, ran⟩ := bind_ok_iff.mp ran
    rw [require_ok_iff] at same
    refine .inl ⟨?_, (pure_ok_iff.mp ran).symm⟩
    change (db.generatedFragments.get? req.slotKey).map _ = _
    rw [show db.generatedFragments.get? req.slotKey = some stored from there, map_some, same]
  · rename_i empty
    simp only [bind_ok_iff, pure_ok_iff] at ran
    obtain ⟨_, unused, _, -, withJobs, jobs, withEdges, edges, noted, contracts, rfl⟩ := ran
    have rows : req.items.foldlM insertJobRowTx db = .ok withJobs := by
      refine foldlM_map_of (fun entry s s' one => ?_) jobs
      obtain ⟨_, -, row⟩ := bind_ok_iff.mp one
      exact row
    have needs : req.items.foldlM replaceDependenciesTx withJobs = .ok withEdges := by
      rw [GeneratedFragmentRequest.items, foldlM_map]
      exact edges
    exact .inr (.ofLoops empty (checkGeneratedJobKeyConflicts_ok unused) rows needs contracts)

/-- In the graph: the unique index, or the caller's care, keeps the keys apart. -/
theorem FragmentFilled.fills
    (filled : FragmentFilled req parent db db') (apart : db.runKeyIndex = true ∨ req.Tidy parent) :
    Graph.Fills req.slotKey req.fragmentID (req.items.map fun j => (j.id, jobNode j))
      db.graph db'.graph := by
  have keys : (∀ j ∈ req.items, ∀ id row, db.jobs.get? id = some row → row.node ≠ jobNode j) ∧
      (req.items.map jobNode).Nodup := by
    rcases apart with indexed | ⟨own, nodup⟩
    · exact filled.indexed indexed
    · refine ⟨fun j member id row found same => ?_, ?_⟩
      · obtain ⟨entry, inside, rfl⟩ := mem_map.mp member
        obtain ⟨sameRun, sameKey⟩ := Prod.mk.inj same
        exact filled.unused entry inside id row found (sameRun.trans (own _ member)) sameKey
      · refine Nodup.of_map Prod.snd ?_
        rwa [List.map_map]
  have noded : ∀ {row row' : JobRow}, row'.plain = row.plain → row'.node = row.node := by
    intro row row' same
    have read : row'.plain.node = row.plain.node := by rw [same]
    exact read
  refine ⟨?_, fun other => ?_, fun id node held => ?_, fun id node held => ?_,
    fun item member id held => ?_, fun a inA b inB same => ?_⟩
  · change (db.generatedFragments.get? req.slotKey).map _ = none
    rw [filled.empty, map_none]
  · change (db'.generatedFragments.get? other).map _ = _
    rw [filled.receipt, get?_put]
    split <;> rfl
  · obtain ⟨row, found, rfl⟩ := map_eq_some_iff.mp held
    obtain ⟨row', there, same⟩ := filled.inserts.kept id row found
    exact map_eq_some_iff.mpr ⟨row', there, noded same⟩
  · obtain ⟨row', there, rfl⟩ := map_eq_some_iff.mp held
    rcases filled.inserts.only id row' there with ⟨row, found, same⟩ | ⟨j, member, rfl, same⟩
    · exact .inl (map_eq_some_iff.mpr ⟨row, found, (noded same).symm⟩)
    · have read : row'.plain.node = (JobRow.write j).node := by rw [same]
      exact .inr (mem_map.mpr ⟨j, member, Prod.ext rfl read.symm⟩)
  · obtain ⟨j, inside, rfl⟩ := mem_map.mp member
    obtain ⟨row, found, same⟩ := map_eq_some_iff.mp held
    exact keys.1 j inside id row found same
  · obtain ⟨j, inside, rfl⟩ := mem_map.mp inA
    obtain ⟨k, alsoInside, rfl⟩ := mem_map.mp inB
    exact congrArg Job.id (inj_on_of_nodup_map keys.2 inside alsoInside same)

/-! ## Runs -/

/-- Claims, endings, and fragments whose jobs the unique index or the caller
keeps apart. -/
def Op.keepsKeys (op : Op) (db : DB) : Prop :=
  match op with
  | .insertGeneratedFragment _ req _ =>
    db.runKeyIndex = true ∨ ∀ parent ∈ db.parentOf req, req.Tidy parent
  | op => (op.isClaim || op.ending) = true

theorem step_graph {op : Op} (met : op.keepsKeys db) : (step op db).graph = db.graph ∨
      ∃ key digest items, Graph.Fills key digest items db.graph (step op db).graph := by
  cases ran : op.exec db with
  | error e => exact .inl (by rw [step, ran, commit_error])
  | ok db' =>
    rw [step, ran, commit_ok]
    cases op with
    | insertGeneratedFragment c req verify =>
      obtain ⟨parent, read, _, ⟨_, rfl⟩ | filled⟩ := insertGeneratedFragmentTx_cases ran
      · exact .inl rfl
      · exact .inr ⟨_, _, _, filled.fills (met.imp id fun tidy => tidy parent read)⟩
    | _ => exact .inl (Op.graph_of_lifecycle met ran)

/-- A run of calls that leave the graph or fill a slot. -/
theorem run_grows {σ ω κ : Type} [DecidableEq κ] (step : ω → σ → σ) (graph : σ → Graph κ)
    {guard : ω → σ → Prop}
    (each : ∀ op s, guard op s → graph (step op s) = graph s ∨
      ∃ key digest items, Graph.Fills key digest items (graph s) (graph (step op s)))
    {ops : List ω} {s : σ} (met : Guarded step guard ops s) (unique : (graph s).KeysUnique) :
    (graph s).Grows (graph (run step ops s)) ∧ (graph (run step ops s)).KeysUnique := by
  refine run_guarded (I := fun now => (graph s).Grows (graph now) ∧ (graph now).KeysUnique)
    (fun op now kept holds => ?_) ops met ⟨.refl _, unique⟩
  obtain ⟨grows, unique⟩ := holds
  rcases each op now kept with same | ⟨_, _, _, fills⟩
  · rw [same]
    exact ⟨grows, unique⟩
  · exact ⟨grows.trans fills.grows, fills.keysUnique unique⟩

/-- One call to insert a fragment: a filled slot is left alone and its own
fragment acknowledged, a lease that is not the current one changes nothing, and
of what is there only the contracts the call names are written. -/
structure FragmentCall (c : Call) (req : GeneratedFragmentRequest)
    (verify : Job → Nat → Time → Except StoreError Unit) (db db' : DB) : Prop where
  replayed : ∀ digest, db.graph.slot req.slotKey = some digest → db' = db
  acknowledged : validateID req.parentJobID = .ok () → req.fragmentID ≠ "" →
    beginSchemaCompatibleTx c db = .ok () → (∃ parent ∈ db.parentOf req, req.Leased parent c.now) →
    db.graph.slot req.slotKey = some req.fragmentID →
    insertGeneratedFragmentTx c req verify db = .ok db
  stale : (∀ parent ∈ db.parentOf req, ¬req.Leased parent c.now) → db' = db
  jobs : ∀ id row, db.jobs.get? id = some row → ∃ row', db'.jobs.get? id = some row' ∧
    row'.plain = row.plain ∧ (id ∉ req.contracts.map Prod.fst → row' = row)
  edges : ∀ edge : JobID × JobID, (db.jobs.get? edge.1).isSome = true →
    (edge ∈ db'.dependencies ↔ edge ∈ db.dependencies)
  others : db' = { db with
    jobs := db'.jobs, dependencies := db'.dependencies
    generatedFragments := db'.generatedFragments }

theorem fragmentCall (c : Call) (req : GeneratedFragmentRequest)
    (verify : Job → Nat → Time → Except StoreError Unit) (db : DB) :
    FragmentCall c req verify db (step (.insertGeneratedFragment c req verify) db) := by
  have unchanged : FragmentCall c req verify db db := by
    refine ⟨fun _ _ => rfl, ?_, fun _ => rfl, fun id row found => ⟨row, found, rfl, fun _ => rfl⟩,
      fun _ _ => Iff.rfl, rfl⟩
    rintro valid named compatible ⟨parent, read, leased⟩ filled
    obtain ⟨row, found, read⟩ := bind_eq_some_iff.mp read
    obtain ⟨stored, there, same⟩ := map_eq_some_iff.mp filled
    simp only [insertGeneratedFragmentTx, bind_ok_iff, orThrow_ok_iff, require_ok_iff]
    refine ⟨(), valid, (), named, (), compatible, row, found, parent, read, (),
      validateGeneratedParentLease_ok.mpr leased, ?_⟩
    rw [show db.generatedFragments.get? (req.parentJobID, generatedFragmentSlot req.mutationSlot) =
      some stored from there]
    dsimp only
    exact bind_ok_iff.mpr ⟨(), require_ok_iff.mpr same, rfl⟩
  refine commit_elim (P := FragmentCall c req verify db) unchanged fun db' ran => ?_
  obtain ⟨parent, read, leased, ⟨_, rfl⟩ | filled⟩ := insertGeneratedFragmentTx_cases ran
  · exact unchanged
  refine ⟨fun digest held => ?_, unchanged.acknowledged,
    fun stale => absurd leased (stale parent read), fun id row found => ?_, filled.edges, filled.only⟩
  · obtain ⟨stored, there, _⟩ := map_eq_some_iff.mp held
    rw [filled.empty] at there
    cases there
  · obtain ⟨row', there, same⟩ := filled.inserts.kept id row found
    refine ⟨row', there, same, fun unnamed => ?_⟩
    exact some.inj (there.symm.trans (filled.unnamed id row found unnamed))

end KiwiCI.Storage
