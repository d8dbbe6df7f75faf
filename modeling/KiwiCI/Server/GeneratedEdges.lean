import KiwiCI.Server.Envelope

/-!
The edges between the children of a generated fragment.

The children are created from the compiled graph, one for each of its nodes, while
their dependencies are looked up in the uploaded edges under the key of the node.  A
job in test shards is expanded to nodes under other keys, which have no edges in the
upload; `edges_kept_iff` says that these are the only ones that are lost.
-/

namespace KiwiCI.Server

variable {j : Pipeline.Job} {upload : GeneratedFragment} {key : String} {cj : CompiledJob}

open Storage Pipeline Option Table

/-! ## Nodes of a job without a matrix -/

theorem variants_single {id : String} (plain : j.matrix.rows.isEmpty = true)
    (single : j.shards ≤ 1) : variants id j = [⟨id, j, .empty, sortedMatrixKeys .empty⟩] := by
  simp only [variants, matrixCombinations, if_pos plain, List.isEmpty_nil, if_true,
    List.flatMap_singleton, shardVariants, if_pos single, List.map_cons, List.map_nil,
    List.head?_cons, map_some, getD_some]

theorem id_single {id : String} : Variant.id ⟨id, j, .empty, keys⟩ = id := by
  have none : matrixSuffixWithKeys .empty keys = "" := if_pos rfl
  rw [Variant.id, none]
  simp

theorem bracket_of_shard {id : String} (many : 1 < j.shards)
    (member : v ∈ variants id j) : '[' ∈ v.id.toList := by
  have filled : v.values.rows ≠ [] := by
    obtain ⟨m, combo, there⟩ := List.mem_flatMap.mp member
    obtain ⟨values, shard, rfl⟩ := List.mem_map.mp there
    rw [shardVariants, if_neg (not_le.mpr many)] at shard
    obtain ⟨i, -, rfl⟩ := List.mem_map.mp shard
    exact List.cons_ne_nil _ _
  rw [Variant.id, String.toList_append, List.mem_append]
  right
  by_cases long : Pipeline.Long v.values v.keys
  · rw [suffix_of_long filled long]
    simp
  · rw [suffix_of_short filled long, String.toList_ofList]
    simp [renderSuffix]

/-! ## What admission guarantees -/

/-- A fragment whose jobs have no matrix, and edges for its own jobs only. -/
structure GeneratedFragment.Plain (upload : GeneratedFragment) : Prop where
  jobs : ∀ key j, upload.jobs.get? key = some j → j.matrix.rows.isEmpty = true
  deps : ∀ key deps, upload.deps.get? key = some deps → (upload.jobs.get? key).isSome = true

theorem admitUpload_ok (ran : admitUpload p parent upload existing = .ok ()) : upload.Plain := by
  simp only [admitUpload, bind_ok_iff] at ran
  obtain ⟨_, -, _, -, _, -, _, -, _, -, _, plain, _, known, -⟩ := ran
  refine ⟨fun key j held => ?_, fun key deps held => ?_⟩
  · exact require_ok_iff.mp (forM_ok_iff.mp plain ⟨key, j⟩ (mem_rows_iff.mpr held))
  · obtain ⟨_, there, -⟩ := bind_ok_iff.mp
      (forM_ok_iff.mp known ⟨key, deps⟩ (mem_rows_iff.mpr held))
    exact require_ok_iff.mp there

theorem childNeeds_ok (ran : childNeeds p parent upload keys key = .ok needs) :
    (∀ dep ∈ upload.depsOf key, dep ∈ keys) ∧
      needs = parent.id :: (upload.depsOf key).map p.newID := by
  simp only [childNeeds, bind_ok_iff, pure_ok_iff] at ran
  obtain ⟨resolved, each, rfl⟩ := ran
  have pairs := mapM_ok each
  clear each
  generalize upload.depsOf key = deps at pairs ⊢
  induction pairs with
  | nil => exact ⟨by simp, rfl⟩
  | cons first _ ih =>
    split at first
    · rename_i known
      refine ⟨List.forall_mem_cons.mpr ⟨known, ih.1⟩, ?_⟩
      rw [List.map_cons, ← Except.ok.inj first, (List.cons.inj ih.2).2]
    · cases first

/-! ## Nodes and their edges -/

section Nodes

variable {upload : GeneratedFragment} {compiled : List CompiledJob} (plain : upload.Plain)
  (each : upload.synth.Yields compiled)

theorem get?_synth (upload : GeneratedFragment) (key : String) :
    upload.synth.jobs.get? key =
      (upload.jobs.get? key).map fun j => { j with needs := upload.depsOf key } :=
  get?_map _ _ _

theorem needsOf_synth (declared : (upload.jobs.get? key).isSome = true) :
    needsOf upload.synth.jobs key = upload.depsOf key := by
  obtain ⟨j, held⟩ := isSome_iff_exists.mp declared
  rw [needsOf, get?_synth, held]
  rfl

include plain in
theorem needsOf_synth_eq (key : String) : needsOf upload.synth.jobs key = upload.depsOf key := by
  cases held : upload.jobs.get? key with
  | some j => exact needsOf_synth (by rw [held]; rfl)
  | none =>
    rw [needsOf, get?_synth, held, GeneratedFragment.depsOf]
    cases there : upload.deps.get? key with
    | none => rfl
    | some deps => simpa [held] using plain.deps key deps there

include plain in
/-- Only declared jobs have edges, and their keys have no bracket. -/
theorem depsOf_bracket (valid : upload.synth.Valid) (bracket : '[' ∈ key.toList) :
    upload.depsOf key = [] := by
  cases held : upload.deps.get? key with
  | none => rw [GeneratedFragment.depsOf, held]; rfl
  | some deps =>
    obtain ⟨j, declared⟩ := Option.isSome_iff_exists.mp (plain.deps key deps held)
    have named := valid.ids key { j with needs := upload.depsOf key } (by
      rw [get?_synth, declared]
      rfl)
    exact absurd bracket (idRegexp_no_bracket named)

include plain each

/-- The base of a node is a declared job; the node of a job in shards has a bracket
in its key, and that of another job is the job's only one. -/
theorem node_shape (found : (assemble compiled).jobs.get? key = some cj) :
    ∃ j, upload.jobs.get? cj.baseID = some j ∧
      (j.shards ≤ 1 ∧ key = cj.baseID ∨ 1 < j.shards ∧ '[' ∈ key.toList) := by
  obtain ⟨source, member, rfl, rfl⟩ := get?_assemble found
  obtain ⟨v, there, of⟩ := variant_of_compiled each member
  obtain ⟨base, k, held, variant⟩ := mem_expansion.mp there
  rw [get?_synth] at held
  obtain ⟨j, declared, shape⟩ := Option.map_eq_some_iff.mp held
  have matrix : k.matrix.rows.isEmpty = true := by
    rw [← shape]
    exact plain.jobs base j declared
  have shards : k.shards = j.shards := by rw [← shape]
  have named : source.baseID = base := of.baseID.trans (mem_variants variant).1
  refine ⟨j, by rw [← declared]; exact congrArg _ named, ?_⟩
  by_cases single : j.shards ≤ 1
  · left
    rw [variants_single matrix (shards ▸ single)] at variant
    rw [List.mem_singleton.mp variant] at of
    exact ⟨single, of.id.trans (id_single.trans named.symm)⟩
  · right
    rw [of.id]
    exact ⟨not_le.mp single, bracket_of_shard (shards ▸ not_le.mp single) variant⟩

/-- A declared job whose own key is a node has no other node. -/
theorem expanded_of_node (declared : idRegexp dep = true)
    (found : (assemble compiled).jobs.get? dep = some cj) : expanded compiled dep = [dep] := by
  obtain ⟨j, held, ⟨single, same⟩ | ⟨-, bracket⟩⟩ := node_shape plain each found
  · rw [← same] at held
    have synth : upload.synth.jobs.get? dep = some { j with needs := upload.depsOf dep } := by
      rw [get?_synth, held]
      rfl
    have only : variants dep { j with needs := upload.depsOf dep } = _ :=
      variants_single (plain.jobs dep j held) single
    rw [expanded_eq each synth, only, List.map_singleton, id_single]
  · exact absurd bracket (idRegexp_no_bracket declared)

omit plain in
theorem node_of_declared (valid : upload.synth.Valid) (held : upload.jobs.get? dep = some j) :
    ∃ cid cj, (assemble compiled).jobs.get? cid = some cj ∧ cj.baseID = dep := by
  have synth : upload.synth.jobs.get? dep = some { j with needs := upload.depsOf dep } := by
    rw [get?_synth, held]
    rfl
  have expandable := valid.expandable _ _ synth
  have some' : variants dep { j with needs := upload.depsOf dep } ≠ [] := by
    intro none
    have values := variants_values expandable dep
    rw [none] at values
    exact expandable.expands.nonempty values.symm
  obtain ⟨v, member⟩ := List.exists_mem_of_ne_nil _ some'
  obtain ⟨cj, found, base⟩ := (mem_expanded_iff valid each).mp
    (show v.id ∈ expanded compiled dep by
      rw [expanded_eq each synth]
      exact List.mem_map_of_mem member)
  exact ⟨v.id, cj, found, base⟩

/-- The needs of a node: the nodes of the declared dependencies of its base. -/
theorem mem_node_needs (valid : upload.synth.Valid)
    (found : (assemble compiled).jobs.get? key = some cj) (dep : String) :
    dep ∈ cj.needs ↔ ∃ base ∈ upload.depsOf cj.baseID, dep ∈ expanded compiled base := by
  rw [assembled_needs_union valid each found, needsOf_synth_eq plain]
  simp only [mem_expanded_iff valid each]

end Nodes

/-! ## The theorem -/

/-- The identifiers drawn for the nodes differ, and none is the parent's. -/
structure FreshIDs (p : Admission) (parent : Job) (g : Graph) : Prop where
  distinct : (g.jobs.sorted.map fun entry => p.newID entry.1).Nodup
  other : ∀ key cj, g.jobs.get? key = some cj → p.newID key ≠ parent.id

/-- Every node has its child, which needs the parent and the children of the nodes the
node needs, and nothing else. -/
def EdgesKept (p : Admission) (parent : Job) (g : Graph) (jobs : Table JobID Job) : Prop :=
  ∀ key cj, g.jobs.get? key = some cj → ∃ j, jobs.get? (p.newID key) = some j ∧
    ∀ id, id ∈ j.needs ↔ id = parent.id ∨ ∃ dep ∈ cj.needs, id = p.newID dep

/-- The child of a node, and the edges it was created with. -/
theorem child_of_node {σ : Type} {mode : StoreMode σ} (lawful : mode.Commits) {s s' : σ} {g : Graph}
    {created : List (Job × List ArtifactContract)} (fresh : FreshIDs p parent g)
    (done : Committed mode p now parent upload existing s s' g created none)
    (found : g.jobs.get? key = some cj) :
    ∃ j, (mode.jobs s').get? (p.newID key) = some j ∧
      (∀ dep ∈ upload.depsOf key, ∃ other, g.jobs.get? dep = some other) ∧
      j.needs = parent.id :: (upload.depsOf key).map p.newID := by
  have each := createChildren_ok done.children
  rcases lawful.cases fragmentRequest_named done.commit with ⟨-, replayed⟩ | ⟨-, -, stored⟩
  · cases replayed
  obtain ⟨child, member, made⟩ := forall₂_mem_left each
    (show (key, cj) ∈ g.jobs.sorted from mem_sorted.mpr found)
  obtain ⟨named, -, -, needs⟩ := createChild_ok made
  obtain ⟨known, shape⟩ := childNeeds_ok needs
  refine ⟨child.1, ?_, fun dep declared => ?_, shape⟩
  · rw [← named]
    exact stored (created_ids done.children ▸ fresh.distinct) (child.1.id, child.1)
      (List.mem_map.mpr ⟨child, member, rfl⟩)
  · obtain ⟨⟨_, other⟩, listed, rfl⟩ := List.mem_map.mp (known dep declared)
    exact ⟨other, mem_sorted.mp listed⟩

/-- The edges of an accepted fragment are kept exactly when none of its jobs in test
shards declares a dependency. -/
theorem edges_kept_iff {σ : Type} {mode : StoreMode σ} (lawful : mode.Commits) {p : Admission}
    {now : Time} {parent : Job} {upload : GeneratedFragment} {seen s s' : σ}
    {res : GeneratedResponse} {g : Graph}
    (ran : processGeneratedFragment mode p now parent upload seen s = .ok (res, s'))
    (inserted : res.replayed = false) (compiled : compile p.host p.rules upload.synth = .ok g)
    (fresh : FreshIDs p parent g) :
    EdgesKept p parent g (mode.jobs s') ↔
      ∀ key j, upload.jobs.get? key = some j → 1 < j.shards → upload.depsOf key = [] := by
  rcases processGeneratedFragment_cases ran with ⟨-, replayed⟩ | ⟨g', created, replayed, done, answer⟩
  · rw [inserted] at replayed
    cases replayed
  obtain rfl : g' = g := Except.ok.inj (done.compiled.symm.trans compiled)
  obtain rfl : replayed = none := by
    rw [inserted] at answer
    exact isNone_iff_eq_none.mp (by simpa using answer.symm)
  have plain := admitUpload_ok done.admitted
  obtain ⟨valid, nodes, each, rfl⟩ := compileWithInputs_ok compiled
  constructor
  · intro kept key j held many
    by_contra some'
    obtain ⟨dep, declared⟩ := List.exists_mem_of_ne_nil _ some'
    -- a shard of the job, and a node of what the job depends on
    obtain ⟨cid, cj, found, rfl⟩ := node_of_declared each valid held
    obtain ⟨k, known⟩ := isSome_iff_exists.mp (valid.known cj.baseID
      { j with needs := upload.depsOf cj.baseID } (by rw [get?_synth, held]; rfl) dep declared)
    obtain ⟨l, there, -⟩ := map_eq_some_iff.mp ((get?_synth upload dep).symm.trans known)
    obtain ⟨target, other, at', base⟩ := node_of_declared each valid there
    obtain ⟨j', held', ⟨single, -⟩ | ⟨-, bracket⟩⟩ := node_shape plain each found
    · rw [held] at held'
      obtain rfl := some.inj held'
      omega
    obtain ⟨child, stored, iff⟩ := kept cid cj found
    obtain ⟨child', stored', -, shape⟩ := child_of_node lawful fresh done found
    obtain rfl := some.inj (stored.symm.trans stored')
    have needed : target ∈ cj.needs := (mem_node_needs plain each valid found target).mpr
      ⟨dep, declared, (mem_expanded_iff valid each).mpr ⟨other, at', base⟩⟩
    have lost := (iff (p.newID target)).mpr (.inr ⟨target, needed, rfl⟩)
    rw [shape, depsOf_bracket plain valid bracket, List.map_nil, List.mem_singleton] at lost
    exact fresh.other target other at' lost
  · intro none key cj found
    obtain ⟨child, stored, known, shape⟩ := child_of_node lawful fresh done found
    refine ⟨child, stored, fun id => ?_⟩
    have same : ∀ dep, dep ∈ cj.needs ↔ dep ∈ upload.depsOf key := by
      intro dep
      rw [mem_node_needs plain each valid found]
      obtain ⟨j, held, ⟨-, named⟩ | ⟨many, bracket⟩⟩ := node_shape plain each found
      · rw [← named] at held ⊢
        have alone : ∀ base ∈ upload.depsOf key, expanded nodes base = [base] := by
          intro base declared
          obtain ⟨other, there⟩ := known base declared
          have synth : upload.synth.jobs.get? key = some { j with needs := upload.depsOf key } := by
            rw [get?_synth, held]
            rfl
          obtain ⟨k, target⟩ := isSome_iff_exists.mp (valid.known key _ synth base declared)
          exact expanded_of_node plain each (valid.ids base k target) there
        constructor
        · rintro ⟨base, declared, member⟩
          rw [alone base declared, List.mem_singleton] at member
          rwa [member]
        · intro declared
          exact ⟨dep, declared, by rw [alone dep declared]; simp⟩
      · rw [none cj.baseID j held many, depsOf_bracket plain valid bracket]
        simp
    simp [shape, same, eq_comm]

/-! ## Two fragments -/

/-- A build, and a test that needs it, in a number of shards. -/
def testedUpload (shards : Int) : GeneratedFragment :=
  GeneratedFragment.signed
    { jobs := (Table.empty.put "build" { steps := [{ run := "make" }] }).put "test"
        { steps := [{ run := "make test" }], shards := shards }
      deps := Table.empty.put "test" ["build"] }

/-- What the generating job's server does with it. -/
def insertTested (shards : Int) : Except StoreError (GeneratedResponse × Memory.Tables) :=
  insertFragment (memoryMode 0) (openAdmission (compiledPayload singleChildJob) id) 0 generatingJob
    (testedUpload shards) generatingTables generatingTables

theorem process_tested (shards : Int) :
    processGeneratedFragment (memoryMode 0) (openAdmission (compiledPayload singleChildJob) id) 0
      generatingJob (testedUpload shards) generatingTables generatingTables = insertTested shards :=
  processGeneratedFragment_signed rfl rfl

/-- In one piece the test keeps its edge. -/
theorem unsharded_edges_kept : ∃ res m' g,
    processGeneratedFragment (memoryMode 0) (openAdmission (compiledPayload singleChildJob) id) 0
        generatingJob (testedUpload 0) generatingTables generatingTables = .ok (res, m') ∧
      compile idleHost openRules (testedUpload 0).synth = .ok g ∧
      EdgesKept (openAdmission (compiledPayload singleChildJob) id) generatingJob g m'.jobs := by
  have new : (insertTested 0).toOption.any (fun r => !r.1.replayed) = true := by decide +kernel
  have keys : (compile idleHost openRules (testedUpload 0).synth).toOption.any (fun g =>
      g.jobs.rows.all fun e => e.1 ≠ "gen") = true := by decide +kernel
  obtain ⟨⟨res, m'⟩, ran, inserted⟩ := exists_of_any new
  obtain ⟨g, compiled, apart⟩ := exists_of_any keys
  have fresh : FreshIDs (openAdmission (compiledPayload singleChildJob) id) generatingJob g := by
    refine ⟨?_, fun key cj found => ?_⟩
    · change (g.jobs.sorted.map Prod.fst).Nodup
      rw [map_fst_sorted]
      exact nodup_select _ _
    · exact of_decide_eq_true (List.all_eq_true.mp apart ⟨key, cj⟩ (mem_rows_iff.mpr found))
  have single : ∀ e ∈ (testedUpload 0).jobs.rows, ¬ 1 < e.2.shards := by decide +kernel
  refine ⟨res, m', g, (process_tested 0).trans ran, compiled, ?_⟩
  refine (edges_kept_iff (memoryMode_commits 0) ((process_tested 0).trans ran) (by simpa using inserted)
    compiled fresh).mpr fun key j held many => ?_
  exact absurd many (single ⟨key, j⟩ (mem_rows_iff.mpr held))

/-- In two shards it loses it: the compiled shard needs the build, the child does not. -/
theorem sharded_edge_lost : ∃ res m' g,
    processGeneratedFragment (memoryMode 0) (openAdmission (compiledPayload singleChildJob) id) 0
        generatingJob (testedUpload 2) generatingTables generatingTables = .ok (res, m') ∧
      res.replayed = false ∧ compile idleHost openRules (testedUpload 2).synth = .ok g ∧
      (g.jobs.get? "test[test_shard=0]").map (·.needs) = some ["build"] ∧
      (m'.jobs.get? "test[test_shard=0]").map (·.needs) = some ["gen"] := by
  have child : (insertTested 2).toOption.any (fun r => !r.1.replayed &&
      (r.2.jobs.get? "test[test_shard=0]").map (·.needs) = some ["gen"]) = true := by decide +kernel
  have node : (compile idleHost openRules (testedUpload 2).synth).toOption.any (fun g =>
      (g.jobs.get? "test[test_shard=0]").map (·.needs) = some ["build"]) = true := by decide +kernel
  obtain ⟨⟨res, m'⟩, ran, held⟩ := exists_of_any child
  obtain ⟨g, compiled, needs⟩ := exists_of_any node
  simp only [Bool.and_eq_true, Bool.not_eq_true', decide_eq_true_eq] at held needs
  exact ⟨res, m', g, (process_tested 2).trans ran, held.1, compiled, needs, held.2⟩

end KiwiCI.Server
