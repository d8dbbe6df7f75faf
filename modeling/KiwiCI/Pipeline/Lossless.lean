import KiwiCI.Pipeline.Expansion

/-!
What a compiled graph contains: every variant of every declared job, each under its
own identifier, depending on all variants of the jobs it needs, without a cycle.

`compileWithInputs_ok` says once what a successful compilation went through;
`Lossless` is what the graph should be, stated without the compiler's intermediate
lists, and `compiled_graph_lossless_iff` when it is.
-/

namespace KiwiCI.Pipeline

open List Table

variable {s : Spec} {rules : FieldRules} {cid : String} {inputs : Option (Table String String)}
  {cj : CompiledJob} {compiled : List CompiledJob}

/-! ## What validation guarantees -/

theorem validateDimensions_ok (ran : validateDimensions label dims projected = .ok ()) :
    ∀ dim ∈ dims, matrixNameRegexp dim.1 = true ∧ dim.2 ≠ [] := by
  induction dims generalizing projected with
  | nil => simp
  | cons dim rest ih =>
    obtain ⟨name, vals⟩ := dim
    simp only [validateDimensions, bind_ok_iff, require_ok_iff] at ran
    obtain ⟨_, named, _, -, _, given, _, -, tail⟩ := ran
    exact forall_mem_cons.mpr ⟨⟨named, given⟩, ih tail⟩

theorem validateNeeds_ok {id : String} (ran : validateNeeds s id needs seen = .ok ()) :
    needs.Nodup ∧ (∀ dep ∈ needs, dep ∉ seen) ∧ ∀ dep ∈ needs, (s.jobs.get? dep).isSome = true := by
  induction needs generalizing seen with
  | nil => simp
  | cons dep rest ih =>
    simp only [validateNeeds, bind_ok_iff, require_ok_iff] at ran
    obtain ⟨_, known, _, -, _, fresh, tail⟩ := ran
    obtain ⟨nodup, apart, others⟩ := ih tail
    refine ⟨nodup_cons.mpr ⟨fun again => apart dep again (by simp), nodup⟩, ?_, ?_⟩
    · exact forall_mem_cons.mpr
        ⟨fresh, fun d member there => apart d member (mem_cons_of_mem _ there)⟩
    · exact forall_mem_cons.mpr ⟨known, others⟩

/-- What validation guarantees of a pipeline. -/
structure Spec.Valid (s : Spec) : Prop where
  ids : ∀ id j, s.jobs.get? id = some j → idRegexp id = true
  needs : ∀ id j, s.jobs.get? id = some j → j.needs.Nodup
  known : ∀ id j, s.jobs.get? id = some j → ∀ dep ∈ j.needs, (s.jobs.get? dep).isSome = true
  expandable : ∀ id j, s.jobs.get? id = some j → j.Expandable
  founded : WellFounded fun dep id => dep ∈ needsOf s.jobs id

theorem validateEntry_ok {id : String} (ran : validateEntry rules s id j = .ok ()) :
    idRegexp id = true ∧ j.needs.Nodup ∧ (∀ dep ∈ j.needs, (s.jobs.get? dep).isSome = true) ∧
      j.Expandable := by
  simp only [validateEntry, validateJob, validateMatrix, bind_ok_iff, require_ok_iff] at ran
  obtain ⟨_, named, _, -, _, deps, _, -, _, dims, _, -, _, -, reserved⟩ := ran
  obtain ⟨nodup, -, known⟩ := validateNeeds_ok deps
  have each := validateDimensions_ok dims
  refine ⟨named, nodup, known, fun dim vals held => ?_, fun dim vals held => ?_, fun some => ?_⟩
  · exact (each (dim, vals) (mem_sorted.mpr held)).1
  · exact (each (dim, vals) (mem_sorted.mpr held)).2
  · by_contra present
    exact reserved ⟨some, Option.isSome_iff_ne_none.mpr present⟩

theorem needsOf_outside {id : String}
    (outside : id ∉ jobs.select fun _ _ => true) : needsOf jobs id = [] := by
  have absent : jobs.get? id = none := by
    cases found : jobs.get? id with
    | none => rfl
    | some j => exact absurd (mem_select.mpr ⟨j, found, rfl⟩) outside
  rw [needsOf, absent]
  rfl

/-- `findCycle` finds nothing exactly when the dependencies are well founded. -/
theorem findCycle_eq_nil_iff (jobs : Table String Job) :
    findCycle jobs = [] ↔ WellFounded fun dep id => dep ∈ needsOf jobs id :=
  DepthFirst.findCycle_eq_nil_iff fun _ => needsOf_outside

def NeedsDeclared (jobs : Table String Job) (id dep : String) : Prop :=
  dep ∈ needsOf jobs id ∧ (jobs.get? id).isSome ∧ (jobs.get? dep).isSome

theorem isSome_of_needs {id dep : String} (edge : dep ∈ needsOf jobs id) :
    (jobs.get? id).isSome := by
  unfold needsOf at edge
  cases held : jobs.get? id with
  | none => simp [held] at edge
  | some j => rfl

/-- `findCycle` reports a cycle exactly when declared jobs need each other in a circle, and
what it reports is one. -/
theorem findCycle_sound_complete (jobs : Table String Job) :
    (findCycle jobs ≠ [] ↔ ∃ id, Relation.TransGen (NeedsDeclared jobs) id id) ∧
      (findCycle jobs ≠ [] → DepthFirst.IsCycle (NeedsDeclared jobs) (findCycle jobs)) := by
  have genuine (found : findCycle jobs ≠ []) :
      DepthFirst.IsCycle (NeedsDeclared jobs) (findCycle jobs) := by
    obtain ⟨chain, closed⟩ := (DepthFirst.findCycle_genuine found).within
    refine ⟨chain.imp fun id dep ⟨edge, next, onward⟩ => ?_, closed⟩
    exact ⟨edge, isSome_of_needs edge, isSome_of_needs onward⟩
  refine ⟨⟨fun found => (genuine found).transGen, ?_⟩, genuine⟩
  rintro ⟨id, cycle⟩ none
  have founded := (findCycle_eq_nil_iff jobs).mp none
  have circle : Relation.TransGen (fun id dep => dep ∈ needsOf jobs id) id id :=
    Relation.TransGen.mono (fun _ _ (edge : NeedsDeclared jobs _ _) => edge.1) _ _ cycle
  exact founded.transGen.irrefl.irrefl id (Relation.transGen_swap.mpr circle)

theorem validate_ok (ran : validate rules s = .ok ()) : s.Valid := by
  simp only [validate, bind_ok_iff, require_ok_iff] at ran
  obtain ⟨_, -, _, -, _, entries, acyclic⟩ := ran
  have each : ∀ id j, s.jobs.get? id = some j → validateEntry rules s id j = .ok () :=
    fun id j held => forM_ok_iff.mp entries ⟨id, j⟩ (mem_rows_iff.mpr held)
  exact {
    ids := fun id j held => (validateEntry_ok (each id j held)).1
    needs := fun id j held => (validateEntry_ok (each id j held)).2.1
    known := fun id j held => (validateEntry_ok (each id j held)).2.2.1
    expandable := fun id j held => (validateEntry_ok (each id j held)).2.2.2
    founded := (findCycle_eq_nil_iff s.jobs).mp acyclic }

/-! ## What compilation went through -/

structure CompiledJob.Of (cj : CompiledJob) (v : Variant) : Prop where
  id : cj.id = v.id
  baseID : cj.baseID = v.base
  matrix : cj.matrix = v.values
  needs : cj.job.needs = v.job.needs
  shards : cj.job.shards = v.job.shards
  generate : cj.job.generate = v.job.generate
  retry : cj.job.retry = v.job.retry
  stepRetries : cj.job.steps.map Step.retry = v.job.steps.map Step.retry
  deployment : cj.job.deployment = v.job.deployment
  serviceRetries : cj.job.services.map (fun s => (s.retries, s.retriesSet)) =
    v.job.services.map fun s => (s.retries, s.retriesSet)

theorem bindToolchains_ok (ran : bindToolchains cid j s = .ok j') :
    ∃ bound, j' = { j with boundToolchains := bound } := by
  unfold bindToolchains at ran
  split at ran
  · exact ⟨j.boundToolchains, (Except.ok.inj ran).symm⟩
  · obtain ⟨bound, -, shape⟩ := bind_ok_iff.mp ran
    exact ⟨bound, (pure_ok_iff.mp shape).symm⟩

theorem injectInputs_ok
    (ran : injectInputs host cid m inputs j = .ok j') : ∃ env, j' = { j with env := env } := by
  cases inputs with
  | none => exact ⟨j.env, (Except.ok.inj ran).symm⟩
  | some given =>
    obtain ⟨-, -, shape⟩ := bind_ok_iff.mp ran
    exact ⟨_, (pure_ok_iff.mp shape).symm⟩

theorem compileVariant_ok (ran : compileVariant host rules s inputs v = .ok cj) : cj.Of v := by
  simp only [compileVariant, bind_ok_iff, pure_ok_iff] at ran
  obtain ⟨tooled, bound, injected, inject, _, -, rfl⟩ := ran
  obtain ⟨_, rfl⟩ := bindToolchains_ok bound
  obtain ⟨_, rfl⟩ := injectInputs_ok inject
  have steps : (interpolateJob host v.job v.values inputs).steps.map Step.retry =
      v.job.steps.map Step.retry := by
    simp [interpolateJob, interpolateStep]
  have services : (interpolateJob host v.job v.values inputs).services.map
      (fun s => (s.retries, s.retriesSet)) =
        v.job.services.map fun s => (s.retries, s.retriesSet) := by
    simp [interpolateJob]
  refine ⟨rfl, rfl, rfl, ?_, ?_, ?_, ?_, ?_, ?_, ?_⟩ <;> split <;>
    first | rfl | exact steps | exact services

/-- One compiled job per variant, in order. -/
abbrev Spec.Yields (s : Spec) (compiled : List CompiledJob) : Prop :=
  Forall₂ (fun v cj => CompiledJob.Of cj v) (expansion s) compiled

/-- A successful compilation: the pipeline is valid and the graph is assembled from
one compiled job per variant. -/
theorem compileWithInputs_ok (ran : compileWithInputs host rules s inputs = .ok g) :
    s.Valid ∧ ∃ compiled, s.Yields compiled ∧ g = assemble compiled := by
  simp only [compileWithInputs, bind_ok_iff, pure_ok_iff] at ran
  obtain ⟨_, valid, _, -, compiled, each, rfl⟩ := ran
  exact ⟨validate_ok valid, compiled, (mapM_ok each).imp fun _ _ => compileVariant_ok, rfl⟩

/-! ## The assembled graph -/

theorem foldl_put_id (compiled : List CompiledJob) :
    compiled.foldl (fun (jobs : Table String CompiledJob) cj => jobs.put cj.id cj) .empty =
      (compiled.map fun cj => (cj.id, cj)).foldl (fun t entry => t.put entry.1 entry.2) .empty := by
  rw [foldl_map]

theorem get?_assemble (found : (assemble compiled).jobs.get? cid = some cj) :
    ∃ source ∈ compiled, source.id = cid ∧
      cj = { source with needs := source.job.needs.flatMap (expanded compiled) } := by
  rw [assemble, get?_map, Option.map_eq_some_iff] at found
  obtain ⟨source, held, rfl⟩ := found
  rw [foldl_put_id] at held
  rcases get?_foldl_put held with early | late
  · simp at early
  · obtain ⟨cj, member, same⟩ := mem_map.mp late
    obtain ⟨rfl, rfl⟩ := Prod.mk.inj same
    exact ⟨cj, member, rfl, rfl⟩

theorem assemble_has
    (member : source ∈ compiled) : ∃ cj, (assemble compiled).jobs.get? source.id = some cj := by
  have put : source.id ∈ (compiled.map fun cj => (cj.id, cj)).map Prod.fst :=
    mem_map.mpr ⟨(source.id, source), mem_map.mpr ⟨source, member, rfl⟩, rfl⟩
  obtain ⟨row, held⟩ := get?_foldl_put_of_mem .empty put
  rw [assemble, get?_map, foldl_put_id, held]
  exact ⟨_, rfl⟩

section Assembled

variable {s : Spec} {compiled : List CompiledJob} (valid : s.Valid) (each : s.Yields compiled)

theorem mem_expansion :
    v ∈ expansion s ↔ ∃ id j, s.jobs.get? id = some j ∧ v ∈ variants id j := by
  rw [expansion, mem_flatMap]
  constructor
  · rintro ⟨⟨id, j⟩, row, member⟩
    exact ⟨id, j, mem_rows_iff.mp row, member⟩
  · rintro ⟨id, j, held, member⟩
    exact ⟨⟨id, j⟩, mem_rows_iff.mpr held, member⟩

include each

theorem variant_of_compiled (member : cj ∈ compiled) :
    ∃ v ∈ expansion s, cj.Of v :=
  forall₂_mem_right each member

/-- The identifiers a job is expanded to are those of its variants. -/
theorem expanded_eq_filter (base : String) :
    expanded compiled base = ((expansion s).filter fun v => v.base = base).map Variant.id := by
  unfold expanded
  unfold Spec.Yields at each
  generalize expansion s = vs at each ⊢
  induction each with
  | nil => rfl
  | cons first _ ih =>
    rw [filter_cons, filter_cons]
    simp only [first.baseID]
    split
    · rw [map_cons, map_cons, ih, first.id]
    · exact ih

omit each in
theorem filter_expansion (held : s.jobs.get? base = some j) :
    (expansion s).filter (fun v => v.base = base) = variants base j := by
  have other : ∀ (e : Sigma fun _ : String => Job),
      (variants e.1 e.2).filter (fun v => v.base = base) =
        if e.1 = base then variants e.1 e.2 else [] := by
    intro e
    split
    · rename_i same
      refine filter_eq_self.mpr fun v member => ?_
      simp [(mem_variants member).1, same]
    · rename_i differ
      refine filter_eq_nil_iff.mpr fun v member => ?_
      simp [(mem_variants member).1, differ]
  have pick : ∀ rows : List (Sigma fun _ : String => Job), rows.NodupKeys → ⟨base, j⟩ ∈ rows →
      (rows.flatMap fun e => if e.1 = base then variants e.1 e.2 else []) = variants base j := by
    intro rows nodup member
    induction rows with
    | nil => cases member
    | cons e rest ih =>
      rw [nodupKeys_cons] at nodup
      rw [flatMap_cons]
      rcases mem_cons.mp member with rfl | there
      · have none : (rest.flatMap fun e => if e.1 = base then variants e.1 e.2 else []) = [] := by
          refine flatMap_eq_nil_iff.mpr fun e row => ?_
          rw [if_neg]
          intro same
          have again : e.1 ∈ rest.keys := mem_map_of_mem row
          exact nodup.1 (same ▸ again)
        rw [if_pos rfl, none, append_nil]
      · have differ : ¬ e.1 = base := by
          rintro same
          exact nodup.1 (same ▸ mem_map_of_mem there)
        rw [if_neg differ, nil_append, ih nodup.2 there]
  rw [expansion, filter_flatMap]
  simp only [other]
  exact pick s.jobs.rows s.jobs.nodupKeys (mem_rows_iff.mpr held)

theorem expanded_eq (held : s.jobs.get? base = some j) :
    expanded compiled base = (variants base j).map Variant.id := by
  rw [expanded_eq_filter each, filter_expansion held]

include valid

theorem base_of_id (here : cj ∈ compiled) (there : cj' ∈ compiled)
    (same : cj.id = cj'.id) : cj.baseID = cj'.baseID := by
  obtain ⟨v, member, of⟩ := variant_of_compiled each here
  obtain ⟨v', member', of'⟩ := variant_of_compiled each there
  obtain ⟨id, j, held, in_⟩ := mem_expansion.mp member
  obtain ⟨id', j', held', in'⟩ := mem_expansion.mp member'
  rw [of.id, of'.id, Variant.id, Variant.id, (mem_variants in_).1, (mem_variants in').1] at same
  rw [of.baseID, of'.baseID, (mem_variants in_).1, (mem_variants in').1]
  exact (split_id (valid.ids id j held) (valid.ids id' j' held') same).1

/-- The identifiers a declared job is expanded to are the graph's nodes with that
base. -/
theorem mem_expanded_iff : cid ∈ expanded compiled base ↔
      ∃ cj, (assemble compiled).jobs.get? cid = some cj ∧ cj.baseID = base := by
  simp only [expanded, mem_map, mem_filter, decide_eq_true_eq, and_assoc]
  constructor
  · rintro ⟨source, member, rfl, rfl⟩
    obtain ⟨cj, found⟩ := assemble_has member
    obtain ⟨other, there, same, shape⟩ := get?_assemble found
    refine ⟨cj, found, ?_⟩
    have : cj.baseID = other.baseID := by rw [shape]
    rw [this]
    exact base_of_id valid each there member same
  · rintro ⟨cj, found, rfl⟩
    obtain ⟨source, member, same, shape⟩ := get?_assemble found
    exact ⟨source, member, by rw [shape], same⟩

theorem count_base (base : String) :
    (assemble compiled).jobs.count (fun _ cj => cj.baseID = base) =
      (expanded compiled base).dedup.length := by
  rw [← length_select]
  refine Perm.length_eq ?_
  refine (perm_ext_iff_of_nodup (nodup_select _ _) (nodup_dedup _)).mpr fun cid => ?_
  rw [mem_select, mem_dedup, mem_expanded_iff valid each]
  simp

end Assembled

/-! ## Lossless expansion -/

/-- How many combinations a matrix has: a job without one has a single one. -/
def combinationCount (j : Job) : Nat := (j.matrix.rows.map fun e => e.2.length).prod

/-- How many shards a job is split into. -/
def shardCount (j : Job) : Nat := max 1 j.shards.toNat

/-- A node of the graph needs another. -/
def Graph.Needs (g : Graph) (cid dep : String) : Prop :=
  ∃ cj, g.jobs.get? cid = some cj ∧ dep ∈ cj.needs

/-- The graph has every variant of every job of the pipeline, and its edges. -/
structure Lossless (s : Spec) (g : Graph) : Prop where
  count : ∀ id j, s.jobs.get? id = some j →
    g.jobs.count (fun _ cj => cj.baseID = id) = combinationCount j * shardCount j
  distinct : ((expansion s).map Variant.id).Nodup
  present : ∀ v ∈ expansion s, ∃ cj, g.jobs.get? v.id = some cj ∧ cj.baseID = v.base ∧
    cj.matrix = v.values
  needs_nodup : ∀ cid cj, g.jobs.get? cid = some cj → cj.needs.Nodup
  needs_union : ∀ cid cj, g.jobs.get? cid = some cj → ∀ dep, dep ∈ cj.needs ↔
    ∃ base ∈ needsOf s.jobs cj.baseID, ∃ other, g.jobs.get? dep = some other ∧ other.baseID = base
  acyclic : ∀ cid, ¬ Relation.TransGen g.Needs cid cid

/-- No dimension of a job prints two of its values alike, and no two variants of a
job share a raw rendering that is too long to be written out. -/
structure Distinguishable (s : Spec) : Prop where
  values : ∀ id j, s.jobs.get? id = some j → ∀ dim vals, j.matrix.get? dim = some vals →
    (vals.map MatrixValue.sprint).Nodup
  renderings : ∀ id j, s.jobs.get? id = some j → ∀ v ∈ variants id j, ∀ w ∈ variants id j,
    v.Long → v.rendering = w.rendering → v.values = w.values

theorem length_variants (valid : j.Expandable) (id : String) :
    (variants id j).length = combinationCount j * shardCount j := by
  have matrix : ((matrixDims j).map fun dim => dim.2.length).prod = combinationCount j := by
    have perm := (sorted_perm j.matrix).map fun e => e.2.length
    rw [matrixDims, map_map, combinationCount]
    simpa [Function.comp_def] using perm.prod_eq
  have shards : ((shardDims j).map fun dim => dim.2.length).prod = shardCount j := by
    unfold shardDims shardCount
    split
    · simp only [map_nil, prod_nil]
      omega
    · simp only [map_cons, map_nil, prod_singleton, length_map,
        length_range]
      omega
  rw [← length_map Variant.values, variants_values valid, valid.expands.length, map_append,
    prod_append, matrix, shards, length_singleton, one_mul]

theorem dims_nodup_iff (j : Job) :
    (∀ dim ∈ matrixDims j, dim.2.Nodup) ↔
      ∀ dim vals, j.matrix.get? dim = some vals → (vals.map MatrixValue.sprint).Nodup := by
  constructor
  · intro nodup dim vals held
    exact nodup (dim, vals.map MatrixValue.sprint)
      (mem_map.mpr ⟨(dim, vals), mem_sorted.mpr held, rfl⟩)
  · intro nodup dim member
    obtain ⟨vals, held, printed⟩ := mem_matrixDims member
    rw [printed]
    exact nodup dim.1 vals held

/-- The identifiers of all variants are different when each job's are. -/
theorem nodup_expansion_ids (valid : s.Valid)
    (each : ∀ id j, s.jobs.get? id = some j → ((variants id j).map Variant.id).Nodup) :
    ((expansion s).map Variant.id).Nodup := by
  rw [expansion, map_flatMap]
  refine nodup_flatMap.mpr ⟨fun e row => each e.1 e.2 (mem_rows_iff.mp row), ?_⟩
  have keys : s.jobs.rows.Pairwise fun a b => a.1 ≠ b.1 := pairwise_map.mp s.jobs.nodupKeys
  refine keys.imp_of_mem fun {a b} rowA rowB differ => ?_
  intro cid inA inB
  obtain ⟨v, memberA, rfl⟩ := mem_map.mp inA
  obtain ⟨w, memberB, same⟩ := mem_map.mp inB
  rw [Variant.id, Variant.id, (mem_variants memberA).1, (mem_variants memberB).1] at same
  exact differ (split_id (valid.ids a.1 a.2 (mem_rows_iff.mp rowA))
    (valid.ids b.1 b.2 (mem_rows_iff.mp rowB)) same.symm).1

section Assembled

variable {s : Spec} {compiled : List CompiledJob} (valid : s.Valid) (each : s.Yields compiled)

include each

/-- A node's job declares the dependencies of its base. -/
theorem needs_of_compiled (member : cj ∈ compiled) :
    ∃ j, s.jobs.get? cj.baseID = some j ∧ cj.job.needs = j.needs := by
  obtain ⟨v, in_, of⟩ := variant_of_compiled each member
  obtain ⟨id, j, held, there⟩ := mem_expansion.mp in_
  obtain ⟨base, job, -⟩ := mem_variants there
  exact ⟨j, by rw [of.baseID, base, held], by rw [of.needs, job]⟩

include valid

theorem assembled_needs_union (found : (assemble compiled).jobs.get? cid = some cj) (dep : String) :
    dep ∈ cj.needs ↔ ∃ base ∈ needsOf s.jobs cj.baseID,
      ∃ other, (assemble compiled).jobs.get? dep = some other ∧ other.baseID = base := by
  obtain ⟨source, member, -, rfl⟩ := get?_assemble found
  obtain ⟨j, held, needs⟩ := needs_of_compiled each member
  have declared : needsOf s.jobs source.baseID = source.job.needs := by
    rw [needsOf, held, needs]
    rfl
  simp [mem_expanded_iff valid each, declared]

theorem assembled_acyclic (cid : String) : ¬ Relation.TransGen (assemble compiled).Needs cid cid := by
  intro cycle
  -- every edge goes from a node to one whose base its own base declares
  let base (cid : String) : String :=
    (((assemble compiled).jobs.get? cid).map CompiledJob.baseID).getD ""
  have founded : WellFounded fun dep cid => base dep ∈ needsOf s.jobs (base cid) :=
    InvImage.wf base valid.founded
  have edges : ∀ a b, (assemble compiled).Needs a b → base b ∈ needsOf s.jobs (base a) := by
    rintro a b ⟨cj, found, member⟩
    obtain ⟨name, declared, other, there, rfl⟩ :=
      (assembled_needs_union valid each found b).mp member
    simpa only [base, found, there, Option.map_some, Option.getD_some] using declared
  have back : Relation.TransGen (fun dep cid => base dep ∈ needsOf s.jobs (base cid)) cid cid := by
    rw [← Relation.transGen_swap]
    exact Relation.TransGen.mono edges _ _ cycle
  exact founded.transGen.irrefl.irrefl cid back

theorem assembled_needs_nodup
    (nodup : ∀ id j, s.jobs.get? id = some j → ((variants id j).map Variant.id).Nodup)
    (found : (assemble compiled).jobs.get? cid = some cj) :
    cj.needs.Nodup := by
  obtain ⟨source, member, -, rfl⟩ := get?_assemble found
  obtain ⟨j, held, needs⟩ := needs_of_compiled each member
  refine nodup_flatMap.mpr ⟨fun base declared => ?_, ?_⟩
  · rw [needs] at declared
    obtain ⟨k, known⟩ := Option.isSome_iff_exists.mp (valid.known _ j held base declared)
    rw [expanded_eq each known]
    exact nodup base k known
  · rw [needs]
    refine (valid.needs _ j held).pairwise_of_forall_ne fun a _ b _ differ cid inA inB => ?_
    obtain ⟨ca, foundA, rfl⟩ := (mem_expanded_iff valid each).mp inA
    obtain ⟨cb, foundB, rfl⟩ := (mem_expanded_iff valid each).mp inB
    rw [foundA] at foundB
    exact differ (by rw [Option.some.inj foundB])

omit valid in
/-- When all identifiers differ, every variant is in the graph. -/
theorem assembled_present (distinct : ((expansion s).map Variant.id).Nodup)
    (member : v ∈ expansion s) :
    ∃ cj, (assemble compiled).jobs.get? v.id = some cj ∧ cj.baseID = v.base ∧
      cj.matrix = v.values := by
  obtain ⟨source, there, of⟩ := forall₂_mem_left each member
  obtain ⟨cj, found⟩ := assemble_has there
  obtain ⟨other, there', same, rfl⟩ := get?_assemble found
  obtain ⟨w, member', of'⟩ := variant_of_compiled each there'
  have one : w = v := by
    refine inj_on_of_nodup_map distinct member' member ?_
    rw [← of'.id, ← of.id, same]
  subst one
  rw [of.id] at found
  exact ⟨_, found, of'.baseID, of'.matrix⟩

end Assembled

/-- A compiled graph is lossless exactly when the pipeline is distinguishable; the
hash of long suffixes is assumed to tell their renderings apart. -/
theorem compiled_graph_lossless_iff {host : Expr.Host} {rules : FieldRules} {s : Spec}
    {inputs : Option (Table String String)} {g : Graph}
    (ran : compileWithInputs host rules s inputs = .ok g)
    (collisionFree : ∀ id j, s.jobs.get? id = some j → ∀ v ∈ variants id j, ∀ w ∈ variants id j,
      v.Long → suffixHash v.rendering = suffixHash w.rendering → v.rendering = w.rendering) :
    Lossless s g ↔ Distinguishable s := by
  obtain ⟨valid, compiled, each, rfl⟩ := compileWithInputs_ok ran
  have ids : ∀ id j, s.jobs.get? id = some j → (((variants id j).map Variant.id).Nodup ↔
      (∀ dim vals, j.matrix.get? dim = some vals → (vals.map MatrixValue.sprint).Nodup) ∧
        ∀ v ∈ variants id j, ∀ w ∈ variants id j, v.Long → v.rendering = w.rendering →
          v.values = w.values) := by
    intro id j held
    rw [nodup_ids_iff (valid.expandable id j held) (collisionFree id j held), dims_nodup_iff]
  constructor
  · intro lossless
    have nodup : ∀ id j, s.jobs.get? id = some j → ((variants id j).map Variant.id).Nodup := by
      intro id j held
      rw [← filter_expansion held]
      exact lossless.distinct.sublist (filter_sublist.map _)
    exact ⟨fun id j held => ((ids id j held).mp (nodup id j held)).1,
      fun id j held => ((ids id j held).mp (nodup id j held)).2⟩
  · intro apart
    have nodup : ∀ id j, s.jobs.get? id = some j → ((variants id j).map Variant.id).Nodup :=
      fun id j held => (ids id j held).mpr ⟨apart.values id j held, apart.renderings id j held⟩
    have distinct := nodup_expansion_ids valid nodup
    refine ⟨fun id j held => ?_, distinct, fun v => assembled_present each distinct,
      fun cid cj => assembled_needs_nodup valid each nodup,
      fun cid cj found => assembled_needs_union valid each found, assembled_acyclic valid each⟩
    rw [count_base valid each, expanded_eq each held, (nodup id j held).dedup, length_map,
      length_variants (valid.expandable id j held)]

/-! ## Two pipelines -/

/-- A host whose functions are never reached. -/
def idleHost : Expr.Host where
  compactJSON _ _ := .error (.host [])
  openWorkspace _ := .error (.host [])
  hashFiles _ _ := .error (.host [])

/-- Field rules that admit everything. -/
def openRules : FieldRules where
  spec _ := .ok ()
  job _ _ _ := .ok ()
  compiled _ := .ok ()

/-- A tested and shipped pipeline: two Go versions, two shards. -/
def shippedSpec : Spec where
  jobs :=
    (Table.empty.put "test"
      { steps := [{ run := "go test" }]
        matrix := Table.empty.put "go" [.string "1.22", .string "1.23"] }).put "ship"
      { steps := [{ run := "make ship" }], needs := ["test"], shards := 2 }

/-- The shipped pipeline compiles to a lossless graph. -/
theorem shipped_graph_lossless :
    ∃ g, compileWithInputs idleHost openRules shippedSpec none = .ok g ∧ Lossless shippedSpec g := by
  have ok : (compileWithInputs idleHost openRules shippedSpec none).isOk = true := by decide +kernel
  obtain ⟨g, ran⟩ : ∃ g, compileWithInputs idleHost openRules shippedSpec none = .ok g := by
    cases ran : compileWithInputs idleHost openRules shippedSpec none with
    | error e => simp [ran, Except.isOk, Except.toBool] at ok
    | ok g => exact ⟨g, rfl⟩
  have short : ∀ e ∈ shippedSpec.jobs.rows, ∀ v ∈ variants e.1 e.2, ¬ v.Long := by decide +kernel
  have values : ∀ e ∈ shippedSpec.jobs.rows, ∀ dim ∈ e.2.matrix.rows,
      (dim.2.map MatrixValue.sprint).Nodup := by
    decide +kernel
  have brief (id : String) (j : Job) (held : shippedSpec.jobs.get? id = some j) (v : Variant)
      (here : v ∈ variants id j) : ¬ v.Long := short ⟨id, j⟩ (mem_rows_iff.mpr held) v here
  refine ⟨g, ran, (compiled_graph_lossless_iff ran fun id j held v here w _ long => ?_).mpr
    ⟨fun id j held dim vals there => ?_, ?_⟩⟩
  · exact absurd long (brief id j held v here)
  · exact values ⟨id, j⟩ (mem_rows_iff.mpr held) ⟨dim, vals⟩ (mem_rows_iff.mpr there)
  · exact fun id j held v here w _ long _ => absurd long (brief id j held v here)

/-- A matrix with two values that print alike: the string and the number one. -/
def repeatedSpec : Spec where
  jobs :=
    Table.empty.put "test"
      { steps := [{ run := "go test" }]
        matrix := Table.empty.put "node" [.string "1", .int 1] }

/-- It compiles, and one of its two combinations is lost. -/
theorem repeated_value_lost :
    ∃ g, compileWithInputs idleHost openRules repeatedSpec none = .ok g ∧ ¬ Lossless repeatedSpec g := by
  have ok : (compileWithInputs idleHost openRules repeatedSpec none).isOk = true := by decide +kernel
  have twice : ¬ ((expansion repeatedSpec).map Variant.id).Nodup := by decide +kernel
  cases ran : compileWithInputs idleHost openRules repeatedSpec none with
  | error e => simp [ran, Except.isOk, Except.toBool] at ok
  | ok g => exact ⟨g, rfl, fun lossless => twice lossless.distinct⟩

end KiwiCI.Pipeline
