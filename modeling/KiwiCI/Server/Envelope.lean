import KiwiCI.Server.Generated

/-!
The envelope of a generating job: how many children a fragment may insert, and how
deep.

`processGeneratedFragment_cases` and the two `commit_cases` say what an accepted
upload went through.  A payload that `enqueue` stamps is read as one that declares
no limit, so only the global ceilings are left; `envelope_enforced_iff` says which
declared envelopes are kept all the same.
-/

namespace KiwiCI.Server

variable {verify : Job → Nat → Time → Except StoreError Unit}

variable {p : Admission} {now : Time} {parent : Job} {upload : GeneratedFragment}
  {req : GeneratedFragmentRequest} {created : List (Job × List ArtifactContract)}

open Storage Pipeline List Table

/-! ## What an accepted upload went through -/

/-- A fragment that is not answered from a receipt: its compiled graph, its children
and the commit. -/
structure Committed {σ : Type} (mode : StoreMode σ) (p : Admission) (now : Time) (parent : Job)
    (upload : GeneratedFragment) (existing : Nat) (s s' : σ) (g : Graph)
    (created : List (Job × List ArtifactContract)) (replayed : Option Children) : Prop where
  admitted : admitUpload p parent upload existing = .ok ()
  compiled : compile p.host p.rules upload.synth = .ok g
  children : createChildren p now parent upload g = .ok created
  commit : mode.commit parent (fragmentRequest parent upload created) (fun fresh runJobCount _ =>
      verifyGeneratedFragmentGraph p parent fresh (childDepth parent) runJobCount
        (fragmentRequest parent upload created).jobs.length) s = .ok (replayed, s')

theorem processGeneratedFragment_cases {σ : Type} {mode : StoreMode σ} {seen s s' : σ}
    (ran : processGeneratedFragment mode p now parent upload seen s = .ok (res, s')) :
    (s' = s ∧ res.replayed = true) ∨ ∃ g created replayed, Committed mode p now parent upload
      (mode.runJobCount parent.runID seen) s s' g created replayed ∧
        res.replayed = replayed.isSome := by
  simp only [processGeneratedFragment, bind_ok_iff] at ran
  obtain ⟨_, -, _, -, _, -, found, -, ran⟩ := ran
  cases found with
  | some children =>
    obtain ⟨rfl, rfl⟩ := Prod.mk.inj (pure_ok_iff.mp ran)
    exact .inl ⟨rfl, rfl⟩
  | none =>
    simp only [insertFragment, bind_ok_iff, wrap_ok_iff] at ran
    obtain ⟨_, admitted, g, compiled, created, children, ⟨replayed, after⟩, commit, ran⟩ := ran
    obtain ⟨rfl, answered⟩ : after = s' ∧ res.replayed = replayed.isSome := by
      cases replayed <;> obtain ⟨rfl, rfl⟩ := Prod.mk.inj (pure_ok_iff.mp ran) <;> exact ⟨rfl, rfl⟩
    exact .inr ⟨g, created, replayed, ⟨admitted, compiled, children, commit⟩, answered⟩

/-- What a commit of jobs under their own identifiers does to the stored jobs:
nothing, or after `verify` it adds the jobs of the request and no others. -/
structure StoreMode.Commits {σ : Type} (mode : StoreMode σ) : Prop where
  cases : ∀ {parent req verify s replayed s'}, (∀ entry ∈ req.jobs, entry.1 = entry.2.id) →
    mode.commit parent req verify s = .ok (replayed, s') → (s' = s ∧ replayed.isSome = true) ∨
      (∃ fresh count t, verify fresh count t = .ok ()) ∧
      (∀ id j, (mode.jobs s').get? id = some j → (mode.jobs s).get? id = none → (id, j) ∈ req.jobs) ∧
      ((req.jobs.map Prod.fst).Nodup →
        ∀ entry ∈ req.jobs, (mode.jobs s').get? entry.1 = some entry.2)

theorem memoryMode_commits (now : Time) : (memoryMode now).Commits := by
  refine ⟨fun {parent req verify m replayed m'} _ ran => ?_⟩
  simp only [memoryMode, bind_ok_iff, orThrow_ok_iff] at ran
  obtain ⟨current, -, _, -, ran⟩ := ran
  split at ran
  · obtain ⟨_, -, ran⟩ := bind_ok_iff.mp ran
    obtain ⟨rfl, rfl⟩ := Prod.mk.inj (pure_ok_iff.mp ran)
    exact .inl ⟨rfl, rfl⟩
  · simp only [bind_ok_iff, pure_ok_iff] at ran
    obtain ⟨_, verified, _, -, ran⟩ := ran
    obtain ⟨-, rfl⟩ := Prod.mk.inj ran
    refine .inr ⟨⟨_, _, _, verified⟩, fun id j found fresh => ?_, fun nodup entry member => ?_⟩
    · rcases get?_foldl_put found with old | new
      · exact absurd (old.symm.trans fresh) (by simp)
      · exact new
    · exact get?_foldl_put_of_nodup m.jobs nodup member

/-- A call that fills an empty slot ran its `verify`. -/
theorem insertGeneratedFragmentTx_verified
    (ran : insertGeneratedFragmentTx c req verify db = .ok db')
    (empty : db.generatedFragments.get? req.slotKey = none) :
    ∃ fresh count, verify fresh count c.now = .ok () := by
  simp only [insertGeneratedFragmentTx, bind_ok_iff, orThrow_ok_iff, require_ok_iff] at ran
  obtain ⟨_, -, _, -, _, -, row, -, parent, -, _, -, ran⟩ := ran
  split at ran
  · rename_i stored there
    exact absurd (empty.symm.trans there) (by simp)
  · simp only [bind_ok_iff] at ran
    obtain ⟨_, -, _, verified, -⟩ := ran
    exact ⟨_, _, verified⟩

theorem sqlMode_commits (c : Call) : (sqlMode c).Commits := by
  refine ⟨fun {parent req verify db replayed db'} named ran => ?_⟩
  simp only [sqlMode, bind_ok_iff, pure_ok_iff] at ran
  obtain ⟨after, insert, ran⟩ := ran
  obtain ⟨rfl, rfl⟩ := Prod.mk.inj ran
  obtain ⟨parent, -, -, ⟨held, same⟩ | filled⟩ := insertGeneratedFragmentTx_cases insert
  · refine .inl ⟨same, ?_⟩
    obtain ⟨stored, there, -⟩ := Option.map_eq_some_iff.mp held
    rw [show db.generatedFragments.get? req.slotKey = some stored from there]
    rfl
  obtain ⟨fresh, count, verified⟩ := insertGeneratedFragmentTx_verified insert filled.empty
  refine .inr ⟨⟨fresh, count, _, verified⟩, fun id j found absent => ?_, fun _ entry entered => ?_⟩
  · simp only [sqlMode, get?_map, Option.map_eq_some_iff, Option.map_eq_none_iff]
      at found absent
    obtain ⟨row, found, rfl⟩ := found
    rcases filled.inserts.only id row found with ⟨old, there, -⟩ | ⟨j, member, rfl, shape⟩
    · exact absurd (there.symm.trans absent) (by simp)
    · obtain ⟨entry, entered, rfl⟩ := mem_map.mp member
      rw [(JobRow.plain_write shape).2.2.1, ← named entry entered]
      exact entered
  · obtain ⟨row, found, shape⟩ := filled.inserts.added entry.2 (mem_map_of_mem entered)
    simp only [sqlMode, get?_map]
    rw [named entry entered, found, Option.map_some, (JobRow.plain_write shape).2.2.1]

/-! ## The envelope that is read -/

/-- The written compiled job has its limits under `job`, and none at its top. -/
theorem decodeShape_compiled (cj : CompiledJob) : decodeShape cj.toJson = some (0, 0) := by
  have none : Json.field? "generate" cj.toJson = none := by
    refine field?_encode ?_
    simp only [members, CompiledJob.fields, map_cons, map_nil, forall_mem_cons]
    exact ⟨by decide, by decide, by decide, by decide, by decide, fun m none => by cases none⟩
  exact congrArg decodeGenerate none

theorem parentGenerateEnvelope_compiled (cj : CompiledJob) :
    parentGenerateEnvelope (some (compiledPayload cj)) = .ok { known := true } := by
  simp only [parentGenerateEnvelope, compiledPayload, decodeShape_compiled]

/-- Whatever the parent declares, the ceilings are the global ones. -/
theorem effectiveGeneratedLimits_compiled (cj : CompiledJob) :
    effectiveGeneratedJobsLimit (some (compiledPayload cj)) = .ok maxGeneratedJobsPerFragment ∧
      effectiveGeneratedDepthLimit (some (compiledPayload cj)) = .ok maxDynamicDepth := by
  simp only [effectiveGeneratedJobsLimit, effectiveGeneratedDepthLimit,
    parentGenerateEnvelope_compiled]
  exact ⟨rfl, rfl⟩

/-! ## What a fragment inserts -/

def newJobs (before after : Table JobID Job) : List JobID :=
  after.select fun id _ => (before.get? id).isNone

theorem mem_newJobs {after : Table JobID Job} {id : JobID} :
    id ∈ newJobs before after ↔ before.get? id = none ∧ ∃ j, after.get? id = some j := by
  simp only [newJobs, mem_select, Option.isNone_iff_eq_none]
  constructor
  · rintro ⟨j, found, fresh⟩
    exact ⟨fresh, j, found⟩
  · rintro ⟨fresh, j, found⟩
    exact ⟨j, found, fresh⟩

theorem length_newJobs_le {after : Table JobID Job} {entries : List (JobID × Job)}
    (only : ∀ id j, after.get? id = some j → before.get? id = none → (id, j) ∈ entries) :
    (newJobs before after).length ≤ entries.length := by
  have within : newJobs before after ⊆ entries.map Prod.fst := by
    intro id member
    obtain ⟨fresh, j, found⟩ := mem_newJobs.mp member
    exact mem_map.mpr ⟨(id, j), only id j found fresh, rfl⟩
  have bound := ((nodup_select _ _).subperm within).length_le
  rwa [length_map] at bound

/-- At most as many new jobs as the limits allow, and none deeper. -/
structure WithinLimits (jobs depth : Int) (before after : Table JobID Job) : Prop where
  count : ((newJobs before after).length : Int) ≤ jobs
  depth : ∀ id ∈ newJobs before after, ∀ j, after.get? id = some j → j.dynamicDepth ≤ depth

theorem fragmentRequest_named :
    ∀ entry ∈ (fragmentRequest parent upload created).jobs, entry.1 = entry.2.id := by
  intro entry member
  obtain ⟨child, -, rfl⟩ := mem_map.mp member
  rfl

theorem createChild_ok {keys : List String}
    (ran : createChild p now parent upload keys entry = .ok child) :
    child.1.id = p.newID entry.1 ∧ child.1.key = entry.1 ∧
      child.1.dynamicDepth = childDepth parent ∧
      childNeeds p parent upload keys entry.1 = .ok child.1.needs := by
  simp only [createChild, bind_ok_iff, pure_ok_iff] at ran
  obtain ⟨cj, -, needs, resolved, rfl⟩ := ran
  exact ⟨rfl, rfl, rfl, resolved⟩

theorem createChildren_ok (ran : createChildren p now parent upload g = .ok created) :
    List.Forall₂ (fun entry child => createChild p now parent upload (g.jobs.sorted.map Prod.fst)
      entry = .ok child) g.jobs.sorted created :=
  mapM_ok ran

/-- The children have the identifiers drawn for the nodes of the graph. -/
theorem created_ids (ran : createChildren p now parent upload g = .ok created) :
    (fragmentRequest parent upload created).jobs.map Prod.fst =
      g.jobs.sorted.map fun entry => p.newID entry.1 := by
  have each := createChildren_ok ran
  rw [show (fragmentRequest parent upload created).jobs.map Prod.fst = created.map (·.1.id) from
    map_map]
  clear ran
  generalize g.jobs.sorted.map Prod.fst = keys at each
  generalize g.jobs.sorted = entries at each ⊢
  induction each with
  | nil => rfl
  | cons made _ ih => rw [map_cons, map_cons, ih, (createChild_ok made).1]

/-- What `verifyGeneratedFragmentGraph` lets through for a compiled parent. -/
theorem verifyGeneratedFragmentGraph_compiled
    (stored : p.payloads snapshot.id = some (compiledPayload cj)) :
    verifyGeneratedFragmentGraph p snapshot fresh depth runJobCount childCount = .ok () ↔
      fresh.id = snapshot.id ∧ depth ≤ maxDynamicDepth ∧
        (childCount : Int) ≤ maxGeneratedJobsPerFragment ∧
        (runJobCount + childCount : Int) ≤ maxJobsPerRun := by
  obtain ⟨jobs, depths⟩ := effectiveGeneratedLimits_compiled cj
  simp only [verifyGeneratedFragmentGraph, bind_ok_iff, require_ok_iff]
  constructor
  · rintro ⟨_, same, limit, read, _, deep, most, read', _, many, grows⟩
    rw [same, stored, depths] at read
    rw [same, stored, jobs] at read'
    obtain rfl := Except.ok.inj read
    obtain rfl := Except.ok.inj read'
    exact ⟨same, deep, many, grows⟩
  · rintro ⟨same, deep, many, grows⟩
    exact ⟨(), same, _, by rw [same, stored, depths], (), deep, _, by rw [same, stored, jobs], (),
      many, grows⟩

/-- An accepted fragment of a compiled parent keeps to the global ceilings. -/
theorem processGeneratedFragment_within {σ : Type} {mode : StoreMode σ} (lawful : mode.Commits)
    {cj : CompiledJob}
    {seen s s' : σ} {res : GeneratedResponse}
    (stored : p.payloads parent.id = some (compiledPayload cj))
    (ran : processGeneratedFragment mode p now parent upload seen s = .ok (res, s')) :
    WithinLimits maxGeneratedJobsPerFragment maxDynamicDepth (mode.jobs s) (mode.jobs s') := by
  have unchanged : WithinLimits maxGeneratedJobsPerFragment maxDynamicDepth (mode.jobs s)
      (mode.jobs s) := by
    have none : ∀ id, id ∉ newJobs (mode.jobs s) (mode.jobs s) := by
      intro id member
      obtain ⟨fresh, j, found⟩ := mem_newJobs.mp member
      rw [fresh] at found
      cases found
    refine ⟨?_, fun id member => absurd member (none id)⟩
    rw [eq_nil_iff_forall_not_mem.mpr none]
    decide
  rcases processGeneratedFragment_cases ran with ⟨rfl, -⟩ | ⟨g, created, replayed, done, -⟩
  · exact unchanged
  rcases lawful.cases fragmentRequest_named done.commit with
    ⟨rfl, -⟩ | ⟨⟨fresh, count, t, verified⟩, only, -⟩
  · exact unchanged
  obtain ⟨-, deep, many, -⟩ := (verifyGeneratedFragmentGraph_compiled stored).mp verified
  refine ⟨?_, fun id member j found => ?_⟩
  · have bound := length_newJobs_le only
    omega
  · obtain ⟨absent, -⟩ := mem_newJobs.mp member
    obtain ⟨child, in_, shape⟩ := mem_map.mp (only id j found absent)
    obtain ⟨-, rfl⟩ := Prod.mk.inj shape
    obtain ⟨entry, -, made⟩ := forall₂_mem_right (createChildren_ok done.children) in_
    rw [(createChild_ok made).2.2.1]
    exact deep

/-! ## A fragment as wide as the global ceiling -/

/-- One job in as many shards as a fragment may have children. -/
def wideJob : Pipeline.Job := { steps := [{ run := "make test" }], shards := 128 }

/-- A fragment under its own digest, as a runner sends it. -/
def GeneratedFragment.signed (f : GeneratedFragment) : GeneratedFragment :=
  { f with fragmentID := f.digest }

theorem signed_fragmentID (f : GeneratedFragment) : f.signed.fragmentID = f.signed.digest := rfl

/-- The fragment with that job. -/
def wideUpload : GeneratedFragment := GeneratedFragment.signed { jobs := Table.empty.put "k" wideJob }

theorem wideJob_expandable : wideJob.Expandable := by
  refine ⟨?_, ?_, fun _ => rfl⟩ <;> intro dim vals held <;> cases held

theorem utf8Len_le (cs : List Char) : String.utf8Len cs ≤ 4 * cs.length := by
  induction cs with
  | nil => simp
  | cons c rest ih =>
    have one := c.utf8Size_le_four
    rw [String.utf8Len_cons, length_cons]
    omega

/-- A shard of the job is short, and its identifier is a valid one. -/
theorem wide_shard (member : v ∈ variants "k" wideJob) :
    ¬ v.Long ∧ compiledIDRegexp v.id = true := by
  have listed : variants "k" wideJob = (List.range 128).map fun i =>
      ⟨"k", wideJob, Table.empty.put "test_shard" (toString i), ["test_shard"]⟩ := rfl
  have digits : ∀ i < 128, (Nat.toDigits 10 i).length ≤ 3 := by decide
  rw [listed] at member
  obtain ⟨i, below, rfl⟩ := List.mem_map.mp member
  have few := digits i (List.mem_range.mp below)
  have suffix (write : String → List Char) :
      renderSuffix write (Table.empty.put "test_shard" (toString i)) ["test_shard"] =
        '[' :: ("test_shard=".toList ++ write (toString i)) ++ [']'] := by
    simp [renderSuffix]
  have short : ¬ Variant.Long ⟨"k", wideJob, Table.empty.put "test_shard" (toString i),
      ["test_shard"]⟩ := by
    have bytes := utf8Len_le ('[' :: ("test_shard=".toList ++ Nat.toDigits 10 i) ++ [']'])
    rw [Variant.Long, Pipeline.Long, rawSuffix, suffix, Text.toList_toString,
      String.utf8ByteSize_ofList, maxMatrixSuffixBytes]
    simp only [List.length_append, List.length_cons, List.length_nil] at bytes
    have name : "test_shard=".toList.length = 11 := by decide
    omega
  refine ⟨short, ?_⟩
  rw [Variant.id, suffix_of_short (by exact List.cons_ne_nil _ _) short, suffix,
    encodeValue_toString]
  refine compiledIDRegexp_bracketed (show idRegexp "k" = true by decide) ?_ ?_
  · have name : "test_shard=".toList.length = 11 := by decide
    rw [List.length_append, name]
    omega
  · have name : ("test_shard=".toList.all fun c => Expr.isIdentPart c || c == '.' || c == '~' ||
        c == ',' || c == '=') = true := by decide
    rw [List.all_append, name, Bool.true_and]
    refine List.all_eq_true.mpr fun c digit => ?_
    rw [isIdentPart_of_mem_toDigits digit]
    rfl

/-- A variant without toolchains compiles where the rules admit everything. -/
theorem compileVariant_open (bare : v.job.toolchains = []) (named : compiledIDRegexp v.id = true)
    (based : idRegexp v.base = true) :
    ∃ cj, compileVariant host openRules s none v = .ok cj := by
  have unbound : bindToolchains v.id (interpolateJob host v.job v.values none) s =
      .ok (interpolateJob host v.job v.values none) := by
    rw [bindToolchains, if_pos]
    rw [show (interpolateJob host v.job v.values none).toolchains = v.job.toolchains from rfl, bare]
    rfl
  simp only [compileVariant, bind_ok_iff, pure_ok_iff, unbound, validateCompiledJob, require_ok_iff]
  exact ⟨_, _, rfl, _, rfl, (), ⟨(), named, (), based, rfl⟩, rfl⟩

/-- The fragment compiles to as many jobs as it has shards. -/
theorem wide_compiled : ∃ g, compile idleHost openRules wideUpload.synth = .ok g ∧
    g.jobs.sorted.length = 128 ∧ ∀ entry ∈ g.jobs.sorted, entry.1 ≠ "gen" := by
  have synth : wideUpload.synth = { jobs := Table.empty.put "k" wideJob } := rfl
  have expands : expansion wideUpload.synth = variants "k" wideJob := by
    rw [synth]
    exact append_nil _
  have ok : validate openRules wideUpload.synth = .ok () := by
    have : (validate openRules { jobs := Table.empty.put "k" wideJob }).isOk = true := by
      decide +kernel
    rw [synth]
    exact eq_ok_commit this ()
  obtain ⟨compiled, all⟩ : ∃ compiled, (expansion wideUpload.synth).mapM
      (compileVariant idleHost openRules wideUpload.synth none) = .ok compiled := by
    refine mapM_total fun v member => ?_
    rw [expands] at member
    obtain ⟨base, job, -⟩ := mem_variants member
    exact compileVariant_open (by rw [job]; rfl) (wide_shard member).2 (by rw [base]; decide)
  have ran : compile idleHost openRules wideUpload.synth = .ok (assemble compiled) := by
    simp only [compile, compileWithInputs, bind_ok_iff, pure_ok_iff]
    exact ⟨(), ok, (), rfl, compiled, all, rfl⟩
  obtain ⟨valid, each⟩ : wideUpload.synth.Valid ∧ wideUpload.synth.Yields compiled :=
    ⟨validate_ok ok, (mapM_ok all).imp fun _ _ => compileVariant_ok⟩
  have held : wideUpload.synth.jobs.get? "k" = some wideJob := rfl
  have shard : ∀ key cj, (assemble compiled).jobs.get? key = some cj →
      ∃ v ∈ variants "k" wideJob, v.id = key ∧ cj.baseID = "k" := by
    intro key cj found
    obtain ⟨source, member, rfl, rfl⟩ := get?_assemble found
    obtain ⟨v, there, of⟩ := variant_of_compiled each member
    rw [expands] at there
    exact ⟨v, there, of.id.symm, of.baseID.trans (mem_variants there).1⟩
  have distinct : ((variants "k" wideJob).map Variant.id).Nodup := by
    refine (nodup_ids_iff wideJob_expandable fun v here w _ long => ?_).mpr ⟨?_, ?_⟩
    · exact absurd long (wide_shard here).1
    · intro dim member
      cases member
    · exact fun v here w _ long => absurd long (wide_shard here).1
  refine ⟨_, ran, ?_, ?_⟩
  · rw [← length_map Prod.fst, map_fst_sorted, length_select,
      count_congr fun key cj found => (decide_eq_true (shard key cj found).choose_spec.2.2).symm,
      count_base valid each, expanded_eq each held, distinct.dedup, length_map,
      length_variants wideJob_expandable]
    decide
  · rintro ⟨key, cj⟩ member rfl
    obtain ⟨v, there, same, -⟩ := shard "gen" cj (mem_sorted.mp member)
    rw [Variant.id, (mem_variants there).1] at same
    have heads := congrArg (fun s : String => s.toList.head?) same
    simp at heads

/-- A server that refuses nothing on other grounds, for a job with the given payload. -/
def openAdmission (payload : StoredPayload) (newID : String → JobID) : Admission where
  host := idleHost
  rules := openRules
  isPrint _ := true
  payloads _ := some payload
  permitsChildGraph _ := .ok true
  admitCompiledSpec _ _ := .ok ()
  reparse _ := .ok ()
  applyUntrustedResourceCeilings _ cj := .ok cj
  compiledFields _ _ := {}
  buildJobContracts _ := []
  newID := newID

/-- A running job that was generated itself. -/
def generatingJob : Job where
  id := "gen"
  runID := "run"
  key := "gen"
  status := .running
  leaseRunnerID := "runner"
  leaseTokenHash := [1]
  leaseGeneration := 1
  leaseExpiresAt := some 60
  dynamicDepth := 1

/-- The maps of a server that knows that job only. -/
def generatingTables : Memory.Tables := { jobs := Table.empty.put "gen" generatingJob }

theorem digest_ne_empty (upload : GeneratedFragment) : upload.digest ≠ "" := by
  intro empty
  have none := congrArg (fun s : String => s.toList.length) empty
  simp only [GeneratedFragment.digest, Sha256.length_hex, Sha256.length_digest] at none
  exact absurd none (by decide)

/-- An upload under its own digest, for a slot that is seen empty, is admitted or
refused on its content. -/
theorem processGeneratedFragment_signed {σ : Type} {mode : StoreMode σ} {f : GeneratedFragment}
    {seen s : σ} (plain : f.externalContext = "")
    (empty : mode.receipt parent.id seen = none) :
    processGeneratedFragment mode p now parent f.signed seen s =
      insertFragment mode p now parent f.signed seen s := by
  have context : validateExternalContext p.isPrint f.signed.externalContext = .ok () := if_pos plain
  have receipt : generatedFragmentReceipt mode parent.id f.signed.digest seen = .ok none := by
    rw [generatedFragmentReceipt, empty]
  rw [processGeneratedFragment, context, receipt, require,
    if_pos (show f.signed.fragmentID ≠ "" from digest_ne_empty f), require,
    if_pos (signed_fragmentID f)]
  rfl

theorem wide_admitted (cj : CompiledJob) (newID : String → JobID) :
    admitUpload (openAdmission (compiledPayload cj) newID) generatingJob wideUpload 1 = .ok () := by
  have ok : (validate openRules wideUpload.synth).isOk = true := by decide +kernel
  obtain ⟨jobs, depth⟩ := effectiveGeneratedLimits_compiled cj
  simp only [admitUpload, bind_ok_iff, require_ok_iff, wrap_ok_iff]
  exact ⟨(), by decide, _, jobs, (), by decide, _, depth, (), by decide, (), rfl, (), rfl, (),
    eq_ok_commit ok (), true, rfl, (), rfl, (), rfl, (), by decide, rfl⟩

theorem wide_created (cj : CompiledJob) (newID : String → JobID) (g : Graph) :
    ∃ created, createChildren (openAdmission (compiledPayload cj) newID) 0 generatingJob wideUpload
      g = .ok created := by
  refine mapM_total fun entry _ => ?_
  have none : wideUpload.depsOf entry.1 = [] := rfl
  simp only [createChild, childNeeds, none, bind_ok_iff, pure_ok_iff, wrap_ok_iff]
  exact ⟨_, entry.2, rfl, _, ⟨[], rfl, rfl⟩, rfl⟩

/-- A request of children of the same run under other keys is committed. -/
theorem memoryMode_commit (found : m.jobs.get? req.parentJobID = some current)
    (leased : validateGeneratedParentLease current req now = .ok ())
    (empty : m.fragments.get? (Memory.fragmentKey req.parentJobID req.mutationSlot) = none)
    (verified : verify current (m.jobs.count fun _ j => j.runID = parent.runID) now = .ok ())
    (unused : ∀ entry ∈ req.jobs, Memory.generatedJobKeyIndex parent.runID m entry.2.key = none) :
    (memoryMode now).commit parent req verify m =
      .ok (none, Memory.commitFragment req (Memory.receiptOf now req) m) := by
  have free : Memory.checkGeneratedJobKeyConflicts parent.runID req.jobs
      (Memory.generatedJobKeyIndex parent.runID m) = .ok () := by
    have nothing : ((req.jobs.map (·.2.key)).insertionSort (· ≤ ·)).findSome? (fun key =>
        (Memory.generatedJobKeyIndex parent.runID m key).map fun id => (key, id)) = none := by
      refine findSome?_eq_none_iff.mpr fun key member => ?_
      rw [mem_insertionSort] at member
      obtain ⟨entry, there, rfl⟩ := mem_map.mp member
      rw [unused entry there]
      rfl
    rw [Memory.checkGeneratedJobKeyConflicts, nothing]
    rfl
  simp only [memoryMode, bind_ok_iff, orThrow_ok_iff, empty, pure_ok_iff]
  exact ⟨current, found, (), leased, (), verified, (), free, trivial⟩

theorem generatingTables_unused (other : key ≠ "gen") :
    Memory.generatedJobKeyIndex generatingJob.runID generatingTables key = none := by
  have nobody : (generatingTables.jobs.select fun _ j =>
      j.runID = generatingJob.runID && j.key = key) = [] := by
    refine eq_nil_iff_forall_not_mem.mpr fun id listed => ?_
    obtain ⟨j, found, same⟩ := mem_select.mp listed
    rw [generatingTables, get?_put] at found
    split at found
    · rw [← Option.some.inj found] at same
      simp only [Bool.and_eq_true, decide_eq_true_eq] at same
      exact other same.2.symm
    · cases found
  rw [Memory.generatedJobKeyIndex, nobody]
  rfl

/-- What is new after jobs under their own identifiers were written to those maps. -/
theorem newJobs_commitFragment {receipt : Memory.GeneratedFragmentReceipt} {id : JobID} :
    id ∈ newJobs generatingTables.jobs (Memory.commitFragment req receipt generatingTables).jobs ↔
      id ≠ "gen" ∧ id ∈ req.jobs.map Prod.fst := by
  rw [mem_newJobs]
  have absent : generatingTables.jobs.get? id = none ↔ id ≠ "gen" := by
    rw [generatingTables, get?_put]
    split
    · rename_i same
      simp [same]
    · rename_i differ
      simp [differ]
  rw [absent]
  refine and_congr_right fun other => ⟨?_, fun member => ?_⟩
  · rintro ⟨j, found⟩
    rcases get?_foldl_put found with old | new
    · rw [absent.mpr other] at old
      cases old
    · exact mem_map.mpr ⟨_, new, rfl⟩
  · exact get?_foldl_put_of_mem _ member

/-- Whatever the generating job declares, the fragment inserts as many children as
the global ceiling allows, as deep as the global ceiling allows. -/
theorem wide_fragment_inserted (cj : CompiledJob) :
    ∃ res m', processGeneratedFragment (memoryMode 0) (openAdmission (compiledPayload cj) id) 0
        generatingJob wideUpload generatingTables generatingTables = .ok (res, m') ∧
      (newJobs generatingTables.jobs m'.jobs).length = 128 ∧
      ∀ id ∈ newJobs generatingTables.jobs m'.jobs, ∃ j, m'.jobs.get? id = some j ∧
        j.dynamicDepth = 2 := by
  obtain ⟨g, compiled, size, apart⟩ := wide_compiled
  obtain ⟨created, children⟩ := wide_created cj id g
  have each := createChildren_ok children
  let req := fragmentRequest generatingJob wideUpload created
  have length : req.jobs.length = 128 := by
    rw [← size, each.length_eq]
    exact length_map _
  have names : req.jobs.map Prod.fst = g.jobs.sorted.map Prod.fst := created_ids children
  have deep : ∀ entry ∈ req.jobs, entry.2.key ≠ "gen" ∧ entry.2.dynamicDepth = 2 := by
    intro entry member
    obtain ⟨child, there, rfl⟩ := mem_map.mp member
    obtain ⟨source, listed, made⟩ := forall₂_mem_right each there
    obtain ⟨-, keyed, depth, -⟩ := createChild_ok made
    exact ⟨keyed ▸ apart source listed, depth⟩
  have committed : (memoryMode 0).commit generatingJob req (fun fresh runJobCount _ =>
      verifyGeneratedFragmentGraph (openAdmission (compiledPayload cj) id) generatingJob fresh
        (childDepth generatingJob) runJobCount req.jobs.length) generatingTables =
      .ok (none, Memory.commitFragment req (Memory.receiptOf 0 req) generatingTables) := by
    refine memoryMode_commit
      (show generatingTables.jobs.get? req.parentJobID = some generatingJob from rfl)
      (validateGeneratedParentLease_ok.mpr ⟨rfl, rfl, rfl, ⟨by decide, rfl⟩, by decide⟩) rfl
      ((verifyGeneratedFragmentGraph_compiled rfl).mpr ⟨rfl, by decide, ?_, ?_⟩)
      fun entry member => generatingTables_unused (deep entry member).1
    · rw [length]
      decide
    · rw [length]
      decide
  refine ⟨responseFor generatingJob req.children false,
    Memory.commitFragment req (Memory.receiptOf 0 req) generatingTables, ?_, ?_, fun id member => ?_⟩
  · rw [wideUpload, processGeneratedFragment_signed rfl rfl]
    simp only [insertFragment, bind_ok_iff, wrap_ok_iff]
    exact ⟨(), wide_admitted cj id, g, compiled, created, children, _, committed, rfl⟩
  · have listed : (newJobs generatingTables.jobs
        (Memory.commitFragment req (Memory.receiptOf 0 req) generatingTables).jobs).Perm
        (req.jobs.map Prod.fst) := by
      have nodup : (req.jobs.map Prod.fst).Nodup := by
        rw [names, map_fst_sorted]
        exact nodup_select _ _
      refine (perm_ext_iff_of_nodup (nodup_select _ _) nodup).mpr fun id => ?_
      rw [show id ∈ select _ _ ↔ _ from newJobs_commitFragment, and_iff_right_iff_imp, names]
      intro member
      obtain ⟨entry, there, rfl⟩ := mem_map.mp member
      exact apart entry there
    rw [listed.length_eq, length_map, length]
  · obtain ⟨absent, j, found⟩ := mem_newJobs.mp member
    refine ⟨j, found, ?_⟩
    rcases get?_foldl_put found with old | new
    · rw [absent] at old
      cases old
    · exact (deep _ new).2

/-! ## The theorem -/

/-- In either storage mode, an upload for a job that `enqueue` compiled never inserts
more children than the job's envelope and the global ceiling allow, and none
deeper. -/
def EnvelopeEnforced (cj : CompiledJob) : Prop :=
  ∀ (p : Admission) (now : Time) (parent : Job) (upload : GeneratedFragment),
    p.payloads parent.id = some (compiledPayload cj) →
    (∀ c seen db res db', processGeneratedFragment (sqlMode c) p now parent upload seen db =
        .ok (res, db') →
      WithinLimits (min cj.job.generate.maxJobs maxGeneratedJobsPerFragment)
        (min cj.job.generate.maxDepth maxDynamicDepth) ((sqlMode c).jobs db) ((sqlMode c).jobs db')) ∧
    ∀ at' seen m res m', processGeneratedFragment (memoryMode at') p now parent upload seen m =
        .ok (res, m') →
      WithinLimits (min cj.job.generate.maxJobs maxGeneratedJobsPerFragment)
        (min cj.job.generate.maxDepth maxDynamicDepth) m.jobs m'.jobs

/-- A declared envelope is enforced exactly when it allows what the global ceilings
allow. -/
theorem envelope_enforced_iff (cj : CompiledJob) :
    EnvelopeEnforced cj ↔ maxGeneratedJobsPerFragment ≤ cj.job.generate.maxJobs ∧
      maxDynamicDepth ≤ cj.job.generate.maxDepth := by
  constructor
  · intro enforced
    obtain ⟨res, m', ran, count, deep⟩ := wide_fragment_inserted cj
    have within := (enforced _ _ _ _ rfl).2 _ _ _ _ _ ran
    have most := within.count
    rw [count] at most
    obtain ⟨id, member⟩ := exists_mem_of_ne_nil _
      (ne_nil_of_length_pos (by rw [count]; decide :
        0 < (newJobs generatingTables.jobs m'.jobs).length))
    obtain ⟨j, found, depth⟩ := deep id member
    have deepest := within.depth id member j found
    rw [depth] at deepest
    simp only [maxGeneratedJobsPerFragment, maxDynamicDepth] at most deepest ⊢
    omega
  · rintro ⟨jobs, depth⟩ p now parent upload stored
    rw [min_eq_right jobs, min_eq_right depth]
    exact ⟨fun c seen db res db' ran => processGeneratedFragment_within (sqlMode_commits c) stored ran,
      fun t seen m res m' ran => processGeneratedFragment_within (memoryMode_commits t) stored ran⟩

/-- A compiled job that may generate one child, and no grandchildren. -/
def singleChildJob : CompiledJob where
  id := "gen"
  baseID := "gen"
  job := { steps := [{ run := "make gen" }]
           generate := { path := "gen.json", maxJobs := 1, maxDepth := 1 } }

/-- It is handed a hundred and twenty-eight, at depth two. -/
theorem single_child_envelope_exceeded :
    singleChildJob.job.generate.maxJobs = 1 ∧ singleChildJob.job.generate.maxDepth = 1 ∧
      ∃ res m', processGeneratedFragment (memoryMode 0)
          (openAdmission (compiledPayload singleChildJob) id) 0 generatingJob wideUpload
          generatingTables generatingTables = .ok (res, m') ∧
        (newJobs generatingTables.jobs m'.jobs).length = 128 ∧
        ∀ id ∈ newJobs generatingTables.jobs m'.jobs, ∃ j, m'.jobs.get? id = some j ∧
          j.dynamicDepth = 2 :=
  ⟨rfl, rfl, wide_fragment_inserted singleChildJob⟩

end KiwiCI.Server
