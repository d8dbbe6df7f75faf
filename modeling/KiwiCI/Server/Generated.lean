import KiwiCI.Memory.Fragments
import KiwiCI.Pipeline.Lossless

/-!
Generated fragments: `internal/server/dynamic.go`.

A runner uploads the child graph its job generated.  `processGeneratedFragment`
checks the upload against the limits of the parent, compiles it as a pipeline of
its own and hands the children to the store, which checks the parent's lease and
the limits again in its transaction.  Both storage modes share this path: a
`StoreMode` says how a mode looks up a receipt, counts a run and commits.

The handler reads the store before it takes the lock the children are inserted
under, so there are two states: `seen`, and the one the children go into.
-/

namespace KiwiCI.Server

open Storage Pipeline

/-! ## The upload -/

/-- `v1.GeneratedFragment`. -/
structure GeneratedFragment where
  fragmentID : String := ""
  jobs : Table String Pipeline.Job := .empty
  deps : Table String (List String) := .empty
  externalContext : String := ""

/-- The jobs and edges of a fragment, as they are written. -/
def GeneratedFragment.toJson (f : GeneratedFragment) : Json :=
  .obj [("jobs", .obj (f.jobs.sorted.map fun e => (e.1, e.2.toJson))),
    ("deps", .obj (f.deps.sorted.map fun e => (e.1, .arr (e.2.map .str))))]

def GeneratedFragment.digest (f : GeneratedFragment) : String :=
  Sha256.hex (Sha256.digest (Sha256.utf8 (String.ofList f.toJson.render)))

/-- The edges declared for a key; none for a key without an entry. -/
def GeneratedFragment.depsOf (f : GeneratedFragment) (key : String) : List String :=
  (f.deps.get? key).getD []

/-- The synthetic pipeline of a fragment: its jobs, with its edges for needs. -/
def GeneratedFragment.synth (f : GeneratedFragment) : Spec where
  jobs := f.jobs.map fun key j => { j with needs := f.depsOf key }

def maxExternalContextBytes : Nat := 256

/-- `ValidateExternalContext`, with `unicode.IsPrint` for a parameter. -/
def validateExternalContext (isPrint : Char → Bool) (s : String) : Except String Unit :=
  if s = "" then .ok ()
  else do
    require (s.utf8ByteSize ≤ maxExternalContextBytes)
      ("external_context exceeds " ++ toString maxExternalContextBytes ++ " bytes")
    require (s.toList.all isPrint) "external_context contains a non-printable character"

/-! ## The parent's envelope -/

/-- The bytes of an effective job: none, no JSON, or a JSON value. -/
inductive EffectiveBytes where
  | empty
  | malformed
  | json (value : Json)

/-- `model.CompiledJobPayload`, by the members the envelope is read from. -/
structure StoredPayload where
  schemaVersion : Int := 0
  effectiveJob : Option EffectiveBytes := none

def compiledJobPayloadSchemaVersion : Int := 1

/-- The payload `enqueue` stamps on a compiled job. -/
def compiledPayload (cj : CompiledJob) : StoredPayload where
  schemaVersion := compiledJobPayloadSchemaVersion
  effectiveJob := some (.json cj.toJson)

/-- An `int` field of a decoded struct: zero when it is absent or null. -/
def decodeInt : Option Json → Option Int
  | none | some .null => some 0
  | some (.num n) => some n
  | some _ => none

/-- The `generate` field of the decoded shape, as `max_jobs` and `max_depth`. -/
def decodeGenerate : Option Json → Option (Int × Int)
  | none | some .null => some (0, 0)
  | some (.obj members) => do
    let maxJobs ← decodeInt (Json.field? "max_jobs" (.obj members))
    let maxDepth ← decodeInt (Json.field? "max_depth" (.obj members))
    return (maxJobs, maxDepth)
  | some _ => none

/-- `json.Unmarshal` into the shape that has `generate` for its only field. -/
def decodeShape : Json → Option (Int × Int)
  | .null => some (0, 0)
  | .obj members => decodeGenerate (Json.field? "generate" (.obj members))
  | _ => none

structure GeneratedEnvelope where
  maxJobs : Int := 0
  maxDepth : Int := 0
  known : Bool := false

def parentGenerateEnvelope : Option StoredPayload → Except StoreError GeneratedEnvelope
  | none => .ok {}
  | some payload =>
    match payload.effectiveJob with
    | none =>
      if 1 ≤ payload.schemaVersion then
        .error (.failed ("compiled parent payload (schema " ++ toString payload.schemaVersion ++
          ") is missing the effective job"))
      else .ok {}
    | some .empty => .error (.failed "compiled parent payload has an empty effective job")
    | some .malformed => .error (.failed "compiled parent payload is malformed")
    | some (.json value) =>
      match decodeShape value with
      | none => .error (.failed "compiled parent payload is malformed")
      | some (maxJobs, maxDepth) => .ok { maxJobs := maxJobs, maxDepth := maxDepth, known := true }

def maxGeneratedJobsPerFragment : Int := 128

def maxDynamicDepth : Int := 2

def maxJobsPerRun : Int := 4096

def tighten (ceiling declared : Int) (known : Bool) : Int :=
  if known = true ∧ 0 < declared ∧ declared < ceiling then declared else ceiling

def effectiveGeneratedJobsLimit (payload : Option StoredPayload) : Except StoreError Int := do
  let env ← parentGenerateEnvelope payload
  return tighten maxGeneratedJobsPerFragment env.maxJobs env.known

def effectiveGeneratedDepthLimit (payload : Option StoredPayload) : Except StoreError Int := do
  let env ← parentGenerateEnvelope payload
  return tighten maxDynamicDepth env.maxDepth env.known

/-! ## Admission -/

/-- What admission reads besides the upload and the parent.  `payloads` are the
compiled payloads of the stored jobs, which nothing rewrites; `permitsChildGraph`
stands for `generatedChildCapabilities` and its `GenerateChildGraph`; `reparse`
for what `Parse` checks of the canonical text, which it reads back as it was
written; `compiledFields` for the columns taken from the compiled job. -/
structure Admission where
  host : Expr.Host
  rules : FieldRules
  isPrint : Char → Bool
  payloads : JobID → Option StoredPayload
  permitsChildGraph : Job → Except String Bool
  admitCompiledSpec : Job → Spec → Except String Unit
  reparse : Spec → Except String Unit
  applyUntrustedResourceCeilings : Job → CompiledJob → Except String CompiledJob
  compiledFields : CompiledJob → Time → Job
  buildJobContracts : CompiledJob → List ArtifactContract
  newID : String → JobID

/-- An error of another package, wrapped. -/
def wrap {α : Type} (context : String) : Except String α → Except StoreError α
  | .ok a => .ok a
  | .error e => .error (.failed (context ++ e))

theorem wrap_ok_iff {α : Type} {context : String} {r : Except String α} {a : α} :
    wrap context r = .ok a ↔ r = .ok a := by
  cases r <;> simp [wrap]

/-- The checks on the edges declared for one key. -/
def checkDeps (jobs : Table String Pipeline.Job) (key : String) :
    List String → List String → Except StoreError Unit
  | [], _ => .ok ()
  | dep :: rest, seen => do
    require ((jobs.get? dep).isSome)
      (.failed ("generated job \"" ++ key ++ "\" depends on unknown fragment job \"" ++ dep ++ "\""))
    require (dep ≠ key) (.failed ("generated job \"" ++ key ++ "\" depends on itself"))
    require (dep ∉ seen)
      (.failed ("generated job \"" ++ key ++ "\" lists dependency \"" ++ dep ++ "\" more than once"))
    checkDeps jobs key rest (dep :: seen)

def childDepth (parent : Job) : Int := parent.dynamicDepth + 1

/-- The checks of `processGeneratedFragment` on the upload, up to its compilation;
`existing` is the number of jobs of the run. -/
def admitUpload (p : Admission) (parent : Job) (upload : GeneratedFragment) (existing : Nat) :
    Except StoreError Unit := do
  let declared : Int := upload.jobs.rows.length
  require (declared ≠ 0) (.failed "generated fragment declares no jobs")
  let jobsLimit ← effectiveGeneratedJobsLimit (p.payloads parent.id)
  require (declared ≤ jobsLimit)
    (.failed ("generated fragment declares " ++ toString declared ++ " jobs, limit is " ++
      toString jobsLimit))
  let depthLimit ← effectiveGeneratedDepthLimit (p.payloads parent.id)
  require (childDepth parent ≤ depthLimit)
    (.failed ("generation depth " ++ toString (childDepth parent) ++ " exceeds maximum " ++
      toString depthLimit))
  upload.jobs.rows.forM fun e =>
    require (e.2.matrix.rows.isEmpty)
      (.failed ("generated job \"" ++ e.1 ++
        "\" must not declare a matrix (fragments are pre-expanded)"))
  upload.deps.rows.forM fun e => do
    require ((upload.jobs.get? e.1).isSome)
      (.failed ("deps references unknown generated job \"" ++ e.1 ++ "\""))
    checkDeps upload.jobs e.1 e.2 []
  wrap "generated fragment validation: " (validate p.rules upload.synth)
  let permitted ← wrap "" (p.permitsChildGraph parent)
  require permitted (.failed "parent job's capabilities do not permit generated child graphs")
  wrap "generated fragment admission: " (p.admitCompiledSpec parent upload.synth)
  require (existing + declared ≤ maxJobsPerRun)
    (.failed ("run would grow to " ++ toString (existing + declared) ++ " jobs, limit is " ++
      toString maxJobsPerRun))
  wrap "generated fragment re-parse: " (p.reparse upload.synth)

/-! ## The children -/

/-- The dependencies of a child: its parent, and the children under the keys its own
key declares; `keys` are those an identifier was allocated for. -/
def childNeeds (p : Admission) (parent : Job) (upload : GeneratedFragment) (keys : List String)
    (key : String) : Except StoreError (List JobID) := do
  let needs ← (upload.depsOf key).mapM fun dep =>
    if dep ∈ keys then .ok (p.newID dep)
    else .error (.failed ("generated job \"" ++ key ++ "\" depends on unresolved fragment job \"" ++
      dep ++ "\""))
  return parent.id :: needs

/-- One child, and its artifact contracts. -/
def createChild (p : Admission) (now : Time) (parent : Job) (upload : GeneratedFragment)
    (keys : List String) (entry : String × CompiledJob) :
    Except StoreError (Job × List ArtifactContract) := do
  let cj ← wrap "" (p.applyUntrustedResourceCeilings parent entry.2)
  let needs ← childNeeds p parent upload keys entry.1
  return ({ p.compiledFields cj now with
    id := p.newID entry.1, runID := parent.runID, key := entry.1, repoID := parent.repoID
    policyRepoID := parent.policyRepoID, repoURL := parent.repoURL
    repoFullName := parent.repoFullName, ref := parent.ref, event := parent.event
    condition := cj.job.condition, dependencyStatus := some .success, needs := needs
    status := .queued, createdAt := now, dynamicDepth := childDepth parent
    executionSemantics := parent.executionSemantics }, p.buildJobContracts cj)

/-- `GeneratedFragmentMutationSlotDefault`. -/
def mutationSlotDefault : String := "generated"

/-- The request the children are committed with. -/
def fragmentRequest (parent : Job) (upload : GeneratedFragment)
    (created : List (Job × List ArtifactContract)) : GeneratedFragmentRequest where
  parentJobID := parent.id
  runnerID := parent.leaseRunnerID
  leaseGeneration := parent.leaseGeneration
  leaseTokenHash := parent.leaseTokenHash
  mutationSlot := mutationSlotDefault
  fragmentID := upload.digest
  jobs := created.map fun child => (child.1.id, child.1)
  contracts := created.map fun child => (child.1.id, child.2)
  children := created.map fun child => (child.1.key, child.1.id)

/-- The children of an admitted upload: one for each job of its compiled graph, in
key order. -/
def createChildren (p : Admission) (now : Time) (parent : Job) (upload : GeneratedFragment)
    (g : Graph) : Except StoreError (List (Job × List ArtifactContract)) :=
  g.jobs.sorted.mapM (createChild p now parent upload (g.jobs.sorted.map Prod.fst))

def verifyGeneratedFragmentGraph (p : Admission) (snapshot fresh : Job) (depth : Int)
    (runJobCount childCount : Nat) : Except StoreError Unit := do
  require (fresh.id = snapshot.id) (.failed "parent job changed during generation")
  let depthLimit ← effectiveGeneratedDepthLimit (p.payloads fresh.id)
  require (depth ≤ depthLimit)
    (.failed ("generation depth " ++ toString depth ++ " exceeds maximum " ++ toString depthLimit))
  let jobsLimit ← effectiveGeneratedJobsLimit (p.payloads fresh.id)
  require ((childCount : Int) ≤ jobsLimit)
    (.failed ("generated fragment declares " ++ toString childCount ++ " jobs, limit is " ++
      toString jobsLimit))
  require ((runJobCount + childCount : Int) ≤ maxJobsPerRun)
    (.failed ("run would grow to " ++ toString (runJobCount + childCount) ++ " jobs, limit is " ++
      toString maxJobsPerRun))

/-! ## The two storage modes -/

/-- The keys and identifiers of the children of a fragment, in key order. -/
abbrev Children := List (String × JobID)

/-- What a storage mode does for a fragment: the receipt in a parent's slot, the
size of a run, the stored jobs, and the commit, which returns the receipt it found
in the slot. -/
structure StoreMode (σ : Type) where
  receipt : JobID → σ → Option (String × Children)
  runJobCount : RunID → σ → Nat
  jobs : σ → Table JobID Job
  commit : Job → GeneratedFragmentRequest → (Job → Nat → Time → Except StoreError Unit) → σ →
    Except StoreError (Option Children × σ)

/-- A store: `InsertGeneratedFragmentTx`. -/
def sqlMode (c : Call) : StoreMode DB where
  receipt parentJobID db :=
    (db.generatedFragments.get? (parentJobID, mutationSlotDefault)).map fun stored =>
      (stored.fragmentID, stored.children)
  runJobCount runID db := db.jobs.count fun _ row => row.runID = runID
  jobs db := db.jobs.map fun _ row => row.payload.job
  commit _ req verify db := do
    let db' ← insertGeneratedFragmentTx c req verify db
    return ((db.generatedFragments.get? req.slotKey).map (·.children), db')

/-- The maps of the server, under its lock. -/
def memoryMode (now : Time) : StoreMode Memory.Tables where
  receipt parentJobID m :=
    (m.fragments.get? (Memory.fragmentKey parentJobID mutationSlotDefault)).map fun stored =>
      (stored.fragmentID, stored.children)
  runJobCount runID m := m.jobs.count fun _ j => j.runID = runID
  jobs m := m.jobs
  commit parent req verify m := do
    let current ← orThrow (m.jobs.get? req.parentJobID) (.failed "parent job disappeared")
    validateGeneratedParentLease current req now
    match m.fragments.get? (Memory.fragmentKey req.parentJobID req.mutationSlot) with
    | some stored => do
      require (stored.fragmentID = req.fragmentID)
        (.generatedMutationConflict req.parentJobID req.mutationSlot stored.fragmentID req.fragmentID)
      return (some stored.children, m)
    | none => do
      verify current (m.jobs.count fun _ j => j.runID = parent.runID) now
      Memory.checkGeneratedJobKeyConflicts parent.runID req.jobs
        (Memory.generatedJobKeyIndex parent.runID m)
      return (none, Memory.commitFragment req (Memory.receiptOf now req) m)

structure GeneratedResponse where
  parentJobID : JobID
  runID : RunID
  depth : Int
  jobIDs : List JobID
  keys : List String
  replayed : Bool := false
  deriving DecidableEq, Repr

def responseFor (parent : Job) (children : Children) (replayed : Bool) : GeneratedResponse where
  parentJobID := parent.id
  runID := parent.runID
  depth := childDepth parent
  jobIDs := children.map Prod.snd
  keys := children.map Prod.fst
  replayed := replayed

/-- `generatedFragmentReceipt`: the children of a fragment the slot already holds. -/
def generatedFragmentReceipt {σ : Type} (mode : StoreMode σ) (parentJobID : JobID)
    (fragmentID : String) (seen : σ) : Except StoreError (Option Children) :=
  match mode.receipt parentJobID seen with
  | none => .ok none
  | some (stored, children) =>
    if stored = fragmentID then .ok (some children)
    else .error (.generatedMutationConflict parentJobID mutationSlotDefault stored fragmentID)

/-- A fragment the slot did not hold is admitted, compiled and committed. -/
def insertFragment {σ : Type} (mode : StoreMode σ) (p : Admission) (now : Time) (parent : Job)
    (upload : GeneratedFragment) (seen s : σ) : Except StoreError (GeneratedResponse × σ) := do
  admitUpload p parent upload (mode.runJobCount parent.runID seen)
  let g ← wrap "" (compile p.host p.rules upload.synth)
  let created ← createChildren p now parent upload g
  let req := fragmentRequest parent upload created
  let (replayed, s') ← mode.commit parent req (fun fresh runJobCount _ =>
    verifyGeneratedFragmentGraph p parent fresh (childDepth parent) runJobCount req.jobs.length) s
  match replayed with
  | some children => return (responseFor parent children true, s')
  | none => return (responseFor parent req.children false, s')

def processGeneratedFragment {σ : Type} (mode : StoreMode σ) (p : Admission) (now : Time)
    (parent : Job) (upload : GeneratedFragment) (seen s : σ) :
    Except StoreError (GeneratedResponse × σ) := do
  require (upload.fragmentID ≠ "") (.failed "generated fragment is missing fragment_id")
  require (upload.fragmentID = upload.digest)
    (.failed "generated fragment_id does not match the fragment digest")
  wrap "generated fragment external_context: "
    (validateExternalContext p.isPrint upload.externalContext)
  match ← generatedFragmentReceipt mode parent.id upload.digest seen with
  | some children => return (responseFor parent children true, s)
  | none => insertFragment mode p now parent upload seen s

end KiwiCI.Server
