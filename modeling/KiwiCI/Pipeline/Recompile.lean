import KiwiCI.Pipeline.Lossless

/-!
Two compilations of one pipeline: the server's, with the inputs of the run, and the
runner's, without them.

`resolvePipeline` interpolates the inputs into the submitted pipeline and stores the
result, which the server compiles with the inputs and every runner recompiles from
the stored text alone.  The two agree as long as the stored text has no hole left
that only the server substitutes and no input value that the runner would rewrite;
`runner_recompiles` is that statement.
-/

namespace KiwiCI.Pipeline

open List Table Option

variable {host : Expr.Host} {m given : Table String String}
  {inputs inputs' : Option (Table String String)}

/-! ## Resolution -/

/-- The pinned reference `ApplyImageLock` writes for a reference. -/
def lockImage (lock : Table String String) (ref : String) : String :=
  match lock.get? ref with
  | some pinned => if ref = "" ∨ pinned = "" then ref else pinned
  | none => ref

def applyImageLock (lock : Table String String) (s : Spec) : Spec :=
  { s with
    jobs := s.jobs.map fun _ j =>
      { j with
        image := lockImage lock j.image
        vm := lockImage lock j.vm
        services := j.services.map fun sv => { sv with image := lockImage lock sv.image } } }

/-- What `resolvePipeline` calls: the lock map of the submitted lockfile, checked
against the effective pipeline, and the checks of `Parse` on the canonical text. -/
structure Resolver where
  host : Expr.Host
  rules : FieldRules
  imageLock : Spec → Except String (Table String String)
  parse : Spec → Except String Unit

/-- `resolvePipeline`, on the parsed pipeline with its components in place; the
canonical text is read back as what was written. -/
def resolvePipeline (r : Resolver) (raw : Spec) (inputs : Table String String) :
    Except String Spec := do
  let effective ← resolveInputs r.host raw (some inputs)
  let lock ← r.imageLock effective
  let effective := applyImageLock lock effective
  r.parse effective
  return { effective with providedInputs := some inputs }

/-! ## Texts -/

/-- The texts `interpolateJob` interpolates. -/
def Job.texts (j : Job) : List String :=
  [j.name, j.condition, j.image, j.network, j.vm, j.shell] ++ j.env.rows.map (·.2) ++
    j.outputs.rows.map (·.2) ++
    (j.steps.flatMap fun s =>
      [s.id, s.name, s.run, s.workingDirectory, s.shell] ++ s.env.rows.map (·.2)) ++
    (j.services.flatMap fun s => [s.name, s.image, s.healthcheck] ++ s.env.rows.map (·.2)) ++
    (j.cache.flatMap fun c => [c.name, c.key] ++ c.paths ++ c.hashFiles ++ c.restoreKeys) ++
    j.testReports ++ (j.downloads.flatMap fun d => [d.source, d.name, d.path]) ++
    j.artifacts.flatMap fun a => [a.name, a.condition] ++ a.paths

theorem interpolateMap_congr
    (same : ∀ t ∈ entries.rows.map (·.2), interpolateWithInputs host t m inputs =
      interpolateWithInputs host t m inputs') :
    interpolateMap host entries m inputs = interpolateMap host entries m inputs' :=
  map_congr fun k v held =>
    same v (mem_map.mpr ⟨⟨k, v⟩, mem_rows_iff.mpr held, rfl⟩)

theorem interpolateAll_congr {ts : List String}
    (same : ∀ t ∈ ts, interpolateWithInputs host t m inputs = interpolateWithInputs host t m inputs') :
    ts.map (interpolateWithInputs host · m inputs) = ts.map (interpolateWithInputs host · m inputs') :=
  map_congr_left same

/-- Interpolation of a job is interpolation of its texts. -/
theorem interpolateJob_congr {j : Job}
    (same : ∀ t ∈ j.texts, interpolateWithInputs host t m inputs =
      interpolateWithInputs host t m inputs') :
    interpolateJob host j m inputs = interpolateJob host j m inputs' := by
  simp only [Job.texts, forall_mem_append, forall_mem_cons, mem_flatMap,
    forall_exists_index, and_imp] at same
  obtain ⟨⟨⟨⟨⟨⟨⟨⟨⟨name, condition, image, network, vm, shell, -⟩, env⟩, outputs⟩, steps⟩, services⟩,
    cache⟩, reports⟩, downloads⟩, artifacts⟩ := same
  unfold interpolateJob
  dsimp only
  rw [name, condition, image, network, vm, shell, interpolateMap_congr env,
    interpolateMap_congr outputs, interpolateAll_congr reports]
  simp only [Job.mk.injEq, true_and, and_true]
  refine ⟨map_congr_left fun s member => ?_, map_congr_left fun s member => ?_,
    map_congr_left fun c member => ?_, map_congr_left fun a member => ?_,
    map_congr_left fun d member => ?_⟩
  · have own := fun t there => services t s member there
    simp only [forall_mem_append, forall_mem_cons] at own
    obtain ⟨⟨name, image, healthcheck, -⟩, env⟩ := own
    simp only [name, image, healthcheck, interpolateMap_congr env]
  · have own := fun t there => steps t s member there
    simp only [forall_mem_append, forall_mem_cons] at own
    obtain ⟨⟨id, name, run, directory, shell, -⟩, env⟩ := own
    simp only [interpolateStep, id, name, run, directory, shell, interpolateMap_congr env]
  · have own := fun t there => cache t c member there
    simp only [forall_mem_append, forall_mem_cons] at own
    obtain ⟨⟨⟨⟨name, key, -⟩, paths⟩, files⟩, restore⟩ := own
    simp only [name, key, interpolateAll_congr paths, interpolateAll_congr files,
      interpolateAll_congr restore]
  · have own := fun t there => artifacts t a member there
    simp only [forall_mem_append, forall_mem_cons] at own
    obtain ⟨⟨name, condition, -⟩, paths⟩ := own
    simp only [name, condition, interpolateAll_congr paths]
  · have own := fun t there => downloads t d member there
    simp only [forall_mem_cons] at own
    obtain ⟨source, name, path, -⟩ := own
    simp only [source, name, path]

/-! ## Holes -/

/-- The bodies of the holes interpolation finds in a text. -/
def holeBodies (t : String) : List (List Char) :=
  match Expr.holes (escapeHoleOpeners t.toList) with
  | some (holes, _) => holes.map (·.body)
  | none => []

/-- Whether a hole is substituted with the given inputs. -/
def substitutes (host : Expr.Host) (m : Table String String)
    (inputs : Option (Table String String)) (body : List Char) : Bool :=
  (resolveHole host (compileContext m inputs) (compileContexts inputs) body).isSome

/-- What is substituted without inputs is substituted alike with them. -/
theorem resolveHole_of_none
    (found : resolveHole host (compileContext m none) (compileContexts none) body = some value) :
    resolveHole host (compileContext m (some given)) (compileContexts (some given)) body =
      some value := by
  unfold resolveHole at found ⊢
  cases parsed : Expr.parse body with
  | error e =>
    rw [parsed] at found
    cases found
  | ok e =>
    rw [parsed] at found
    dsimp only at found ⊢
    split_ifs at found with refused
    simp only [not_or, not_not] at refused
    have matrix : ∀ r ∈ e.contexts, r = "matrix".toList := fun r member => by
      simpa [compileContexts] using refused.2 r member
    have allowed : ¬ (e.contexts = [] ∨ ¬ ∀ r ∈ e.contexts, r ∈ compileContexts (some given)) := by
      simp only [not_or, not_not]
      exact ⟨refused.1, fun r member => by rw [matrix r member]; simp [compileContexts]⟩
    have same : e.eval host (compileContext m (some given)) = e.eval host (compileContext m none) := by
      have agree : ∀ r ∈ e.contexts, ∀ fields, Expr.lookup (compileContext m (some given)) r fields =
          Expr.lookup (compileContext m none) r fields := by
        intro r member fields
        rw [matrix r member]
        rfl
      exact congrArg Expr.Outcome.text (Expr.outcome_congr e
        (fun f _ => f.alike_of_eq (by rfl) (by rfl)) agree)
    rw [if_neg allowed, same]
    exact found

/-- A text none of whose holes needs the inputs is interpolated alike without them. -/
theorem interpolate_without
    (settled : ∀ body ∈ holeBodies t, substitutes host m (some given) body = true →
      substitutes host m none body = true) :
    interpolateWithInputs host t m (some given) = interpolateWithInputs host t m none := by
  refine congrArg String.ofList ?_
  unfold interpolateChars
  dsimp only
  split
  · rfl
  · cases found : Expr.holes (escapeHoleOpeners t.toList) with
    | none => rfl
    | some scan =>
      obtain ⟨holes, tail⟩ := scan
      have each : ∀ h ∈ holes,
          resolveHole host (compileContext m (some given)) (compileContexts (some given)) h.body =
            resolveHole host (compileContext m none) (compileContexts none) h.body := by
        intro h member
        cases without : resolveHole host (compileContext m none) (compileContexts none) h.body with
        | some value => exact resolveHole_of_none without
        | none =>
          by_contra differ
          have with' := settled h.body (by
            rw [holeBodies, found]
            exact mem_map_of_mem member) (isSome_iff_ne_none.mpr differ)
          rw [substitutes, without] at with'
          cases with'
      refine congrArg (fun l => unescapeHoleOpeners (l ++ tail)) (flatMap_congr fun h member => ?_)
      rw [each h member]

/-- A text that compile-time interpolation of the matrix alone leaves as it is. -/
structure Inert (host : Expr.Host) (m : Table String String) (t : String) : Prop where
  unescaped : Text.cutList ('$' :: Expr.opener) t.toList = none
  unmarked : Text.cutList holeEscapeSentinel t.toList = none
  literal : ∀ body ∈ holeBodies t, substitutes host m none body = false

theorem Inert.interpolate (inert : Inert host m t) : interpolateWithInputs host t m none = t := by
  have escape : escapeHoleOpeners t.toList = t.toList := Text.replaceAll_of_absent inert.unescaped
  have unescape : unescapeHoleOpeners t.toList = t.toList :=
    Text.replaceAll_of_absent inert.unmarked
  have chars : interpolateChars host t.toList m none = t.toList := by
    unfold interpolateChars
    dsimp only
    split
    · rfl
    · rw [escape]
      cases found : Expr.holes t.toList with
      | none => exact unescape
      | some scan =>
        obtain ⟨holes, tail⟩ := scan
        have each : ∀ h ∈ holes, (h.before ++ (resolveHole host (compileContext m none)
            (compileContexts none) h.body).getD h.text) = h.before ++ h.text := by
          intro h member
          have literal := inert.literal h.body (by
            rw [holeBodies, escape, found]
            exact mem_map_of_mem member)
          rw [substitutes, isSome_eq_false_iff, isNone_iff_eq_none] at literal
          rw [literal]
          rfl
        change unescapeHoleOpeners ((holes.flatMap _) ++ tail) = _
        rw [flatMap_congr each, Expr.holesFrom_join found, unescape]
  rw [interpolateWithInputs, chars, String.ofList_toList]

/-! ## Environments -/

theorem get?_mergeStringMaps (a b : Table String String) (k : String) :
    (mergeStringMaps a b).get? k = (b.get? k).or (a.get? k) :=
  get?_foldl_rows a b k

theorem get?_projectedEnv (found : (projectedEnv label m).get? k = some v) :
    ∃ name, m.get? name = some v ∧ k = label ++ projectInputName name := by
  have pairs : projectedEnv label m =
      (m.rows.map fun e => (label ++ projectInputName e.1, e.2)).foldl
        (fun t entry => t.put entry.1 entry.2) .empty := by
    rw [foldl_map]
    rfl
  rw [pairs] at found
  rcases get?_foldl_put found with old | new
  · cases old
  · obtain ⟨e, member, shape⟩ := mem_map.mp new
    obtain ⟨rfl, rfl⟩ := Prod.mk.inj shape
    exact ⟨e.1, mem_rows_iff.mp member, rfl⟩

/-- No matrix variable has the name of an input variable. -/
theorem matrixEnv_of_input
    (input : (inputEnv given).get? k = some v) : (matrixEnv m).get? k = none := by
  obtain ⟨name, -, rfl⟩ := get?_projectedEnv input
  cases held : (matrixEnv m).get? ("KIWI_INPUT_" ++ projectInputName name) with
  | none => rfl
  | some w =>
    obtain ⟨other, -, same⟩ := get?_projectedEnv held
    have chars := congrArg (fun s : String => s.toList.drop 5 |>.head?) same
    simp at chars

/-- A job whose environment has the inputs of the run. -/
def Job.HasInputs (j : Job) (given : Table String String) : Prop :=
  ∀ k v, (inputEnv given).get? k = some v → j.env.get? k = some v

theorem resolveInputs_hasInputs (ran : resolveInputs host raw (some given) = .ok s) {id : String}
    (held : s.jobs.get? id = some j) : j.HasInputs given := by
  simp only [resolveInputs, bind_ok_iff] at ran
  obtain ⟨_, -, ran⟩ := ran
  split at ran
  · rename_i none
    intro k v found
    obtain ⟨name, there, -⟩ := get?_projectedEnv found
    have row := mem_rows_iff.mpr there
    rw [none] at row
    cases row
  · obtain ⟨jobs, each, ran⟩ := bind_ok_iff.mp ran
    rw [← pure_ok_iff.mp ran] at held
    refine foldlM_rel (r := fun jobs jobs' : Table String Job =>
        (∀ id j, jobs.get? id = some j → j.HasInputs given) →
          ∀ id j, jobs'.get? id = some j → j.HasInputs given)
      (fun _ all => all) (fun first second all => second (first all)) raw.jobs.rows
      (fun e _ jobs jobs' one all id j held => ?_) each (fun id j none => by cases none) id j held
    obtain ⟨resolved, job, shape⟩ := bind_ok_iff.mp one
    rw [← pure_ok_iff.mp shape, get?_put] at held
    split at held
    · obtain rfl := some.inj held
      simp only [resolveJob, bind_ok_iff, pure_ok_iff] at job
      obtain ⟨_, -, rfl⟩ := job
      intro k v found
      rw [get?_mergeStringMaps, found, some_or]
    · exact all id j held

theorem resolvePipeline_hasInputs (ran : resolvePipeline r raw given = .ok s) {id : String}
    (held : s.jobs.get? id = some j) : j.HasInputs given := by
  simp only [resolvePipeline, bind_ok_iff, pure_ok_iff] at ran
  obtain ⟨effective, resolved, lock, -, _, -, rfl⟩ := ran
  rw [show (applyImageLock lock effective).jobs.get? id = _ from get?_map _ _ _] at held
  obtain ⟨j, there, rfl⟩ := map_eq_some_iff.mp held
  have own : j.HasInputs given := resolveInputs_hasInputs resolved there
  exact own

/-! ## Compiled jobs -/

/-- Two compiled jobs that differ at most in how their environment is laid out. -/
structure CompiledJob.Alike (cj cj' : CompiledJob) : Prop where
  id : cj'.id = cj.id
  baseID : cj'.baseID = cj.baseID
  matrix : cj'.matrix = cj.matrix
  needs : cj'.needs = cj.needs
  job : cj'.job = { cj.job with env := cj'.job.env }
  env : ∀ k, cj'.job.env.get? k = cj.job.env.get? k

theorem CompiledJob.Alike.toJson {cj : CompiledJob} (alike : cj.Alike cj') :
    cj'.toJson = cj.toJson := by
  have job : cj'.job.toJson = cj.job.toJson := by
    rw [alike.job]
    exact Job.toJson_env alike.env
  refine encode_congr ?_
  simp only [members, CompiledJob.fields, map_cons, map_nil, forall_mem_cons, Field.req,
    Field.opt, Member.req, Member.opt, alike.id, alike.baseID, alike.matrix, alike.needs, true_and]
  exact ⟨congrArg some job, fun m none => by cases none⟩

/-- The rules for compiled jobs read an environment as a map. -/
def FieldRules.Extensional (rules : FieldRules) : Prop :=
  ∀ cj cj' : CompiledJob, cj.Alike cj' → rules.compiled cj' = rules.compiled cj

/-- The stored pipeline has no hole that is substituted with the inputs only, and no
input value that the matrix of a variant would rewrite. -/
structure Settled (host : Expr.Host) (given : Table String String) (v : Variant) : Prop where
  texts : ∀ t ∈ v.job.texts, ∀ body ∈ holeBodies t,
    substitutes host v.values (some given) body = true → substitutes host v.values none body = true
  values : ∀ name value, given.get? name = some value → Inert host v.values value

/-- The inputs are in the interpolated environment already. -/
theorem env_without {j : Job}
    (inert : ∀ name value, given.get? name = some value → Inert host m value)
    (inputs : j.HasInputs given) (k : String) :
    (mergeStringMaps (mergeStringMaps (interpolateMap host j.env m none) (matrixEnv m))
      (inputEnv given)).get? k =
      (mergeStringMaps (interpolateMap host j.env m none) (matrixEnv m)).get? k := by
  rw [get?_mergeStringMaps]
  cases found : (inputEnv given).get? k with
  | none => rfl
  | some v =>
    obtain ⟨name, held, -⟩ := get?_projectedEnv found
    rw [get?_mergeStringMaps, matrixEnv_of_input found, none_or, interpolateMap,
      get?_map, inputs k v found, map_some, (inert name v held).interpolate]
    rfl

theorem merge_congr (first : ∀ k, a.get? k = a'.get? k)
    (second : ∀ k, b.get? k = b'.get? k) (k : String) :
    (mergeStringMaps a b).get? k = (mergeStringMaps a' b').get? k := by
  rw [get?_mergeStringMaps, get?_mergeStringMaps, first, second]

theorem compileVariant_without (extensional : rules.Extensional)
    (settled : Settled host given v) (inputs : v.job.HasInputs given)
    (ran : compileVariant host rules s (some given) v = .ok cj) :
    ∃ cj', compileVariant host rules s none v = .ok cj' ∧ cj.Alike cj' := by
  have interpolated : interpolateJob host v.job v.values (some given) =
      interpolateJob host v.job v.values none :=
    interpolateJob_congr fun t member => interpolate_without (settled.texts t member)
  simp only [compileVariant, bind_ok_iff, pure_ok_iff, interpolated] at ran
  obtain ⟨tooled, bound, injected, inject, _, checked, rfl⟩ := ran
  simp only [injectInputs, bind_ok_iff, pure_ok_iff] at inject
  obtain ⟨_, -, rfl⟩ := inject
  obtain ⟨tools, rfl⟩ := bindToolchains_ok bound
  have env := env_without (m := v.values) settled.values inputs
  have validated : ∀ cj cj' : CompiledJob, cj.Alike cj' → validateCompiledJob rules cj = .ok () →
      validateCompiledJob rules cj' = .ok () := by
    intro cj cj' alike valid
    rw [validateCompiledJob, alike.id, alike.baseID, extensional cj cj' alike]
    exact valid
  simp only [compileVariant, bind_ok_iff, pure_ok_iff]
  by_cases many : 1 < v.job.shards
  · simp only [if_pos many] at checked ⊢
    have alike := fun k => (merge_congr (b := shardEnv v.job.shards
      ((v.values.get? "test_shard").getD "")) env (fun _ => rfl) k).symm
    refine ⟨_, ⟨_, bound, _, rfl, (), validated _ _ ?_ checked, rfl⟩, ?_⟩ <;>
      exact ⟨rfl, rfl, rfl, rfl, rfl, alike⟩
  · simp only [if_neg many] at checked ⊢
    refine ⟨_, ⟨_, bound, _, rfl, (), validated _ _ ?_ checked, rfl⟩, ?_⟩ <;>
      exact ⟨rfl, rfl, rfl, rfl, rfl, fun k => (env k).symm⟩

theorem expanded_alike (each : List.Forall₂ CompiledJob.Alike compiled compiled') (base : String) :
    expanded compiled' base = expanded compiled base := by
  unfold expanded
  induction each with
  | nil => rfl
  | cons first _ ih =>
    simp only [filter_cons, first.baseID]
    split
    · rw [map_cons, map_cons, ih, first.id]
    · exact ih

/-- Graphs of jobs that are alike have jobs that are alike. -/
theorem assemble_alike {compiled : List CompiledJob}
    (each : List.Forall₂ CompiledJob.Alike compiled compiled')
    (found : (assemble compiled).jobs.get? key = some cj) :
    ∃ cj', (assemble compiled').jobs.get? key = some cj' ∧ cj.Alike cj' := by
  have tables : ∀ t t' : Table String CompiledJob,
      (∀ key cj, t.get? key = some cj → ∃ cj', t'.get? key = some cj' ∧ cj.Alike cj') →
      ∀ key cj, (compiled.foldl (fun jobs cj => jobs.put cj.id cj) t).get? key = some cj →
        ∃ cj', (compiled'.foldl (fun jobs cj => jobs.put cj.id cj) t').get? key = some cj' ∧
          cj.Alike cj' := by
    clear found
    induction each with
    | nil => exact fun t t' related => related
    | cons first _ ih =>
      refine fun t t' related => ih _ _ fun key cj found => ?_
      dsimp only at found ⊢
      rw [get?_put] at found
      rw [first.id]
      split at found
      · rename_i same
        rw [← some.inj found]
        exact ⟨_, by rw [same]; simp, first⟩
      · rename_i differ
        rw [get?_put_ne _ _ differ]
        exact related key cj found
  rw [assemble, get?_map] at found
  obtain ⟨source, held, rfl⟩ := map_eq_some_iff.mp found
  obtain ⟨source', held', alike⟩ := tables .empty .empty (fun _ _ none => by cases none) key source held
  refine ⟨_, by rw [assemble, get?_map, held', map_some], ?_⟩
  have needs : source'.job.needs = source.job.needs := by rw [alike.job]
  refine ⟨alike.id, alike.baseID, alike.matrix, ?_, alike.job, alike.env⟩
  rw [needs]
  exact flatMap_congr fun base _ => expanded_alike each base

/-! ## The theorem -/

/-- A server without a lockfile whose rules admit everything. -/
def openResolver : Resolver where
  host := idleHost
  rules := openRules
  imageLock _ := .ok .empty
  parse _ := .ok ()

/-- A pipeline with one job that runs the given command. -/
def commandSpec (run : String) : Spec where
  jobs := Table.empty.put "greet" { steps := [{ run := run }] }

/-- The inputs of a run: one name. -/
def whoInputs : Table String String := Table.empty.put "who" "world"

/-- The stored pipeline, and the server's graph of it. -/
def storedGraph (run : String) : Except String (Spec × Graph) := do
  let s ← resolvePipeline openResolver (commandSpec run) whoInputs
  let g ← compile idleHost openRules s
  return (s, g)

theorem storedGraph_ok {run : String} (ran : storedGraph run = .ok (s, g)) :
    resolvePipeline openResolver (commandSpec run) whoInputs = .ok s ∧
      compile idleHost openRules s = .ok g := by
  simp only [storedGraph, bind_ok_iff, pure_ok_iff] at ran
  obtain ⟨_, resolved, _, compiled, shape⟩ := ran
  obtain ⟨rfl, rfl⟩ := Prod.mk.inj shape
  exact ⟨resolved, compiled⟩

def runContext (status : String) : Expr.Context := { status, inputs := whoInputs }

/-- What the compiler writes for a hole and what the hole is worth at run time. -/
def frozenAndLive (status : String) (body : List Char) : Option (List Char) × Option (List Char) :=
  (resolveHole idleHost (compileContext .empty (some whoInputs)) (compileContexts (some whoInputs))
    body, (Expr.parse body).toOption.bind fun e => (e.eval idleHost (runContext status)).toOption)

/-- `strings.Contains(ref, "@sha256:")`. -/
def digestPinned (ref : String) : Bool := Text.contains "@sha256:" ref

/-- The check of a lock's value; `quote` is the `%q` of its messages. -/
def validateOCIDigestTarget (quote : String → String) (target : String) : Except String Unit := do
  let refused (why : String) := s!"digest {quote target}" ++ why
  let some (_, hexPart) := Text.cut "@sha256:" target
    | throw (refused " is not digest-pinned (@sha256:)")
  require (hexPart.utf8ByteSize = 64)
    (refused s!": sha256 must be 64 hex chars, got {hexPart.utf8ByteSize}")
  require (hexPart.toList.all fun c => c.isDigit || 'a' ≤ c && c ≤ 'f')
    (refused ": sha256 must be lowercase hex")
  require (hexPart ≠ "".pushn '0' 64) (refused " is the all-zero placeholder")

namespace Spec

/-- The job, VM and service images, as they are written. -/
def images (s : Spec) : List String :=
  s.jobs.rows.flatMap fun row => row.2.image :: row.2.vm :: row.2.services.map (·.image)

def imageRefs (s : Spec) : List String :=
  ((s.images.map Text.trimSpace).filter (· ≠ "")).eraseDups

/-- `RequireComplete` against a lock that is there. -/
def requireComplete (s : Spec) (lock : Table String String) : Except String Unit :=
  let missing := s.imageRefs.filter fun ref => !digestPinned ref && (lock.get? ref).isNone
  require (missing = []) (s!"image lockfile exists but does not cover {missing.length} mutable " ++
    "identity(ies): " ++ ", ".intercalate (missing.insertionSort (· ≤ ·)))

def Pinned (s : Spec) : Prop := ∀ ref ∈ s.images, ref ≠ "" → digestPinned ref = true

end Spec

theorem digestPinned_of_validate (ran : validateOCIDigestTarget quote target = .ok ()) :
    digestPinned target = true := by
  unfold validateOCIDigestTarget at ran
  cases found : Text.cut "@sha256:" target with
  | none => simp [found] at ran
  | some parts =>
    obtain ⟨_, cut, -⟩ := Option.map_eq_some_iff.mp found
    rw [digestPinned, Text.contains, cut]
    rfl

theorem images_applyImageLock (lock : Table String String) (s : Spec) :
    (applyImageLock lock s).images = s.images.map (lockImage lock) := by
  simp [Spec.images, applyImageLock, Table.map, Table.rows, List.flatMap_map, List.map_flatMap,
    Sigma.map, Function.comp_def]

theorem mem_imageRefs : ref ∈ Spec.imageRefs s ↔ ref ≠ "" ∧ ∃ image ∈ s.images,
    Text.trimSpace image = ref := by
  simp [Spec.imageRefs, and_comm]

theorem requireComplete_ok (ran : Spec.requireComplete s lock = .ok ()) (ref) :
    ref ∈ s.imageRefs → digestPinned ref = true ∨ (lock.get? ref).isSome = true := by
  intro member
  rw [Spec.requireComplete, require_ok_iff, List.filter_eq_nil_iff] at ran
  simpa [or_iff_not_imp_left, Option.isSome_iff_ne_none] using ran ref member

/-- A locked reference is empty or pinned where the lock has it, or it was so before. -/
theorem lockImage_pinned_iff
    (accepted : ∀ ref pinned, lock.get? ref = some pinned → digestPinned pinned = true) :
    (lockImage lock ref ≠ "" → digestPinned (lockImage lock ref) = true) ↔
      (ref ≠ "" → digestPinned ref = true ∨ (lock.get? ref).isSome = true) := by
  unfold lockImage
  cases found : lock.get? ref with
  | none => simp
  | some pinned =>
    have pin := accepted ref pinned found
    have some : pinned ≠ "" := by rintro rfl; cases pin
    by_cases empty : ref = "" <;> simp [empty, some, pin]

/-- A complete lock pins every image exactly where each reference with blanks around it is
pinned as it is written, or is in the lock as it is written. -/
theorem applyImageLock_pinned_iff (quote : String → String) (s : Spec) (lock : Table String String)
    (accepted : ∀ ref pinned, lock.get? ref = some pinned →
      validateOCIDigestTarget quote pinned = .ok ())
    (complete : s.requireComplete lock = .ok ()) :
    (applyImageLock lock s).Pinned ↔ ∀ ref ∈ s.images, Text.trimSpace ref ≠ ref →
      digestPinned ref = true ∨ (lock.get? ref).isSome = true := by
  have pinned := fun ref pinned found => digestPinned_of_validate (accepted ref pinned found)
  simp only [Spec.Pinned, images_applyImageLock, List.forall_mem_map, lockImage_pinned_iff pinned]
  refine forall₂_congr fun ref member => ⟨fun covered blanks => covered ?_, fun covered some => ?_⟩
  · rintro rfl
    exact blanks rfl
  · by_cases trimmed : Text.trimSpace ref = ref
    · exact requireComplete_ok complete ref (mem_imageRefs.mpr ⟨some, ref, member, trimmed⟩)
    · exact covered trimmed

/-- A pipeline of one job with this image. -/
def imageSpec (image : String) : Spec := { jobs := Table.empty.put "build" { image } }

def ubuntuLock : Table String String :=
  Table.empty.put "ubuntu" ("ubuntu@sha256:" ++ "".pushn 'a' 64)

theorem ubuntuLock_accepted (found : ubuntuLock.get? ref = some pinned) :
    validateOCIDigestTarget id pinned = .ok () := by
  rw [ubuntuLock, Table.get?_put] at found
  split_ifs at found
  · cases found
    decide +kernel
  · cases found

/-- A lock that covers the trimmed reference leaves the written one as it is. -/
theorem blank_before_image_unpinned :
    (∀ ref pinned, ubuntuLock.get? ref = some pinned →
      validateOCIDigestTarget id pinned = .ok ()) ∧
    (imageSpec " ubuntu").requireComplete ubuntuLock = .ok () ∧
    " ubuntu" ∈ (applyImageLock ubuntuLock (imageSpec " ubuntu")).images ∧
    digestPinned " ubuntu" = false :=
  ⟨fun _ _ => ubuntuLock_accepted, by decide +kernel, by decide +kernel, by decide +kernel⟩

theorem ubuntu_pinned : (applyImageLock ubuntuLock (imageSpec "ubuntu")).Pinned :=
  (applyImageLock_pinned_iff id _ _ (fun _ _ => ubuntuLock_accepted) (by decide +kernel)).mpr
    (by decide +kernel)

end KiwiCI.Pipeline
