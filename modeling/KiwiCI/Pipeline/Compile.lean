import KiwiCI.Expr.Eval
import KiwiCI.Pipeline.Spec
import KiwiCI.Lib.DepthFirst
import KiwiCI.Auth.RepoIdentity
import KiwiCI.Lib.Delimited

/-!
Compile-time interpolation: the hole substitution of `internal/pipeline/graph.go`
and the input resolution the server runs before it stores a pipeline.

A hole is substituted when it reads the matrix, or the inputs when inputs are
given, and nothing else, and evaluates; every other hole stays as it is written.
`$$` before the braces protects a hole: the escape becomes a sentinel before the
scan and the plain opening after it.
-/

namespace KiwiCI.Pipeline

open Text

section

variable (host : Expr.Host)

def holeEscapeSentinel : List Char := "\x00kiwi-hole-escape\x00".toList

def escapeHoleOpeners : List Char → List Char := replaceAll ('$' :: Expr.opener) holeEscapeSentinel

def unescapeHoleOpeners : List Char → List Char := replaceAll holeEscapeSentinel Expr.opener

/-- The value `interpolateLenient` writes for a hole; `none` when the hole stays
literal. -/
def resolveHole (c : Expr.Context) (allowed : List (List Char)) (body : List Char) :
    Option (List Char) :=
  match Expr.parse body with
  | .error _ => none
  | .ok e =>
    let refs := e.contexts
    if refs = [] ∨ ¬ ∀ r ∈ refs, r ∈ allowed then none else (e.eval host c).toOption

/-- `interpolateLenient`, on the holes of a text and what follows the last one. -/
def interpolateLenient (holes : List Expr.Hole) (tail : List Char) (c : Expr.Context)
    (allowed : List (List Char)) : List Char :=
  (holes.flatMap fun h => h.before ++ (resolveHole host c allowed h.body).getD h.text) ++ tail

/-- The contexts compile-time interpolation resolves. -/
def compileContexts (inputs : Option (Table String String)) : List (List Char) :=
  "matrix".toList :: if inputs.isSome then ["inputs".toList] else []

/-- The context compile-time interpolation evaluates in. -/
def compileContext (m : Table String String) (inputs : Option (Table String String)) :
    Expr.Context where
  matrix := m
  inputs := inputs.getD .empty

/-- `InterpolateWithInputs` on characters. -/
def interpolateChars (s : List Char) (m : Table String String)
    (inputs : Option (Table String String)) : List Char :=
  if (cutList Expr.opener s).isNone then s
  else
    let s := escapeHoleOpeners s
    match Expr.holes s with
    | none => unescapeHoleOpeners s
    | some (holes, tail) =>
      unescapeHoleOpeners
        (interpolateLenient host holes tail (compileContext m inputs) (compileContexts inputs))

def interpolateWithInputs (s : String) (m : Table String String)
    (inputs : Option (Table String String)) : String :=
  String.ofList (interpolateChars host s.toList m inputs)

def interpolateMap (entries m : Table String String) (inputs : Option (Table String String)) :
    Table String String :=
  entries.map fun _ v => interpolateWithInputs host v m inputs

/-- One step of `interpolateSteps`. -/
def interpolateStep (m : Table String String) (inputs : Option (Table String String)) (s : Step) :
    Step :=
  { s with
    id := interpolateWithInputs host s.id m inputs
    name := interpolateWithInputs host s.name m inputs
    run := interpolateWithInputs host s.run m inputs
    workingDirectory := interpolateWithInputs host s.workingDirectory m inputs
    shell := interpolateWithInputs host s.shell m inputs
    env := interpolateMap host s.env m inputs }

def interpolateJob (j : Job) (m : Table String String) (inputs : Option (Table String String)) :
    Job :=
  let interp s := interpolateWithInputs host s m inputs
  { j with
    name := interp j.name
    condition := interp j.condition
    image := interp j.image
    network := interp j.network
    vm := interp j.vm
    shell := interp j.shell
    env := interpolateMap host j.env m inputs
    outputs := interpolateMap host j.outputs m inputs
    steps := j.steps.map (interpolateStep host m inputs)
    services := j.services.map fun s =>
      { s with
        name := interp s.name, image := interp s.image, healthcheck := interp s.healthcheck
        env := interpolateMap host s.env m inputs }
    cache := j.cache.map fun c =>
      { name := interp c.name, key := interp c.key, paths := c.paths.map interp
        hashFiles := c.hashFiles.map interp, restoreKeys := c.restoreKeys.map interp }
    testReports := j.testReports.map interp
    downloads := j.downloads.map fun d =>
      { d with source := interp d.source, name := interp d.name, path := interp d.path }
    artifacts := j.artifacts.map fun a =>
      { a with name := interp a.name, condition := interp a.condition, paths := a.paths.map interp } }

def mergeStringMaps (a b : Table String String) : Table String String :=
  b.rows.foldl (fun out e => out.put e.1 e.2) a

def projectInputName (name : String) : String :=
  onList (List.map fun c =>
    if 'a' ≤ c ∧ c ≤ 'z' then Char.ofNat (c.toNat - 32)
    else if ('A' ≤ c ∧ c ≤ 'Z') ∨ ('0' ≤ c ∧ c ≤ '9') then c
    else '_') name

/-- Each entry of a map under its projected name. -/
def projectedEnv (label : String) (m : Table String String) : Table String String :=
  m.rows.foldl (fun out e => out.put (label ++ projectInputName e.1) e.2) .empty

def matrixEnv : Table String String → Table String String := projectedEnv "KIWI_MATRIX_"

def inputEnv : Table String String → Table String String := projectedEnv "KIWI_INPUT_"

def shardEnv (total : Int) (index : String) : Table String String :=
  (Table.empty.put "KIWI_TEST_SHARD_TOTAL" (toString total)).put "KIWI_TEST_SHARD_INDEX" index

def jobMayHaveHoles (j : Job) : Bool :=
  j.toJson.anyString fun s => (cutList Expr.opener s.toList).isSome

/-- Whether a hole of the written job reads the inputs and fails on them; the
text of the error. -/
def unresolvedInput (m inputs : Table String String) (body : List Char) : Option (List Char) :=
  match Expr.parse body with
  | .error _ => none
  | .ok e =>
    if "inputs".toList ∈ e.contexts then
      match e.eval host { matrix := m, inputs := inputs } with
      | .ok _ => none
      | .error err =>
        if (cutList "inputs".toList err.message).isSome then some err.message else none
    else none

def validateInputsResolved (jobID : String) (j : Job) (m inputs : Table String String) :
    Except String Unit :=
  if jobMayHaveHoles j then
    match Expr.holes j.toJson.render with
    | none => .ok ()
    | some (holes, _) =>
      holes.forM fun h =>
        match unresolvedInput host m inputs h.body with
        | none => .ok ()
        | some message =>
          .error ("job \"" ++ jobID ++ "\": $\x7b\x7b " ++ String.ofList h.body ++ " \x7d\x7d: " ++
            String.ofList message)
  else .ok ()

/-- The regular expressions that pin identifiers: a letter or underscore, then at
most `most` characters that are letters, digits, underscores, hyphens or one of
`extra`. -/
def identifier (extra : Char → Bool) (most : Nat) (s : String) : Bool :=
  match s.toList with
  | [] => false
  | c :: rest =>
    Expr.isIdentStart c && rest.all (fun c => Expr.isIdentPart c || extra c) && rest.length ≤ most

def inputNameRegexp : String → Bool := identifier (fun _ => false) 63

/-- The projected names seen so far, each with the name it comes from. -/
def checkProjected (label : String → String → String → String) (valid : String → Except String Unit) :
    List String → Table String String → Except String Unit
  | [], _ => .ok ()
  | name :: rest, seen => do
    valid name
    match seen.get? (projectInputName name) with
    | some prev => throw (label prev name (projectInputName name))
    | none => checkProjected label valid rest (seen.put (projectInputName name) name)

def checkInputNames (names : List String) : Except String Unit :=
  checkProjected
    (fun prev name proj => "inputs \"" ++ prev ++ "\" and \"" ++ name ++
      "\" both project to KIWI_INPUT_" ++ proj)
    (fun name =>
      if inputNameRegexp name then .ok ()
      else .error ("input name \"" ++ name ++ "\" is invalid (must match ^[A-Za-z_][A-Za-z0-9_-]" ++
        "\x7b0,63\x7d$)")) names .empty

def inputNames (inputs : Table String String) : List String := inputs.select fun _ _ => true

/-- One job of `ResolveInputs`. -/
def resolveJob (inputs : Table String String) (id : String) (j : Job) : Except String Job := do
  let j := interpolateJob host j .empty (some inputs)
  let j := { j with env := mergeStringMaps j.env (inputEnv inputs) }
  validateInputsResolved host id j .empty inputs
  return j

def resolveInputs (s : Spec) (inputs : Option (Table String String)) : Except String Spec := do
  match inputs with
  | none => return { s with providedInputs := none }
  | some given =>
    checkInputNames (inputNames given)
    if given.rows = [] then return { s with providedInputs := some given }
    let jobs ← s.jobs.rows.foldlM (fun (jobs : Table String Job) e => do
      return jobs.put e.1 (← resolveJob host given e.1 e.2)) .empty
    return { s with jobs := jobs, providedInputs := some given }

end

/-!
Validation of a pipeline: the structural rules of `internal/pipeline/validate.go`,
which are the ones compilation relies on: how many jobs a pipeline expands to, job
identifiers, dependency lists, the matrix, the sharding and the generation limits,
and the search for a dependency cycle.

The rules about single fields (commands, paths, images, durations, conditions and
the like) read data compilation only carries along; they are the three predicates
of `FieldRules`, and everything here holds for any of them.
-/

/-- The validation rules about single fields: of the whole document, of one job,
and of one compiled job. -/
structure FieldRules where
  spec : Spec → Except String Unit
  job : Spec → String → Job → Except String Unit
  compiled : CompiledJob → Except String Unit

def maxDeclaredJobs : Nat := 1024

def maxExpandedJobs : Nat := 4096

def maxMatrixDims : Nat := 12

def maxMatrixCombos : Nat := 512

def maxShardsPerJob : Int := 1024

def saturatingMul (n factor limit : Nat) : Nat :=
  if n = 0 ∨ factor = 0 then 0 else if limit / factor < n then limit + 1 else n * factor

def matrixComboCount (m : Table String (List MatrixValue)) : Nat :=
  m.rows.foldl (fun n e => if e.2.length > 0 then saturatingMul n e.2.length maxMatrixCombos else n) 1

/-- The expansion of one job in `ValidateLimits`, added to the total so far. -/
def limitJob (total : Nat) (id : String) (j : Job) : Except String Nat := do
  require (j.matrix.rows.length ≤ maxMatrixDims)
    ("job \"" ++ id ++ "\" matrix has " ++ toString j.matrix.rows.length ++
      " dimensions, limit is " ++ toString maxMatrixDims)
  let combos := matrixComboCount j.matrix
  require (combos ≤ maxMatrixCombos)
    ("job \"" ++ id ++ "\" matrix expands to " ++ toString combos ++
      " combinations, limit is " ++ toString maxMatrixCombos)
  let combos := if combos = 0 then 1 else combos
  require (j.shards ≤ maxShardsPerJob)
    ("job \"" ++ id ++ "\" tests.shards " ++ toString j.shards ++
      " exceeds the limit of " ++ toString maxShardsPerJob)
  let shardCount := if 0 < j.shards then j.shards.toNat else 1
  let expanded := saturatingMul combos shardCount maxExpandedJobs
  require (total + expanded ≤ maxExpandedJobs)
    ("pipeline expands to " ++ toString (maxExpandedJobs + 1) ++ " jobs, limit is " ++
      toString maxExpandedJobs)
  return total + expanded

/-- `ValidateLimits`, on the fields that decide the expansion. -/
def validateLimits (s : Spec) : Except String Unit := do
  require (s.jobs.rows.length ≤ maxDeclaredJobs)
    ("pipeline declares " ++ toString s.jobs.rows.length ++ " jobs, limit is " ++
      toString maxDeclaredJobs)
  let _ ← s.jobs.rows.foldlM (fun total e => limitJob total e.1 e.2) 0
  return ()

def idRegexp : String → Bool := identifier (· == '.') 127

def matrixNameRegexp : String → Bool := identifier (fun _ => false) 63

/-- A value `validateMatrix` admits. -/
def MatrixValue.scalar : MatrixValue → Bool
  | .composite _ _ => false
  | _ => true

/-- The checks of `validateMatrix` on one dimension after another. -/
def validateDimensions (label : String) :
    List (String × List MatrixValue) → Table String String → Except String Unit
  | [], _ => .ok ()
  | (dim, vals) :: rest, projected => do
    require (matrixNameRegexp dim)
      (label ++ " matrix dimension \"" ++ dim ++
        "\" is invalid (must match ^[A-Za-z_][A-Za-z0-9_-]\x7b0,63\x7d$)")
    let proj := projectInputName dim
    require ((projected.get? proj).isNone)
      (label ++ " matrix dimensions \"" ++ (projected.get? proj).getD "" ++ "\" and \"" ++ dim ++
        "\" both project to KIWI_MATRIX_" ++ proj)
    require (vals ≠ []) ("matrix dimension \"" ++ dim ++ "\" has no values")
    require (vals.all MatrixValue.scalar)
      (label ++ " matrix dimension \"" ++ dim ++
        "\" has non-scalar value (only strings, numbers and booleans are allowed)")
    validateDimensions label rest (projected.put proj dim)

def validateMatrix (label : String) (m : Table String (List MatrixValue)) : Except String Unit :=
  validateDimensions label m.sorted .empty

/-- The checks on a dependency list. -/
def validateNeeds (s : Spec) (id : String) : List String → List String → Except String Unit
  | [], _ => .ok ()
  | dep :: rest, seen => do
    require ((s.jobs.get? dep).isSome) ("job \"" ++ id ++ "\" needs unknown job \"" ++ dep ++ "\"")
    require (dep ≠ id) ("job \"" ++ id ++ "\" depends on itself")
    require (dep ∉ seen)
      ("job \"" ++ id ++ "\" lists dependency \"" ++ dep ++ "\" more than once")
    validateNeeds s id rest (dep :: seen)

def validateJob (rules : FieldRules) (s : Spec) (id : String) (j : Job) : Except String Unit := do
  rules.job s id j
  validateMatrix ("job \"" ++ id ++ "\"") j.matrix
  require (0 ≤ j.generate.maxJobs ∧ 0 ≤ j.generate.maxDepth)
    ("job \"" ++ id ++ "\" generate limits must not be negative")
  require (0 ≤ j.shards)
    ("job \"" ++ id ++ "\" tests shards/retry_failed must not be negative")
  require (¬ (0 < j.shards ∧ (j.matrix.get? "test_shard").isSome))
    ("job \"" ++ id ++ "\" matrix dimension \"test_shard\" is reserved for tests.shards")

def validateEntry (rules : FieldRules) (s : Spec) (id : String) (j : Job) : Except String Unit := do
  require (idRegexp id) ("invalid job id \"" ++ id ++ "\"")
  require (j.steps ≠ []) ("job \"" ++ id ++ "\" has no steps")
  validateNeeds s id j.needs []
  validateJob rules s id j

/-- The dependencies a job declares; none for a name that is no job. -/
def needsOf (jobs : Table String Job) (id : String) : List String :=
  ((jobs.get? id).map Job.needs).getD []

def findCycle (jobs : Table String Job) : List String :=
  DepthFirst.findCycle (needsOf jobs) (jobs.select fun _ _ => true)

def validate (rules : FieldRules) (s : Spec) : Except String Unit := do
  validateLimits s
  rules.spec s
  s.jobs.rows.forM fun e => validateEntry rules s e.1 e.2
  let cycle := findCycle s.jobs
  require (cycle = []) ("dependency cycle: " ++ " -> ".intercalate cycle)

/-!
Compilation of a pipeline into its job graph: `internal/pipeline/graph.go`.

Every declared job is expanded over its matrix and its test shards, each variant is
rendered and checked, and the dependencies of a compiled job are all variants of
the jobs it declares.  The loop over jobs, combinations and shards fails as a whole
at the first variant that does not compile, so the model first compiles the list of
all variants and then builds the two maps of the source from it.
-/

/-! ## Expansion -/

/-- One round of `matrixCombinations`: every combination so far with every value
of one more dimension. -/
def addDimension (out : List (Table String String)) (dim : String) (values : List String) :
    List (Table String String) :=
  out.flatMap fun base => values.map fun v => base.put dim v

def matrixCombinations (m : Table String (List MatrixValue)) : List (Table String String) :=
  if m.rows.isEmpty then []
  else
    m.sorted.foldl (fun out dim =>
      if dim.2.length = 0 then out else addDimension out dim.1 (dim.2.map MatrixValue.sprint))
      [.empty]

def shardVariants (m : Table String String) (shards : Int) : List (Table String String) :=
  if shards ≤ 1 then [m]
  else (List.range shards.toNat).map fun i => m.put "test_shard" (toString i)

def sortedMatrixKeys (m : Table String String) : List String := m.select fun _ _ => true

def maxMatrixSuffixBytes : Nat := 128

def matrixValueSafe (v : String) : Bool := v.toList.all fun c => Expr.isIdentPart c || c == '.'

/-- A value as it appears in a compiled identifier. -/
def encodeValue (v : String) : List Char :=
  if matrixValueSafe v then v.toList else '~' :: Base64.encode (Sha256.utf8 v)

/-- The bracketed list of dimensions, each with its value as `write` renders it. -/
def renderSuffix (write : String → List Char) (m : Table String String) (keys : List String) :
    List Char :=
  '[' :: [','].intercalate (keys.map fun k => k.toList ++ '=' :: write ((m.get? k).getD "")) ++ [']']

/-- The raw rendering of a variant. -/
def rawSuffix (m : Table String String) (keys : List String) : String :=
  String.ofList (renderSuffix String.toList m keys)

/-- The hash a long suffix collapses to: the first sixteen bytes of its SHA-256. -/
def suffixHash (full : String) : String := Sha256.hex ((Sha256.digest (Sha256.utf8 full)).take 16)

def matrixSuffixWithKeys (m : Table String String) (keys : List String) : String :=
  if m.rows.isEmpty then ""
  else if maxMatrixSuffixBytes < (rawSuffix m keys).utf8ByteSize then
    "[~" ++ suffixHash (rawSuffix m keys) ++ "]"
  else String.ofList (renderSuffix encodeValue m keys)

/-- One variant of a declared job, with the dimension order its identifier uses. -/
structure Variant where
  base : String
  job : Job
  values : Table String String
  keys : List String

/-- The compiled identifier of a variant. -/
def Variant.id (v : Variant) : String := v.base ++ matrixSuffixWithKeys v.values v.keys

/-- The variants of a job, by combination and then by shard. -/
def variants (id : String) (j : Job) : List Variant :=
  let combos := matrixCombinations j.matrix
  let combos := if combos.isEmpty then [.empty] else combos
  combos.flatMap fun m =>
    let expanded := shardVariants m j.shards
    let keys := (expanded.head?.map sortedMatrixKeys).getD []
    expanded.map fun v => ⟨id, j, v, keys⟩

/-- Every variant of the pipeline. -/
def expansion (s : Spec) : List Variant := s.jobs.rows.flatMap fun e => variants e.1 e.2

/-! ## Compilation -/

def bindToolchains (jobID : String) (j : Job) (s : Spec) : Except String Job :=
  if j.toolchains.isEmpty then .ok j
  else do
    let bound ← j.toolchains.mapM fun name =>
      match s.toolchains.get? name with
      | some tc => .ok tc
      | none => .error ("job \"" ++ jobID ++ "\" references unknown toolchain \"" ++ name ++
          "\" (declare it under top-level toolchains:)")
    return { j with boundToolchains := bound }

/-- `compiledIDRegexp`: an identifier, and at most one bracketed suffix. -/
def compiledIDRegexp (s : String) : Bool :=
  let base := s.toList.takeWhile (· ≠ '[')
  let suffix := s.toList.dropWhile (· ≠ '[')
  let inner := (suffix.drop 1).dropLast
  idRegexp (String.ofList base) &&
    (suffix.isEmpty || (2 ≤ suffix.length && suffix.getLast? == some ']' && inner.length ≤ 128 &&
      inner.all fun c => Expr.isIdentPart c || c == '.' || c == '~' || c == ',' || c == '='))

def validateCompiledJob (rules : FieldRules) (cj : CompiledJob) : Except String Unit := do
  require (compiledIDRegexp cj.id)
    ("compiled job id \"" ++ cj.id ++ "\" is invalid (must match " ++
      "^[A-Za-z_][A-Za-z0-9_.-]\x7b0,127\x7d(\\[[A-Za-z0-9._~,=-]\x7b0,128\x7d\\])?$)")
  require (idRegexp cj.baseID)
    ("compiled job \"" ++ cj.id ++ "\" has invalid base id \"" ++ cj.baseID ++ "\"")
  rules.compiled cj

/-- The inputs a compiled job sees in its environment, and the check that no hole
is left that they should have resolved. -/
def injectInputs (host : Expr.Host) (cid : String) (m : Table String String)
    (inputs : Option (Table String String)) (j : Job) : Except String Job :=
  match inputs with
  | none => .ok j
  | some given => do
    let j := { j with env := mergeStringMaps j.env (inputEnv given) }
    validateInputsResolved host cid j m given
    return j

/-- The body of the loop of `CompileWithInputs`. -/
def compileVariant (host : Expr.Host) (rules : FieldRules) (s : Spec)
    (inputs : Option (Table String String)) (v : Variant) : Except String CompiledJob := do
  let job := interpolateJob host v.job v.values inputs
  let job ← bindToolchains v.id job s
  let job := { job with env := mergeStringMaps job.env (matrixEnv v.values) }
  let job ← injectInputs host v.id v.values inputs job
  let job :=
    if 1 < v.job.shards then
      { job with
        env := mergeStringMaps job.env
          (shardEnv v.job.shards ((v.values.get? "test_shard").getD "")) }
    else job
  let cj : CompiledJob := { id := v.id, baseID := v.base, job := job, matrix := v.values }
  validateCompiledJob rules cj
  return cj

/-- The identifiers a declared job is expanded to, in order. -/
def expanded (compiled : List CompiledJob) (base : String) : List String :=
  (compiled.filter fun cj => cj.baseID = base).map CompiledJob.id

/-- The graph of the compiled variants: the last one under an identifier stays, and
every dependency stands for all variants of the job it names. -/
def assemble (compiled : List CompiledJob) : Graph where
  jobs :=
    (compiled.foldl (fun (jobs : Table String CompiledJob) cj => jobs.put cj.id cj) .empty).map
      fun _ cj => { cj with needs := cj.job.needs.flatMap (expanded compiled) }

/-- The check of the names of the given inputs. -/
def checkProvided (inputs : Option (Table String String)) : Except String Unit :=
  match inputs with
  | none => .ok ()
  | some given => checkInputNames (inputNames given)

def compileWithInputs (host : Expr.Host) (rules : FieldRules) (s : Spec)
    (inputs : Option (Table String String)) : Except String Graph := do
  validate rules s
  checkProvided inputs
  let compiled ← (expansion s).mapM (compileVariant host rules s inputs)
  return assemble compiled

def compile (host : Expr.Host) (rules : FieldRules) (s : Spec) : Except String Graph :=
  compileWithInputs host rules s s.providedInputs

/-!
Compiled identifiers tell variants apart: a suffix determines the values it renders,
except that a long one determines its hash only.

Dimension names and encoded values contain neither the separator nor the bracket,
so a rendered suffix can be read back piece by piece; a hashed suffix starts with
the tilde no dimension name starts with; and a base identifier contains no bracket,
so it can be split off.
-/

open List

variable {m m' : Table String String} {keys : List String}

/-! ## Values -/

/-- The characters of compiled values. -/
def valueChar (c : Char) : Bool := Expr.isIdentPart c || c == '.' || c == '~'

theorem digit_valueChar (digit : Auth.base64Value c = some n) : Expr.isIdentPart c = true := by
  unfold Auth.base64Value at digit
  split_ifs at digit <;> simp_all [Expr.isIdentPart, Expr.isIdentStart, Expr.isDigit]

theorem encodeValue_valueChar (member : c ∈ encodeValue v) :
    valueChar c = true := by
  unfold encodeValue at member
  split at member
  · rename_i safe
    have := all_eq_true.mp safe c member
    simp [valueChar, this]
  · rcases mem_cons.mp member with rfl | later
    · decide
    · simp [valueChar, digit_valueChar (Auth.digit_of_encode later)]

theorem encodeValue_injective : Function.Injective encodeValue := by
  intro v w same
  have tilde : ∀ {v : String} {rest : List Char}, matrixValueSafe v = true → v.toList ≠ '~' :: rest := by
    intro v rest safe shape
    have := all_eq_true.mp safe '~' (by rw [shape]; simp)
    simp [Expr.isIdentPart, Expr.isIdentStart, Expr.isDigit] at this
  unfold encodeValue at same
  split at same
  · rename_i safe
    split at same
    · exact String.toList_inj.mp same
    · exact absurd same (tilde safe)
  · split at same
    · rename_i safe
      exact absurd same.symm (tilde safe)
    · exact Sha256.utf8_injective (Auth.encode_injective (cons.inj same).2)

/-! ## Suffixes -/

/-- A bracketed list with the same names renders its values one by one. -/
theorem renderSuffix_inj {write : String → List Char} (plain : ∀ v, ∀ c ∈ write v, c ≠ ',')
    (same : renderSuffix write m keys = renderSuffix write m' keys) :
    ∀ k ∈ keys, write ((m.get? k).getD "") = write ((m'.get? k).getD "") := by
  simp only [renderSuffix, cons_append, cons.injEq, true_and] at same
  induction keys with
  | nil => simp
  | cons k rest ih =>
    cases rest with
    | nil =>
      simp only [map_cons, map_nil, intercalate_singleton, append_assoc,
        append_cancel_left_eq, cons_append, cons.injEq, true_and,
        append_cancel_right_eq] at same
      simpa using same
    | cons k' rest =>
      simp only [map_cons, intercalate_cons_cons, append_assoc,
        append_cancel_left_eq, cons_append, nil_append, cons.injEq,
        true_and] at same
      have comma : ∀ v, ',' ∉ write v := fun v member => plain v ',' member rfl
      obtain ⟨first, tail⟩ := Text.append_sep_inj (comma _) (comma _) same
      refine forall_mem_cons.mpr ⟨first, ih ?_⟩
      simpa only [map_cons] using tail

theorem encodeValue_ne_comma (v : String) : ∀ c ∈ encodeValue v, c ≠ ',' := by
  rintro c member rfl
  have := encodeValue_valueChar member
  simp [valueChar, Expr.isIdentPart, Expr.isIdentStart, Expr.isDigit] at this

/-- A suffix that is too long to be written out. -/
def Long (m : Table String String) (keys : List String) : Prop :=
  maxMatrixSuffixBytes < (rawSuffix m keys).utf8ByteSize

instance (m : Table String String) (keys : List String) : Decidable (Long m keys) :=
  inferInstanceAs (Decidable (_ < _))

theorem suffix_of_long (filled : m.rows ≠ []) (long : Long m keys) :
    matrixSuffixWithKeys m keys = "[~" ++ suffixHash (rawSuffix m keys) ++ "]" := by
  unfold matrixSuffixWithKeys
  rw [if_neg (by simpa using filled)]
  exact if_pos long

theorem suffix_of_short (filled : m.rows ≠ []) (short : ¬ Long m keys) :
    matrixSuffixWithKeys m keys = String.ofList (renderSuffix encodeValue m keys) := by
  unfold matrixSuffixWithKeys
  rw [if_neg (by simpa using filled)]
  exact if_neg short

theorem identifier_head {extra : Char → Bool} (valid : identifier extra most s = true) :
    ∃ c rest, s.toList = c :: rest ∧ Expr.isIdentStart c = true := by
  unfold identifier at valid
  split at valid
  · cases valid
  · rename_i c rest shape
    simp only [Bool.and_eq_true] at valid
    exact ⟨c, rest, shape, valid.1.1⟩

theorem long_ne_short
    (named : matrixNameRegexp k = true) (filled : m.rows ≠ []) (filled' : m'.rows ≠ [])
    (long : Long m (k :: rest)) (short : ¬ Long m' (k :: rest)) :
    matrixSuffixWithKeys m (k :: rest) ≠ matrixSuffixWithKeys m' (k :: rest) := by
  rw [suffix_of_long filled long, suffix_of_short filled' short]
  intro same
  obtain ⟨c, tail, shape, start⟩ := identifier_head named
  have chars := congrArg String.toList same
  cases rest with
  | nil =>
    simp only [String.toList_append, String.toList_ofList, renderSuffix, map_cons, map_nil,
      intercalate_singleton, shape] at chars
    obtain ⟨rfl, -⟩ := cons.inj (cons.inj chars).2
    revert start
    decide
  | cons k' rest =>
    simp only [String.toList_append, String.toList_ofList, renderSuffix, map_cons,
      intercalate_cons_cons, shape] at chars
    obtain ⟨rfl, -⟩ := cons.inj (cons.inj chars).2
    revert start
    decide

/-- What two equal suffixes over the same dimensions have in common: the values, or
a raw rendering with one hash. -/
theorem suffix_inj (filled : m.rows ≠ []) (filled' : m'.rows ≠ []) (nonempty : keys ≠ [])
    (named : ∀ k ∈ keys, matrixNameRegexp k = true)
    (same : matrixSuffixWithKeys m keys = matrixSuffixWithKeys m' keys) :
    (∀ k ∈ keys, (m.get? k).getD "" = (m'.get? k).getD "") ∨
      (Long m keys ∧ suffixHash (rawSuffix m keys) = suffixHash (rawSuffix m' keys)) := by
  obtain ⟨k, rest, rfl⟩ := exists_cons_of_ne_nil nonempty
  have head := named k (by simp)
  by_cases long : Long m (k :: rest)
  · by_cases long' : Long m' (k :: rest)
    · refine .inr ⟨long, ?_⟩
      rw [suffix_of_long filled long, suffix_of_long filled' long'] at same
      have chars := congrArg String.toList same
      simp only [String.toList_append, append_cancel_right_eq,
        append_cancel_left_eq] at chars
      exact String.toList_inj.mp chars
    · exact absurd same (long_ne_short head filled filled' long long')
  · by_cases long' : Long m' (k :: rest)
    · exact absurd same.symm (long_ne_short head filled' filled long' long)
    · rw [suffix_of_short filled long, suffix_of_short filled' long', String.ofList_inj] at same
      exact .inl fun k member =>
        encodeValue_injective (renderSuffix_inj encodeValue_ne_comma same k member)

theorem suffix_head (m : Table String String) (keys : List String) :
    (matrixSuffixWithKeys m keys).toList = [] ∨
      ∃ rest, (matrixSuffixWithKeys m keys).toList = '[' :: rest := by
  unfold matrixSuffixWithKeys
  split
  · exact .inl rfl
  · split
    · exact .inr ⟨_, by simp [String.toList_append]; rfl⟩
    · exact .inr ⟨_, by simp [renderSuffix]; rfl⟩

theorem idRegexp_no_bracket {id : String} (valid : idRegexp id = true) : '[' ∉ id.toList := by
  intro member
  unfold idRegexp identifier at valid
  split at valid
  · cases valid
  · rename_i c rest shape
    simp only [Bool.and_eq_true, List.all_eq_true] at valid
    rw [shape] at member
    rcases List.mem_cons.mp member with rfl | later
    · exact absurd valid.1.1 (by decide)
    · exact absurd (valid.1.2 _ later) (by decide)

theorem compiledIDRegexp_bracketed {inner : List Char} (valid : idRegexp base = true)
    (short : inner.length ≤ 128) (plain : inner.all (fun c => Expr.isIdentPart c || c == '.' ||
      c == '~' || c == ',' || c == '=') = true) :
    compiledIDRegexp (base ++ String.ofList ('[' :: inner ++ [']'])) = true := by
  have before : ∀ c ∈ base.toList, decide (c ≠ '[') = true := by
    intro c member
    refine decide_eq_true fun bracket => ?_
    exact idRegexp_no_bracket valid (bracket ▸ member)
  have head : (base.toList ++ '[' :: (inner ++ [']'])).takeWhile (· ≠ '[') = base.toList := by
    rw [takeWhile_append_of_pos before]
    simp
  have tail : (base.toList ++ '[' :: (inner ++ [']'])).dropWhile (· ≠ '[') =
      '[' :: (inner ++ [']']) := by
    rw [dropWhile_append_of_pos before]
    simp
  simp only [compiledIDRegexp, String.toList_append, String.toList_ofList, cons_append, head,
    tail, String.ofList_toList, valid, drop_succ_cons, drop_zero, dropLast_concat,
    plain, decide_eq_true short]
  simp [getLast?_cons]


/-- A compiled identifier splits into its base and its suffix. -/
theorem split_id (valid : idRegexp base = true) (valid' : idRegexp base' = true)
    (same : base ++ matrixSuffixWithKeys m keys = base' ++ matrixSuffixWithKeys m' keys') :
    base = base' ∧ matrixSuffixWithKeys m keys = matrixSuffixWithKeys m' keys' := by
  have plain := idRegexp_no_bracket valid
  have plain' := idRegexp_no_bracket valid'
  have chars := congrArg String.toList same
  rw [String.toList_append, String.toList_append] at chars
  have split : base.toList = base'.toList ∧
      (matrixSuffixWithKeys m keys).toList = (matrixSuffixWithKeys m' keys').toList := by
    rcases suffix_head m keys with empty | ⟨rest, shape⟩
    · rcases suffix_head m' keys' with empty' | ⟨rest', shape'⟩
      · rw [empty, empty'] at chars ⊢
        exact ⟨by simpa using chars, rfl⟩
      · rw [empty, shape', append_nil] at chars
        exact absurd (by rw [chars]; simp) plain
    · rcases suffix_head m' keys' with empty' | ⟨rest', shape'⟩
      · rw [shape, empty', append_nil] at chars
        exact absurd (by rw [← chars]; simp) plain'
      · rw [shape, shape'] at chars ⊢
        obtain ⟨first, tail⟩ := Text.append_sep_inj plain plain' chars
        exact ⟨first, by rw [tail]⟩
  exact ⟨String.toList_inj.mp split.1, String.toList_inj.mp split.2⟩

end KiwiCI.Pipeline
