import KiwiCI.Pipeline.Recompile
import KiwiCI.Pipeline.Canonical
import Mathlib.Algebra.Order.BigOperators.GroupWithZero.List
import Mathlib.Algebra.Order.Ring.Nat

/-!
Compilation reads a map as a map.

A Go map has no order, and the table that stands for it has one, so a pipeline is
compared with another through `order`.  `compile_order` says that pipelines with the
same maps compile alike: the loops over jobs and dimensions may run in any order.
-/

namespace KiwiCI.Pipeline

open List Table

variable {j j' : Job} {m given' : Table String String} {host : Expr.Host}
  {inputs inputs' : Option (Table String String)} {s : Spec} {rules : FieldRules}
  {compiled : List CompiledJob}

/-! ## What is written -/

/-- A writer that does not see the difference `f` makes. -/
structure Blind {α : Type} (w : Writer α) (f : α → α) : Prop where
  empty : ∀ a, w.empty (f a) = w.empty a
  write : ∀ a, w.write (f a) = w.write a

theorem Blind.map {α : Type} (w : Writer α) : Blind (Writer.map w) Table.order where
  empty t := (Writer.map_congr (w := w) (get?_order t)).1
  write t := (Writer.map_congr (w := w) (get?_order t)).2

theorem Blind.list {α : Type} {w : Writer α} {f : α → α} (blind : Blind w f) :
    Blind (Writer.list w) (List.map f) where
  empty l := by simp [Writer.list]
  write l := by
    simp only [Writer.list, map_map, Json.arr.injEq]
    exact map_congr_left fun a _ => blind.write a

theorem Blind.opt {σ α : Type} {c : Codec α} {f : α → α} (blind : Blind c.toWriter f)
    {get : σ → α} {set : α → σ → σ} {s t : σ} (shape : get t = f (get s)) :
    (Field.opt name c get set).write t = (Field.opt name c get set).write s := by
  simp only [Field.opt, Member.opt, shape, blind.empty, blind.write]

theorem Blind.req {σ α : Type} {c : Codec α} {f : α → α} (blind : Blind c.toWriter f)
    {get : σ → α} {set : α → σ → σ} {s t : σ} (shape : get t = f (get s)) :
    (Field.req name c get set).write t = (Field.req name c get set).write s := by
  simp only [Field.req, Member.req, shape, blind.write]

theorem blind_stringMap : Blind Codec.stringMap.toWriter Table.order :=
  ⟨(Blind.map Codec.string.toWriter).empty, (Blind.map Codec.string.toWriter).write⟩

theorem blind_matrix : Blind matrixCodec.toWriter Table.order := Blind.map _

/-- Every field is written alike when each one's codec is blind to the change. -/
theorem blind_step : Blind Step.codec.toWriter Step.order where
  empty _ := rfl
  write s := by
    refine encode_congr ?_
    simp only [members, Step.fields, map_cons, map_nil, forall_mem_cons]
    and_intros
    all_goals first
      | exact blind_stringMap.opt rfl
      | exact blind_matrix.opt rfl
      | exact rfl
      | exact fun _ none => by cases none

theorem blind_service : Blind Service.codec.toWriter Service.order where
  empty _ := rfl
  write s := by
    refine encode_congr ?_
    simp only [members, Service.fields, map_cons, map_nil, forall_mem_cons]
    and_intros
    all_goals first
      | exact blind_stringMap.opt rfl
      | exact rfl
      | exact fun _ none => by cases none

theorem blind_deployment : Blind DeploymentSpec.codec.toWriter DeploymentSpec.order where
  empty _ := rfl
  write s := by
    refine encode_congr ?_
    simp only [members, DeploymentSpec.fields, map_cons, map_nil, forall_mem_cons]
    exact ⟨blind_step.list.opt rfl, blind_step.list.opt rfl, blind_step.list.opt rfl,
      fun _ none => by cases none⟩

theorem blind_downstream : Blind DownstreamSpec.codec.toWriter DownstreamSpec.order where
  empty _ := rfl
  write s := by
    refine encode_congr ?_
    simp only [members, map_cons, map_nil, forall_mem_cons]
    exact ⟨rfl, rfl, rfl, blind_stringMap.opt rfl, rfl, fun _ none => by cases none⟩

theorem toJson_order (j : Job) : j.order.toJson = j.toJson := by
  refine encode_congr ?_
  simp only [members, Job.fields, map_cons, map_nil, forall_mem_cons]
  exact ⟨rfl, rfl, rfl, rfl, rfl, rfl, rfl, rfl, rfl, rfl, rfl, blind_stringMap.opt rfl,
    blind_matrix.opt rfl, rfl, rfl, rfl, blind_service.list.opt rfl, blind_step.list.req rfl,
    rfl, rfl, rfl, rfl, rfl, rfl, rfl, rfl, rfl, rfl, rfl, blind_stringMap.opt rfl, rfl, rfl, rfl,
    rfl, rfl, blind_downstream.opt rfl, blind_deployment.opt rfl, rfl, rfl,
    blind_stringMap.opt rfl, rfl, rfl, rfl, rfl, fun _ none => by cases none⟩

theorem toJson_congr (same : j.order = j'.order) : j.toJson = j'.toJson := by
  rw [← toJson_order, same, toJson_order]

/-! ## Inputs -/

theorem lookup_inputs {c : Expr.Context}
    (same : ∀ k, given.get? k = given'.get? k) (root : List Char) (fields : List (List Char)) :
    Expr.lookup { c with inputs := given } root fields =
      Expr.lookup { c with inputs := given' } root fields := by
  have scalar : Expr.Context.scalar? { c with inputs := given } root fields =
    Expr.Context.scalar? { c with inputs := given' } root fields := rfl
  unfold Expr.lookup
  rw [scalar]
  split
  · rfl
  · simp only [Expr.Context.map?, lookup_cons, lookup_nil]
    cases root == "matrix".toList with
    | true => rfl
    | false =>
      cases root == "inputs".toList with
      | true => simp only [Expr.mapLookup, same]
      | false => rfl

theorem eval_inputs {c : Expr.Context} (same : ∀ k, given.get? k = given'.get? k) (e : Expr) :
    e.eval host { c with inputs := given } = e.eval host { c with inputs := given' } :=
  congrArg Expr.Outcome.text
    (Expr.outcome_congr e (fun f _ => f.alike_of_eq (by rfl) (by rfl)) fun r _ fields =>
      lookup_inputs same r fields)

theorem resolveHole_inputs {given : Table String String}
    (same : ∀ k, given.get? k = given'.get? k) (allowed : List (List Char)) (body : List Char) :
    resolveHole host (compileContext m (some given)) allowed body =
      resolveHole host (compileContext m (some given')) allowed body := by
  unfold resolveHole
  cases Expr.parse body with
  | error e => rfl
  | ok e =>
    dsimp only
    rw [show e.eval host (compileContext m (some given)) =
      e.eval host (compileContext m (some given')) from eval_inputs (c := { matrix := m }) same e]

def SameInputs (inputs inputs' : Option (Table String String)) : Prop :=
  inputs.map Table.order = inputs'.map Table.order

theorem SameInputs.interpolate
    (same : SameInputs inputs inputs') (host : Expr.Host) (t : String) (m : Table String String) :
    interpolateWithInputs host t m inputs = interpolateWithInputs host t m inputs' := by
  cases inputs with
  | none =>
    cases inputs' with
    | none => rfl
    | some given' => cases same
  | some given =>
    cases inputs' with
    | none => cases same
    | some given' =>
      have each := get?_of_order (Option.some.inj same)
      have contexts : compileContexts (some given) = compileContexts (some given') := rfl
      refine congrArg String.ofList ?_
      unfold interpolateChars
      dsimp only
      split
      · rfl
      · cases Expr.holes (escapeHoleOpeners t.toList) with
        | none => rfl
        | some scan =>
          refine congrArg (fun l => unescapeHoleOpeners (l ++ scan.2))
            (flatMap_congr fun h _ => ?_)
          rw [contexts, resolveHole_inputs each]

theorem unresolvedInput_inputs {given : Table String String}
    (same : ∀ k, given.get? k = given'.get? k) (body : List Char) :
    unresolvedInput host m given body = unresolvedInput host m given' body := by
  unfold unresolvedInput
  cases Expr.parse body with
  | error e => rfl
  | ok e =>
    dsimp only
    rw [show e.eval host { matrix := m, inputs := given } =
      e.eval host { matrix := m, inputs := given' } from eval_inputs (c := { matrix := m }) same e]

theorem validateInputsResolved_congr (job : j.order = j'.order)
    (same : ∀ k, given.get? k = given'.get? k) (id : String) :
    validateInputsResolved host id j m given = validateInputsResolved host id j' m given' := by
  unfold validateInputsResolved jobMayHaveHoles
  simp only [toJson_congr job, unresolvedInput_inputs same]

/-- The projected names that passed the check are different from each other. -/
theorem checkProjected_nodup (ran : checkProjected label valid names seen = .ok ()) :
    (names.map projectInputName).Nodup ∧
      ∀ name ∈ names, seen.get? (projectInputName name) = none := by
  induction names generalizing seen with
  | nil => exact ⟨nodup_nil, fun name none => by cases none⟩
  | cons name rest ih =>
    obtain ⟨_, -, ran⟩ := bind_ok_iff.mp ran
    split at ran
    · cases ran
    · rename_i absent
      obtain ⟨nodup, fresh⟩ := ih ran
      have other : ∀ next ∈ rest, projectInputName next ≠ projectInputName name := by
        intro next member same
        have none := fresh next member
        rw [same, get?_put_self] at none
        cases none
      refine ⟨nodup_cons.mpr ⟨fun member => ?_, nodup⟩, forall_mem_cons.mpr ⟨absent, ?_⟩⟩
      · obtain ⟨next, there, same⟩ := mem_map.mp member
        exact other next there same
      · intro next member
        rw [← fresh next member, get?_put_ne _ _ (other next member)]

/-- Variables of inputs whose names project apart are those of the map. -/
theorem get?_inputEnv (checked : checkInputNames (inputNames given) = .ok ()) (k v : String) :
    (inputEnv given).get? k = some v ↔
      ∃ name, given.get? name = some v ∧ k = "KIWI_INPUT_" ++ projectInputName name := by
  refine ⟨get?_projectedEnv, ?_⟩
  rintro ⟨name, held, rfl⟩
  have pairs : inputEnv given =
      (given.rows.map fun e => ("KIWI_INPUT_" ++ projectInputName e.1, e.2)).foldl
        (fun t entry => t.put entry.1 entry.2) .empty := by
    rw [foldl_map]
    rfl
  have keys : (inputNames given).Perm (given.rows.map (·.1)) := by
    have perm := (sorted_perm given).map Prod.fst
    rwa [map_fst_sorted, map_map] at perm
  have nodup : ((given.rows.map fun e => ("KIWI_INPUT_" ++ projectInputName e.1, e.2)).map
      Prod.fst).Nodup := by
    have projected := (keys.map projectInputName).nodup_iff.mp (checkProjected_nodup checked).1
    rw [map_map] at projected ⊢
    have shape : (Prod.fst ∘ fun e : Sigma fun _ : String => String =>
        ("KIWI_INPUT_" ++ projectInputName e.1, e.2)) =
          ("KIWI_INPUT_" ++ ·) ∘ (projectInputName ∘ fun e => e.1) := rfl
    rw [shape, ← map_map]
    exact projected.map fun a b same => String.append_right_inj _ |>.mp same
  have member : ("KIWI_INPUT_" ++ projectInputName name, v) ∈
      given.rows.map fun e => ("KIWI_INPUT_" ++ projectInputName e.1, e.2) :=
    mem_map.mpr ⟨⟨name, v⟩, mem_rows_iff.mpr held, rfl⟩
  rw [pairs]
  exact get?_foldl_put_of_nodup .empty nodup member

theorem inputEnv_congr (same : ∀ k, given.get? k = given'.get? k)
    (checked : checkInputNames (inputNames given) = .ok ()) (k : String) :
    (inputEnv given).get? k = (inputEnv given').get? k := by
  have names : inputNames given' = inputNames given :=
    keys_congr fun k => by rw [same]
  refine Option.ext fun v => ?_
  rw [get?_inputEnv checked, get?_inputEnv (by rw [names]; exact checked)]
  simp only [same]

/-! ## One variant -/

theorem order_interpolateMap (host : Expr.Host) (entries m : Table String String)
    (inputs : Option (Table String String)) :
    (interpolateMap host entries m inputs).order = interpolateMap host entries.order m inputs :=
  order_map _ entries

theorem order_interpolateJob (host : Expr.Host) (j : Job) (m : Table String String)
    (inputs : Option (Table String String)) :
    (interpolateJob host j m inputs).order = interpolateJob host j.order m inputs := by
  have steps : ∀ l : List Step, (l.map (interpolateStep host m inputs)).map Step.order =
      (l.map Step.order).map (interpolateStep host m inputs) := by
    intro l
    simp only [map_map]
    refine map_congr_left fun s _ => ?_
    simp [Step.order, interpolateStep, order_interpolateMap]
  simp only [interpolateJob, Job.order, order_interpolateMap, steps, map_map,
    Job.mk.injEq, true_and, and_true]
  refine map_congr_left fun s _ => ?_
  simp [Service.order, order_interpolateMap]

theorem interpolateJob_order_congr (job : j.order = j'.order) (same : SameInputs inputs inputs') :
    (interpolateJob host j m inputs).order = (interpolateJob host j' m inputs').order := by
  rw [order_interpolateJob, order_interpolateJob, job]
  exact interpolateJob_congr fun t _ => same.interpolate host t m

theorem bindToolchains_congr
    (job : j.order = j'.order) (tools : ∀ k, s.toolchains.get? k = s'.toolchains.get? k)
    (ran : bindToolchains cid j s = .ok bound) :
    ∃ bound', bindToolchains cid j' s' = .ok bound' ∧ bound.order = bound'.order := by
  have names : j.toolchains = j'.toolchains := (congrArg Job.toolchains job :)
  unfold bindToolchains at ran ⊢
  split at ran
  · rename_i none
    rw [names] at none
    rw [if_pos none, ← Except.ok.inj ran]
    exact ⟨j', rfl, job⟩
  · rename_i given
    rw [names] at given
    simp only [if_neg given, ← tools]
    obtain ⟨list, each, shape⟩ := bind_ok_iff.mp ran
    rw [names] at each
    rw [← pure_ok_iff.mp shape]
    refine ⟨{ j' with boundToolchains := list }, bind_ok_iff.mpr ⟨list, each, rfl⟩, ?_⟩
    exact congrArg (fun j : Job => { j with boundToolchains := list }) job

theorem env_order_congr (job : j.order = j'.order) (same : ∀ k, env.get? k = env'.get? k) :
    { j with env := env }.order = { j' with env := env' }.order := by
  change { j.order with env := env.order } = { j'.order with env := env'.order }
  rw [job, order_congr same]

theorem env_get?_congr (job : j.order = j'.order) (k : String) : j.env.get? k = j'.env.get? k :=
  get?_of_order (congrArg Job.env job) k

theorem injectInputs_congr (job : j.order = j'.order)
    (same : SameInputs inputs inputs') (checked : checkProvided inputs = .ok ())
    (ran : injectInputs host cid m inputs j = .ok injected) :
    ∃ injected', injectInputs host cid m inputs' j' = .ok injected' ∧
      injected.order = injected'.order := by
  cases inputs with
  | none =>
    cases inputs' with
    | none =>
      rw [← Except.ok.inj ran]
      exact ⟨j', rfl, job⟩
    | some given' => cases same
  | some given =>
    cases inputs' with
    | none => cases same
    | some given' =>
      have each := get?_of_order (Option.some.inj same)
      obtain ⟨_, resolved, shape⟩ := bind_ok_iff.mp ran
      rw [← pure_ok_iff.mp shape]
      have env := env_order_congr job
        (merge_congr (env_get?_congr job) (inputEnv_congr each checked))
      rw [validateInputsResolved_congr env each] at resolved
      exact ⟨_, bind_ok_iff.mpr ⟨(), resolved, rfl⟩, env⟩

/-- The rules about single fields read a map as a map: whether they pass does not depend
on an order of its entries. -/
structure FieldRules.MapsOnly (rules : FieldRules) : Prop where
  spec : ∀ s t : Spec, s.order = t.order → rules.spec s = .ok () → rules.spec t = .ok ()
  job : ∀ (s t : Spec) (id : String) (j j' : Job), s.order = t.order → j.order = j'.order →
    rules.job s id j = .ok () → rules.job t id j' = .ok ()
  compiled : ∀ cj cj' : CompiledJob, cj.order = cj'.order → rules.compiled cj = .ok () →
    rules.compiled cj' = .ok ()

structure Variant.Same (v v' : Variant) : Prop where
  base : v.base = v'.base
  values : v.values = v'.values
  keys : v.keys = v'.keys
  job : v.job.order = v'.job.order

theorem Variant.Same.id {v : Variant} (same : v.Same v') : v.id = v'.id := by
  rw [Variant.id, Variant.id, same.base, same.values, same.keys]

theorem Variant.Same.shards {v : Variant} (same : v.Same v') : v.job.shards = v'.job.shards :=
  (congrArg Job.shards same.job :)

theorem toolchains_congr {t : Spec} (same : s.order = t.order) (k : String) :
    s.toolchains.get? k = t.toolchains.get? k :=
  get?_of_order (congrArg Spec.toolchains same) k

theorem compiled_order_congr (job : j.order = j'.order) (id base : String)
    (m : Table String String) :
    CompiledJob.order { id := id, baseID := base, job := j, matrix := m } =
      CompiledJob.order { id := id, baseID := base, job := j', matrix := m } := by
  simp only [CompiledJob.order, job]

theorem compileVariant_congr (maps : rules.MapsOnly) (spec : s.order = t.order)
    (given : SameInputs inputs inputs') (checked : checkProvided inputs = .ok ())
    (same : v.Same v') (ran : compileVariant host rules s inputs v = .ok cj) :
    ∃ cj', compileVariant host rules t inputs' v' = .ok cj' ∧ cj.order = cj'.order := by
  simp only [compileVariant, validateCompiledJob, bind_ok_iff, require_ok_iff, pure_ok_iff] at ran
  obtain ⟨tooled, bound, injected, inject, _, ⟨_, id, _, base, passed⟩, rfl⟩ := ran
  obtain ⟨tooled', bound', tools⟩ := bindToolchains_congr
    (interpolateJob_order_congr same.job given) (toolchains_congr spec) bound
  have matrix := env_order_congr tools
    (merge_congr (b := matrixEnv v.values) (env_get?_congr tools) fun _ => rfl)
  obtain ⟨injected', inject', job⟩ := injectInputs_congr matrix given checked inject
  have sharded := env_order_congr job
    (merge_congr (b := shardEnv v.job.shards ((v.values.get? "test_shard").getD ""))
      (env_get?_congr job) fun _ => rfl)
  simp only [compileVariant, validateCompiledJob, bind_ok_iff, require_ok_iff, pure_ok_iff,
    ← same.shards, ← same.values, ← same.base, ← same.id]
  by_cases many : 1 < v.job.shards
  · simp only [if_pos many] at passed ⊢
    have alike := compiled_order_congr sharded v.id v.base v.values
    exact ⟨_, ⟨tooled', bound', injected', inject', (),
      ⟨(), id, (), base, maps.compiled _ _ alike passed⟩, rfl⟩, alike⟩
  · simp only [if_neg many] at passed ⊢
    have alike := compiled_order_congr job v.id v.base v.values
    exact ⟨_, ⟨tooled', bound', injected', inject', (),
      ⟨(), id, (), base, maps.compiled _ _ alike passed⟩, rfl⟩, alike⟩

/-! ## Limits -/

theorem saturatingMul_eq (n factor limit : Nat) :
    saturatingMul n factor limit = min (n * factor) (limit + 1) := by
  unfold saturatingMul
  split
  · rename_i zero
    rcases zero with rfl | rfl <;> simp
  · rename_i positive
    have positive : 0 < factor := by omega
    split
    · rename_i above
      have := (Nat.div_lt_iff_lt_mul positive).mp above
      omega
    · rename_i within
      have := (Nat.le_div_iff_mul_le positive).mp (not_lt.mp within)
      omega

/-- `saturatingMul` on the machine's integers, where a product may wrap around. -/
def saturatingMul64 (n factor limit : Int64) : Int64 :=
  if n ≤ 0 ∨ factor ≤ 0 then 0 else if n > limit / factor then limit + 1 else n * factor

/-- No product is formed that the limit does not hold. -/
theorem saturatingMul64_exact (n factor : Int64) {limit : Nat} (room : limit < 2 ^ 63 - 1) :
    (saturatingMul64 n factor (Int64.ofNat limit)).toInt =
      saturatingMul n.toInt.toNat factor.toInt.toNat limit := by
  have top : (Int64.ofNat limit).toInt = limit := Int64.toInt_ofNat_of_lt (by omega)
  unfold saturatingMul64 saturatingMul
  simp only [Int64.le_iff_toInt_le, gt_iff_lt, Int64.lt_iff_toInt_lt, Int64.toInt_zero]
  by_cases none : n.toInt ≤ 0 ∨ factor.toInt ≤ 0
  · rw [if_pos none, if_pos (by omega)]
    rfl
  · obtain ⟨a, count⟩ := Int.eq_ofNat_of_zero_le (a := n.toInt) (by omega)
    obtain ⟨b, size⟩ := Int.eq_ofNat_of_zero_le (a := factor.toInt) (by omega)
    have positive : ¬ (a = 0 ∨ b = 0) := by omega
    have quotient : (Int64.ofNat limit / factor).toInt = ((limit / b : Nat) : Int) := by
      have small := Nat.div_le_self limit b
      rw [Int64.toInt_div, top, size, ← Int.ofNat_tdiv]
      generalize limit / b = q at small
      exact Int.bmod_eq_of_le (by omega) (by omega)
    rw [if_neg none, quotient, count, size, Int.toNat_natCast, Int.toNat_natCast, if_neg positive]
    by_cases above : limit / b < a
    · rw [if_pos (Int.ofNat_lt.mpr above), if_pos above, Int64.toInt_add, top, Int64.toInt_one]
      exact Int.bmod_eq_of_le (by omega) (by omega)
    · have product := (Nat.le_div_iff_mul_le (by omega)).mp (not_lt.mp above)
      rw [if_neg (mt Int.ofNat_lt.mp above), if_neg above, Int64.toInt_mul, count, size,
        ← Int.natCast_mul]
      exact Int.bmod_eq_of_le (by omega) (by omega)

/-- One dimension of `matrixComboCount`. -/
def addCombos (n values : Nat) : Nat :=
  if values > 0 then saturatingMul n values maxMatrixCombos else n

theorem min_mul_min (n cap : Nat) (given : 0 < b) : min (min n cap * b) cap = min (n * b) cap := by
  rcases le_total n cap with within | above
  · rw [min_eq_left within]
  · rw [min_eq_right above, min_eq_right (Nat.le_mul_of_pos_right cap given),
      min_eq_right (above.trans (Nat.le_mul_of_pos_right n given))]

theorem addCombos_eq (within : n ≤ maxMatrixCombos + 1) (values : Nat) :
    addCombos n values = min (n * max 1 values) (maxMatrixCombos + 1) := by
  unfold addCombos
  split
  · rw [saturatingMul_eq, max_eq_right (by omega)]
  · rw [max_eq_left (by omega), mul_one, min_eq_left within]

theorem foldl_addCombos (within : n ≤ maxMatrixCombos + 1) (sizes : List Nat) :
    sizes.foldl addCombos n = min (n * (sizes.map (max 1)).prod) (maxMatrixCombos + 1) := by
  induction sizes generalizing n with
  | nil => rw [foldl_nil, map_nil, prod_nil, mul_one, min_eq_left within]
  | cons values rest ih =>
    have given : 0 < (rest.map (max 1)).prod := List.prod_pos (by simp)
    rw [foldl_cons, addCombos_eq within, ih (min_le_right _ _), min_mul_min _ _ given, map_cons,
      prod_cons, mul_assoc]

theorem matrixComboCount_eq (m : Table String (List MatrixValue)) : matrixComboCount m =
    min (m.rows.map fun e => max 1 e.2.length).prod (maxMatrixCombos + 1) := by
  have fold : matrixComboCount m = (m.rows.map fun e => e.2.length).foldl addCombos 1 := by
    rw [foldl_map]
    rfl
  rw [fold, foldl_addCombos (by decide), one_mul, map_map]
  rfl

theorem matrixComboCount_congr {m : Table String (List MatrixValue)}
    (same : ∀ k, m.get? k = m'.get? k) : matrixComboCount m = matrixComboCount m' := by
  rw [matrixComboCount_eq, matrixComboCount_eq, ((rows_perm same).map _).prod_eq]

/-- What `limitJob` asks of one job. -/
def Job.Fits (j : Job) : Prop :=
  j.matrix.rows.length ≤ maxMatrixDims ∧ matrixComboCount j.matrix ≤ maxMatrixCombos ∧
    j.shards ≤ maxShardsPerJob

/-- What `limitJob` adds to the total for one job. -/
def Job.cost (j : Job) : Nat :=
  saturatingMul (if matrixComboCount j.matrix = 0 then 1 else matrixComboCount j.matrix)
    (if 0 < j.shards then j.shards.toNat else 1) maxExpandedJobs

/-- How many jobs a job stands for: a dimension without values is skipped. -/
def expandedCount (j : Job) : Nat :=
  (j.matrix.rows.map fun e => max 1 e.2.length).prod * shardCount j

theorem Job.Fits.cost_eq {j : Job} (fits : j.Fits) :
    j.cost = min (expandedCount j) (maxExpandedJobs + 1) := by
  have combos := matrixComboCount_eq j.matrix
  have exact : matrixComboCount j.matrix = (j.matrix.rows.map fun e => max 1 e.2.length).prod := by
    have := fits.2.1
    omega
  have given : 0 < (j.matrix.rows.map fun e => max 1 e.2.length).prod := by
    refine List.prod_pos fun size member => ?_
    obtain ⟨e, -, rfl⟩ := mem_map.mp member
    omega
  have shards : (if 0 < j.shards then j.shards.toNat else 1) = shardCount j := by
    unfold shardCount
    split <;> omega
  rw [Job.cost, exact, if_neg given.ne', shards, saturatingMul_eq, expandedCount]

theorem limitJob_ok_iff {id : String} :
    limitJob total id j = .ok n ↔ j.Fits ∧ total + expandedCount j ≤ maxExpandedJobs ∧
      total + expandedCount j = n := by
  simp only [limitJob, bind_ok_iff, require_ok_iff, pure_ok_iff]
  constructor
  · rintro ⟨_, dims, _, combos, _, shards, _, within, sum⟩
    have fits : j.Fits := ⟨dims, combos, shards⟩
    change total + j.cost ≤ _ at within
    change total + j.cost = n at sum
    rw [fits.cost_eq] at within sum
    exact ⟨fits, by omega, by omega⟩
  · rintro ⟨fits, within, sum⟩
    have cost := fits.cost_eq
    obtain ⟨dims, combos, shards⟩ := fits
    refine ⟨(), dims, (), combos, (), shards, (), ?_, ?_⟩
    · change total + j.cost ≤ _
      omega
    · change total + j.cost = n
      omega

theorem foldlM_limitJob {rows : List (Sigma fun _ : String => Job)} {total : Nat}
    (start : total ≤ maxExpandedJobs) :
    (∃ n, rows.foldlM (fun total e => limitJob total e.1 e.2) total = .ok n) ↔
      (∀ e ∈ rows, e.2.Fits) ∧
        total + (rows.map fun e => expandedCount e.2).sum ≤ maxExpandedJobs := by
  induction rows generalizing total with
  | nil => exact ⟨fun _ => ⟨fun e none => (by cases none), start⟩, fun _ => ⟨total, rfl⟩⟩
  | cons e rest ih =>
    rw [forall_mem_cons, map_cons, sum_cons, ← add_assoc]
    simp only [foldlM_cons, bind_ok_iff, limitJob_ok_iff]
    constructor
    · rintro ⟨n, m, ⟨fits, within, rfl⟩, ran⟩
      obtain ⟨others, sum⟩ := (ih within).mp ⟨n, ran⟩
      exact ⟨⟨fits, others⟩, sum⟩
    · rintro ⟨⟨fits, others⟩, sum⟩
      have within : total + expandedCount e.2 ≤ maxExpandedJobs := by omega
      obtain ⟨n, ran⟩ := (ih within).mpr ⟨others, sum⟩
      exact ⟨n, _, ⟨fits, within, rfl⟩, ran⟩

theorem validateLimits_ok_iff : validateLimits s = .ok () ↔
    s.jobs.rows.length ≤ maxDeclaredJobs ∧ (∀ id j, s.jobs.get? id = some j → j.Fits) ∧
      s.jobs.sum (fun _ j => expandedCount j) ≤ maxExpandedJobs := by
  have rows : (∀ e ∈ s.jobs.rows, e.2.Fits) ↔ ∀ id j, s.jobs.get? id = some j → j.Fits :=
    ⟨fun each id j held => each ⟨id, j⟩ (mem_rows_iff.mpr held),
      fun each e member => each e.1 e.2 (mem_rows_iff.mp member)⟩
  have sum : s.jobs.sum (fun _ j => expandedCount j) =
      (s.jobs.rows.map fun e => expandedCount e.2).sum := rfl
  have fold := @foldlM_limitJob s.jobs.rows 0 (Nat.zero_le _)
  rw [zero_add, rows, ← sum] at fold
  simp only [validateLimits, bind_ok_iff, require_ok_iff, ← fold]
  constructor
  · rintro ⟨_, few, n, ran, -⟩
    exact ⟨few, n, ran⟩
  · rintro ⟨few, n, ran⟩
    exact ⟨(), few, n, ran, rfl⟩

/-! ## Validation -/

section Validate

variable {s t : Spec} (same : s.order = t.order)

include same

/-- Pipelines with the same maps have the same jobs, each with the same maps. -/
theorem jobs_congr (id : String) :
    (s.jobs.get? id).map Job.order = (t.jobs.get? id).map Job.order := by
  have jobs : (s.jobs.map fun _ => Job.order).order = (t.jobs.map fun _ => Job.order).order :=
    congrArg Spec.jobs same
  have held := get?_of_order jobs id
  rwa [get?_map, get?_map] at held

theorem job_of_same {id : String} (held : t.jobs.get? id = some j) :
    ∃ j', s.jobs.get? id = some j' ∧ j'.order = j.order := by
  have both := jobs_congr same id
  rw [held, Option.map_some] at both
  exact Option.map_eq_some_iff.mp both

theorem isSome_jobs (id : String) : (s.jobs.get? id).isSome = (t.jobs.get? id).isSome := by
  rw [← Option.isSome_map, jobs_congr same, Option.isSome_map]

omit same in
theorem matrix_congr (job : j.order = j'.order) (k : String) :
    j.matrix.get? k = j'.matrix.get? k :=
  get?_of_order (congrArg Job.matrix job) k

omit same in
theorem Job.Fits.congr (job : j.order = j'.order) (fits : j.Fits) : j'.Fits := by
  have shards : j.shards = j'.shards := (congrArg Job.shards job :)
  have rows := (rows_perm (matrix_congr job)).length_eq
  rw [Job.Fits, rows, matrixComboCount_congr (matrix_congr job), shards] at fits
  exact fits

omit same in
theorem expandedCount_order (j : Job) : expandedCount j.order = expandedCount j := by
  have sizes := ((rows_perm (get?_order j.matrix)).map fun e => max 1 e.2.length).prod_eq
  exact congrArg (· * shardCount j) sizes

theorem validateLimits_congr (ran : validateLimits s = .ok ()) : validateLimits t = .ok () := by
  obtain ⟨few, fits, sum⟩ := validateLimits_ok_iff.mp ran
  have costs := sum_ext_map (f := fun _ => expandedCount) (g := fun _ => Job.order) (jobs_congr same)
  have mapped : ∀ k, (s.jobs.map fun _ => Job.order).get? k =
      (t.jobs.map fun _ => Job.order).get? k := by
    intro k
    rw [get?_map, get?_map, jobs_congr same]
  have length (jobs : Table String Job) :
      (jobs.map fun _ => Job.order).rows.length = jobs.rows.length := length_map ..
  have count := (rows_perm mapped).length_eq
  rw [length, length] at count
  refine validateLimits_ok_iff.mpr ⟨count ▸ few, fun id j held => ?_, ?_⟩
  · obtain ⟨j', there, job⟩ := job_of_same same held
    exact (fits id j' there).congr job
  · simp only [expandedCount_order] at costs
    rwa [← costs]

theorem validateNeeds_congr (id : String) (needs seen : List String) :
    validateNeeds s id needs seen = validateNeeds t id needs seen := by
  induction needs generalizing seen with
  | nil => rfl
  | cons dep rest ih => simp only [validateNeeds, isSome_jobs same dep, ih]

theorem validateEntry_congr (maps : rules.MapsOnly) {id : String}
    (job : j.order = j'.order) (ran : validateEntry rules s id j = .ok ()) :
    validateEntry rules t id j' = .ok () := by
  have needs : j.needs = j'.needs := (congrArg Job.needs job :)
  have generate : j.generate = j'.generate := (congrArg Job.generate job :)
  have shards : j.shards = j'.shards := (congrArg Job.shards job :)
  have steps : j.steps.map Step.order = j'.steps.map Step.order := (congrArg Job.steps job :)
  have matrix := sorted_congr (matrix_congr job)
  simp only [validateEntry, validateJob, validateMatrix, bind_ok_iff, require_ok_iff] at ran ⊢
  obtain ⟨_, named, _, given, _, known, _, fields, _, dims, _, limits, _, positive, reserved⟩ := ran
  rw [needs, validateNeeds_congr same] at known
  rw [matrix] at dims
  rw [generate] at limits
  rw [shards] at positive
  rw [shards, matrix_congr job] at reserved
  refine ⟨(), named, (), fun none => given ?_, (), known, (), maps.job s t id j j' same job fields,
    (), dims, (), limits, (), positive, reserved⟩
  rw [none, map_nil] at steps
  exact map_eq_nil_iff.mp steps

theorem findCycle_congr : findCycle s.jobs = findCycle t.jobs := by
  have needs : needsOf s.jobs = needsOf t.jobs := by
    funext id
    have both := congrArg (fun j => (j.map Job.needs).getD []) (jobs_congr same id)
    simp only [Option.map_map] at both
    exact both
  rw [findCycle, findCycle, needs, keys_congr (isSome_jobs same)]

theorem validate_congr (maps : rules.MapsOnly) (ran : validate rules s = .ok ()) :
    validate rules t = .ok () := by
  simp only [validate, bind_ok_iff, require_ok_iff] at ran ⊢
  obtain ⟨_, limits, _, spec, _, each, acyclic⟩ := ran
  refine ⟨(), validateLimits_congr same limits, (), maps.spec s t same spec, (),
    forM_ok_iff.mpr fun e member => ?_, findCycle_congr same ▸ acyclic⟩
  obtain ⟨j, held, job⟩ := job_of_same same (mem_rows_iff.mp member)
  exact validateEntry_congr same maps job
    (forM_ok_iff.mp each ⟨e.1, j⟩ (mem_rows_iff.mpr held))

end Validate

/-! ## The graph -/

theorem matrixCombinations_congr {m : Table String (List MatrixValue)}
    (same : ∀ k, m.get? k = m'.get? k) : matrixCombinations m = matrixCombinations m' := by
  unfold matrixCombinations
  rw [← isEmpty_sorted, ← isEmpty_sorted, sorted_congr same]

/-- The variants of jobs with the same maps, one by one. -/
theorem variants_same (job : j.order = j'.order) (id : String) :
    List.Forall₂ Variant.Same (variants id j) (variants id j') := by
  have shards : j.shards = j'.shards := (congrArg Job.shards job :)
  have shape : variants id j' = (variants id j).map fun v => { v with job := j' } := by
    simp only [variants, matrixCombinations_congr (matrix_congr job), shards, map_flatMap,
      map_map]
    rfl
  rw [shape, forall₂_map_right_iff, forall₂_same]
  intro v member
  refine ⟨rfl, rfl, rfl, ?_⟩
  rw [(mem_variants member).2.1, job]

theorem map_id_same {vs : List Variant} (each : List.Forall₂ Variant.Same vs vs') :
    vs.map Variant.id = vs'.map Variant.id := by
  induction each with
  | nil => rfl
  | cons first _ ih => rw [map_cons, map_cons, first.id, ih]

theorem expanded_congr {s t : Spec} (same : s.order = t.order) (each : s.Yields compiled)
    (each' : t.Yields compiled') (base : String) :
    expanded compiled base = expanded compiled' base := by
  have none {s : Spec} (absent : s.jobs.get? base = none) :
      (expansion s).filter (fun v => v.base = base) = [] := by
    refine filter_eq_nil_iff.mpr fun v member => ?_
    obtain ⟨id, j, held, there⟩ := mem_expansion.mp member
    rw [(mem_variants there).1, decide_eq_true_eq]
    rintro rfl
    rw [absent] at held
    cases held
  rw [expanded_eq_filter each, expanded_eq_filter each']
  cases held : t.jobs.get? base with
  | none =>
    have absent : s.jobs.get? base = .none := by
      rw [← Option.not_isSome_iff_eq_none, isSome_jobs same, held]
      simp
    rw [none absent, none held]
  | some j =>
    obtain ⟨j', there, job⟩ := job_of_same same held
    rw [filter_expansion there, filter_expansion held, map_id_same (variants_same job base)]

/-- The variants with an identifier are variants of one declared job. -/
theorem filter_id (valid : s.Valid) {id : String}
    (held : s.jobs.get? id = some j) (member : v ∈ variants id j) :
    (expansion s).filter (fun w => w.id = v.id) = (variants id j).filter fun w => w.id = v.id := by
  rw [← filter_expansion held, filter_filter]
  refine filter_congr fun w there => ?_
  by_cases same : w.id = v.id
  · obtain ⟨id', j', held', in'⟩ := mem_expansion.mp there
    have bases : w.base = id := by
      rw [Variant.id, Variant.id, (mem_variants in').1, (mem_variants member).1] at same
      rw [(mem_variants in').1]
      exact (split_id (valid.ids id' j' held') (valid.ids id j held) same).1
    simp [same, bases]
  · simp [same]

/-- What a successful compilation went through. -/
structure Compiles (host : Expr.Host) (rules : FieldRules) (s : Spec)
    (inputs : Option (Table String String)) (compiled : List CompiledJob) : Prop where
  validated : validate rules s = .ok ()
  checked : checkProvided inputs = .ok ()
  each : (expansion s).mapM (compileVariant host rules s inputs) = .ok compiled

theorem compileWithInputs_ok_iff : compileWithInputs host rules s inputs = .ok g ↔
      ∃ compiled, Compiles host rules s inputs compiled ∧ assemble compiled = g := by
  simp only [compileWithInputs, bind_ok_iff, pure_ok_iff]
  constructor
  · rintro ⟨_, validated, _, checked, compiled, each, shape⟩
    exact ⟨compiled, ⟨validated, checked, each⟩, shape⟩
  · rintro ⟨compiled, ⟨validated, checked, each⟩, shape⟩
    exact ⟨(), validated, (), checked, compiled, each, shape⟩

/-- The compiled jobs with an identifier come from the variants with it. -/
theorem Compiles.filter_id (done : Compiles host rules s inputs compiled) (key : String) :
    List.Forall₂ (fun v cj => compileVariant host rules s inputs v = .ok cj)
      ((expansion s).filter fun v => v.id = key) (compiled.filter fun cj => cj.id = key) := by
  refine rel_filter (p := fun v => decide (v.id = key)) (fun v cj ran => ?_) (mapM_ok done.each)
  simp [(compileVariant_ok ran).id]

section Graph

variable {host : Expr.Host} {rules : FieldRules} (maps : rules.MapsOnly) {s t : Spec}
  (same : s.order = t.order) {inputs inputs' : Option (Table String String)}
  (given : SameInputs inputs inputs')

include maps same given

theorem Compiles.congr (done : Compiles host rules s inputs compiled) :
    ∃ compiled', Compiles host rules t inputs' compiled' := by
  have checked : checkProvided inputs' = .ok () := by
    have checked := done.checked
    cases inputs <;> cases inputs' <;> first | exact checked | cases given | skip
    rename_i x y
    have names : inputNames y = inputNames x :=
      keys_congr fun k => by rw [get?_of_order (Option.some.inj given)]
    rw [checkProvided, names]
    exact checked
  have total : ∀ v ∈ expansion t, ∃ cj, compileVariant host rules t inputs' v = .ok cj := by
    intro v member
    obtain ⟨id, j, held, there⟩ := mem_expansion.mp member
    obtain ⟨j', held', job⟩ := job_of_same same held
    obtain ⟨w, member', alike⟩ := forall₂_mem_right (variants_same job id) there
    obtain ⟨cj, -, ran⟩ :=
      forall₂_mem_left (mapM_ok done.each) (mem_expansion.mpr ⟨id, j', held', member'⟩)
    obtain ⟨cj', ran', -⟩ := compileVariant_congr maps same given done.checked alike ran
    exact ⟨cj', ran'⟩
  obtain ⟨compiled', ran⟩ := mapM_total total
  exact ⟨compiled', validate_congr same maps done.validated, checked, ran⟩

/-- Compiled jobs of variants with the same maps have the same maps. -/
theorem map_order_compiled (checked : checkProvided inputs = .ok ())
    (alike : List.Forall₂ Variant.Same vs vs')
    (left : List.Forall₂ (fun v cj => compileVariant host rules s inputs v = .ok cj) vs cs)
    (right : List.Forall₂ (fun v cj => compileVariant host rules t inputs' v = .ok cj) vs' cs') :
    cs.map CompiledJob.order = cs'.map CompiledJob.order := by
  induction alike generalizing cs cs' with
  | nil =>
    cases left
    cases right
    rfl
  | cons first _ ih =>
    cases left with
    | cons ran rest =>
      cases right with
      | cons ran' rest' =>
        obtain ⟨cj', done, order⟩ := compileVariant_congr maps same given checked first ran
        rw [ran'] at done
        rw [map_cons, map_cons, ih rest rest', order, Except.ok.inj done]

/-- What two compilations put under an identifier has the same maps. -/
theorem filter_id_congr {compiled' : List CompiledJob}
    (done : Compiles host rules s inputs compiled) (done' : Compiles host rules t inputs' compiled')
    (key : String) : (compiled.filter fun cj => cj.id = key).map CompiledJob.order =
      (compiled'.filter fun cj => cj.id = key).map CompiledJob.order := by
  refine map_order_compiled maps same given done.checked ?_ (done.filter_id key)
    (done'.filter_id key)
  by_cases found : ∃ v ∈ expansion s, v.id = key
  · obtain ⟨v, member, rfl⟩ := found
    obtain ⟨id, j, held, there⟩ := mem_expansion.mp member
    obtain ⟨j', held', job⟩ := job_of_same same.symm held
    have each := variants_same job.symm id
    obtain ⟨v', there', alike⟩ := forall₂_mem_left each there
    rw [filter_id (validate_ok done.validated) held there, alike.id,
      filter_id (validate_ok done'.validated) held' there']
    refine rel_filter (fun w w' own => ?_) each
    simp [own.id]
  · have none : (expansion s).filter (fun v => v.id = key) = [] :=
      filter_eq_nil_iff.mpr fun v member id =>
        found ⟨v, member, of_decide_eq_true id⟩
    have none' : (expansion t).filter (fun v => v.id = key) = [] := by
      refine filter_eq_nil_iff.mpr fun v member id => found ?_
      obtain ⟨base, j, held, there⟩ := mem_expansion.mp member
      obtain ⟨j', held', job⟩ := job_of_same same held
      obtain ⟨w, member', alike⟩ := forall₂_mem_right (variants_same job base) there
      exact ⟨w, mem_expansion.mpr ⟨base, j', held', member'⟩, alike.id.trans (of_decide_eq_true id)⟩
    rw [none, none']
    exact .nil

/-- Pipelines with the same maps and inputs compile to graphs with the same jobs. -/
theorem compile_order (ran : compileWithInputs host rules s inputs = .ok g) :
    ∃ g', compileWithInputs host rules t inputs' = .ok g' ∧ ∀ key,
      (g.jobs.get? key).map CompiledJob.order = (g'.jobs.get? key).map CompiledJob.order := by
  obtain ⟨compiled, done, rfl⟩ := compileWithInputs_ok_iff.mp ran
  obtain ⟨compiled', done'⟩ := done.congr maps same given
  refine ⟨assemble compiled', compileWithInputs_ok_iff.mpr ⟨compiled', done', rfl⟩, fun key => ?_⟩
  have last (cs : List CompiledJob) : (assemble cs).jobs.get? key =
      (cs.filter fun cj => cj.id = key).getLast?.map fun cj =>
        { cj with needs := cj.job.needs.flatMap (expanded cs) } := by
    rw [assemble, get?_map, foldl_put_id, get?_foldl_put_last, get?_empty,
      Option.or_none, filter_map, getLast?_map, Option.map_map, Option.map_map]
    rfl
  have of {s : Spec} {inputs : Option (Table String String)} {cs : List CompiledJob}
      (done : Compiles host rules s inputs cs) : s.Yields cs :=
    (mapM_ok done.each).imp fun _ _ => compileVariant_ok
  have needs : expanded compiled = expanded compiled' :=
    funext fun base => expanded_congr same (of done) (of done') base
  have lasts := congrArg getLast? (filter_id_congr maps same given done done' key)
  rw [getLast?_map, getLast?_map] at lasts
  have through (o : Option CompiledJob) : (o.map fun cj =>
        { cj with needs := cj.job.needs.flatMap (expanded compiled') }).map CompiledJob.order =
      (o.map CompiledJob.order).map fun cj =>
        { cj with needs := cj.job.needs.flatMap (expanded compiled') } := by
    cases o <;> rfl
  rw [last, last, needs, through, through, lasts]

end Graph

/-!
What the canonical form of a pipeline pins.

`Job.uncovered` is what `canonicalJob` leaves out of a job, or has only as JSON: the
job's concurrency group, the matrices of its steps, its bound toolchains, and the values
of its matrix, of which the JSON does not tell a float from an integer.  The canonical
form and these together give the job back (`restore_norm`), so pipelines with the same
canonical form that agree in them, in the secrets and in the provided inputs compile to
the same jobs.
-/

/-- What the canonical form of a job does not pin. -/
structure Uncovered where
  matrix : Table String (List MatrixValue)
  concurrency : Option Concurrency
  steps : List (Table String (List MatrixValue))
  canary : List (Table String (List MatrixValue))
  verify : List (Table String (List MatrixValue))
  rollback : List (Table String (List MatrixValue))
  boundToolchains : List Toolchain

def stepMatrices (steps : List Step) : List (Table String (List MatrixValue)) :=
  steps.map fun s => s.matrix.order

/-- The part of a job that its canonical form does not pin. -/
def Job.uncovered (j : Job) : Uncovered where
  matrix := j.matrix.order
  concurrency := j.concurrency
  steps := stepMatrices j.steps
  canary := stepMatrices j.deployment.canary
  verify := stepMatrices j.deployment.verify
  rollback := stepMatrices j.deployment.rollback
  boundToolchains := j.boundToolchains

/-- Steps with their matrices put back. -/
def restoreSteps (steps : List Step) (matrices : List (Table String (List MatrixValue))) :
    List Step :=
  List.zipWith (fun s m => { s with matrix := m }) steps matrices

/-- A job with the part its canonical form does not pin put back. -/
def restore (j : Job) (u : Uncovered) : Job :=
  { j with
    matrix := u.matrix
    concurrency := u.concurrency
    steps := restoreSteps j.steps u.steps
    deployment :=
      { canary := restoreSteps j.deployment.canary u.canary
        verify := restoreSteps j.deployment.verify u.verify
        rollback := restoreSteps j.deployment.rollback u.rollback }
    boundToolchains := u.boundToolchains }

theorem restoreSteps_norm (steps : List Step) :
    restoreSteps (steps.map canonicalStep.norm) (stepMatrices steps) = steps.map Step.order := by
  rw [restoreSteps, stepMatrices, List.zipWith_map, List.zipWith_self]
  rfl

theorem restore_norm (j : Job) : restore (canonicalJob.norm j) j.uncovered = j.order := by
  have steps := restoreSteps_norm j.steps
  have canary := restoreSteps_norm j.deployment.canary
  have verify := restoreSteps_norm j.deployment.verify
  have rollback := restoreSteps_norm j.deployment.rollback
  have shape : restore (canonicalJob.norm j) j.uncovered =
      { j.order with
        steps := restoreSteps (j.steps.map canonicalStep.norm) (stepMatrices j.steps)
        deployment :=
          { canary := restoreSteps (j.deployment.canary.map canonicalStep.norm)
              (stepMatrices j.deployment.canary)
            verify := restoreSteps (j.deployment.verify.map canonicalStep.norm)
              (stepMatrices j.deployment.verify)
            rollback := restoreSteps (j.deployment.rollback.map canonicalStep.norm)
              (stepMatrices j.deployment.rollback) } } := rfl
  rw [shape, steps, canary, verify, rollback]
  rfl

/-- Two pipelines agree in what the canonical form does not pin. -/
structure Agree (s t : Spec) : Prop where
  inputs : s.providedInputs.map Table.order = t.providedInputs.map Table.order
  secrets : s.secrets = t.secrets
  jobs : ∀ id j j', s.jobs.get? id = some j → t.jobs.get? id = some j' → j.uncovered = j'.uncovered

/-- The canonical form and what it leaves out give the pipeline, up to the order of its
maps. -/
theorem order_of_canonicalJSON (same : canonicalJSON s = canonicalJSON t)
    (agree : Agree s t) : s.order = t.order := by
  have norms := canonicalSpec.pins s t (Json.render_injective same)
  have jobs : (s.jobs.map fun _ => Job.order).order = (t.jobs.map fun _ => Job.order).order := by
    refine order_congr fun id => ?_
    rw [get?_map, get?_map]
    have pinned : (s.jobs.map fun _ => canonicalJob.norm).order =
        (t.jobs.map fun _ => canonicalJob.norm).order := congrArg Spec.jobs norms
    have held := get?_of_order pinned id
    rw [get?_map, get?_map] at held
    cases here : s.jobs.get? id with
    | none =>
      rw [here] at held
      rw [Option.map_eq_none_iff.mp held.symm]
    | some j =>
      rw [here] at held
      obtain ⟨j', there, job⟩ := Option.map_eq_some_iff.mp held.symm
      rw [there, Option.map_some, Option.map_some, ← restore_norm j, ← restore_norm j', job,
        agree.jobs id j j' here there]
  have shape (s : Spec) : s.order = { canonicalSpec.norm s with
      secrets := s.secrets
      jobs := (s.jobs.map fun _ => Job.order).order
      providedInputs := s.providedInputs.map order } := rfl
  rw [shape s, shape t, norms, agree.secrets, jobs, agree.inputs]

/-- Pipelines with the same canonical form that agree in what it leaves out compile
alike: both or neither, to the same jobs. -/
theorem canonical_form_pins_compilation {host : Expr.Host} {rules : FieldRules}
    (maps : rules.MapsOnly) {s t : Spec} (same : canonicalJSON s = canonicalJSON t)
    (agree : Agree s t) :
    (compile host rules s).isOk = (compile host rules t).isOk ∧
      ∀ g g', compile host rules s = .ok g → compile host rules t = .ok g' → ∀ key,
        (g.jobs.get? key).map CompiledJob.order = (g'.jobs.get? key).map CompiledJob.order := by
  have order := order_of_canonicalJSON same agree
  have forth {g : Graph} (ran : compile host rules s = .ok g) :=
    compile_order maps order agree.inputs ran
  have back {g : Graph} (ran : compile host rules t = .ok g) :=
    compile_order maps order.symm agree.inputs.symm ran
  constructor
  · cases left : compile host rules s with
    | ok g =>
      obtain ⟨g', ran, -⟩ := forth left
      rw [show compile host rules t = .ok g' from ran]
      rfl
    | error e =>
      cases right : compile host rules t with
      | error e' => rfl
      | ok g' =>
        obtain ⟨g, ran, -⟩ := back right
        rw [show compile host rules s = .ok g from ran] at left
        cases left
  · intro g g' left right key
    obtain ⟨g'', ran, each⟩ := forth left
    rw [show compile host rules t = .ok g'' from ran] at right
    rw [← Except.ok.inj right]
    exact each key

/-! ## Two pipelines -/

/-- A pipeline with one job with the given environment. -/
def envSpec (env : Table String String) : Spec where
  jobs := Table.empty.put "greet" { steps := [{ run := "make" }], env := env }

/-- Two variables declared in either order. -/
theorem declared_order_pinned :
    canonicalJSON (envSpec ((Table.empty.put "A" "1").put "B" "2")) =
        canonicalJSON (envSpec ((Table.empty.put "B" "2").put "A" "1")) ∧
      (compile idleHost openRules (envSpec ((Table.empty.put "A" "1").put "B" "2"))).isOk =
        (compile idleHost openRules (envSpec ((Table.empty.put "B" "2").put "A" "1"))).isOk := by
  have same : canonicalJSON (envSpec ((Table.empty.put "A" "1").put "B" "2")) =
      canonicalJSON (envSpec ((Table.empty.put "B" "2").put "A" "1")) := by
    decide +kernel
  have open_ : openRules.MapsOnly :=
    ⟨fun _ _ _ _ => rfl, fun _ _ _ _ _ _ _ _ => rfl, fun _ _ _ _ => rfl⟩
  refine ⟨same, (canonical_form_pins_compilation open_ same ⟨rfl, rfl, ?_⟩).1⟩
  intro id j j' held held'
  have one {env : Table String String} {j : Job} (held : (envSpec env).jobs.get? id = some j) :
      j = { steps := [{ run := "make" }], env := env } := by
    rw [envSpec, get?_put] at held
    split at held
    · exact (Option.some.inj held).symm
    · cases held
  rw [one held, one held']
  rfl

/-- A pipeline that reads an input compiles as it is written, and does not once it was
resolved without that input; the canonical form is the same. -/
theorem resolved_input_not_pinned : ∃ t,
    resolveInputs idleHost (commandSpec "echo $\x7b\x7b inputs.who \x7d\x7d") (some .empty) = .ok t ∧
      canonicalJSON (commandSpec "echo $\x7b\x7b inputs.who \x7d\x7d") = canonicalJSON t ∧
      (compile idleHost openRules (commandSpec "echo $\x7b\x7b inputs.who \x7d\x7d")).isOk = true ∧
      (compile idleHost openRules t).isOk = false := by
  have resolved : resolveInputs idleHost (commandSpec "echo $\x7b\x7b inputs.who \x7d\x7d")
      (some .empty) = .ok { commandSpec "echo $\x7b\x7b inputs.who \x7d\x7d" with
        providedInputs := some .empty } := rfl
  refine ⟨_, resolved, ?_, by decide +kernel, by decide +kernel⟩
  refine congrArg Json.render (encode_congr ?_)
  simp only [canonicalSpecMembers, List.forall_mem_cons]
  exact ⟨rfl, rfl, rfl, rfl, rfl, rfl, rfl, rfl, rfl, rfl, rfl, rfl, rfl, fun _ none => by cases none⟩

/-! ## The expansion limit -/

theorem length_assemble_le (compiled : List CompiledJob) :
    (assemble compiled).jobs.rows.length ≤ compiled.length := by
  have ids : (assemble compiled).jobs.rows.keys ⊆ compiled.map CompiledJob.id := by
    intro cid member
    obtain ⟨e, row, rfl⟩ := mem_map.mp member
    obtain ⟨source, there, same, -⟩ := get?_assemble (mem_rows_iff.mp row)
    exact mem_map.mpr ⟨source, there, same⟩
  have apart : (assemble compiled).jobs.rows.keys.Nodup := (assemble compiled).jobs.nodupKeys
  have shorter := (apart.subperm ids).length_le
  rwa [keys, length_map, length_map] at shorter

theorem length_expansion (valid : s.Valid) :
    (expansion s).length = s.jobs.sum fun _ j => expandedCount j := by
  have rows : ∀ e ∈ s.jobs.rows, (variants e.1 e.2).length = expandedCount e.2 := by
    intro e member
    have expandable := valid.expandable e.1 e.2 (mem_rows_iff.mp member)
    have sizes : ∀ d ∈ e.2.matrix.rows, d.2.length = max 1 d.2.length := by
      intro d dim
      have given := length_pos_iff.mpr (expandable.given d.1 d.2 (mem_rows_iff.mp dim))
      omega
    rw [length_variants expandable, combinationCount, map_congr_left sizes, expandedCount]
  rw [expansion, length_flatMap, map_congr_left rows]
  rfl

/-- The expansion limit is exact, in any order of the maps and with no product that wraps
around, and it bounds the compiled graph. -/
theorem expansion_limit_exact (s : Spec) :
    (validateLimits s = .ok () ↔
      s.jobs.rows.length ≤ maxDeclaredJobs ∧ (∀ id j, s.jobs.get? id = some j → j.Fits) ∧
        s.jobs.sum (fun _ j => expandedCount j) ≤ maxExpandedJobs) ∧
    (∀ t : Spec, s.order = t.order → (validateLimits t = .ok () ↔ validateLimits s = .ok ())) ∧
    (∀ (n factor : Int64), ∀ limit < 2 ^ 63 - 1,
      (saturatingMul64 n factor (Int64.ofNat limit)).toInt =
        saturatingMul n.toInt.toNat factor.toInt.toNat limit) ∧
    ∀ host rules inputs g, compileWithInputs host rules s inputs = .ok g →
      g.jobs.rows.length ≤ maxExpandedJobs := by
  refine ⟨validateLimits_ok_iff, fun t same => ?_, fun n factor limit room => ?_, ?_⟩
  · exact ⟨validateLimits_congr same.symm, validateLimits_congr same⟩
  · exact saturatingMul64_exact n factor room
  · intro host rules inputs g ran
    have accepted : validateLimits s = .ok () := by
      simp only [compileWithInputs, validate, bind_ok_iff] at ran
      obtain ⟨_, ⟨_, limits, -⟩, -⟩ := ran
      exact limits
    obtain ⟨valid, compiled, each, rfl⟩ := compileWithInputs_ok ran
    have within := (validateLimits_ok_iff.mp accepted).2.2
    rw [← length_expansion valid, each.length_eq] at within
    exact (length_assemble_le compiled).trans within

/-- One job over five values and a dimension without any, in 1024 shards. -/
def hollowSpec : Spec where
  jobs :=
    Table.empty.put "test"
      { matrix := (Table.empty.put "go" (replicate 5 (.int 1))).put "os" []
        shards := 1024 }

/-- The product of its dimension sizes is zero, and it is refused for its job count. -/
theorem hollow_dimension_counted :
    hollowSpec.jobs.sum (fun _ j => combinationCount j * shardCount j) ≤ maxExpandedJobs ∧
      validateLimits hollowSpec = .error "pipeline expands to 4097 jobs, limit is 4096" := by
  refine ⟨by decide +kernel, ?_⟩
  decide +kernel

end KiwiCI.Pipeline
