import KiwiCI.Pipeline.Compile

/-!
Matrix and shard expansion keeps every variant of every job.

`expandDims` is the expansion as a product of dimensions, of which the matrix and
the shard index are instances: it has one table per choice of values, and the
tables are pairwise different exactly when every dimension's values are.  With the
identifiers of the previous module this decides when a compiled graph is `Lossless`:
exactly when the pipeline is `Distinguishable`, that is when no dimension prints two
values alike and no two variants share a raw rendering that is too long to be
written out.
-/

namespace KiwiCI.Pipeline

open List Table

variable {names : List String} {t t' : Table String String} {dim : String}
  {out : List (Table String String)} {v : Variant}

/-! ## Products of dimensions -/

/-- One table per choice of a value in every dimension. -/
def expandDims (dims : List (String × List String)) : List (Table String String) :=
  dims.foldl (fun out dim => addDimension out dim.1 dim.2) [.empty]

/-- A table that has exactly the given keys, in reverse order of insertion. -/
def Spans (names : List String) (t : Table String String) : Prop := t.rows.keys = names.reverse

theorem Spans.get?_isSome (spans : Spans names t)
    (k : String) : (t.get? k).isSome = decide (k ∈ names) := by
  have lookup : (t.get? k).isSome ↔ k ∈ t.rows.keys := AList.lookup_isSome
  rw [spans, mem_reverse] at lookup
  by_cases member : k ∈ names
  · simp [member, lookup.mpr member]
  · simp [member, mt lookup.mp member]

theorem Spans.put (spans : Spans names t) (fresh : dim ∉ names) (v : String) : Spans
    (names ++ [dim]) (t.put dim v) := by
  have absent : t.get? dim = none := by
    rw [← Option.not_isSome_iff_eq_none, spans.get?_isSome]
    simp [fresh]
  rw [Spans, rows_put_of_absent absent, keys_cons, spans, reverse_append]
  rfl

theorem spans_addDimension
    (spans : ∀ t ∈ out, Spans names t) (fresh : dim ∉ names) (values : List String) :
    ∀ t ∈ addDimension out dim values, Spans (names ++ [dim]) t := by
  intro t member
  obtain ⟨base, there, v, -, rfl⟩ : ∃ base ∈ out, ∃ v ∈ values, base.put dim v = t := by
    simpa [addDimension] using member
  exact (spans base there).put fresh v

/-- Adding a value to a table without the dimension can be undone. -/
theorem put_fresh_inj {v v' : String}
    (spans : Spans names t) (spans' : Spans names t') (fresh : dim ∉ names)
    (same : t.put dim v = t'.put dim v') : t = t' ∧ v = v' := by
  have absent {t : Table String String} (spans : Spans names t) : t.get? dim = none := by
    rw [← Option.not_isSome_iff_eq_none, spans.get?_isSome]
    simp [fresh]
  have rows := congrArg rows same
  rw [rows_put_of_absent (absent spans), rows_put_of_absent (absent spans')] at rows
  obtain ⟨head, tail⟩ := cons.inj rows
  exact ⟨rows_injective tail, eq_of_heq (Sigma.mk.inj head).2⟩

theorem length_addDimension (out : List (Table String String)) (dim : String)
    (values : List String) : (addDimension out dim values).length = out.length * values.length := by
  simp [addDimension, length_flatMap]

/-- One more dimension keeps the tables apart exactly when its values are apart. -/
theorem nodup_addDimension_iff (spans : ∀ t ∈ out, Spans names t) (fresh : dim ∉ names)
    (nonempty : out ≠ []) (given : values ≠ []) :
    (addDimension out dim values).Nodup ↔ out.Nodup ∧ values.Nodup := by
  have put_inj : ∀ t ∈ out, ∀ t' ∈ out, ∀ v v', t.put dim v = t'.put dim v' → t = t' ∧ v = v' :=
    fun t member t' member' v v' => put_fresh_inj (spans t member) (spans t' member') fresh
  constructor
  · intro nodup
    obtain ⟨rows, apart⟩ := nodup_flatMap.mp nodup
    obtain ⟨t, rest, rfl⟩ := exists_cons_of_ne_nil nonempty
    obtain ⟨v, more, rfl⟩ := exists_cons_of_ne_nil given
    refine ⟨?_, (rows t (by simp)).of_map⟩
    refine apart.imp fun {a b} disjoint same => ?_
    subst same
    exact disjoint (a := a.put dim v) (by simp) (by simp)
  · rintro ⟨tables, apart⟩
    refine nodup_flatMap.mpr ⟨fun t member => ?_, ?_⟩
    · exact apart.map_on fun v _ v' _ same => (put_inj t member t member v v' same).2
    · refine tables.pairwise_of_forall_ne fun t member t' member' differ => ?_
      intro u left right
      obtain ⟨v, -, rfl⟩ := mem_map.mp left
      obtain ⟨v', -, same⟩ := mem_map.mp right
      exact differ (put_inj t member t' member' v v' same.symm).1

/-- What adding dimensions one after the other does to a list of tables. -/
structure Expands (names : List String) (dims : List (String × List String))
    (out result : List (Table String String)) : Prop where
  spans : ∀ t ∈ result, Spans (names ++ dims.map Prod.fst) t
  nonempty : result ≠ []
  length : result.length = out.length * (dims.map fun dim => dim.2.length).prod
  nodup : result.Nodup ↔ out.Nodup ∧ ∀ dim ∈ dims, dim.2.Nodup

/-- The expansion of dimensions with different names and at least one value each. -/
theorem foldl_addDimension (spans : ∀ t ∈ out, Spans names t) (nonempty : out ≠ [])
    (apart : (names ++ dims.map Prod.fst).Nodup) (given : ∀ dim ∈ dims, dim.2 ≠ []) :
    Expands names dims out (dims.foldl (fun out dim => addDimension out dim.1 dim.2) out) := by
  induction dims generalizing names out with
  | nil => exact ⟨by simpa using spans, nonempty, by simp, by simp⟩
  | cons dim rest ih =>
    have fresh : dim.1 ∉ names := fun member =>
      (disjoint_of_nodup_append apart) member (by simp)
    have nonempty' : addDimension out dim.1 dim.2 ≠ [] := by
      intro empty
      have := length_addDimension out dim.1 dim.2
      rw [empty, length_nil] at this
      rcases Nat.mul_eq_zero.mp this.symm with none | none
      · exact nonempty (length_eq_zero_iff.mp none)
      · exact given dim (by simp) (length_eq_zero_iff.mp none)
    have apart' : ((names ++ [dim.1]) ++ rest.map Prod.fst).Nodup := by simpa using apart
    have step := ih (spans_addDimension spans fresh dim.2) nonempty' apart'
      fun d member => given d (mem_cons_of_mem _ member)
    refine ⟨?_, step.nonempty, ?_, ?_⟩
    · simpa using step.spans
    · rw [foldl_cons, step.length, length_addDimension, map_cons, prod_cons, mul_assoc]
    · rw [foldl_cons, step.nodup,
        nodup_addDimension_iff spans fresh nonempty (given dim (by simp)), and_assoc,
        forall_mem_cons]

/-! ## The dimensions of a job -/

/-- The matrix dimensions, in order, with their values as they are printed. -/
def matrixDims (j : Job) : List (String × List String) :=
  j.matrix.sorted.map fun dim => (dim.1, dim.2.map MatrixValue.sprint)

/-- The shard index as a dimension. -/
def shardDims (j : Job) : List (String × List String) :=
  if j.shards ≤ 1 then [] else [("test_shard", (List.range j.shards.toNat).map toString)]

/-- What validation guarantees of a job's matrix and shards. -/
structure Job.Expandable (j : Job) : Prop where
  names : ∀ dim vals, j.matrix.get? dim = some vals → matrixNameRegexp dim = true
  given : ∀ dim vals, j.matrix.get? dim = some vals → vals ≠ []
  reserved : 0 < j.shards → j.matrix.get? "test_shard" = none

theorem isIdentPart_of_mem_toDigits (member : c ∈ Nat.toDigits 10 n) :
    Expr.isIdentPart c = true := by
  have digit := Nat.isDigit_of_mem_toDigits (by decide) (by decide) member
  simp only [Char.isDigit, Bool.and_eq_true, decide_eq_true_eq] at digit
  simp only [Expr.isIdentPart, Expr.isDigit, Bool.or_eq_true, Bool.and_eq_true, decide_eq_true_eq]
  exact .inl (.inr digit)

theorem encodeValue_toString (n : Nat) : encodeValue (toString n) = Nat.toDigits 10 n := by
  have safe : matrixValueSafe (toString n) = true := by
    refine all_eq_true.mpr fun c member => ?_
    rw [Text.toList_toString] at member
    rw [isIdentPart_of_mem_toDigits member, Bool.true_or]
  rw [encodeValue, if_pos safe, Text.toList_toString]

theorem map_fst_matrixDims (j : Job) :
    (matrixDims j).map Prod.fst = j.matrix.select fun _ _ => true := by
  rw [matrixDims, map_map, ← map_fst_sorted]
  rfl

theorem mem_matrixDims {j : Job} {dim : String × List String} (member : dim ∈ matrixDims j) :
    ∃ vals, j.matrix.get? dim.1 = some vals ∧ dim.2 = vals.map MatrixValue.sprint := by
  obtain ⟨⟨name, vals⟩, there, rfl⟩ := mem_map.mp member
  exact ⟨vals, mem_sorted.mp there, rfl⟩

theorem shard_values_nodup (j : Job) : ∀ dim ∈ shardDims j, dim.2.Nodup := by
  intro dim member
  unfold shardDims at member
  split at member
  · cases member
  · obtain rfl := mem_singleton.mp member
    exact nodup_range.map Text.toString_injective

namespace Job.Expandable

variable {j : Job} (valid : j.Expandable)
include valid

theorem dims_given : ∀ dim ∈ matrixDims j ++ shardDims j, dim.2 ≠ [] := by
  intro dim member
  rcases mem_append.mp member with there | there
  · obtain ⟨vals, held, printed⟩ := mem_matrixDims there
    rw [printed]
    simpa using valid.given dim.1 vals held
  · unfold shardDims at there
    split at there
    · cases there
    · rename_i many
      obtain rfl := mem_singleton.mp there
      simp only [ne_eq, map_eq_nil_iff, range_eq_nil]
      omega

theorem dims_apart : ((matrixDims j ++ shardDims j).map Prod.fst).Nodup := by
  rw [map_append, map_fst_matrixDims]
  refine Nodup.append (nodup_select _ _) ?_ ?_
  · unfold shardDims
    split <;> simp
  · intro k left right
    unfold shardDims at right
    split at right
    · cases right
    · obtain rfl := mem_singleton.mp right
      obtain ⟨row, held, -⟩ := mem_select.mp left
      rw [valid.reserved (by omega)] at held
      cases held

theorem dims_named : ∀ k ∈ (matrixDims j ++ shardDims j).map Prod.fst, matrixNameRegexp k = true := by
  intro k member
  rw [map_append, map_fst_matrixDims] at member
  rcases mem_append.mp member with there | there
  · obtain ⟨vals, held, -⟩ := mem_select.mp there
    exact valid.names k vals held
  · unfold shardDims at there
    split at there
    · cases there
    · obtain rfl := mem_singleton.mp there
      change matrixNameRegexp "test_shard" = true
      decide

theorem expands : Expands [] (matrixDims j ++ shardDims j) [.empty]
    (expandDims (matrixDims j ++ shardDims j)) := by
  refine foldl_addDimension (fun t member => ?_) (by simp) valid.dims_apart valid.dims_given
  obtain rfl := mem_singleton.mp member
  rfl

theorem combinations_eq :
    (if (matrixCombinations j.matrix).isEmpty then [.empty] else matrixCombinations j.matrix) =
      expandDims (matrixDims j) := by
  have product : Expands [] (matrixDims j) [.empty] (expandDims (matrixDims j)) := by
    refine foldl_addDimension (fun t member => ?_) (by simp) ?_ ?_
    · obtain rfl := mem_singleton.mp member
      rfl
    · have := valid.dims_apart
      rw [map_append] at this
      exact (nodup_append.mp this).1
    · exact fun dim member => valid.dims_given dim (mem_append_left _ member)
  by_cases empty : j.matrix.rows.isEmpty
  · have none : matrixDims j = [] := by
      have : j.matrix.select (fun _ _ => true) = [] := by
        simp only [select, isEmpty_iff.mp empty]
        rfl
      rw [matrixDims, sorted, this]
      rfl
    rw [none, matrixCombinations, if_pos empty]
    rfl
  · have combos : matrixCombinations j.matrix = expandDims (matrixDims j) := by
      rw [matrixCombinations, if_neg empty, expandDims, matrixDims, foldl_map]
      exact foldl_ext _ _ _ fun out dim member => if_neg fun none =>
        valid.given dim.1 dim.2 (mem_sorted.mp member) (length_eq_zero_iff.mp none)
    rw [combos, if_neg (by simpa using product.nonempty)]

end Job.Expandable

/-! ## Variants -/

theorem mem_variants {id : String} (member : v ∈ variants id j) :
    v.base = id ∧ v.job = j ∧ v.keys = sortedMatrixKeys v.values := by
  obtain ⟨m, -, there⟩ := mem_flatMap.mp member
  obtain ⟨values, expanded, rfl⟩ := mem_map.mp there
  refine ⟨rfl, rfl, ?_⟩
  change ((shardVariants m j.shards).head?.map sortedMatrixKeys).getD [] = sortedMatrixKeys values
  unfold shardVariants at expanded ⊢
  split at expanded
  · rename_i few
    obtain rfl := mem_singleton.mp expanded
    simp [few]
  · rename_i many
    obtain ⟨i, -, rfl⟩ := mem_map.mp expanded
    obtain ⟨n, shape⟩ := Nat.exists_eq_succ_of_ne_zero (show j.shards.toNat ≠ 0 by omega)
    rw [if_neg many, shape, range_succ_eq_map]
    refine keys_congr fun k => ?_
    rw [get?_put, get?_put]
    split <;> rfl

theorem variants_values (valid : j.Expandable) (id : String) :
    (variants id j).map Variant.values = expandDims (matrixDims j ++ shardDims j) := by
  have drop : ∀ combos : List (Table String String),
      (combos.flatMap fun m => (shardVariants m j.shards).map fun v =>
        (⟨id, j, v, ((shardVariants m j.shards).head?.map sortedMatrixKeys).getD []⟩ : Variant)).map
          Variant.values = combos.flatMap fun m => shardVariants m j.shards := by
    intro combos
    rw [map_flatMap]
    refine flatMap_congr fun m _ => ?_
    rw [map_map]
    exact map_id _
  rw [variants, valid.combinations_eq, drop, expandDims, expandDims, foldl_append]
  unfold shardVariants shardDims
  split
  · simp
  · simp [addDimension, Function.comp_def]

/-! ## Identifiers of variants -/

theorem Spans.rows_ne_nil (spans : Spans names t) (some : names ≠ []) : t.rows ≠ [] := by
  intro empty
  rw [Spans, empty] at spans
  exact some (by simpa using spans.symm)

theorem Spans.mem_keys (spans : Spans names t) :
    k ∈ sortedMatrixKeys t ↔ k ∈ names := by
  rw [sortedMatrixKeys, mem_select]
  simp [← Option.isSome_iff_exists, spans.get?_isSome]

theorem Spans.keys_eq (spans : Spans names t)
    (spans' : Spans names t') : sortedMatrixKeys t = sortedMatrixKeys t' :=
  keys_congr fun k => by rw [spans.get?_isSome, spans'.get?_isSome]

/-- Tables over the same names with the same values are equal. -/
theorem Spans.ext (spans : Spans names t) (spans' : Spans names t')
    (same : ∀ k ∈ names, (t.get? k).getD "" = (t'.get? k).getD "") : t = t' := by
  refine eq_of_keys (spans.trans spans'.symm) fun k => ?_
  have some := spans.get?_isSome k
  have some' := spans'.get?_isSome k
  by_cases member : k ∈ names
  · obtain ⟨v, held⟩ := Option.isSome_iff_exists.mp (some.trans (by simpa using member))
    obtain ⟨v', held'⟩ := Option.isSome_iff_exists.mp (some'.trans (by simpa using member))
    have := same k member
    rw [held, held', Option.getD_some, Option.getD_some] at this
    rw [held, held', this]
  · have absent : t.get? k = none := by
      rw [← Option.not_isSome_iff_eq_none, some]
      simpa using member
    have absent' : t'.get? k = none := by
      rw [← Option.not_isSome_iff_eq_none, some']
      simpa using member
    rw [absent, absent']

def Variant.rendering (v : Variant) : String := rawSuffix v.values v.keys

/-- A variant whose rendering is too long to be written out in its identifier. -/
def Variant.Long (v : Variant) : Prop := Pipeline.Long v.values v.keys

instance (v : Variant) : Decidable v.Long := inferInstanceAs (Decidable (Pipeline.Long _ _))

section

variable {id : String} {j : Job} (valid : j.Expandable)
include valid

theorem spans_variant (member : v ∈ variants id j) :
    Spans ((matrixDims j ++ shardDims j).map Prod.fst) v.values := by
  have there : v.values ∈ expandDims (matrixDims j ++ shardDims j) := by
    rw [← variants_values valid id]
    exact mem_map_of_mem member
  simpa using valid.expands.spans v.values there

/-- Variants with one identifier have the same values, or long renderings with one
hash. -/
theorem variant_id_inj (here : v ∈ variants id j) (there : w ∈ variants id j) (same : v.id = w.id) :
    v.values = w.values ∨ (v.Long ∧ suffixHash v.rendering = suffixHash w.rendering) := by
  have spans := spans_variant valid here
  have spans' := spans_variant valid there
  obtain ⟨base, -, keys⟩ := mem_variants here
  obtain ⟨base', -, keys'⟩ := mem_variants there
  have sameKeys : v.keys = w.keys := by rw [keys, keys', spans.keys_eq spans']
  by_cases none : (matrixDims j ++ shardDims j).map Prod.fst = []
  · refine .inl (spans.ext spans' fun k member => ?_)
    rw [none] at member
    cases member
  · have suffix : matrixSuffixWithKeys v.values v.keys = matrixSuffixWithKeys w.values v.keys := by
      have := congrArg String.toList same
      rw [Variant.id, Variant.id, base, base', String.toList_append, String.toList_append,
        append_cancel_left_eq] at this
      rw [String.toList_inj.mp this, sameKeys]
    have nonempty : v.keys ≠ [] := by
      obtain ⟨k, rest, shape⟩ := exists_cons_of_ne_nil none
      refine ne_nil_of_mem (a := k) ?_
      rw [keys, spans.mem_keys, shape]
      simp
    have named : ∀ k ∈ v.keys, matrixNameRegexp k = true := by
      intro k member
      rw [keys, spans.mem_keys] at member
      exact valid.dims_named k member
    rcases suffix_inj (spans.rows_ne_nil none) (spans'.rows_ne_nil none) nonempty named suffix
      with values | ⟨long, hash⟩
    · refine .inl (spans.ext spans' fun k member => values k ?_)
      rw [keys, spans.mem_keys]
      exact member
    · refine .inr ⟨long, ?_⟩
      rw [Variant.rendering, Variant.rendering, ← sameKeys]
      exact hash

omit valid in
theorem variant_ext (here : v ∈ variants id j) (there : w ∈ variants id j)
    (same : v.values = w.values) : v = w := by
  obtain ⟨base, job, keys⟩ := mem_variants here
  obtain ⟨base', job', keys'⟩ := mem_variants there
  rw [same] at keys
  cases v
  cases w
  simp_all

omit valid in
/-- Long variants with one rendering have one identifier. -/
theorem id_of_rendering (here : v ∈ variants id j) (there : w ∈ variants id j)
    (filled : v.values.rows ≠ []) (filled' : w.values.rows ≠ []) (long : v.Long)
    (same : v.rendering = w.rendering) : v.id = w.id := by
  have long' : Pipeline.Long w.values w.keys := by
    have : maxMatrixSuffixBytes < v.rendering.utf8ByteSize := long
    rw [same] at this
    exact this
  rw [Variant.id, Variant.id, suffix_of_long filled long, suffix_of_long filled' long',
    (mem_variants here).1, (mem_variants there).1]
  change id ++ ("[~" ++ suffixHash v.rendering ++ "]") = id ++ ("[~" ++ suffixHash w.rendering ++ "]")
  rw [same]

omit valid in
theorem long_filled (here : v ∈ variants id j) (long : v.Long) : v.values.rows ≠ [] := by
  intro empty
  have none : v.keys = [] := by
    rw [(mem_variants here).2.2, sortedMatrixKeys, select, empty]
    rfl
  have short : ¬ Pipeline.Long v.values v.keys := by
    rw [none, Pipeline.Long]
    change ¬ maxMatrixSuffixBytes < (String.ofList ['[', ']']).utf8ByteSize
    decide
  exact short long

/-- The identifiers of a job's variants are pairwise different exactly when every
dimension prints its values differently and long renderings are not shared. -/
theorem nodup_ids_iff (free : ∀ v ∈ variants id j, ∀ w ∈ variants id j, v.Long →
      suffixHash v.rendering = suffixHash w.rendering → v.rendering = w.rendering) :
    ((variants id j).map Variant.id).Nodup ↔
      (∀ dim ∈ matrixDims j, dim.2.Nodup) ∧
        ∀ v ∈ variants id j, ∀ w ∈ variants id j, v.Long → v.rendering = w.rendering →
          v.values = w.values := by
  have dims : (expandDims (matrixDims j ++ shardDims j)).Nodup ↔
      ∀ dim ∈ matrixDims j, dim.2.Nodup := by
    rw [valid.expands.nodup]
    constructor
    · exact fun both dim member => both.2 dim (mem_append_left _ member)
    · refine fun nodup => ⟨nodup_singleton _, fun dim member => ?_⟩
      rcases mem_append.mp member with there | there
      · exact nodup dim there
      · exact shard_values_nodup j dim there
  rw [← dims, ← variants_values valid id]
  constructor
  · intro nodup
    refine ⟨?_, fun v here w there long same => ?_⟩
    · have byValues : (variants id j).map Variant.id =
          ((variants id j).map Variant.values).map fun t =>
            id ++ matrixSuffixWithKeys t (sortedMatrixKeys t) := by
        rw [map_map]
        refine map_congr_left fun v member => ?_
        obtain ⟨base, -, keys⟩ := mem_variants member
        rw [Variant.id, base, keys]
        rfl
      rw [byValues] at nodup
      exact nodup.of_map
    · have filled' : w.values.rows ≠ [] := by
        refine long_filled there ?_
        have : maxMatrixSuffixBytes < v.rendering.utf8ByteSize := long
        rw [same] at this
        exact this
      rw [inj_on_of_nodup_map nodup here there
        (id_of_rendering here there (long_filled here long) filled' long same)]
  · rintro ⟨nodup, apart⟩
    refine (Nodup.of_map _ nodup).map_on fun v here w there same => ?_
    refine variant_ext here there ?_
    rcases variant_id_inj valid here there same with values | ⟨long, hash⟩
    · exact values
    · exact apart v here w there long (free v here w there long hash)

end

end KiwiCI.Pipeline
