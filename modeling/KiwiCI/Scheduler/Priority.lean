import KiwiCI.Lib.Machine
import KiwiCI.Pipeline.Lossless
import Mathlib.Data.List.Chain
import Mathlib.Order.Lattice.Nat

/-!
The priority of a job: `internal/scheduler/priority.go`.

`DownstreamDepths` walks the edges back from a job with a memo.  A node is entered into the
memo before its children are visited, so that every walk ends; in an acyclic graph no walk
meets an entry whose visit is not over, and the depths are those of longest chains.
-/

namespace KiwiCI.Scheduler.Priority

open Pipeline List

/-- The child index: the jobs that need `dep`, in the order the loops append them. -/
def childrenOf (rows : List (Sigma fun _ : String => CompiledJob)) (dep : String) : List String :=
  rows.flatMap fun row => (row.2.needs.filter (· = dep)).map fun _ => row.1

/-- The loop over the children of a node, with the best depth so far. -/
def bestOf (visit : String → Table String Nat → Option (Table String Nat × Nat)) :
    List String → Table String Nat → Nat → Option (Table String Nat × Nat)
  | [], memo, best => some (memo, best)
  | child :: rest, memo, best => do
    let (memo, d) ← visit child memo
    bestOf visit rest memo (if best < 1 + d then 1 + d else best)

/-- `visit`; `none` stands for a recursion deeper than the fuel. -/
def visitDepth (children : String → List String) :
    Nat → String → Table String Nat → Option (Table String Nat × Nat)
  | 0, _, _ => none
  | fuel + 1, k, memo =>
    match memo.get? k with
    | some v => some (memo, v)
    | none => do
      let (memo, best) ← bestOf (visitDepth children fuel) (children k) (memo.put k 0) 0
      some (memo.put k best, best)

/-- The loop over the requested keys. -/
def depthsOf (known : String → Bool)
    (visit : String → Table String Nat → Option (Table String Nat × Nat)) :
    List String → Table String Nat → Table String Nat → Option (Table String Nat)
  | [], _, out => some out
  | k :: keys, memo, out =>
    if known k then do
      let (memo, depth) ← visit k memo
      depthsOf known visit keys memo (out.put k depth)
    else depthsOf known visit keys memo out

/-- Every name a walk can come to: the jobs and what they need. -/
def nodesOf (rows : List (Sigma fun _ : String => CompiledJob)) : List String :=
  rows.map (·.1) ++ rows.flatMap (·.2.needs)

/-- `DownstreamDepths`, over the jobs in the order a loop visits them. -/
def downstreamDepths (rows : List (Sigma fun _ : String => CompiledJob)) (keys : List String) :
    Option (Table String Nat) :=
  let children := childrenOf rows
  depthsOf (fun k => rows.any (·.1 = k) || children k ≠ [])
    (visitDepth children ((nodesOf rows).length + 1)) keys .empty .empty

section Walk

variable {children : String → List String} {nodes : List String} {memo memo' : Table String Nat}

/-- `depth` is the length of a longest chain of children from `k`. -/
def Deepest (children : String → List String) (k : String) (depth : Nat) : Prop :=
  IsGreatest {n | ∃ chain : List String, chain.length = n ∧
    (k :: chain).IsChain fun a b => b ∈ children a} depth

/-- A node is one deeper than its deepest child. -/
theorem Deepest.of_children
    (each : ∀ child ∈ children k, ∃ d, Deepest children child d ∧ d + 1 ≤ best)
    (met : best = 0 ∨ ∃ child ∈ children k, Deepest children child (best - 1) ∧ 0 < best) :
    Deepest children k best := by
  constructor
  · rcases met with rfl | ⟨child, member, ⟨⟨chain, length, links⟩, -⟩, positive⟩
    · exact ⟨[], rfl, .singleton k⟩
    · refine ⟨child :: chain, ?_, links.cons_cons member⟩
      rw [length_cons]
      omega
  · rintro n ⟨chain, rfl, links⟩
    cases chain with
    | nil => exact Nat.zero_le best
    | cons child chain =>
      obtain ⟨edge, links⟩ := isChain_cons_cons.mp links
      obtain ⟨d, deepest, below⟩ := each child edge
      have bound := deepest.2 ⟨chain, rfl, links⟩
      rw [length_cons]
      omega

/-- Every entry of the memo is a depth, those of `above` apart. -/
def Sound (children : String → List String) (above : String → Prop) (memo : Table String Nat) :
    Prop :=
  ∀ n depth, memo.get? n = some depth → above n ∨ Deepest children n depth

theorem Sound.put {above : String → Prop} (here : above k ∨ Deepest children k best)
    (others : ∀ n, n ≠ k → ∀ d, memo.get? n = some d → above n ∨ Deepest children n d) :
    Sound children above (memo.put k best) := by
  intro n depth found
  rw [Table.get?_put] at found
  split at found <;> rename_i same
  · exact same ▸ Option.some.inj found ▸ here
  · exact others n same depth found

/-- No node comes after itself. -/
def Acyclic (children : String → List String) : Prop :=
  ∀ n, ¬ Relation.TransGen (fun a b => b ∈ children a) n n

/-- What a visit of a node gives: a memo that has grown, and where the graph is acyclic and
only nodes above it are unfinished, its depth. -/
structure Visited (children : String → List String) (k : String) (memo memo' : Table String Nat)
    (depth : Nat) : Prop where
  grows : ∀ n, (memo'.get? n).isNone → (memo.get? n).isNone
  sound : Acyclic children → ∀ above : String → Prop,
    (∀ n, above n → Relation.TransGen (fun a b => b ∈ children a) n k) →
      Sound children above memo → Sound children above memo' ∧ Deepest children k depth

/-- A loop over children whose visits end, ends. -/
theorem bestOf_spec (visits : ∀ child memo, child ∈ nodes →
      (nodes.countP fun n => (memo.get? n).isNone) < fuel → ∃ memo' depth,
        visitDepth children fuel child memo = some (memo', depth) ∧
          Visited children child memo memo' depth)
    (edges : ∀ child ∈ rest, child ∈ children k)
    (known : ∀ child ∈ rest, child ∈ nodes) (best : Nat)
    (enough : (nodes.countP fun n => (memo.get? n).isNone) < fuel) :
    ∃ memo' best', bestOf (visitDepth children fuel) rest memo best = some (memo', best') ∧
      (∀ n, (memo'.get? n).isNone → (memo.get? n).isNone) ∧ best ≤ best' ∧
      (Acyclic children → ∀ above : String → Prop,
        (∀ n, above n → Relation.ReflTransGen (fun a b => b ∈ children a) n k) →
          Sound children above memo → Sound children above memo' ∧
            (∀ child ∈ rest, ∃ d, Deepest children child d ∧ d + 1 ≤ best') ∧
            (best' = best ∨ ∃ child ∈ rest, Deepest children child (best' - 1) ∧ 0 < best')) := by
  induction rest generalizing memo best with
  | nil =>
    refine ⟨memo, best, rfl, fun _ absent => absent, le_rfl, fun _ _ _ sound => ?_⟩
    exact ⟨sound, by simp, .inl rfl⟩
  | cons child rest ih =>
    obtain ⟨edge, edgesRest⟩ := forall_mem_cons.mp edges
    obtain ⟨here, knownRest⟩ := forall_mem_cons.mp known
    obtain ⟨mid, d, ran, visited⟩ := visits child memo here enough
    have fewer := countP_mono_left (l := nodes) fun n _ => visited.grows n
    obtain ⟨memo', best', ranRest, grows, above_best, sound⟩ := ih edgesRest knownRest
      (if best < 1 + d then 1 + d else best) (fewer.trans_lt enough)
    refine ⟨memo', best', ?_, fun n absent => visited.grows n (grows n absent), ?_, ?_⟩
    · simp [bestOf, ran, ranRest]
    · split at above_best <;> omega
    · intro acyclic above reaches start
      obtain ⟨middle, deepest⟩ := visited.sound acyclic above
        (fun n member => .tail' (reaches n member) edge) start
      obtain ⟨final, each, met⟩ := sound acyclic above reaches middle
      refine ⟨final, forall_mem_cons.mpr ⟨⟨d, deepest, ?_⟩, each⟩, ?_⟩
      · split at above_best <;> omega
      · rcases met with same | ⟨other, member, deep, positive⟩
        · split at same
          · exact .inr ⟨child, mem_cons_self, by rwa [same, Nat.add_sub_cancel_left], by omega⟩
          · exact .inl same
        · exact .inr ⟨other, mem_cons_of_mem _ member, deep, positive⟩

/-- A visit with more fuel than unvisited nodes ends. -/
theorem visitDepth_spec (closed : ∀ n, ∀ child ∈ children n, child ∈ nodes) (fuel : Nat) :
    ∀ k memo, k ∈ nodes → (nodes.countP fun n => (memo.get? n).isNone) < fuel →
      ∃ memo' depth, visitDepth children fuel k memo = some (memo', depth) ∧
        Visited children k memo memo' depth := by
  induction fuel with
  | zero => exact fun _ _ _ enough => absurd enough (Nat.not_lt_zero _)
  | succ fuel ih =>
    intro k memo member enough
    rw [visitDepth]
    cases held : memo.get? k with
    | some depth =>
      refine ⟨memo, depth, rfl, fun _ absent => absent, fun acyclic above reaches sound =>
        ⟨sound, ?_⟩⟩
      exact (sound k depth held).resolve_left fun unfinished => acyclic k (reaches k unfinished)
    | none =>
      have fewer := Table.countP_absent_put member held 0
      obtain ⟨mid, best, ran, grows, -, sound⟩ := bestOf_spec ih (fun _ edge => edge) (closed k) 0
        (by omega : (nodes.countP fun n => ((memo.put k 0).get? n).isNone) < fuel)
      refine ⟨mid.put k best, best, by simp [ran], fun n absent => ?_,
        fun acyclic above reaches start => ?_⟩
      · by_cases same : n = k
        · simp [same] at absent
        · rw [Table.get?_put_ne _ _ same] at absent
          have before := grows n absent
          rwa [Table.get?_put_ne _ _ same] at before
      · -- The node itself is unfinished while its children are visited.
        have reaching (n) (unfinished : above n ∨ n = k) :
            Relation.ReflTransGen (fun a b => b ∈ children a) n k := by
          rcases unfinished with unfinished | rfl
          · exact (reaches n unfinished).to_reflTransGen
          · exact .refl
        have entered : Sound children (fun n => above n ∨ n = k) (memo.put k 0) :=
          .put (.inl (.inr rfl)) fun n _ depth found => (start n depth found).imp_left .inl
        obtain ⟨middle, each, met⟩ := sound acyclic _ reaching entered
        have deepest : Deepest children k best := .of_children each met
        refine ⟨.put (.inr deepest) fun n other depth found => ?_, deepest⟩
        exact (middle n depth found).imp_left fun unfinished => unfinished.resolve_right other

/-- The loop over the keys ends; in an acyclic graph all it hands out are depths. -/
theorem depthsOf_spec (closed : ∀ n, ∀ child ∈ children n, child ∈ nodes)
    {known : String → Bool} (listed : ∀ k, known k = true → k ∈ nodes)
    (enough : nodes.length < fuel) (keys : List String) (memo out : Table String Nat) :
    ∃ out', depthsOf known (visitDepth children fuel) keys memo out = some out' ∧
      (∀ k, k ∈ keys ∧ known k = true ∨ (out.get? k).isSome → (out'.get? k).isSome) ∧
      (Acyclic children → Sound children (fun _ => False) memo →
        Sound children (fun _ => False) out → Sound children (fun _ => False) out') := by
  induction keys generalizing memo out with
  | nil => exact ⟨out, rfl, fun k held => held.resolve_left (by simp), fun _ _ sound => sound⟩
  | cons key keys ih =>
    rw [depthsOf]
    split
    · next there =>
      obtain ⟨memo', depth, ran, visited⟩ := visitDepth_spec closed fuel key memo (listed key there)
        (countP_le_length.trans_lt enough)
      obtain ⟨out', ranRest, held, sound⟩ := ih memo' (out.put key depth)
      refine ⟨out', by simp [ran, ranRest], fun k asked => held k ?_, fun acyclic start given => ?_⟩
      · by_cases same : k = key
        · exact .inr (by simp [same])
        · rw [Table.get?_put_ne _ _ same]
          simpa [same] using asked
      · obtain ⟨after, deepest⟩ := visited.sound acyclic _ (fun _ none => none.elim) start
        exact sound acyclic after (.put (.inr deepest) fun k _ => given k)
    · next absent =>
      obtain ⟨out', ran, held, sound⟩ := ih memo out
      refine ⟨out', ran, fun k asked => held k ?_, sound⟩
      rcases asked with ⟨member, there⟩ | before
      · have later := (mem_cons.mp member).resolve_left fun same => absent (same ▸ there)
        exact .inl ⟨later, there⟩
      · exact .inr before

end Walk

/-- The lengths of the chains of jobs that need `k`, each needing the one before it. -/
def chainLengths (g : Graph) (k : String) : Set Nat :=
  {n | ∃ chain : List String, chain.length = n ∧ (k :: chain).IsChain fun a b => g.Needs b a}

/-- The length of a longest one. -/
noncomputable def longestChain (g : Graph) (k : String) : Nat := sSup (chainLengths g k)

theorem mem_childrenOf :
    b ∈ childrenOf rows a ↔ ∃ row ∈ rows, a ∈ row.2.needs ∧ row.1 = b := by
  simp [childrenOf]

/-- Whatever the order of the jobs the depths are found, and in an acyclic graph each is the
length of a longest chain of jobs that need the job. -/
theorem downstreamDepths_longest (g : Graph) {rows : List (Sigma fun _ : String => CompiledJob)}
    (order : rows.Perm g.jobs.rows) (keys : List String) :
    ∃ out, downstreamDepths rows keys = some out ∧
      ((∀ id, ¬ Relation.TransGen g.Needs id id) → ∀ k ∈ keys, (g.jobs.get? k).isSome = true →
        out.get? k = some (longestChain g k) ∧
          IsGreatest (chainLengths g k) (longestChain g k)) := by
  have needs : (fun a b => b ∈ childrenOf rows a) = fun a b => g.Needs b a := by
    funext a b
    rw [mem_childrenOf, Graph.Needs, eq_iff_iff]
    constructor
    · rintro ⟨⟨id, cj⟩, member, needed, rfl⟩
      exact ⟨cj, Table.mem_rows_iff.mp (order.mem_iff.mp member), needed⟩
    · rintro ⟨cj, held, needed⟩
      exact ⟨⟨b, cj⟩, order.mem_iff.mpr (Table.mem_rows_iff.mpr held), needed, rfl⟩
  have closed (n : String) : ∀ child ∈ childrenOf rows n, child ∈ nodesOf rows := by
    intro child edge
    obtain ⟨row, member, -, rfl⟩ := mem_childrenOf.mp edge
    exact mem_append_left _ (mem_map_of_mem member)
  have listed (k : String) (there : (rows.any (·.1 = k) || childrenOf rows k ≠ []) = true) :
      k ∈ nodesOf rows := by
    rcases Bool.or_eq_true_iff.mp there with job | needed
    · obtain ⟨row, member, same⟩ := any_eq_true.mp job
      exact mem_append_left _ (mem_map.mpr ⟨row, member, by simpa using same⟩)
    · obtain ⟨child, edge⟩ := exists_mem_of_ne_nil _ (of_decide_eq_true needed)
      obtain ⟨row, member, edge, -⟩ := mem_childrenOf.mp edge
      exact mem_append_right _ (mem_flatMap.mpr ⟨row, member, edge⟩)
  obtain ⟨out, ran, held, sound⟩ := depthsOf_spec closed listed (Nat.lt_succ_self _) keys
    .empty .empty
  refine ⟨out, ran, fun acyclic k member job => ?_⟩
  obtain ⟨cj, declared⟩ := Option.isSome_iff_exists.mp job
  have row : (rows.any (·.1 = k)) = true := any_eq_true.mpr
    ⟨⟨k, cj⟩, order.mem_iff.mpr (Table.mem_rows_iff.mpr declared), by simp⟩
  obtain ⟨depth, found⟩ := Option.isSome_iff_exists.mp (held k (.inl ⟨member, by simp [row]⟩))
  have walks : Acyclic (childrenOf rows) := by
    intro n cycle
    rw [needs] at cycle
    exact acyclic n (Relation.transGen_swap.mp cycle)
  have deepest := (sound walks (by simp [Sound]) (by simp [Sound]) k depth found).resolve_left id
  rw [Deepest, needs] at deepest
  have longest : longestChain g k = depth := deepest.csSup_eq
  rw [longest]
  exact ⟨found, deepest⟩

/-- A build that a deployment needs. -/
def buildAndDeploy : Graph where
  jobs := (Table.empty.put "build" { id := "build", baseID := "build" }).put "deploy"
    { id := "deploy", baseID := "deploy", needs := ["build"] }

theorem build_depth_longest : ∃ out,
    downstreamDepths buildAndDeploy.jobs.rows.reverse ["build"] = some out ∧
      out.get? "build" = some (longestChain buildAndDeploy "build") := by
  have later : ∀ row ∈ buildAndDeploy.jobs.rows, ∀ need ∈ row.2.needs,
      (if row.1 = "build" then 1 else 0) < if need = "build" then 1 else 0 := by decide
  obtain ⟨out, ran, depths⟩ :=
    downstreamDepths_longest buildAndDeploy (reverse_perm _) ["build"]
  refine ⟨out, ran, (depths (acyclic_of_rank (fun id => if id = "build" then 1 else 0) ?_) "build"
    mem_cons_self rfl).1⟩
  rintro id need ⟨cj, held, member⟩
  exact later ⟨id, cj⟩ (Table.mem_rows_iff.mpr held) need member

end KiwiCI.Scheduler.Priority
