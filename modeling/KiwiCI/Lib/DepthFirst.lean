import KiwiCI.Lib.Table
import Mathlib.Data.List.TakeWhile
import Mathlib.Logic.Relation

/-!
Depth-first search for a cycle, over an arbitrary graph given by its edge lists.

A node is white until it is visited, gray while its edges are followed and black
afterwards; meeting a gray node closes a cycle.  `findCycle_genuine` says that what
the search reports is a cycle, `findCycle_eq_nil_iff` that it finds nothing exactly
when the graph is well founded.  Recursion is on a fuel above the number of nodes, and
a visit that finds no cycle never spends it: `visit_settles` asks for no more than one
unit per white node.
-/

namespace KiwiCI.DepthFirst

open List Table

variable {κ : Type} [DecidableEq κ]

/-- The colour of a node that has been visited. -/
inductive Colour where
  | gray
  | black
  deriving DecidableEq

/-- The colours of the visited nodes and the path being followed. -/
structure Search (κ : Type) where
  state : Table κ Colour := .empty
  stack : List κ := []

/-- Enter a node. -/
def Search.enter (s : Search κ) (n : κ) : Search κ where
  state := s.state.put n .gray
  stack := s.stack ++ [n]

/-- Leave a node whose edges have all been followed. -/
def Search.leave (s : Search κ) (n : κ) : Search κ where
  state := s.state.put n .black
  stack := s.stack.dropLast

/-- Follow the edges of a node: the cycle a gray target closes, or the first one
a visit finds. -/
def follow (visit : κ → Search κ → Search κ × List κ) :
    List κ → Search κ → Search κ × List κ
  | [], s => (s, [])
  | d :: rest, s =>
    match s.state.get? d with
    | some .gray => (s, s.stack.dropWhile (· ≠ d) ++ [d])
    | some .black => follow visit rest s
    | none =>
      match visit d s with
      | (s, []) => follow visit rest s
      | (s, cycle) => (s, cycle)

/-- Visit a white node. -/
def visit (edges : κ → List κ) : Nat → κ → Search κ → Search κ × List κ
  | 0, _, s => (s, [])
  | fuel + 1, n, s =>
    match follow (visit edges fuel) (edges n) (s.enter n) with
    | (s, []) => (s.leave n, [])
    | (s, cycle) => (s, cycle)

/-- Visit every root that is still white. -/
def visitRoots (visit : κ → Search κ → Search κ × List κ) : List κ → Search κ → List κ
  | [], _ => []
  | k :: rest, s =>
    match s.state.get? k with
    | some _ => visitRoots visit rest s
    | none =>
      match visit k s with
      | (s, []) => visitRoots visit rest s
      | (_, cycle) => cycle

/-- The first cycle the search from the roots meets; empty when there is none. -/
def findCycle (edges : κ → List κ) (roots : List κ) : List κ :=
  visitRoots (visit edges (roots ++ roots.flatMap edges).length) roots {}

section Soundness

variable (edges : κ → List κ)

/-- The edge relation, read from target to source. -/
def Edge (d n : κ) : Prop := d ∈ edges n

/-- No path out of a black node is infinite. -/
def Search.Settled (s : Search κ) : Prop :=
  ∀ n, s.state.get? n = some .black → Acc (Edge edges) n

/-- What a search step that finds no cycle keeps. -/
structure Search.Extends (s s' : Search κ) : Prop where
  black : ∀ n, s.state.get? n = some .black → s'.state.get? n = some .black
  gray : ∀ n, s'.state.get? n = some .gray ↔ s.state.get? n = some .gray

/-- How many of the nodes are white. -/
def Search.white (nodes : List κ) (s : Search κ) : Nat :=
  nodes.countP fun n => (s.state.get? n).isNone

variable {edges}

theorem Search.Extends.refl (s : Search κ) : s.Extends s := ⟨fun _ held => held, fun _ => .rfl⟩

theorem Search.Extends.trans {a c : Search κ} (first : a.Extends b) (second : b.Extends c) :
    a.Extends c :=
  ⟨fun n held => second.black n (first.black n held),
    fun n => (second.gray n).trans (first.gray n)⟩

theorem Search.Extends.visited {s : Search κ} (ext : s.Extends s')
    (white : s'.state.get? n = none) : s.state.get? n = none := by
  cases found : s.state.get? n with
  | none => rfl
  | some colour =>
    cases colour with
    | gray => simp [(ext.gray n).mpr found] at white
    | black => simp [ext.black n found] at white

theorem Search.Extends.white_le {s : Search κ} (ext : s.Extends s') (nodes : List κ) :
    s'.white nodes ≤ s.white nodes := by
  refine countP_mono_left fun n _ white => ?_
  rw [Option.isNone_iff_eq_none] at white ⊢
  exact ext.visited white

theorem Search.white_enter {s : Search κ} (member : n ∈ nodes)
    (white : s.state.get? n = none) : (s.enter n).white nodes < s.white nodes :=
  countP_absent_put member white .gray

/-- Following the edges without meeting a cycle blackens every target, when a
visit blackens its node. -/
theorem follow_settles {nodes : List κ} {fuel : Nat}
    (settles : ∀ n s s', n ∈ nodes → s.state.get? n = none → s.white nodes ≤ fuel →
      s.Settled edges → visit edges fuel n s = (s', []) →
      s'.state.get? n = some .black ∧ s'.Settled edges ∧ s.Extends s')
    (known : ∀ d ∈ targets, d ∈ nodes)
    (enough : s.white nodes ≤ fuel) (settled : s.Settled edges)
    (ran : follow (visit edges fuel) targets s = (s', [])) :
    (∀ d ∈ targets, s'.state.get? d = some .black) ∧ s'.Settled edges ∧ s.Extends s' := by
  induction targets generalizing s with
  | nil =>
    obtain ⟨rfl, -⟩ := Prod.mk.injEq .. ▸ ran
    exact ⟨by simp, settled, .refl s⟩
  | cons d rest ih =>
    have knownRest : ∀ d ∈ rest, d ∈ nodes := fun d member => known d (mem_cons_of_mem _ member)
    rw [follow] at ran
    split at ran
    · exact absurd (Prod.mk.inj ran).2 (by simp)
    · rename_i held
      obtain ⟨below, settled', ext⟩ := ih knownRest enough settled ran
      exact ⟨forall_mem_cons.mpr ⟨ext.black d held, below⟩, settled', ext⟩
    · rename_i held
      split at ran
      · rename_i middle visited
        obtain ⟨black, settled', ext⟩ :=
          settles d s middle (known d (by simp)) held enough settled visited
        obtain ⟨below, settled'', ext'⟩ :=
          ih knownRest ((ext.white_le nodes).trans enough) settled' ran
        exact ⟨forall_mem_cons.mpr ⟨ext'.black d black, below⟩, settled'', ext.trans ext'⟩
      · rename_i nonempty _
        exact absurd (Prod.mk.inj ran).2 nonempty

theorem visit_settles {nodes : List κ} (closed : ∀ n ∈ nodes, ∀ d ∈ edges n, d ∈ nodes)
    (fuel : Nat) : ∀ n s s', n ∈ nodes → s.state.get? n = none → s.white nodes ≤ fuel →
      s.Settled edges → visit edges fuel n s = (s', []) →
      s'.state.get? n = some .black ∧ s'.Settled edges ∧ s.Extends s' := by
  induction fuel with
  | zero =>
    intro n s s' member white enough _ _
    have := Search.white_enter member white
    omega
  | succ fuel ih =>
    intro n s s' member white enough settled ran
    have entered : (s.enter n).Settled edges := by
      intro m black
      simp only [Search.enter, get?_put] at black
      split at black
      · simp at black
      · exact settled m black
    rw [visit] at ran
    split at ran
    · rename_i middle followed
      obtain ⟨rfl, -⟩ := Prod.mk.inj ran
      obtain ⟨targets, settled', ext⟩ := follow_settles ih (closed n member)
        (by have := Search.white_enter member white; omega) entered followed
      refine ⟨by simp [Search.leave], ?_, ?_, ?_⟩
      · -- the targets are black, so every path out of `n` continues in a settled node
        intro m black
        simp only [Search.leave, get?_put] at black
        split at black
        · rename_i same
          subst same
          exact ⟨m, fun d edge => settled' d (targets d edge)⟩
        · exact settled' m black
      · intro m black
        have other : m ≠ n := by
          rintro rfl
          simp [white] at black
        rw [Search.leave, get?_put_ne _ _ other]
        refine ext.black m ?_
        rw [Search.enter, get?_put_ne _ _ other]
        exact black
      · intro m
        by_cases same : m = n
        · subst same
          simp [Search.leave, white]
        · rw [Search.leave, get?_put_ne _ _ same, ext.gray m, Search.enter,
            get?_put_ne _ _ same]
    · rename_i nonempty _
      exact absurd (Prod.mk.inj ran).2 nonempty

/-- A search from the roots that finds no cycle leaves every root settled. -/
theorem visitRoots_settles {nodes : List κ} {fuel : Nat}
    (closed : ∀ n ∈ nodes, ∀ d ∈ edges n, d ∈ nodes)
    (known : ∀ n ∈ roots, n ∈ nodes) (enough : s.white nodes ≤ fuel)
    (settled : s.Settled edges) (idle : ∀ n, s.state.get? n ≠ some .gray)
    (ran : visitRoots (visit edges fuel) roots s = []) : ∀ n ∈ roots, Acc (Edge edges) n := by
  induction roots generalizing s with
  | nil => simp
  | cons k rest ih =>
    have knownRest : ∀ n ∈ rest, n ∈ nodes := fun n member => known n (mem_cons_of_mem _ member)
    rw [visitRoots] at ran
    split at ran
    · rename_i colour held
      refine forall_mem_cons.mpr ⟨?_, ih knownRest enough settled idle ran⟩
      cases colour with
      | gray => exact absurd held (idle k)
      | black => exact settled k held
    · rename_i white
      split at ran
      · rename_i s' visited
        obtain ⟨black, settled', ext⟩ :=
          visit_settles closed fuel k s s' (known k (by simp)) white enough settled visited
        refine forall_mem_cons.mpr ⟨settled' k black, ih knownRest
          ((ext.white_le nodes).trans enough) settled' (fun n gray => ?_) ran⟩
        exact idle n ((ext.gray n).mp gray)
      · rename_i nonempty _
        exact absurd ran nonempty

end Soundness

section Genuineness

variable {edges : κ → List κ}

/-- A cycle as the search reports it: each node is related to the next, and the last node is
the first again. -/
def IsCycle (r : κ → κ → Prop) (cycle : List κ) : Prop :=
  cycle.IsChain r ∧ ∃ n middle, cycle = n :: (middle ++ [n])

variable {r : κ → κ → Prop} {cycle : List κ}

omit [DecidableEq κ] in
theorem IsCycle.ne_nil (genuine : IsCycle r cycle) : cycle ≠ [] := by
  obtain ⟨-, n, middle, rfl⟩ := genuine
  exact cons_ne_nil _ _

omit [DecidableEq κ] in
theorem IsCycle.transGen (genuine : IsCycle r cycle) : ∃ n, Relation.TransGen r n n := by
  obtain ⟨chain, n, middle, rfl⟩ := genuine
  have reaches := (IsChain.imp (fun _ _ edge => Relation.TransGen.single edge) chain).pairwise
  exact ⟨n, rel_of_pairwise_cons reaches (by simp)⟩

omit [DecidableEq κ] in
/-- On a cycle every node is related to another one. -/
theorem IsCycle.within (genuine : IsCycle r cycle) :
    IsCycle (fun a b => r a b ∧ ∃ c, r b c) cycle := by
  obtain ⟨chain, n, middle, rfl⟩ := genuine
  have leaves (path : List κ) (chain : (path ++ [n]).IsChain r) : ∀ m ∈ path, ∃ c, r m c := by
    induction path with
    | nil => simp
    | cons m path ih =>
      refine forall_mem_cons.mpr ⟨?_, ih chain.tail⟩
      cases path with
      | nil => exact ⟨n, by simpa using chain⟩
      | cons next path => exact ⟨next, (isChain_cons_cons.mp chain).1⟩
  have onward := leaves (n :: middle) chain
  refine ⟨chain.imp_of_mem_tail_imp fun a b _ member edge => ⟨edge, onward b ?_⟩, n, middle, rfl⟩
  simpa [or_comm] using member

/-- The gray nodes lie on the path being followed, and an edge leads from its end to `n`. -/
structure Search.Trail (edges : κ → List κ) (s : Search κ) (n : κ) : Prop where
  chain : (s.stack ++ [n]).IsChain fun a b => b ∈ edges a
  gray : ∀ m, s.state.get? m = some .gray → m ∈ s.stack

/-- What a search step answers: a cycle, or nothing and the same path as before. -/
def Search.Answers (edges : κ → List κ) (s : Search κ) (answer : Search κ × List κ) : Prop :=
  IsCycle (fun a b => b ∈ edges a) answer.2 ∨ answer.2 = [] ∧ answer.1.stack = s.stack ∧
    ∀ m, answer.1.state.get? m = some .gray → s.state.get? m = some .gray

/-- A gray target closes the path from its own place on. -/
theorem Search.Trail.closes {s : Search κ} (trail : s.Trail edges d)
    (gray : s.state.get? d = some .gray) :
    IsCycle (fun a b => b ∈ edges a) (s.stack.dropWhile (· ≠ d) ++ [d]) := by
  have met : s.stack.dropWhile (· ≠ d) ≠ [] := by
    intro passed
    simpa using dropWhile_eq_nil_iff.mp passed d (trail.gray d gray)
  have first : (s.stack.dropWhile (· ≠ d)).head met = d := by
    simpa using head_dropWhile_not (· ≠ d) met
  obtain ⟨before, split⟩ := dropWhile_suffix (l := s.stack) (· ≠ d)
  refine ⟨trail.chain.suffix ⟨before, by rw [← append_assoc, split]⟩, d,
    (s.stack.dropWhile (· ≠ d)).tail, ?_⟩
  nth_rewrite 1 [← cons_head_tail met, first]
  rfl

/-- Following edges of the last node of the path answers as its visits do. -/
theorem follow_answers {fuel : Nat}
    (answers : ∀ n (s : Search κ), s.Trail edges n → s.Answers edges (visit edges fuel n s))
    {s : Search κ} (trails : ∀ d ∈ targets, s.Trail edges d) :
    s.Answers edges (follow (visit edges fuel) targets s) := by
  induction targets generalizing s with
  | nil => exact .inr ⟨rfl, rfl, fun _ gray => gray⟩
  | cons d rest ih =>
    obtain ⟨trail, trailsRest⟩ := forall_mem_cons.mp trails
    have answered := answers d s trail
    rw [follow]
    split
    · rename_i gray
      exact .inl (trail.closes gray)
    · exact ih trailsRest
    · split
      · rename_i s' visited
        rw [visited] at answered
        obtain ⟨-, stack, grays⟩ := answered.resolve_left fun genuine => genuine.ne_nil rfl
        dsimp only at stack grays
        refine (ih fun d member => ?_).imp id ?_
        · exact ⟨stack ▸ (trailsRest d member).chain,
            fun m gray => stack ▸ (trailsRest d member).gray m (grays m gray)⟩
        · exact fun ⟨nothing, same, more⟩ =>
            ⟨nothing, same.trans stack, fun m gray => grays m (more m gray)⟩
      · rename_i visited
        rwa [visited] at answered

theorem visit_answers (fuel : Nat) (n : κ) (s : Search κ) (trail : s.Trail edges n) :
    s.Answers edges (visit edges fuel n s) := by
  induction fuel generalizing n s with
  | zero => exact .inr ⟨rfl, rfl, fun _ gray => gray⟩
  | succ fuel ih =>
    have trails : ∀ d ∈ edges n, (s.enter n).Trail edges d := by
      refine fun d edge =>
        ⟨isChain_append.mpr ⟨trail.chain, .singleton d, ?_⟩, fun m gray => ?_⟩
      · simpa [Search.enter] using edge
      · simp only [Search.enter, get?_put] at gray
        split at gray
        · simp_all [Search.enter]
        · exact mem_append_left _ (trail.gray m gray)
    have answered := follow_answers ih trails
    rw [visit]
    split
    · rename_i s' followed
      rw [followed] at answered
      obtain ⟨-, stack, grays⟩ := answered.resolve_left fun genuine => genuine.ne_nil rfl
      refine .inr ⟨rfl, ?_, fun m gray => ?_⟩
      · dsimp only at stack
        simp [Search.leave, stack, Search.enter]
      · by_cases same : m = n
        · simp [Search.leave, same] at gray
        · simp only [Search.leave, get?_put_ne _ _ same] at gray
          have entered := grays m gray
          rwa [Search.enter, get?_put_ne _ _ same] at entered
    · rename_i nonempty followed
      rw [followed] at answered
      exact .inl (answered.resolve_right fun none => nonempty none.1)

theorem visitRoots_genuine (fresh : s.stack = []) (idle : ∀ n, s.state.get? n ≠ some .gray) :
    visitRoots (visit edges fuel) roots s = [] ∨
      IsCycle (fun a b => b ∈ edges a) (visitRoots (visit edges fuel) roots s) := by
  induction roots generalizing s with
  | nil => exact .inl rfl
  | cons k rest ih =>
    rw [visitRoots]
    split
    · exact ih fresh idle
    · have trail : s.Trail edges k := ⟨by simp [fresh], fun m gray => (idle m gray).elim⟩
      have answered := visit_answers fuel k s trail
      split
      · rename_i s' visited
        rw [visited] at answered
        obtain ⟨-, stack, grays⟩ := answered.resolve_left fun genuine => genuine.ne_nil rfl
        exact ih (stack.trans fresh) fun n gray => idle n (grays n gray)
      · rename_i nonempty visited
        rw [visited] at answered
        exact .inr (answered.resolve_right fun none => nonempty none.1)

end Genuineness

/-- What the search reports is a cycle of the graph. -/
theorem findCycle_genuine {roots : List κ} (found : findCycle edges roots ≠ []) :
    IsCycle (fun a b => b ∈ edges a) (findCycle edges roots) :=
  (visitRoots_genuine rfl fun n => by simp).resolve_left found

/-- The search finds nothing exactly when the graph is well founded; nodes that
are no roots have no edges. -/
theorem findCycle_eq_nil_iff {roots : List κ} (outside : ∀ n, n ∉ roots → edges n = []) :
    findCycle edges roots = [] ↔ WellFounded (Edge edges) := by
  constructor
  · intro ran
    have closed : ∀ n ∈ roots ++ roots.flatMap edges, ∀ d ∈ edges n,
        d ∈ roots ++ roots.flatMap edges := by
      intro n _ d edge
      by_cases root : n ∈ roots
      · exact mem_append_right _ (mem_flatMap.mpr ⟨n, root, edge⟩)
      · simp [outside n root] at edge
    have settled := visitRoots_settles closed (fun n root => mem_append_left _ root)
      countP_le_length (fun n black => by simp at black) (fun n => by simp) ran
    refine ⟨fun n => ?_⟩
    by_cases root : n ∈ roots
    · exact settled n root
    · exact ⟨n, fun d edge => by simp [Edge, outside n root] at edge⟩
  · intro founded
    by_contra found
    obtain ⟨n, cycle⟩ := (findCycle_genuine found).transGen
    exact founded.transGen.irrefl.irrefl n (Relation.transGen_swap.mpr cycle)

end KiwiCI.DepthFirst
