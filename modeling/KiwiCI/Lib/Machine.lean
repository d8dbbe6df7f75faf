import Mathlib.Data.Fintype.Card
import Mathlib.Data.Set.Finite.Basic
import Mathlib.Logic.Relation
import Mathlib.Data.Prod.Lex
import Mathlib.Order.WellFounded

/-!
Machines whose steps may block, and equations along a well-founded relation.

`trace` runs a list of events each of which has to be enabled.  A measure that every step
lowers bounds the length of every trace; where no state but a final one is stuck, every
way of taking steps then comes to an end.
-/

namespace KiwiCI

section Machine

variable {σ ε : Type} (step : ε → σ → Option σ)

/-- Take the events in turn; each has to be enabled. -/
def trace : List ε → σ → Option σ
  | [], s => some s
  | e :: events, s => (step e s).bind (trace events)

variable {step}

/-- What every step keeps holds at the end of every trace. -/
theorem trace_invariant {P : σ → Prop} (keeps : ∀ e s s', P s → step e s = some s' → P s')
    (start : P s) (ran : trace step events s = some s') : P s' := by
  induction events generalizing s with
  | nil =>
    cases ran
    exact start
  | cons e events ih =>
    obtain ⟨mid, first, rest⟩ := Option.bind_eq_some_iff.mp ran
    exact ih (keeps e s mid start first) rest

/-- A measure that every step lowers bounds every trace. -/
theorem length_trace_le {P : σ → Prop} (keeps : ∀ e s s', P s → step e s = some s' → P s')
    (measure : σ → Nat) (lowers : ∀ e s s', P s → step e s = some s' → measure s' < measure s)
    (start : P s) (ran : trace step events s = some s') :
    events.length + measure s' ≤ measure s := by
  induction events generalizing s with
  | nil =>
    cases ran
    simp
  | cons e events ih =>
    obtain ⟨mid, first, rest⟩ := Option.bind_eq_some_iff.mp ran
    have lower := lowers e s mid start first
    have tail := ih (keeps e s mid start first) rest
    rw [List.length_cons]
    omega

end Machine

/-! ## Acyclic relations -/

section Acyclic

variable {α : Type}

/-- A relation without cycles that only leads to finitely many elements is well-founded. -/
theorem wellFounded_of_acyclic {inside : Set α} (finite : inside.Finite)
    (within : ∀ a b, r a b → a ∈ inside ∧ b ∈ inside)
    (acyclic : ∀ a, ¬ Relation.TransGen r a a) : WellFounded r := by
  have : Finite inside := finite
  let below (a b : inside) : Prop := Relation.TransGen r a.1 b.1
  have : IsTrans inside below := ⟨fun _ _ _ => Relation.TransGen.trans⟩
  have : Std.Irrefl below := ⟨fun a => acyclic a.1⟩
  have founded : WellFounded below := Finite.wellFounded_of_trans_of_irrefl below
  have reaches : ∀ a : inside, Acc r a.1 := fun a => by
    induction a using founded.induction with
    | _ a ih =>
      refine ⟨_, fun b lower => ?_⟩
      exact ih ⟨b, (within b a.1 lower).1⟩ (.single lower)
  refine ⟨fun a => ⟨_, fun b lower => ?_⟩⟩
  exact reaches ⟨b, (within b a lower).1⟩

theorem acyclic_of_rank (rank : α → Nat) (grows : ∀ a b, r a b → rank a < rank b)
    (a : α) : ¬ Relation.TransGen r a a := by
  have climbs : ∀ a b, Relation.TransGen r a b → rank a < rank b := by
    intro a b chain
    induction chain with
    | single edge => exact grows _ _ edge
    | tail _ edge ih => exact ih.trans (grows _ _ edge)
  exact fun cycle => Nat.lt_irrefl _ (climbs a a cycle)

end Acyclic

/-!
Worklist passes.

A pass takes items from a queue one at a time; a visit may change the state and
ask for further items, which join the queue unless they are in it already.  A
`Worklist` carries what makes the pass end: a visit either leaves what can be
seen of the state alone and asks for nothing, or lowers a rank.  `run_view_iff`
is the rule for fixpoints: the pass leaves the visible state alone exactly when
a visit of each queued item would.
-/

/-- A pass over items `α` with states `σ`, of which `τ` is visible. -/
structure Worklist (σ τ α : Type) where
  /-- The state after a visit, and the items the visit asks for. -/
  visit : α → σ → σ × List α
  view : σ → τ
  rank : σ → Nat
  /-- What a visit does is seen, and is seen to depend on what is visible only. -/
  reads : ∀ a s t, view s = view t → view (visit a s).1 = view (visit a t).1
  ranked : ∀ s t, view s = view t → rank s = rank t
  moves : ∀ a s, (view (visit a s).1 = view s ∧ (visit a s).2 = []) ∨ rank (visit a s).1 < rank s

/-- Items join a queue they are not in. -/
def enqueue {α : Type} [DecidableEq α] (queue : List α) (items : List α) : List α :=
  items.foldl (fun queue a => if a ∈ queue then queue else queue ++ [a]) queue

theorem mem_enqueue {α : Type} [DecidableEq α] {queue items : List α} {a : α} :
    a ∈ enqueue queue items ↔ a ∈ queue ∨ a ∈ items := by
  unfold enqueue
  induction items generalizing queue with
  | nil => simp
  | cons item items ih =>
    rw [List.foldl_cons, ih, List.mem_cons]
    split <;> rename_i present
    · constructor
      · rintro (held | asked)
        · exact .inl held
        · exact .inr (.inr asked)
      · rintro (held | rfl | asked)
        · exact .inl held
        · exact .inl present
        · exact .inr asked
    · rw [List.mem_append, List.mem_singleton, or_assoc]

namespace Worklist

variable {σ τ α : Type} (w : Worklist σ τ α)

theorem rank_visit_le (a : α) (s : σ) : w.rank (w.visit a s).1 ≤ w.rank s := by
  rcases w.moves a s with ⟨same, _⟩ | lower
  · exact (w.ranked _ _ same).le
  · exact lower.le

variable [DecidableEq α]

/-- The pass: visit the items of the queue until it is empty. -/
def run (queue : List α) (s : σ) : σ :=
  match queue with
  | [] => s
  | a :: rest => run (enqueue rest (w.visit a s).2) (w.visit a s).1
termination_by (w.rank s, queue.length)
decreasing_by
  rcases w.moves a s with ⟨same, none⟩ | lower
  · rw [w.ranked _ _ same, none]
    exact Prod.Lex.right _ (Nat.lt_succ_self _)
  · exact Prod.Lex.left _ _ lower

@[simp] theorem run_nil (s : σ) : w.run [] s = s := by rw [run]

theorem run_cons (a : α) (rest : List α) (s : σ) :
    w.run (a :: rest) s = w.run (enqueue rest (w.visit a s).2) (w.visit a s).1 := by
  rw [run]

/-- What every visit keeps of the state and the queue holds of the last state with
nothing left to visit. -/
theorem run_queue_invariant (inv : List α → σ → Prop)
    (keeps : ∀ a rest s, inv (a :: rest) s →
      inv (enqueue rest (w.visit a s).2) (w.visit a s).1)
    (queue : List α) (s : σ) (start : inv queue s) : inv [] (w.run queue s) := by
  induction queue, s using run.induct (w := w) with
  | case1 s =>
    rw [run_nil]
    exact start
  | case2 s a rest ih =>
    rw [run_cons]
    exact ih (keeps a rest s start)

theorem run_invariant (inv : σ → Prop) (keeps : ∀ a s, inv s → inv (w.visit a s).1)
    (queue : List α) (s : σ) (start : inv s) : inv (w.run queue s) :=
  w.run_queue_invariant (fun _ => inv) (fun a _ s => keeps a s) queue s start

theorem rank_run_le (queue : List α) (s : σ) : w.rank (w.run queue s) ≤ w.rank s :=
  w.run_invariant (fun t => w.rank t ≤ w.rank s)
    (fun a t bound => (w.rank_visit_le a t).trans bound) queue s le_rfl

/-- The pass is a fixpoint exactly when every queued item's visit is one. -/
theorem run_view_iff (queue : List α) (s : σ) :
    w.view (w.run queue s) = w.view s ↔ ∀ a ∈ queue, w.view (w.visit a s).1 = w.view s := by
  induction queue, s using run.induct (w := w) with
  | case1 s => simp
  | case2 s a rest ih =>
    rw [run_cons]
    rcases w.moves a s with ⟨same, none⟩ | lower
    · -- the first visit is not seen, so the rest runs as it would from `s`
      rw [none] at ih ⊢
      have later : ∀ b, w.view (w.visit b (w.visit a s).1).1 = w.view (w.visit b s).1 :=
        fun b => w.reads b _ s same
      simp only [enqueue, List.foldl_nil, same, later] at ih ⊢
      rw [ih]
      simp [same]
    · -- a visit that lowers the rank is seen, and stays seen
      constructor
      · intro unseen
        have kept := w.ranked _ _ unseen
        have bound := w.rank_run_le (enqueue rest (w.visit a s).2) (w.visit a s).1
        omega
      · intro idle
        have kept := w.ranked _ _ (idle a (by simp))
        omega

end Worklist

end KiwiCI
