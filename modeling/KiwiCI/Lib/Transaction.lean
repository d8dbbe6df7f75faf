import Mathlib.Data.List.Forall2
import Mathlib.Logic.Relation

/-!
Transactions and runs.

A transaction is a value of `Except ε σ`: it commits a new state or is rolled
back (`commit`).  `bind_ok_iff`, `require_ok_iff` and `orThrow_ok_iff` peel a
transaction that committed into the facts it checked on the way, and
`foldlM_rel` lifts what one iteration of a loop guarantees to the whole loop.

A run is a list of operations applied one after the other.  `run_invariant` and
`run_guarded` are the two induction rules: an invariant every operation keeps
holds after every run, and one that only operations meeting a guard keep holds
after every run whose operations all met it.
-/

namespace KiwiCI

open List

variable {ε σ ω α β : Type}

/-! ## Transactions -/

/-- Continue only when `c` holds. -/
def require (c : Prop) [Decidable c] (e : ε) : Except ε Unit :=
  if c then .ok () else .error e

/-- A check made only when `c` holds. -/
def checkIf (c : Prop) [Decidable c] (x : Except ε Unit) : Except ε Unit :=
  if c then x else .ok ()

/-- The value, or the error of its absence. -/
def orThrow (o : Option α) (e : ε) : Except ε α :=
  match o with
  | some a => .ok a
  | none => .error e

/-- The part of a transaction an optional request asks for. -/
def whenSome (o : Option α) (f : α → σ → Except ε σ) (s : σ) : Except ε σ :=
  match o with
  | some a => f a s
  | none => .ok s

/-- A transaction that failed leaves the state as it was. -/
def commit (t : Except ε σ) (s : σ) : σ :=
  match t with
  | .ok s' => s'
  | .error _ => s

@[simp] theorem commit_ok (s s' : σ) : commit (.ok s' : Except ε σ) s = s' := rfl

@[simp] theorem commit_error (e : ε) (s : σ) : commit (.error e) s = s := rfl

/-- What holds before a transaction, and after it if it succeeds, holds of what it leaves. -/
theorem commit_elim {P : σ → Prop} {t : Except ε σ} (before : P s)
    (done : ∀ s', t = .ok s' → P s') : P (commit t s) := by
  cases ran : t with
  | error e => exact before
  | ok s' => exact done s' ran

theorem eq_ok_commit {t : Except ε σ} (ok : t.isOk = true) (s : σ) : t = .ok (commit t s) := by
  cases t with
  | error e => cases ok
  | ok s' => rfl

theorem exists_of_any {t : Except ε α} (holds : t.toOption.any p = true) :
    ∃ a, t = .ok a ∧ p a = true := by
  cases t with
  | error e => cases holds
  | ok a => exact ⟨a, rfl, holds⟩

theorem bind_ok_iff {f : α → Except ε β} :
    (x >>= f) = .ok b ↔ ∃ a, x = .ok a ∧ f a = .ok b := by
  cases x with
  | error e => simp [bind, Except.bind]
  | ok a => simp [bind, Except.bind]

theorem ok_bind (a : α) (f : α → Except ε β) : ((.ok a : Except ε α) >>= f) = f a := rfl

theorem check_ok_iff {f : Unit → Except ε β} :
    (x >>= f) = .ok b ↔ x = .ok () ∧ f () = .ok b := by
  rw [bind_ok_iff, Unique.exists_iff]

@[simp] theorem require_ok_iff [Decidable c] :
    require c e = .ok u ↔ c := by
  unfold require
  split <;> simp_all

@[simp] theorem checkIf_ok_iff [Decidable c] :
    checkIf c x = .ok u ↔ (c → x = .ok ()) := by
  unfold checkIf
  split <;> simp_all

@[simp] theorem orThrow_ok_iff :
    orThrow o e = .ok a ↔ o = some a := by
  cases o <;> simp [orThrow]

theorem mapError_ok_iff {ε' : Type} {f : ε → ε'} {x : Except ε α} {a : α} :
    x.mapError f = .ok a ↔ x = .ok a := by
  cases x <;> simp [Except.mapError]

theorem pure_ok_iff : (pure a : Except ε α) = .ok b ↔ a = b := by
  simp [pure, Except.pure]

theorem map_ok_iff {f : α → β} {x : Except ε α} {b : β} :
    x.map f = .ok b ↔ ∃ a, x = .ok a ∧ f a = b := by
  cases x with
  | error e => simp [Except.map]
  | ok a => simp [Except.map]

/-- A committed transaction related to its start, or nothing happened. -/
theorem commit_rel {r : σ → σ → Prop} (refl : ∀ s, r s s) {t : Except ε σ}
    (ok : ∀ s', t = .ok s' → r s s') : r s (commit t s) :=
  commit_elim (refl s) ok

theorem whenSome_rel {r : σ → σ → Prop} (refl : ∀ s, r s s)
    {f : α → σ → Except ε σ} (each : ∀ a, o = some a → f a s = .ok s' → r s s')
    (ran : whenSome o f s = .ok s') : r s s' := by
  cases o with
  | none => exact Except.ok.inj ran ▸ refl s
  | some a => exact each a rfl ran

theorem foldlM_cons_ok_iff {f : σ → α → Except ε σ} {head : α} :
    (head :: rest).foldlM f s = .ok s' ↔
      ∃ middle, f s head = .ok middle ∧ rest.foldlM f middle = .ok s' := by
  rw [foldlM_cons, bind_ok_iff]

/-- Induction along the iterations of a loop that succeeds. -/
theorem foldlM_ok_induction {f : σ → α → Except ε σ}
    {motive : ∀ (items : List α) s, items.foldlM f s = .ok s' → Prop} (nil : motive [] s' rfl)
    (cons : ∀ head rest s mid (first : f s head = .ok mid) (tail : rest.foldlM f mid = .ok s'),
      motive rest mid tail → motive (head :: rest) s (foldlM_cons_ok_iff.mpr ⟨mid, first, tail⟩))
    {items : List α} {s : σ} (ran : items.foldlM f s = .ok s') : motive items s ran := by
  induction items generalizing s with
  | nil =>
    obtain rfl := pure_ok_iff.mp ran
    exact nil
  | cons head rest ih =>
    obtain ⟨mid, first, tail⟩ := foldlM_cons_ok_iff.mp ran
    exact cons head rest s mid first tail (ih tail)

/-- What every iteration guarantees, the loop guarantees. -/
theorem foldlM_rel {r : σ → σ → Prop} (refl : ∀ s, r s s)
    (trans : ∀ {a b c}, r a b → r b c → r a c) {f : σ → α → Except ε σ} (items : List α)
    (each : ∀ a ∈ items, ∀ s s', f s a = .ok s' → r s s')
    (ran : items.foldlM f s = .ok s') : r s s' := by
  induction ran using foldlM_ok_induction with
  | nil => exact refl s'
  | cons head rest s mid first tail ih =>
    exact trans (each head (by simp) s mid first)
      (ih fun a member => each a (mem_cons_of_mem _ member))

/-- What no iteration changes, the loop leaves. -/
theorem foldlM_same (part : σ → β) {f : σ → α → Except ε σ} {items : List α}
    (each : ∀ a ∈ items, ∀ s s', f s a = .ok s' → part s' = part s)
    (ran : items.foldlM f s = .ok s') : part s' = part s :=
  foldlM_rel (r := fun s s' => part s' = part s) (fun _ => rfl)
    (fun first second => second.trans first) items each ran

/-- A loop whose body does what another's does to the mapped items. -/
theorem foldlM_map_of {f : σ → α → Except ε σ} {g : σ → β → Except ε σ}
    (each : ∀ a s s', f s a = .ok s' → g s (h a) = .ok s') {items : List α}
    (ran : items.foldlM f s = .ok s') : (items.map h).foldlM g s = .ok s' := by
  induction ran using foldlM_ok_induction with
  | nil => rfl
  | cons head rest s mid first tail ih =>
    exact foldlM_cons_ok_iff.mpr ⟨mid, each head s mid first, ih⟩

/-- `foldlM_rel` for a loop that cannot fail. -/
theorem foldl_rel {r : σ → σ → Prop} (refl : ∀ s, r s s)
    (trans : ∀ {a b c}, r a b → r b c → r a c) (items : List α)
    (each : ∀ a ∈ items, ∀ s, r s (f s a)) (s : σ) : r s (items.foldl f s) := by
  induction items generalizing s with
  | nil => exact refl s
  | cons head rest ih =>
    exact trans (each head (by simp) s)
      (ih (fun a member => each a (mem_cons_of_mem _ member)) _)

theorem forM_ok_iff {f : α → Except ε Unit} {items : List α} :
    items.forM f = .ok () ↔ ∀ a ∈ items, f a = .ok () := by
  induction items with
  | nil => exact ⟨fun _ _ member => by simp at member, fun _ => rfl⟩
  | cons head rest ih =>
    change (f head >>= fun _ => rest.forM f) = _ ↔ _
    rw [check_ok_iff, forall_mem_cons, ← ih]

/-- What a loop that collects one result per item collected. -/
theorem mapM_ok {f : α → Except ε β} {items : List α}
    (ran : items.mapM f = .ok results) : List.Forall₂ (fun a b => f a = .ok b) items results := by
  induction items generalizing results with
  | nil =>
    rw [mapM_nil, pure_ok_iff] at ran
    exact ran ▸ .nil
  | cons head rest ih =>
    rw [mapM_cons, bind_ok_iff] at ran
    obtain ⟨b, first, tail⟩ := ran
    obtain ⟨bs, collected, shape⟩ := bind_ok_iff.mp tail
    rw [pure_ok_iff] at shape
    exact shape ▸ .cons first (ih collected)

/-- A loop that collects one result per item succeeds when every item has one. -/
theorem mapM_total {f : α → Except ε β} {items : List α} (each : ∀ a ∈ items, ∃ b, f a = .ok b) :
    ∃ results, items.mapM f = .ok results := by
  induction items with
  | nil => exact ⟨[], rfl⟩
  | cons head rest ih =>
    obtain ⟨b, first⟩ := each head (by simp)
    obtain ⟨bs, tail⟩ := ih fun a member => each a (mem_cons_of_mem _ member)
    refine ⟨b :: bs, ?_⟩
    rw [mapM_cons, first, tail]
    rfl

/-- A loop succeeds where another does, item by item, with related results. -/
theorem mapM_forall₂ {γ : Type} {r : β → γ → Prop} {f : α → Except ε β} {g : α → Except ε γ}
    {items : List α} (each : ∀ a ∈ items, ∀ b, f a = .ok b → ∃ c, g a = .ok c ∧ r b c)
    (ran : items.mapM f = .ok results) :
    ∃ results', items.mapM g = .ok results' ∧ List.Forall₂ r results results' := by
  have pairs := mapM_ok ran
  clear ran
  induction pairs with
  | nil => exact ⟨[], rfl, .nil⟩
  | cons first _ ih =>
    obtain ⟨c, here, related⟩ := each _ (by simp) _ first
    obtain ⟨cs, there, rest⟩ := ih fun a member => each a (mem_cons_of_mem _ member)
    refine ⟨c :: cs, ?_, .cons related rest⟩
    rw [mapM_cons, here, there]
    rfl

theorem forall₂_mem_right {r : α → β → Prop} {as : List α} {bs : List β}
    (each : List.Forall₂ r as bs) {b : β} (member : b ∈ bs) : ∃ a ∈ as, r a b := by
  induction each with
  | nil => cases member
  | cons first _ ih =>
    rcases mem_cons.mp member with rfl | there
    · exact ⟨_, by simp, first⟩
    · obtain ⟨a, here, related⟩ := ih there
      exact ⟨a, mem_cons_of_mem _ here, related⟩

theorem forall₂_mem_left {r : α → β → Prop} {as : List α} {bs : List β}
    (each : List.Forall₂ r as bs) {a : α} (member : a ∈ as) : ∃ b ∈ bs, r a b := by
  obtain ⟨b, there, related⟩ := forall₂_mem_right each.flip member
  exact ⟨b, there, related⟩

/-- Two loops over the same items are one when their bodies commute. -/
theorem foldl_foldl_commute (commute : ∀ s a b, g (f s a) b = f (g s b) a)
    (items : List α) (s : σ) :
    items.foldl g (items.foldl f s) = items.foldl (fun s a => g (f s a) a) s := by
  have shift : ∀ (items : List α) (s : σ) (b : α), g (items.foldl f s) b = items.foldl f (g s b) := by
    intro items
    induction items with
    | nil => intro s b; rfl
    | cons head rest ih =>
      intro s b
      rw [foldl_cons, ih, commute, foldl_cons]
  induction items generalizing s with
  | nil => rfl
  | cons head rest ih =>
    rw [foldl_cons, foldl_cons, foldl_cons, shift, ih]

/-! ## Runs -/

section Run

variable (step : ω → σ → σ)

/-- The state after the operations `ops`, in order. -/
def run (ops : List ω) (s : σ) : σ := ops.foldl (fun s op => step op s) s

/-- Every operation of the run meets `guard` in the state it is applied to. -/
def Guarded (guard : ω → σ → Prop) : List ω → σ → Prop
  | [], _ => True
  | op :: ops, s => guard op s ∧ Guarded guard ops (step op s)

instance instDecidableGuarded {guard : ω → σ → Prop} [∀ op s, Decidable (guard op s)] :
    ∀ ops s, Decidable (Guarded step guard ops s)
  | [], _ => inferInstanceAs (Decidable True)
  | op :: ops, s =>
    have : Decidable (Guarded step guard ops (step op s)) := instDecidableGuarded ops (step op s)
    inferInstanceAs (Decidable (guard op s ∧ Guarded step guard ops (step op s)))

@[simp] theorem run_nil (s : σ) : run step [] s = s := rfl

@[simp] theorem run_cons (op : ω) (ops : List ω) (s : σ) :
    run step (op :: ops) s = run step ops (step op s) := rfl

theorem run_append (first second : List ω) (s : σ) :
    run step (first ++ second) s = run step second (run step first s) := by
  simp [run, foldl_append]

variable {step} {I : σ → Prop} {guard : ω → σ → Prop}

/-- An invariant every operation keeps holds after every run. -/
theorem run_invariant (keeps : ∀ op s, I s → I (step op s)) (ops : List ω)
    (start : I s) : I (run step ops s) := by
  induction ops generalizing s with
  | nil => exact start
  | cons op ops ih => exact ih (keeps op s start)

/-- An invariant the guarded operations keep holds after every guarded run. -/
theorem run_guarded (keeps : ∀ op s, guard op s → I s → I (step op s)) (ops : List ω)
    (met : Guarded step guard ops s) (start : I s) : I (run step ops s) := by
  induction ops generalizing s with
  | nil => exact start
  | cons op ops ih => exact ih met.2 (keeps op s met.1 start)

theorem Guarded.append :
    Guarded step guard (first ++ second) s ↔
      Guarded step guard first s ∧ Guarded step guard second (run step first s) := by
  induction first generalizing s with
  | nil => simp [Guarded]
  | cons op first ih => simp [Guarded, ih, and_assoc]

/-- Where a guarded operation is exactly one that keeps `P`, the guarded runs are the runs
that meet `P` in every state they pass through. -/
theorem Guarded.iff_run {P : σ → Prop} (keeps : ∀ op s, I s → P s → I (step op s))
    (exactly : ∀ op s, I s → P s → (P (step op s) ↔ guard op s))
    (start : I s) (meets : P s) :
    (∀ first rest, ops = first ++ rest → P (run step first s)) ↔ Guarded step guard ops s := by
  induction ops generalizing s with
  | nil =>
    refine ⟨fun _ => trivial, fun _ first rest shape => ?_⟩
    obtain ⟨rfl, -⟩ := append_eq_nil_iff.mp shape.symm
    exact meets
  | cons op ops ih =>
    constructor
    · intro throughout
      have next : P (step op s) := throughout [op] ops rfl
      refine ⟨(exactly op s start meets).mp next, (ih (keeps op s start meets) next).mp ?_⟩
      exact fun first rest shape => throughout (op :: first) rest (by rw [shape, cons_append])
    · rintro ⟨allowed, rest⟩ first tail shape
      have next : P (step op s) := (exactly op s start meets).mpr allowed
      cases first with
      | nil => exact meets
      | cons other first =>
        obtain ⟨rfl, remains⟩ := cons.inj shape
        exact (ih (keeps op s start meets) next).mpr rest first tail remains

end Run

/-!
Computations on a mutable state that may fail.

Unlike a transaction of `Except ε σ`, an `Attempt` that fails leaves what it had
written: nothing is rolled back.  `Frames view` says that it leaves a part of the
state alone however it ends, `FailsClean view` that it does so when it fails.  An
attempt that first checks and stages, and only then writes, fails clean:
`FailsClean.bind` composes the two.
-/

/-- A computation on the state `σ`; a failed one keeps the state it reached. -/
abbrev Attempt (ε σ α : Type) := EStateM ε σ α

namespace Attempt

variable {ε σ τ α β : Type}

/-- A check that touches no state. -/
def lift (x : Except ε α) : Attempt ε σ α :=
  match x with
  | .ok a => pure a
  | .error e => throw e

instance : MonadLift (Except ε) (EStateM ε σ) := ⟨lift⟩

/-! ## What an attempt returned -/

section Results

variable {x : Attempt ε σ α} {f : α → Attempt ε σ β} {s s' : σ}

theorem bind_ok :
    (x >>= f) s = .ok b s' ↔ ∃ a mid, x s = .ok a mid ∧ f a mid = .ok b s' := by
  change (match x s with | .ok a mid => f a mid | .error e mid => .error e mid) = _ ↔ _
  cases x s <;> simp

theorem bind_error :
    (x >>= f) s = .error e s' ↔
      x s = .error e s' ∨ ∃ a mid, x s = .ok a mid ∧ f a mid = .error e s' := by
  change (match x s with | .ok a mid => f a mid | .error e mid => .error e mid) = _ ↔ _
  cases x s <;> simp

theorem lift_ok :
    (lift t : Attempt ε σ α) s = .ok a s' ↔ t = .ok a ∧ s' = s := by
  cases t with
  | error e =>
    change (EStateM.Result.error e s : EStateM.Result ε σ α) = _ ↔ _
    simp
  | ok b =>
    change EStateM.Result.ok b s = _ ↔ _
    simp [eq_comm]

theorem lift_error :
    (lift t : Attempt ε σ α) s = .error e s' ↔ t = .error e ∧ s' = s := by
  cases t with
  | error d =>
    change (EStateM.Result.error d s : EStateM.Result ε σ α) = _ ↔ _
    simp [eq_comm]
  | ok b =>
    change EStateM.Result.ok b s = _ ↔ _
    simp

theorem pure_ok : (pure a : Attempt ε σ α) s = .ok b s' ↔ a = b ∧ s' = s := by
  change EStateM.Result.ok a s = _ ↔ _
  simp [eq_comm]

theorem get_ok : (get : Attempt ε σ σ) s = .ok a s' ↔ a = s ∧ s' = s := by
  change EStateM.Result.ok s s = _ ↔ _
  simp [eq_comm]

theorem modify_ok :
    (modify g : Attempt ε σ PUnit) s = .ok u s' ↔ s' = g s := by
  change EStateM.Result.ok PUnit.unit (g s) = _ ↔ _
  simp [eq_comm]

end Results

/-! ## Frames -/

/-- However the attempt ends, `view` of the state is what it was. -/
structure Frames (view : σ → τ) (x : Attempt ε σ α) : Prop where
  ok : ∀ s a s', x s = .ok a s' → view s' = view s
  error : ∀ s e s', x s = .error e s' → view s' = view s

/-- If the attempt fails, `view` of the state is what it was. -/
def FailsClean (view : σ → τ) (x : Attempt ε σ α) : Prop :=
  ∀ s e s', x s = .error e s' → view s' = view s

section Rules

variable {view : σ → τ} {x : Attempt ε σ α} {f : α → Attempt ε σ β}

theorem Frames.lift (t : Except ε α) : Frames view (Attempt.lift t : Attempt ε σ α) where
  ok := fun s a s' ran => by rw [(lift_ok.mp ran).2]
  error := fun s e s' ran => by rw [(lift_error.mp ran).2]

theorem Frames.get : Frames view (get : Attempt ε σ σ) where
  ok := fun s a s' ran => by rw [(get_ok.mp ran).2]
  error := fun s e s' ran => by cases ran

theorem Frames.pure (a : α) : Frames view (pure a : Attempt ε σ α) where
  ok := fun s b s' ran => by rw [(pure_ok.mp ran).2]
  error := fun s e s' ran => by cases ran

theorem FailsClean.bind (first : Frames view x) (then' : ∀ a, FailsClean view (f a)) :
    FailsClean view (x >>= f) := by
  intro s e s' ran
  rcases bind_error.mp ran with head | ⟨a, mid, head, tail⟩
  · exact first.error s e s' head
  · exact (then' a mid e s' tail).trans (first.ok s a mid head)

theorem Frames.bind (first : Frames view x) (then' : ∀ a, Frames view (f a)) :
    Frames view (x >>= f) where
  ok := fun s b s' ran => by
    obtain ⟨a, mid, head, tail⟩ := bind_ok.mp ran
    exact ((then' a).ok mid b s' tail).trans (first.ok s a mid head)
  error := FailsClean.bind first fun a => (then' a).error

theorem Frames.foldlM {f : β → α → Attempt ε σ β} (each : ∀ b a, Frames view (f b a))
    (items : List α) (b : β) : Frames view (items.foldlM f b) := by
  induction items generalizing b with
  | nil => exact Frames.pure b
  | cons a items ih =>
    rw [List.foldlM_cons]
    exact (each b a).bind ih

theorem FailsClean.modify (g : σ → σ) : FailsClean view (modify g : Attempt ε σ PUnit) := by
  intro s e s' ran
  cases ran

end Rules

end Attempt

end KiwiCI
